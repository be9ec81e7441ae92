import SecurityRules.Parser.Counter
import SecurityRules.Proofs.Mirror.Expressions
import SecurityRules.Proofs.Parser.Lossless

/-!
# Documents that mirror others

Declarations mirror each other if the expressions and bodies nested in them do, and so do the items of a document. The
parser's own productions mirror themselves.
-/

namespace SecurityRules.Parser

variable {strict : Prop} {σ : Unseen}

/-! ## Declarations without nested expressions -/

namespace Mirrors

theorem rulesVersion : Mirrors σ strict rulesVersion rulesVersion :=
  .branch .rulesVersion ((((MirrorsStep.take none).andThen (.expect .assign)).andThen
    (.ite (c := (·.isAt .string)) (·.isAt_under _) (.takeAs (some .version) .string)
      (.lacking (some .version) .string))).andThen (.expect .semicolon))

theorem serviceName : Mirrors σ strict serviceName serviceName := by
  have turn : MirrorsTurn σ strict serviceNameTurn serviceNameTurn := by
    refine .ite (fun d => ?_) ((MirrorsStep.take none).andThen (.takeAs none .identifier)).again MirrorsStep.here.done
    show ((σ.on d.state).isAt _ && (σ.on d.state).isAdjacent && (σ.on d.state).peekSecond.kind == _) = _
    rw [σ.isAt, σ.isAdjacent, σ.peekSecond]
    rfl
  exact .branch .serviceName ((MirrorsStep.takeAs none .identifier).andThen turn.loop)

theorem captureSegment : Mirrors σ strict captureSegment captureSegment := by
  have several : MirrorsStep σ False (fun d => ((d.ofKind .multiSegment).take).expect .starStar)
      (fun d => ((d.ofKind .multiSegment).take).expect .starStar) :=
    ((MirrorsStep.ofKind .multiSegment).andThen (.take none)).andThen (.expect .starStar)
  exact always (.branch .singleSegment ((((MirrorsStep.take none).andThen (.takeName (some .name))).andThen
    (.ite (c := (·.isAt .assign)) (·.isAt_under _) several .here)).andThen (.expect .rightBrace)))

theorem matchPath : Mirrors σ strict matchPath matchPath := by
  have turn : MirrorsTurn σ strict matchPathTurn matchPathTurn := by
    rw [funext matchPathTurn_eq]
    exact (MirrorsStep.ite (c := (·.isAt .slash)) (·.isAt_under _) (.take none) .here).turn
      (mirrors_slashedPart captureSegment)
  exact .branch .matchPath (.ite (·.isAt_under .slash) turn.loop ((MirrorsStep.lacking none _).andThen
    (.ite (c := (·.isAtAny [.identifier, .leftBrace])) (σ.isAtAny ·.state _) turn.loop .here)))

end Mirrors

theorem mirrors_parameterTurn : MirrorsTurn σ strict parameterTurn parameterTurn := by
  have item : MirrorsStep σ strict (fun d => if d.isAt .identifier then
        d.place (some .param) (branch .parameter fun p => p.takeAs none .identifier) else d.place none stray)
      (fun d => if d.isAt .identifier then
        d.place (some .param) (branch .parameter fun p => p.takeAs none .identifier) else d.place none stray) :=
    .ite (·.isAt_under _) (.place _ (.branch .parameter (.takeAs none .identifier))) (.place none .stray)
  refine .ite (fun d => ?_) MirrorsStep.here.done (item.turn .comma)
  show ((σ.on d.state).isAt _ || (σ.on d.state).isAtSync) = _
  rw [σ.isAt, σ.isAtSync]
  rfl

theorem mirrors_methodTurn : MirrorsTurn σ strict methodTurn methodTurn := by
  have item : MirrorsStep σ strict
      (fun d => if isMethod d.state.peek.text then d.takeAs (some .method) .method else d.place none stray)
      (fun d => if isMethod d.state.peek.text then d.takeAs (some .method) .method else d.place none stray) :=
    .ite (fun d => by rw [d.peek_under]) (.takeAs _ _) (.place none .stray)
  exact .ite (·.isAt_under .identifier) (item.turn .comma) MirrorsStep.here.done

theorem MirrorsStep.optionalSemicolon : MirrorsStep σ strict (·.optionalSemicolon) (·.optionalSemicolon) :=
  ite (·.isAt_under .semicolon) (take none) here

/-- Items in braces mirror each other if the items of each kind do. -/
theorem MirrorsStep.body {i j : TokenKind → Option Production}
    (items : ∀ kind, Option.Rel (Mirrors σ strict) (i kind) (j kind)) :
    MirrorsStep σ strict (·.body i) (·.body j) := by
  have item : ∀ kind, Mirrors σ strict ((i kind).getD (skipUntil isBodySync)) ((j kind).getD (skipUntil isBodySync)) := by
    intro kind
    have both := items kind
    generalize i kind = i?, j kind = j? at both
    cases both with
    | none => exact .skipUntil _
    | some mirrors => exact mirrors
  have turn : MirrorsTurn σ strict (bodyTurn i) (bodyTurn j) :=
    .ite (σ.isAtAny ·.state _) here.done
      (byKind (g := fun kind d => d.place none ((i kind).getD (skipUntil isBodySync)))
        (f := fun kind d => d.place none ((j kind).getD (skipUntil isBodySync))) fun kind => place none (item kind)).again
  exact ((take none).andThen turn.loop).andThen (expect .rightBrace)

/-! ## Declarations -/

namespace Mirrors

variable {q p : Production} (mirrors : Mirrors σ strict q p)
include mirrors

theorem variableDef : Mirrors σ strict (variableDef q) (variableDef p) :=
  .branch .variableDef (((((MirrorsStep.take none).andThen (.takeName (some .name))).andThen (.expect .assign)).andThen
    (.place _ mirrors)).andThen (.expect .semicolon))

theorem returnStatement : Mirrors σ strict (returnStatement q) (returnStatement p) :=
  .branch .returnStatement (((MirrorsStep.take none).andThen (.place _ mirrors)).andThen .optionalSemicolon)

theorem functionBody : Mirrors σ strict (functionBody q) (functionBody p) := by
  refine .branch .functionBody (.ite (·.isAt_under .leftBrace) (.body fun kind => ?_) (.lacking none _))
  split
  · exact .some mirrors.variableDef
  · exact .some mirrors.returnStatement
  · exact .none

theorem functionDef : Mirrors σ strict (functionDef q) (functionDef p) := by
  have parameters : MirrorsStep σ strict
      (fun d => if d.finds .leftParen then ((d.expect .leftParen).loop parameterTurn).expect .rightParen
        else d.expect .leftParen)
      (fun d => if d.finds .leftParen then ((d.expect .leftParen).loop parameterTurn).expect .rightParen
        else d.expect .leftParen) := by
    refine .ite (fun d => ?_)
      (((MirrorsStep.expect .leftParen).andThen mirrors_parameterTurn.loop).andThen (.expect .rightParen))
      (.expect .leftParen)
    show ((σ.on d.state).isAt _ || (!(σ.on d.state).isAtSync && (σ.on d.state).peekSecond.kind == _)) = _
    rw [σ.isAt, σ.isAtSync, σ.peekSecond]
    rfl
  exact .branch .functionDef ((((MirrorsStep.take none).andThen (.takeName (some .name))).andThen parameters).andThen
    (.place (some .body) mirrors.functionBody))

theorem ruleDef : Mirrors σ strict (ruleDef q) (ruleDef p) := by
  have methods : MirrorsStep σ strict
      (fun d => if d.isAt .identifier then d.loop methodTurn else d.lacking (some .method) .method)
      (fun d => if d.isAt .identifier then d.loop methodTurn else d.lacking (some .method) .method) :=
    .ite (·.isAt_under _) mirrors_methodTurn.loop (.lacking _ _)
  have condition : MirrorsStep σ strict
      (fun d => if d.isAt .colon then (d.take.expect .kwIf).place (some .condition) q else d)
      (fun d => if d.isAt .colon then (d.take.expect .kwIf).place (some .condition) p else d) :=
    .ite (·.isAt_under _) (((MirrorsStep.take none).andThen (.expect .kwIf)).andThen (.place _ mirrors)) .here
  exact .branch .ruleDef ((((MirrorsStep.take none).andThen methods).andThen condition).andThen .optionalSemicolon)

theorem matchDef : Mirrors σ strict (matchDef q) (matchDef p) :=
  .branch .matchDef (((MirrorsStep.take none).andThen (.place (some .path) .matchPath)).andThen
    (.place (some .body) mirrors))

theorem serviceOf : Mirrors σ strict (serviceOf q) (serviceOf p) :=
  .branch .serviceDef (((MirrorsStep.take none).andThen (.ite (c := (·.isAt .identifier)) (·.isAt_under _)
    (.place (some .name) .serviceName) (.lacking (some .name) .serviceName))).andThen (.place (some .body) mirrors))

end Mirrors

/-! ## Match bodies -/

theorem branch_ite (kind : NodeKind) (k : TokenKind) (x y : Draft → Draft) :
    branch kind (fun d => if d.isAt k then x d else y d) =
      fun s => if s.isAt k then branch kind x s else branch kind y s := by
  funext s
  show ((if s.isAt k then _ else _ : Draft).tree, (if s.isAt k then _ else _ : Draft).state) = _
  split <;> rfl

theorem matchBodyAt_zero : matchBodyAt 0 = fun s => if s.isAt .leftBrace then closedBody s
    else branch .matchBody (·.lacking none (.token .leftBrace)) s := by
  rw [funext matchBodyAt.eq_1]
  exact branch_ite ..

theorem matchBodyAt_succ_eq (budget : Nat) : matchBodyAt (budget + 1) = fun s => if s.isAt .leftBrace then
    branch .matchBody (·.body (bodyItem? (matchBodyAt budget) (expressionAt budget))) s
    else branch .matchBody (·.lacking none (.token .leftBrace)) s := by
  rw [matchBodyAt_succ]
  exact branch_ite .matchBody .leftBrace (·.body (matchItem? budget)) _

/-- The placeholder of an opening brace, in place of a body. -/
theorem mirrors_bodiless : Mirrors σ strict (branch .matchBody (·.lacking none (.token .leftBrace)))
    (branch .matchBody (·.lacking none (.token .leftBrace))) := .branch .matchBody (.lacking none _)

theorem mirrors_closedBody : Mirrors σ strict closedBody closedBody :=
  .branch .matchBody (.place none (.skipUntil _))

theorem mirrors_openBody {q p q' p' : Production} (body : Mirrors σ strict q p) (expression : Mirrors σ strict q' p') :
    Mirrors σ strict (branch .matchBody (·.body (bodyItem? q q'))) (branch .matchBody (·.body (bodyItem? p p'))) := by
  refine .branch .matchBody (.body fun kind => ?_)
  rw [bodyItem?.eq_def, bodyItem?.eq_def]
  split
  · exact .some body.matchDef
  · exact .some expression.functionDef
  · exact .some expression.ruleDef
  · exact .none

/-! ## Documents -/

/-- What a turn of the top level reads. -/
def documentItem (service : Production) : TokenKind → Production
  | .kwRulesVersion => rulesVersion
  | .kwService => service
  | _ => skipUntil isTopSync

theorem documentTurn_eq (service : Production) (d : Draft) : documentTurn service d =
    if d.isAt .endOfInput then .done d else .again (d.place none (documentItem service d.state.peek.kind)) := by
  rw [documentTurn, Draft.isAt, State.isAt]
  split <;> simp_all [documentItem]

/-- The items of two documents mirror each other if their services do and the files start alike. -/
theorem documentItems_mirrored {q p : Production} (mirrors : Mirrors σ strict q p) {file file' : SourceFile}
    (starts : State.start file' = σ.on (State.start file)) (fine : (documentItems p file).tree.IsFineIf strict) :
    documentItems q file' = (documentItems p file).under σ := by
  have turn : MirrorsTurn σ strict (documentTurn q) (documentTurn p) := by
    rw [funext (documentTurn_eq q), funext (documentTurn_eq p)]
    refine .ite (c := (·.isAt .endOfInput)) (·.isAt_under _) MirrorsStep.here.done
      (MirrorsStep.byKind (g := fun kind d => d.place none (documentItem q kind))
        (f := fun kind d => d.place none (documentItem p kind)) fun kind => .place none ?_).again
    rw [documentItem.eq_def, documentItem.eq_def]
    split
    · exact .rulesVersion
    · exact mirrors
    · exact .skipUntil _
  have all := turn.loop.andThen (.ite (c := fun d => d.tree.children.any (·.kind == .serviceDef)) (fun _ => rfl) .here
    (.lacking none .serviceDef))
  have opened : Draft.opened .sourceFile (State.start file') = (Draft.opened .sourceFile (State.start file)).under σ := by
    rw [starts]
    rfl
  rw [documentItems, opened]
  exact all.same _ fine

theorem closeRoot_under (d : Draft) : closeRoot (d.under σ) = closeRoot d := by
  show ParseTree.node _ _ _ (Extent.ofRange (σ.on d.state).file 0 (σ.on d.state).file.size)
    ((σ.on d.state).pending.foldl insertComment d.tree.children) = _
  rw [σ.extent, σ.size, σ.pending]
  rfl

theorem parse_eq_documentItems (file : SourceFile) (maxDepth : Int) : parse file maxDepth =
    closeRoot (documentItems (serviceOf (matchBodyAt (depthLimit maxDepth))) file) := rfl

/-! ## The parser itself -/

/-- No expression notices the change. -/
theorem mirrors_expressionAt (budget : Nat) : Mirrors σ strict (expressionAt budget) (expressionAt budget) ∧
    Mirrors σ strict (unaryAt budget) (unaryAt budget) := by
  induction budget with
  | zero =>
    rw [funext expressionAt.eq_1, funext unaryAt.eq_1]
    exact ⟨.collapse, .ite σ.isAtUnary .collapse (.postfixed .collapse)⟩
  | succ budget ih =>
    rw [funext (expressionAt.eq_2 · budget), funext (unaryAt.eq_2 · budget)]
    exact ⟨.ternary ih.2 ih.1, .ite σ.isAtUnary (.unary ih.2) (.postfixed (.ternary ih.2 ih.1))⟩

theorem mirrors_matchBodyAt (budget : Nat) : Mirrors σ strict (matchBodyAt budget) (matchBodyAt budget) := by
  induction budget with
  | zero =>
    rw [matchBodyAt_zero]
    exact .ite (c := (·.isAt .leftBrace)) (σ.isAt · _) mirrors_closedBody mirrors_bodiless
  | succ budget ih =>
    rw [matchBodyAt_succ_eq]
    exact .ite (c := (·.isAt .leftBrace)) (σ.isAt · _) (mirrors_openBody ih (mirrors_expressionAt budget).1)
      mirrors_bodiless

end SecurityRules.Parser
