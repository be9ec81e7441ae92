import SecurityRules.Proofs.Mirror.Document
import SecurityRules.Proofs.Recovery.Expressions

/-!
# Declarations up to a place where texts part

Functions and matches end with a brace, and nothing behind it matters to them. A rule may end with the brace of a map;
then it matters that neither text goes on with what could be part of it.
-/

namespace SecurityRules.Parser

open Grammar

namespace Parting

variable {σ : Parting} {s s' : State} {d d' : Draft} {needs gives : Prop} {expression p : Production} {g : Draft → Draft}

/-! ## Declarations without nested expressions -/

/-- A step whose kind of tree is changed afterwards. -/
theorem StepAt.ofKind {kind : NodeKind} (known : d.tree.kind ≠ .error) (wrong : kind ≠ .error) (other : kind ≠ .comment) :
    σ.StepAt False False (·.ofKind kind) d where
  less := Nat.le_refl _
  back := fun clean => by rwa [isClean_ofKind known wrong] at clean
  enters := fun _ stands => stands.inner
  same := fun _ stands d' grows => by
    refine ⟨⟨grows.tree.ofKind kind, ?_, grows.state⟩, stands⟩
    rw [ParseTree.isExtra, Draft.ofKind, ParseTree.kind_ofKind]
    exact beq_eq_false_iff_ne.mpr other

theorem CarriesAt.skipUntil (stop : TokenKind → Bool) (s : State) : σ.CarriesAt needs gives (skipUntil stop) s :=
  .of_error (less_gathered (draft_skipTurn stop) s) (hasError_skipUntil stop s)

theorem carries_rulesVersion (s : State) : σ.CarriesAt False False rulesVersion s := by
  have version (d : Draft) : σ.StepAt False False (fun d => if d.isAt .string then d.takeAs (some .version) .string
      else d.lacking (some .version) .string) d :=
    .ite (fun _ grows inner => StepAt.isAt grows inner .string) (fun _ => (StepAt.takeAs _ NodeKind.noConfusion).inside)
      fun _ => .lacking _ _
  exact .branch NodeKind.noConfusion ((((StepAt.take none).inside.andThen (StepAt.expect .assign).inside).andThen
    (version _)).andThen (StepAt.expect .semicolon).inside)

theorem carries_serviceName (s : State) : σ.CarriesAt False False serviceName s := by
  have turn (d : Draft) : σ.TurnAt False False False serviceNameTurn d := by
    refine .ite (fun d' grows inner => ?_)
      (fun _ => .again ((StepAt.take none).inside.andThen (StepAt.takeAs none NodeKind.noConfusion).inside)) fun _ => .stop d
    rw [← StepAt.isAt grows inner.inner, ← grows.state.isAdjacent inner.inner]
    cases dot : d.isAt .dot with
    | false => rfl
    | true =>
      have kind : d.state.peek.kind = .dot := beq_iff_eq.mp dot
      rw [grows.state.second_kind inner.inner (kind ▸ rfl)]
  exact .branch NodeKind.noConfusion ((StepAt.takeAs none NodeKind.noConfusion).inside.andThen (.loopInside turn _))

theorem carries_captureSegment (s : State) : σ.CarriesAt False False captureSegment s := by
  have several (d : Draft) (known : d.tree.kind = .singleSegment) : σ.StepAt False False
      (fun d => if d.isAt .assign then (d.ofKind .multiSegment).take.expect .starStar else d) d := by
    refine .ite (fun _ grows inner => StepAt.isAt grows inner .assign) (fun _ => ?_) fun _ => .here
    have change : σ.StepAt False False (·.ofKind .multiSegment) d :=
      .ofKind (by rw [known]; exact NodeKind.noConfusion) NodeKind.noConfusion NodeKind.noConfusion
    exact (change.andThen (StepAt.take none).inside).andThen (StepAt.expect .starStar).inside
  refine .branch NodeKind.noConfusion ((((StepAt.take none).inside.andThen (StepAt.takeName (some .name)).inside).andThen
    (several _ ?_)).andThen (StepAt.expect .rightBrace).inside)
  rw [Draft.kind_takeName, Draft.kind_take]
  rfl

theorem carries_matchPath (s : State) : σ.CarriesAt False False matchPath s := by
  have slash (d : Draft) : σ.StepAt False False (fun d => if d.isAt .slash then d.take else d) d :=
    .ite (fun _ grows inner => StepAt.isAt grows inner .slash) (fun _ => (StepAt.take none).inside) fun _ => .here
  have turn (d : Draft) : σ.TurnAt False False False matchPathTurn d := by
    rw [funext matchPathTurn_eq]
    exact .behind (.done (slash d)) (.slashedPart (fun _ => carries_captureSegment _) NodeKind.noConfusion)
  have slashless (d : Draft) : σ.StepAt False False
      (fun d => if d.isAtAny [.identifier, .leftBrace] then d.loop matchPathTurn else d) d :=
    .ite (fun _ grows inner => grows.state.isAtAny inner _) (fun _ => .loopInside turn d) fun _ => .here
  exact .branch NodeKind.noConfusion (.ite (fun _ grows inner => StepAt.isAt grows inner .slash)
    (fun _ => .loopInside turn _) fun _ => (StepAt.lacking none _).andThen (slashless _))

theorem TurnAt.parameterTurn (d : Draft) : σ.TurnAt False False False parameterTurn d := by
  have parameter (s : State) :
      σ.CarriesAt False False (branch .parameter fun p => p.takeAs none .identifier) s :=
    .branch NodeKind.noConfusion (StepAt.takeAs none NodeKind.noConfusion).inside
  have item : σ.StepAt False False parameterOrStray d :=
    .ite (fun _ grows inner => StepAt.isAt grows inner .identifier) (fun _ => .place (some .param) (parameter _))
      fun _ => .place none (.stray _)
  rw [funext parameterTurn_eq]
  refine .ite (fun d' grows inner => ?_) (fun _ => .stop d) fun _ => .behind (.done item) .comma
  rw [StepAt.isAt grows inner.inner, grows.state.isAtSync inner.inner]

/-- One operation of a rule. -/
def methodOrStray (d : Draft) : Draft :=
  if isMethod d.state.peek.text then d.takeAs (some .method) .method else d.place none stray

theorem methodTurn_eq (d : Draft) : methodTurn d =
    if d.isAt .identifier then
      if (methodOrStray d).isAt .comma then .again (methodOrStray d).take else .done (methodOrStray d)
    else .done d := rfl

theorem StepAt.methodOrStray (found : d.isAt .identifier = true) : σ.StepAt needs False methodOrStray d := by
  have kind : d.state.peek.kind = .identifier := beq_iff_eq.mp found
  refine .ite (fun d' grows inner => ?_) (fun _ => .place (some .method) (.plainLeaf NodeKind.noConfusion (kind ▸ rfl)))
    fun _ => .place none (.of_error (CarriesAt.stray _ : σ.CarriesAt False False stray _).less (hasError_stray _))
  rw [grows.state.text inner]

/-- The operations of a rule end with no brace or semicolon. -/
theorem StepAt.methods (d : Draft) : σ.StepAt needs False
    (fun d => if d.isAt .identifier then d.loop methodTurn else d.lacking (some .method) .method) d := by
  have turn (d : Draft) : σ.TurnAt False needs False methodTurn d := by
    rw [funext methodTurn_eq]
    exact .ite (fun _ grows inner => StepAt.isAt grows inner.inner .identifier)
      (fun found => .behind (.done (.methodOrStray found)) .comma) fun _ => .stop d
  refine .ite (fun _ grows inner => StepAt.isAt grows inner .identifier) (fun found => ?_) fun _ => .lacking _ _
  refine .loop turn fun clean stands => ?_
  rw [methodTurn_eq, if_pos found] at clean stands
  have comma : σ.TurnAt False needs False _ (Parser.Parting.methodOrStray d) := .comma
  exact (StepAt.methodOrStray found).enters (comma.back clean) (stands.earlier comma.less)

/-! ## Bodies -/

/-- Items in braces, of which no item matters at the place. -/
theorem StepAt.body {item? : TokenKind → Option Production}
    (items : ∀ kind p, item? kind = some p → ∀ s, σ.CarriesAt False False p s) (d : Draft) :
    σ.StepAt needs (needs ∧ σ.final = .rightBrace) (·.body item?) d := by
  have turn (d : Draft) : σ.TurnAt False False False (bodyTurn item?) d := by
    refine .ite (fun _ grows inner => grows.state.isAtAny inner.inner _) (fun _ => .stop d) fun _ => ?_
    refine .byKind (fun kind d => .again (d.place none ((item? kind).getD (Parser.skipUntil isBodySync)))) (·)
      False.elim (.again (.place none ?_))
    cases found : item? d.state.peek.kind with
    | none => exact .skipUntil _ _
    | some p => exact items _ p found _
  exact ((StepAt.take none).inside.andThen (.loopInside turn _)).andThen (.expect .rightBrace)

/-! ## Declarations -/

section

variable (carried : σ.Carried expression)
include carried

theorem Carried.variableDef (s : State) : σ.CarriesAt False False (variableDef expression) s :=
  .branch NodeKind.noConfusion (((((StepAt.take none).inside.andThen (StepAt.takeName (some .name)).inside).andThen
    (StepAt.expect .assign).inside).andThen (carried.nested (some .value) _)).andThen (StepAt.expect .semicolon).inside)

theorem Carried.returnStatement (s : State) : σ.CarriesAt False False (returnStatement expression) s := by
  have semicolon (d : Draft) : σ.StepAt False False (·.optionalSemicolon) d :=
    .ite (fun _ grows inner => StepAt.isAt grows inner .semicolon) (fun _ => (StepAt.take none).inside) fun _ => .here
  exact .branch NodeKind.noConfusion
    (((StepAt.take none).inside.andThen (carried.nested (some .value) _)).andThen (semicolon _))

theorem Carried.functionBody (s : State) :
    σ.CarriesAt needs (needs ∧ σ.final = .rightBrace) (functionBody expression) s := by
  refine .branch NodeKind.noConfusion (.ite (fun _ grows inner => StepAt.isAt grows inner .leftBrace)
    (fun _ => .body (fun kind p item s => ?_) _) fun _ => .lacking none _)
  split at item
  · exact Option.some.inj item ▸ carried.variableDef s
  · exact Option.some.inj item ▸ carried.returnStatement s
  · cases item

theorem Carried.functionDef (s : State) :
    σ.CarriesAt needs (needs ∧ σ.final = .rightBrace) (functionDef expression) s := by
  have parameters (d : Draft) : σ.StepAt False False
      (fun d => if d.finds .leftParen then ((d.expect .leftParen).loop parameterTurn).expect .rightParen
        else d.expect .leftParen) d := by
    have opening : σ.StepAt False False (·.expect .leftParen) d := (StepAt.expect .leftParen).inside
    have names : σ.StepAt False False (fun d => (d.loop parameterTurn).expect .rightParen) (d.expect .leftParen) :=
      (StepAt.loopInside .parameterTurn _).andThen (StepAt.expect .rightParen).inside
    have list : σ.StepAt False False (fun d => ((d.expect .leftParen).loop parameterTurn).expect .rightParen) d :=
      opening.andThen names
    by_cases found : d.isAt .leftParen = true
    · have finds (d : Draft) (found : d.isAt .leftParen = true) : d.finds .leftParen = true := by
        rw [Draft.finds, found, Bool.true_or]
      exact list.congr (if_pos (finds d found))
        fun d' grows inner => if_pos (finds d' (StepAt.isAt grows inner .leftParen ▸ found))
    · have wrong : (d.expect .leftParen).isClean = false := dirty_expect found
      refine .of_dirty ?_ ?_
      · split
        · exact list.less
        · exact opening.less
      · rw [Bool.eq_false_iff]
        intro clean
        have clean : (d.expect .leftParen).isClean = true := by
          split at clean
          · exact names.back clean
          · exact clean
        rw [wrong] at clean
        cases clean
  exact .branch NodeKind.noConfusion ((((StepAt.take none).inside.andThen (StepAt.takeName (some .name)).inside).andThen
    (parameters _)).andThen (.place (some .body) (carried.functionBody _)))

/-- A rule that ends with a semicolon does so in both texts. One that ends with the brace of a map needs quiet. -/
theorem Carried.ruleDef (s : State) :
    σ.CarriesAt (σ.final = .rightBrace → σ.Quiet) True (ruleDef expression) s := by
  have condition (d : Draft) : σ.TurnAt False (σ.final = .rightBrace → σ.Quiet) (σ.final = .rightBrace ∧ σ.Quiet)
      (fun d => .done (if d.isAt .colon then (d.take.expect .kwIf).place (some .condition) expression else d)) d :=
    .doneIf (fun _ grows inner => StepAt.isAt grows inner.inner .colon)
      (fun _ => ((StepAt.take none).inside.andThen (StepAt.expect .kwIf).inside).andThen
        (.place (some .condition) (carried _))) False.elim
  have semicolon (d : Draft) : σ.TurnAt (σ.final = .rightBrace ∧ σ.Quiet) (σ.final = .rightBrace → σ.Quiet) True
      (fun d => .done d.optionalSemicolon) d :=
    .doneIf (fun _ grows known => grows.state.decides (· == .semicolon) known fun held => held.2.other rfl (by decide))
      (fun _ => (StepAt.take none).mono id fun _ _ => trivial) fun _ => trivial
  exact .branch NodeKind.noConfusion
    ((((StepAt.take none).inside.andThen (.methods _)).andStay (condition _)).andStay (semicolon _))

end

/-- Nothing behind a match matters to it. -/
theorem carries_matchDef {body : Production}
    (bodies : ∀ s, σ.CarriesAt needs (needs ∧ σ.final = .rightBrace) body s) (s : State) :
    σ.CarriesAt needs (needs ∧ σ.final = .rightBrace) (matchDef body) s :=
  .branch NodeKind.noConfusion (((StepAt.take none).inside.andThen (.place (some .path) (carries_matchPath _))).andThen
    (.place (some .body) (bodies _)))

/-- An item of a match body that ends at the place. -/
theorem carries_bodyItem {body : Production}
    (bodies : ∀ needs s, σ.CarriesAt needs (needs ∧ σ.final = .rightBrace) body s) (carried : σ.Carried expression)
    {kind : TokenKind} (item : bodyItem? body expression kind = some p) (s : State) :
    σ.CarriesAt (kind = .kwAllow → σ.final = .rightBrace → σ.Quiet) True p s := by
  rw [bodyItem?.eq_def] at item
  split at item
  · exact Option.some.inj item ▸ (carries_matchDef (bodies _) s).mono id fun _ _ => trivial
  · exact Option.some.inj item ▸ (carried.functionDef s).mono id fun _ _ => trivial
  · exact Option.some.inj item ▸ (carried.ruleDef s).mono (· rfl) fun _ => id
  · cases item

theorem carries_matchBodyAt (budget : Nat) (needs : Prop) (s : State) :
    σ.CarriesAt needs (needs ∧ σ.final = .rightBrace) (matchBodyAt budget) s := by
  induction budget generalizing needs s with
  | zero =>
    rw [matchBodyAt_zero]
    exact .ite (fun s' same inner => same.isAt inner .leftBrace)
      (fun _ => .branch NodeKind.noConfusion (.place none (.skipUntil _ _)))
      fun _ => .branch NodeKind.noConfusion (.lacking none _)
  | succ budget ih =>
    rw [matchBodyAt_succ_eq]
    refine .ite (fun s' same inner => same.isAt inner .leftBrace)
      (fun _ => .branch NodeKind.noConfusion (.body (fun kind p item s => ?_) _))
      fun _ => .branch NodeKind.noConfusion (.lacking none _)
    exact (carries_bodyItem ih (carried_expressionAt budget).1 item s).inside

theorem carries_serviceDef (budget : Nat) (s : State) : σ.CarriesAt False False (serviceDef budget) s := by
  have name (d : Draft) : σ.StepAt False False (fun d => if d.isAt .identifier then d.place (some .name) serviceName
      else d.lacking (some .name) .serviceName) d :=
    .ite (fun _ grows inner => StepAt.isAt grows inner .identifier) (fun _ => .place _ (carries_serviceName _))
      fun _ => .lacking _ _
  exact .branch NodeKind.noConfusion (((StepAt.take none).inside.andThen (name _)).andThen
    (.place (some .body) (carries_matchBodyAt budget False _).inside))

end Parting

end SecurityRules.Parser
