import SecurityRules.Proofs.Parser.Expressions

/-!
# Declarations read the text

One theorem for each production of headers, services, matches, functions and rules. Match bodies nest; their
knot is tied by induction on the nesting still allowed.
-/

namespace SecurityRules.Parser

variable {f : SourceFile} {s : State} {kind : NodeKind} {reach : Nat} {d : Draft} {expression : Production}

theorem takes_rulesVersion (place : State.At f s) (ahead : s.rest ≠ []) :
    Reads f s (rulesVersion s) ∧ s.peek.stop ≤ (rulesVersion s).1.stop := by
  refine takes_branch place ahead rfl ?_
  refine Growing.expect (.grown ?_) TokenKind.noConfusion
  have assigned : Grown f .rulesVersion s s.peek.stop
      (((Draft.opened .rulesVersion s).take).expect .assign) :=
    Growing.expect (.grown ((Growing.opened place NodeKind.noConfusion).take none ahead))
      TokenKind.noConfusion
  split
  · rename_i found
    refine Growing.takeAs_keeps (.grown assigned) _ (State.rest_of_isAt found TokenKind.noConfusion) ?_
    rw [State.kind_of_isAt found]
    rfl
  · exact Growing.lacking (.grown assigned) _ rfl

theorem Growing.serviceNameTurn (grown : Grown f kind s reach d) :
    Grown f kind s reach (serviceNameTurn d).value := by
  rw [Parser.serviceNameTurn]
  split
  · rename_i found
    obtain ⟨dot, name⟩ := Bool.and_eq_true_iff.mp found
    have dot := (Bool.and_eq_true_iff.mp dot).1
    have ahead := State.rest_of_isAt dot TokenKind.noConfusion
    have taken := Growing.take_keeps (.grown grown) none ahead
    have kind : d.take.state.peek.kind = .identifier := by
      rw [Draft.peek_take]
      exact beq_iff_eq.mp name
    refine Growing.takeAs_keeps (.grown taken) _ ?_ ?_
    · apply State.rest_ne_nil
      rw [kind]
      exact TokenKind.noConfusion
    · rw [kind]
      rfl
  · exact grown

theorem reads_serviceName (place : State.At f s) (found : s.isAt .identifier = true) :
    Reads f s (serviceName s) := by
  have ahead := State.rest_of_isAt found TokenKind.noConfusion
  refine reads_branch place ahead rfl ?_
  refine iterate_keeps ?_ fun d grown => Growing.serviceNameTurn grown
  have kind : s.peek.kind = .identifier := State.kind_of_isAt found
  have spelled : NodeKind.spells .identifier s.peek.kind = true := by
    rw [kind]
    rfl
  exact (Growing.opened place NodeKind.noConfusion).takeAs none ahead spelled

/-- A capture takes the next token. -/
theorem takes_captureSegment (place : State.At f s) (ahead : s.rest ≠ []) :
    Reads f s (captureSegment s) ∧ s.peek.start < (captureSegment s).1.stop := by
  have named : Grown f .singleSegment s s.peek.stop
      (((Draft.opened .singleSegment s).take).takeName (some .name)) :=
    Growing.takeName (.grown ((Growing.opened place NodeKind.noConfusion).take none ahead)) _
  have filled : s.peek.start < s.peek.stop := f.laid_tokens.filled _ (place.peek_mem ahead).1
  have finish : ∀ {kind d}, Grown f kind s s.peek.stop d → ParseTree.plain kind = true →
      Reads f s (d.tree, d.state) ∧ s.peek.start < d.tree.stop := by
    intro kind d grown isPlain
    exact ⟨grown.reads isPlain filled, Nat.lt_of_lt_of_le filled grown.reaches⟩
  rw [captureSegment, branch]
  dsimp only
  split
  · rename_i found
    refine finish ?_ (rfl : ParseTree.plain .multiSegment = true)
    refine Growing.expect (.grown ?_) TokenKind.noConfusion
    refine Growing.expect (.grown ?_) TokenKind.noConfusion
    refine Growing.take_keeps (.grown (named.ofKind NodeKind.noConfusion)) none ?_
    exact State.rest_of_isAt found TokenKind.noConfusion
  · exact finish (Growing.expect (.grown named) TokenKind.noConfusion) rfl

theorem takes_segment {leaf : NodeKind} (isSegment : leaf.isSegment = true)
    (spells : ∀ k, leaf.spells k = isSegmentToken k) (place : State.At f s)
    (found : isSegmentToken s.peek.kind = true) :
    Reads f s (segment leaf s) ∧ s.peek.start < (segment leaf s).1.stop :=
  ⟨reads_segment isSegment spells place found, (running_passSegment isSegment spells place found).ahead⟩

theorem matchPathTurn_eq (d : Draft) : matchPathTurn d =
    slashedPart .leftBrace captureSegment .collectionSegment (if d.isAt .slash then d.take else d) := rfl

theorem Growing.matchPathPart (growing : Growing f kind s reach d) :
    Grown f kind s reach (Parser.slashedPart .leftBrace captureSegment .collectionSegment d).value ∧
      (d.isAt .leftBrace = true ∨ isSegmentToken d.state.peek.kind = true →
        Grown f kind s (d.state.peek.start + 1)
          (Parser.slashedPart .leftBrace captureSegment .collectionSegment d).value) := by
  constructor
  · refine growing.slashedPart rfl (fun _ => rfl) fun found => ?_
    exact (takes_captureSegment growing.place_state (State.rest_of_isAt found TokenKind.noConfusion)).1
  · intro goes
    have further : ∀ {p : Production}, Reads f d.state (p d.state) ∧ d.state.peek.start < (p d.state).1.stop →
        Grown f kind s (d.state.peek.start + 1) (slashTurn (d.place (some .segment) p)).value := by
      rintro p ⟨reads, further⟩
      rw [value_slashTurn]
      have attached := growing.attach (some .segment) reads
      exact attached.mono (Nat.le_trans further attached.reaches)
    rw [Parser.slashedPart]
    split
    · rename_i found
      exact further (takes_captureSegment growing.place_state
        (State.rest_of_isAt found TokenKind.noConfusion))
    · rename_i brace
      rw [if_pos (goes.resolve_left brace)]
      exact further (takes_segment (rfl : NodeKind.isSegment .collectionSegment = true) (fun _ => rfl)
        growing.place_state (goes.resolve_left brace))

/-- A turn of a match path adds a segment or a placeholder for one. -/
theorem Growing.matchPathTurn (growing : Growing f kind s reach d) :
    Grown f kind s reach (matchPathTurn d).value := by
  rw [matchPathTurn_eq]
  split
  · rename_i found
    have taken := growing.take_keeps none (State.rest_of_isAt found TokenKind.noConfusion)
    exact (Growing.matchPathPart (.grown taken)).1
  · exact growing.matchPathPart.1

/-- A turn of a match path takes a slash, a capture or a word. -/
theorem Growing.matchPathTurn_takes (growing : Growing f kind s reach d)
    (goes : d.isAt .slash = true ∨ d.isAt .leftBrace = true ∨ isSegmentToken d.state.peek.kind = true) :
    Grown f kind s (d.state.peek.start + 1) (Parser.matchPathTurn d).value := by
  rw [matchPathTurn_eq]
  split
  · rename_i found
    have ahead := State.rest_of_isAt found TokenKind.noConfusion
    have taken := growing.take none ahead
    have filled := f.laid_tokens.filled _ (growing.place_state.peek_mem ahead).1
    exact (Growing.matchPathPart (.grown (taken.mono (Nat.le_trans filled taken.reaches)))).1
  · rename_i slash
    exact growing.matchPathPart.2 (goes.resolve_left slash)

/-- A match path is empty only if neither a slash nor a capture nor a name follows. -/
theorem grown_matchPath (place : State.At f s) :
    Grown f .matchPath s s.lastStop ⟨(matchPath s).1, (matchPath s).2⟩ ∧
      ((matchPath s).1.isEmpty = true → (matchPath s).2.peek.kind ≠ .leftBrace) := by
  have opened := Growing.opened place (NodeKind.noConfusion : NodeKind.matchPath ≠ .comment)
  have nonempty : ∀ {d}, Grown f .matchPath s (s.peek.start + 1) d → Grown f .matchPath s s.lastStop d ∧
      (d.tree.isEmpty = true → d.state.peek.kind ≠ .leftBrace) := by
    intro d grown
    have filled := grown.filled (Nat.lt_succ_self _)
    have low := place.lastStop_le_peek
    have reaches := grown.reaches
    refine ⟨grown.mono (by omega), fun isEmpty => ?_⟩
    rw [filled] at isEmpty
    exact absurd isEmpty Bool.false_ne_true
  rw [matchPath, branch]
  dsimp only
  split
  · rename_i slash
    exact nonempty (Grown.loop (opened.matchPathTurn_takes (Or.inl slash))
      fun d grown => Growing.matchPathTurn (.grown grown))
  · have lacking := opened.lacking none (rfl : NodeKind.isLeaf (.token .slash) = true)
    have peek : ((Draft.opened .matchPath s).lacking none (.token .slash)).state.peek = s.peek :=
      Draft.peek_attach _ _ _
    split
    · rename_i found
      have goes : s.peek.kind = .identifier ∨ s.peek.kind = .leftBrace := by
        rw [Draft.isAtAny, State.isAtAny, peek] at found
        simpa using found
      have turned := Growing.matchPathTurn_takes (.grown lacking) (by
        rw [Draft.isAt, Draft.isAt, State.isAt, State.isAt, peek]
        rcases goes with kind | kind
        · exact Or.inr (Or.inr (by rw [kind]; rfl))
        · exact Or.inr (Or.inl (by rw [kind]; rfl)))
      rw [peek] at turned
      exact nonempty (Grown.loop turned fun d grown => Growing.matchPathTurn (.grown grown))
    · rename_i absent
      refine ⟨lacking, fun _ brace => absent ?_⟩
      rw [Draft.isAtAny, State.isAtAny, brace]
      rfl

theorem reads_matchPath (place : State.At f s) : ReadsHollow f s (matchPath s) :=
  (grown_matchPath place).1.reads_hollow rfl ⟨NodeKind.noConfusion, NodeKind.noConfusion⟩

theorem Growing.parameterTurn (grown : Grown f kind s reach d) :
    Grown f kind s reach (parameterTurn d).value := by
  rw [Parser.parameterTurn]
  split
  · exact grown
  · rename_i going
    have place := grown.reading.place
    have ahead : d.state.rest ≠ [] := by
      intro ended
      apply going
      rw [State.isAtSync, State.peek_of_end ended]
      exact Bool.or_true _
    have item : ∀ next, Grown f kind s reach next → Grown f kind s reach
        (if next.isAt .comma then Turn.again next.take else Turn.done next).value := by
      intro next grown
      split
      · rename_i comma
        exact Growing.take_keeps (.grown grown) none (State.rest_of_isAt comma TokenKind.noConfusion)
      · exact grown
    apply item
    split
    · rename_i found
      refine Growing.place (.grown grown) _ ?_
      refine reads_branch place ahead rfl ?_
      refine (Growing.opened place NodeKind.noConfusion).takeAs none ahead ?_
      show NodeKind.spells .identifier d.state.peek.kind = true
      rw [State.kind_of_isAt found]
      rfl
    · exact Growing.place (.grown grown) _ (reads_stray place ahead)

theorem Growing.optionalSemicolon (grown : Grown f kind s reach d) :
    Grown f kind s reach d.optionalSemicolon := by
  rw [Draft.optionalSemicolon]
  split
  · rename_i found
    exact Growing.take_keeps (.grown grown) none (State.rest_of_isAt found TokenKind.noConfusion)
  · exact grown

theorem reads_variableDef (reader : Reader f expression) (place : State.At f s) (ahead : s.rest ≠ []) :
    Reads f s (variableDef expression s) := by
  refine reads_branch place ahead rfl ?_
  refine Growing.expect (.grown ?_) TokenKind.noConfusion
  refine Growing.read (.grown ?_) _ reader
  refine Growing.expect (.grown ?_) TokenKind.noConfusion
  refine Growing.takeName (.grown ?_) _
  exact (Growing.opened place NodeKind.noConfusion).take none ahead

theorem reads_returnStatement (reader : Reader f expression) (place : State.At f s) (ahead : s.rest ≠ []) :
    Reads f s (returnStatement expression s) := by
  refine reads_branch place ahead rfl ?_
  refine Growing.optionalSemicolon ?_
  refine Growing.read (.grown ?_) _ reader
  exact (Growing.opened place NodeKind.noConfusion).take none ahead

/-- A choice of productions by the next token, each of which reads a tree where that token stands. -/
def ReadsItems (f : SourceFile) (item? : TokenKind → Option Production) : Prop :=
  ∀ s p, State.At f s → s.rest ≠ [] → item? s.peek.kind = some p → Reads f s (p s)

theorem Growing.body {item? : TokenKind → Option Production} (items : ReadsItems f item?)
    (growing : Growing f kind s reach d) (ahead : d.state.rest ≠ []) :
    Grown f kind s d.state.peek.stop (d.body item?) := by
  refine Growing.expect (.grown ?_) TokenKind.noConfusion
  refine iterate_keeps (P := Grown f kind s d.state.peek.stop) (growing.take none ahead) ?_
  intro d grown
  rw [bodyTurn]
  split
  · exact grown
  · rename_i going
    refine Growing.place (.grown grown) _ ?_
    have ahead : d.state.rest ≠ [] := by
      intro ended
      apply going
      rw [Draft.isAtAny, State.isAtAny, State.peek_of_end ended]
      rfl
    cases found : item? d.state.peek.kind with
    | some p => exact items d.state p grown.reading.place ahead found
    | none => exact reads_skipUntil isBodySync grown.reading.place

/-- A block is opened by its brace, or it is the placeholder of that brace. -/
theorem reads_block {fill : Draft → Draft} (place : State.At f s)
    (isBlock : kind = .matchBody ∨ kind = .functionBody)
    (filled : s.isAt .leftBrace = true → Grown f kind s s.peek.stop (fill (Draft.opened kind s))) :
    ReadsHollow f s (branch kind
      (fun d => if d.isAt .leftBrace then fill d else d.lacking none (.token .leftBrace)) s) := by
  have other : kind ≠ .comment := by
    rcases isBlock with rfl | rfl <;> exact NodeKind.noConfusion
  have isHollow : kind.isHollow = true := by
    rcases isBlock with rfl | rfl <;> rfl
  rw [branch]
  split
  · rename_i found
    have grown := filled found
    have ahead : s.rest ≠ [] := State.rest_of_isAt found TokenKind.noConfusion
    refine ⟨grown.reading, ParseTree.Shaped.of_hollow ?_ ?_ grown.firm⟩
    · rw [grown.kind]
      exact isHollow
    · intro _ _
      exact grown.filled (f.laid_tokens.filled _ (place.peek_mem ahead).1)
  · have grown := (Growing.opened place other).lacking none (rfl : NodeKind.isLeaf (.token .leftBrace) = true)
    refine ⟨grown.reading, ParseTree.Shaped.of_hollow ?_ ?_ grown.firm⟩
    · rw [grown.kind]
      exact isHollow
    · intro _ opened
      exact absurd opened Bool.false_ne_true

/-- What stands in a function, by its first word. -/
def functionItem? (expression : Production) : TokenKind → Option Production
  | .kwLet => some (variableDef expression)
  | .kwReturn => some (returnStatement expression)
  | _ => none

theorem functionBody_eq (expression : Production) : functionBody expression = branch .functionBody fun d =>
    if d.isAt .leftBrace then d.body (functionItem? expression) else d.lacking none (.token .leftBrace) := rfl

theorem readsItems_functionItem (reader : Reader f expression) : ReadsItems f (functionItem? expression) := by
  intro s p place ahead item
  rw [functionItem?.eq_def] at item
  split at item
  · rw [← Option.some.inj item]
    exact reads_variableDef reader place ahead
  · rw [← Option.some.inj item]
    exact reads_returnStatement reader place ahead
  · cases item

theorem reads_functionBody (reader : Reader f expression) (place : State.At f s) :
    ReadsHollow f s (functionBody expression s) := by
  rw [functionBody_eq]
  refine reads_block place (Or.inr rfl) fun found => ?_
  exact Growing.body (readsItems_functionItem reader) (Growing.opened place NodeKind.noConfusion)
    (State.rest_of_isAt found TokenKind.noConfusion)

theorem reads_functionDef (reader : Reader f expression) (place : State.At f s) (ahead : s.rest ≠ []) :
    Reads f s (functionDef expression s) := by
  refine reads_branch place ahead rfl ?_
  have head : Grown f .functionDef s s.peek.stop
      ((((Draft.opened .functionDef s).take).takeName (some .name)).expect .leftParen) := by
    refine Growing.expect (.grown ?_) TokenKind.noConfusion
    refine Growing.takeName (.grown ?_) _
    exact (Growing.opened place NodeKind.noConfusion).take none ahead
  have withBody : ∀ {d}, Grown f .functionDef s s.peek.stop d →
      Grown f .functionDef s s.peek.stop (d.place (some .body) (functionBody expression)) :=
    fun grown => grown.placeHollow (reads_functionBody reader grown.reading.place) rfl
  apply withBody
  split
  · refine Growing.expect (.grown ?_) TokenKind.noConfusion
    exact iterate_keeps head fun d grown => Growing.parameterTurn grown
  · exact head

theorem Growing.methodTurn (grown : Grown f kind s reach d) :
    Grown f kind s reach (methodTurn d).value := by
  rw [Parser.methodTurn]
  split
  · rename_i found
    have ahead := State.rest_of_isAt found TokenKind.noConfusion
    have item : ∀ next, Grown f kind s reach next → Grown f kind s reach
        (if next.isAt .comma then Turn.again next.take else Turn.done next).value := by
      intro next grown
      split
      · rename_i comma
        exact Growing.take_keeps (.grown grown) none (State.rest_of_isAt comma TokenKind.noConfusion)
      · exact grown
    apply item
    split
    · refine Growing.takeAs_keeps (.grown grown) _ ahead ?_
      rw [State.kind_of_isAt found]
      rfl
    · exact Growing.place (.grown grown) _ (reads_stray grown.reading.place ahead)
  · exact grown

theorem Growing.condition (reader : Reader f expression) (grown : Grown f kind s reach d) :
    Grown f kind s reach
      (if d.isAt .colon then (d.take.expect .kwIf).place (some .condition) expression else d) := by
  split
  · rename_i colon
    refine Growing.read (.grown ?_) _ reader
    refine Growing.expect (.grown ?_) TokenKind.noConfusion
    exact Growing.take_keeps (.grown grown) none (State.rest_of_isAt colon TokenKind.noConfusion)
  · exact grown

theorem reads_ruleDef (reader : Reader f expression) (place : State.At f s) (ahead : s.rest ≠ []) :
    Reads f s (ruleDef expression s) := by
  refine reads_branch place ahead rfl ?_
  have taken := (Growing.opened place (NodeKind.noConfusion : NodeKind.ruleDef ≠ .comment)).take none ahead
  have methods : Grown f .ruleDef s s.peek.stop
      (if ((Draft.opened .ruleDef s).take).isAt .identifier then
          ((Draft.opened .ruleDef s).take).loop Parser.methodTurn
        else ((Draft.opened .ruleDef s).take).lacking (some .method) .method) := by
    split
    · exact iterate_keeps taken fun d grown => Growing.methodTurn grown
    · exact Growing.lacking (.grown taken) _ rfl
  exact Growing.optionalSemicolon (Growing.condition reader methods)

/-- A body that does not start with its brace is only the placeholder of it. -/
def OpensAtBrace (body : Production) : Prop :=
  ∀ s : State, s.peek.kind ≠ .leftBrace → Build.isOpened (body s).1 = false

theorem reads_matchDef {body : Production} (reader : ∀ s, State.At f s → ReadsHollow f s (body s)) (opens : OpensAtBrace body)
    (place : State.At f s) (ahead : s.rest ≠ []) : Reads f s (matchDef body s) := by
  have taken := (Growing.opened place (NodeKind.noConfusion : NodeKind.matchDef ≠ .comment)).take none ahead
  generalize takenEq : (Draft.opened .matchDef s).take = first at taken
  have noPath : first.tree.childrenIn .path = [] := by
    rw [← takenEq]
    rfl
  have noBody : first.tree.childrenIn .body = [] := by
    rw [← takenEq]
    rfl
  have path := reads_matchPath taken.reading.place
  have withPath : Grown f .matchDef s s.peek.stop (first.place (some .path) matchPath) :=
    taken.placeHollow path rfl
  have onlyPath : (first.place (some .path) matchPath).tree.childrenIn .path =
      [(matchPath first.state).1.inRole (some .path)] := by
    rw [Draft.place_eq, taken.childrenIn_attach _ path.reading, noPath, if_pos rfl]
    rfl
  have stillNoBody : (first.place (some .path) matchPath).tree.childrenIn .body = [] := by
    rw [Draft.place_eq, taken.childrenIn_attach _ path.reading, noBody, if_neg (by decide)]
    rfl
  have peek : (first.place (some .path) matchPath).state.peek = (matchPath first.state).2.peek :=
    Draft.peek_attach _ _ _
  have emptyPath := (grown_matchPath taken.reading.place).2
  generalize (matchPath first.state).1 = pathTree at onlyPath emptyPath
  generalize (matchPath first.state).2 = behind at peek emptyPath
  generalize secondEq : first.place (some .path) matchPath = second at withPath onlyPath stillNoBody peek
  have inner := reader second.state withPath.reading.place
  have whole : Grown f .matchDef s s.peek.stop (second.place (some .body) body) :=
    withPath.placeHollow inner rfl
  have paths : (second.place (some .body) body).tree.childrenIn .path =
      [pathTree.inRole (some .path)] := by
    rw [Draft.place_eq, withPath.childrenIn_attach _ inner.reading, onlyPath, if_neg (by decide)]
    rfl
  have bodies : (second.place (some .body) body).tree.childrenIn .body =
      [(body second.state).1.inRole (some .body)] := by
    rw [Draft.place_eq, withPath.childrenIn_attach _ inner.reading, stillNoBody, if_pos rfl]
    rfl
  have unfolded : matchDef body s =
      ((second.place (some .body) body).tree, (second.place (some .body) body).state) := by
    rw [matchDef, branch, takenEq, secondEq]
  rw [unfolded]
  refine ⟨⟨whole.reading, ⟨?_, ?_, ?_, ?_, ?_, whole.firm⟩⟩, congrArg NodeKind.isHollow whole.kind⟩
  · intro isEmpty
    rw [whole.filled (f.laid_tokens.filled _ (place.peek_mem ahead).1)] at isEmpty
    exact absurd isEmpty Bool.false_ne_true
  · intro kind
    exact absurd (whole.kind.symm.trans kind) NodeKind.noConfusion
  · intro _ path found isEmpty inside foundBody
    rw [ParseTree.child?_eq_head?, paths, List.head?_cons] at found
    rw [ParseTree.child?_eq_head?, bodies, List.head?_cons] at foundBody
    rw [← Option.some.inj found, ParseTree.isEmpty_inRole] at isEmpty
    have unopened := opens second.state (by rw [peek]; exact emptyPath isEmpty)
    rw [← Option.some.inj foundBody]
    simpa [Build.isOpened] using unopened
  · intro kind
    exact absurd (whole.kind.symm.trans kind) NodeKind.noConfusion
  · rintro (kind | kind)
    · exact absurd (whole.kind.symm.trans kind) NodeKind.noConfusion
    · exact absurd (whole.kind.symm.trans kind) NodeKind.noConfusion

theorem opensAtBrace_block {fill : Draft → Draft} : OpensAtBrace (branch kind
    (fun d => if d.isAt .leftBrace then fill d else d.lacking none (.token .leftBrace))) := by
  intro s other
  have absent : (Draft.opened kind s).isAt .leftBrace = false := beq_eq_false_iff_ne.mpr other
  simp only [branch, absent, Bool.false_eq_true, ↓reduceIte]
  rfl

/-- What stands in a match body in which `budget` more bodies or expressions may nest, by its first word. -/
def matchItem? (budget : Nat) : TokenKind → Option Production
  | .kwMatch => some (matchDef (matchBodyAt budget))
  | .kwFunction => some (functionDef (expressionAt budget))
  | .kwAllow => some (ruleDef (expressionAt budget))
  | _ => none

theorem matchBodyAt_succ (budget : Nat) : matchBodyAt (budget + 1) = branch .matchBody fun d =>
    if d.isAt .leftBrace then d.body (matchItem? budget) else d.lacking none (.token .leftBrace) := rfl

theorem readsItems_matchItem {budget : Nat}
    (inner : (∀ s, State.At f s → ReadsHollow f s (matchBodyAt budget s)) ∧ OpensAtBrace (matchBodyAt budget)) :
    ReadsItems f (matchItem? budget) := by
  intro s p place ahead item
  rw [matchItem?.eq_def] at item
  split at item
  · rw [← Option.some.inj item]
    exact reads_matchDef inner.1 inner.2 place ahead
  · rw [← Option.some.inj item]
    exact reads_functionDef (reader_expressionAt budget).1 place ahead
  · rw [← Option.some.inj item]
    exact reads_ruleDef (reader_expressionAt budget).1 place ahead
  · cases item

/-- Match bodies read a tree whatever nesting is still allowed. -/
theorem reads_matchBodyAt (budget : Nat) :
    (∀ s, State.At f s → ReadsHollow f s (matchBodyAt budget s)) ∧ OpensAtBrace (matchBodyAt budget) := by
  induction budget with
  | zero =>
    constructor
    · intro s place
      refine reads_block place (Or.inl rfl) fun found => ?_
      have ahead : s.rest ≠ [] := State.rest_of_isAt found TokenKind.noConfusion
      have skipped := Growing.attach
        (Growing.opened place (NodeKind.noConfusion : NodeKind.matchBody ≠ .comment)) none
        (reads_skipUntil (fun _ => true) place)
      exact skipped.mono (Nat.le_trans (takes_skipUntil _ place ahead) skipped.reaches)
    · exact opensAtBrace_block
  | succ budget ih =>
    rw [matchBodyAt_succ]
    constructor
    · intro s place
      refine reads_block place (Or.inl rfl) fun found => ?_
      exact Growing.body (readsItems_matchItem ih) (Growing.opened place NodeKind.noConfusion)
        (State.rest_of_isAt found TokenKind.noConfusion)
    · exact opensAtBrace_block

theorem takes_serviceDef (budget : Nat) (place : State.At f s) (ahead : s.rest ≠ []) :
    Reads f s (serviceDef budget s) ∧ s.peek.stop ≤ (serviceDef budget s).1.stop := by
  have taken := (Growing.opened place (NodeKind.noConfusion : NodeKind.serviceDef ≠ .comment)).take none ahead
  refine takes_branch place ahead rfl ?_
  have withBody : ∀ {d}, Grown f .serviceDef s s.peek.stop d →
      Grown f .serviceDef s s.peek.stop (d.place (some .body) (matchBodyAt budget)) :=
    fun grown => grown.placeHollow ((reads_matchBodyAt budget).1 _ grown.reading.place) rfl
  apply withBody
  split
  · rename_i found
    exact Growing.place (.grown taken) _ (reads_serviceName taken.reading.place found)
  · exact Growing.lacking (.grown taken) _ rfl

end SecurityRules.Parser
