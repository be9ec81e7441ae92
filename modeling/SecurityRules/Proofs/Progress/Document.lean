import SecurityRules.Proofs.Progress.Productions

/-!
# The parser ends unaided

Every loop of the parser takes a token with each turn that asks for another, and what is entered again while it reads is
entered further on. So neither the loops nor the recursion need anything that cuts them short: the equations of the
parser without a budget have one solution, and it is what the parser reads.
-/

namespace SecurityRules.Parser

open State (Onward Behind Beyond)

/-! ## Productions by themselves -/

/-- A production that never goes back. -/
def Goes (p : Production) : Prop := ∀ s : State, s.Onward (p s).2

/-- A production that takes the next token. -/
def Takes (p : Production) : Prop := ∀ s : State, s.Behind (p s).2

section

variable {α β : Type} {stateOf : α → State} {next : β → State} {f : α → β}

theorem Goes.agrees {o : State} {n : Nat} {p : Production} (goes : Goes p) : Agrees o n p p := .refl goes

/-- What agrees with itself wherever it is asked for goes on from everywhere. -/
theorem onward_of_agree (agree : ∀ o n, Agree stateOf next o n f f) (a : α) : (stateOf a).Onward (next (f a)) :=
  ((agree (stateOf a) _).meets a (.refl _) (Nat.lt_succ_self _)).2

theorem behind_of_taking (taking : ∀ o n, AgreeTaking stateOf next o n f f) (a : α) :
    (stateOf a).Behind (next (f a)) :=
  ((taking (stateOf a) _).meets a (.refl _) (Nat.lt_succ_self _)).2

end

/-! ## Loops -/

/-- A loop of the parser: what it carries along, where the parser stands there, and one turn. -/
structure Loop where
  Value : Type
  stateOf : Value → State
  turn : Value → Turn Value

namespace Loop

/-- A loop that adds to a draft. -/
def ofDraft (turn : Draft → Turn Draft) : Loop := ⟨Draft, Draft.state, turn⟩

/-- A loop that gathers tokens and counts brackets. -/
def ofNested (turn : Nested → Turn Nested) : Loop := ⟨Nested, fun n => n.draft.state, turn⟩

/-- Turn after turn until one asks for no other. Nothing else ends the loop. -/
inductive Runs (l : Loop) : l.Value → l.Value → Prop where
  | last {v w : l.Value} (done : l.turn v = .done w) : Runs l v w
  | further {v w z : l.Value} (again : l.turn v = .again w) (runs : Runs l w z) : Runs l v z

/-- Each turn that asks for another one has taken tokens. -/
def Advances (l : Loop) : Prop := ∀ v w, l.turn v = .again w → (l.stateOf v).Beyond (l.stateOf w)

theorem advances_ofDraft {turn : Draft → Turn Draft}
    (beyond : ∀ d next, turn d = .again next → d.state.Beyond next.state) : (ofDraft turn).Advances := beyond

theorem advances_ofNested {turn : Nested → Turn Nested}
    (beyond : ∀ n next, turn n = .again next → n.draft.state.Beyond next.draft.state) : (ofNested turn).Advances :=
  beyond

/-- A loop whose turns take tokens is never cut short. -/
theorem Advances.runs {l : Loop} (advances : l.Advances) (v : l.Value) : l.Runs v (iterate l.stateOf l.turn v) := by
  fun_induction iterate l.stateOf l.turn v with
  | case1 v next found => exact .last found
  | case2 v next found shorter ih => exact .further found ih
  | case3 v next found longer => exact absurd (advances v next found).fewer longer

end Loop

/-! ### Turns that take tokens -/

section

variable {d next : Draft}

theorem beyond_comma (again : (if d.isAt .comma then Turn.again d.take else .done d) = .again next) :
    d.state.Beyond next.state := by
  by_cases comma : d.isAt .comma = true
  · simp only [comma, if_true, Turn.again.injEq] at again
    rw [← again]
    exact (d.behind_take none).beyond (State.rest_of_isAt comma TokenKind.noConfusion)
  · simp [comma] at again

theorem eq_of_slashTurn (again : slashTurn d = .again next) : next = d := by
  by_cases slash : (d.isAt .slash && d.state.isAdjacent) = true
  · simp only [slashTurn, slash, if_true, Turn.again.injEq] at again
    exact again.symm
  · simp [slashTurn, slash] at again

/-- What stands behind a slash takes a token, or it is the last part. -/
theorem beyond_slashedPart {opening : TokenKind} {p : Production} {leaf : NodeKind} (other : opening ≠ .endOfInput)
    (bracketed : Takes p) (again : slashedPart opening p leaf d = .again next) : d.state.Beyond next.state := by
  by_cases bracket : d.isAt opening = true
  · simp only [slashedPart, bracket, if_true] at again
    rw [eq_of_slashTurn again]
    have behind := Draft.behind_place (some .segment) (bracketed d.state)
    exact behind.beyond (State.rest_of_isAt bracket other)
  · by_cases word : isSegmentToken d.state.peek.kind = true
    · simp only [slashedPart, bracket, Bool.false_eq_true, if_false, word, if_true] at again
      rw [eq_of_slashTurn again]
      have taken : d.state.Behind (segment leaf d.state).2 := behind_of_taking (fun _ _ => taking_segment leaf) d.state
      exact (Draft.behind_place (some .segment) taken).beyond (rest_of_isSegmentToken word)
    · simp [slashedPart, bracket, word] at again

theorem onward_place_stray (d : Draft) : d.state.Onward (d.place none stray).state := by
  apply Draft.onward_place
  exact onward_of_agree (fun _ _ => agrees_stray) d.state

end

namespace Loop

theorem advances_items {g : Draft → Draft} (closing : TokenKind) (item : ∀ d : Draft, d.state.Onward (g d).state) :
    (ofDraft (itemTurn closing g)).Advances := by
  apply advances_ofDraft
  intro d next again
  by_cases closed : (d.isAt closing || isBodySync d.state.peek.kind) = true
  · simp [itemTurn, closed] at again
  · simp only [itemTurn, closed, Bool.false_eq_true, if_false] at again
    exact (item d).beyond (beyond_comma again)

theorem advances_parameters : (ofDraft parameterTurn).Advances := by
  apply advances_ofDraft
  intro d next again
  by_cases closed : (d.isAt .rightParen || d.state.isAtSync) = true
  · simp [parameterTurn, closed] at again
  · simp only [parameterTurn, closed, Bool.false_eq_true, if_false] at again
    apply Onward.beyond _ (beyond_comma again)
    by_cases name : d.isAt .identifier = true
    · simp only [name, if_true]
      have taken := (Draft.opened .parameter d.state).behind_takeAs none .identifier
      exact Draft.onward_place (some .param) taken.onward
    · simp only [name, Bool.false_eq_true, if_false]
      exact onward_place_stray d

theorem advances_methods : (ofDraft methodTurn).Advances := by
  apply advances_ofDraft
  intro d next again
  by_cases name : d.isAt .identifier = true
  · simp only [methodTurn, name, if_true] at again
    apply Onward.beyond _ (beyond_comma again)
    by_cases known : isMethod d.state.peek.text = true
    · simp only [known, if_true]
      exact (d.behind_takeAs (some .method) .method).onward
    · simp only [known, Bool.false_eq_true, if_false]
      exact onward_place_stray d
  · simp [methodTurn, name] at again

theorem advances_matchPath : (ofDraft matchPathTurn).Advances := by
  apply advances_ofDraft
  intro d next again
  rw [matchPathTurn_eq] at again
  have bracketed : Takes captureSegment := fun s => behind_of_taking (fun _ _ => taking_captureSegment) s
  have part := beyond_slashedPart TokenKind.noConfusion bracketed again
  by_cases slash : d.isAt .slash = true
  · simp only [slash, if_true] at part
    exact (d.behind_take none).onward.beyond part
  · simpa only [slash, Bool.false_eq_true, if_false] using part

theorem advances_path {expression : Production} (goes : Goes expression) :
    (ofDraft (pathTurn expression)).Advances := by
  apply advances_ofDraft
  intro d next again
  rw [pathTurn_eq] at again
  have bracketed : Takes (interpolation expression) :=
    fun s => behind_of_taking (fun _ _ => goes.agrees.interpolation) s
  exact (d.behind_take none).onward.beyond (beyond_slashedPart TokenKind.noConfusion bracketed again)

theorem advances_accesses {expression : Production} (goes : Goes expression) :
    (ofDraft (postfixTurn expression)).Advances := by
  apply advances_ofDraft
  intro d next again
  rw [postfixTurn_eq] at again
  by_cases dot : d.isAt .dot = true
  · simp only [dot, if_true, Turn.again.injEq] at again
    rw [← again]
    have behind := behind_of_taking (fun _ _ => goes.agrees.memberOf) d
    exact behind.beyond (State.rest_of_isAt dot TokenKind.noConfusion)
  · by_cases bracket : d.isAt .leftBracket = true
    · simp only [dot, Bool.false_eq_true, if_false, bracket, if_true, Turn.again.injEq] at again
      rw [← again]
      have behind := behind_of_taking (fun _ _ => goes.agrees.indexingOf) d
      exact behind.beyond (State.rest_of_isAt bracket TokenKind.noConfusion)
    · simp [dot, bracket] at again

theorem advances_operators {operand : Tier → Production} (goes : ∀ tier, Goes (operand tier)) (tier : Tier) :
    (ofDraft (infixTurn operand tier)).Advances := by
  apply advances_ofDraft
  intro d next again
  rw [infixTurn_eq_operatorTurn] at again
  cases operator : infixOperator? d.state.peek.kind with
  | none => simp [operator, operatorTurn] at again
  | some found =>
    have ahead : d.state.rest ≠ [] := by
      apply State.rest_ne_nil
      intro ended
      rw [ended] at operator
      cases operator
    by_cases tight : tier.rank ≤ found.1.rank
    · simp only [operator, operatorTurn, tight, if_true, Turn.again.injEq] at again
      rw [← again]
      have behind := behind_of_taking (fun _ _ => (goes found.1).agrees.joinedOf found.2) d
      exact behind.beyond ahead
    · simp [operator, operatorTurn, tight] at again

theorem advances_serviceName : (ofDraft serviceNameTurn).Advances := by
  apply advances_ofDraft
  intro d next again
  by_cases more : (d.isAt .dot && d.state.isAdjacent && d.state.peekSecond.kind == .identifier) = true
  · simp only [serviceNameTurn, more, if_true, Turn.again.injEq] at again
    rw [← again]
    simp only [Bool.and_eq_true] at more
    have behind := (d.behind_take none).trans (d.take.behind_takeAs none .identifier).onward
    exact behind.beyond (State.rest_of_isAt more.1.1 TokenKind.noConfusion)
  · simp [serviceNameTurn, more] at again

theorem advances_segment : Advances ⟨State, id, segmentTurn⟩ := by
  intro (s : State) (next : State) (again : segmentTurn s = .again next)
  by_cases more : (isSegmentToken s.peek.kind && s.isAdjacent) = true
  · simp only [segmentTurn, more, if_true, Turn.again.injEq] at again
    rw [← again]
    simp only [Bool.and_eq_true] at more
    exact s.behind_advance.beyond (rest_of_isSegmentToken more.1)
  · simp [segmentTurn, more] at again

theorem rest_of_not_end {d : Draft} (more : ¬d.isAt .endOfInput = true) : d.state.rest ≠ [] := by
  intro ended
  exact more (Draft.isAt_end ended)

theorem advances_skipUntil (stop : TokenKind → Bool) : (ofNested (skipTurn stop)).Advances := by
  apply advances_ofNested
  intro n next again
  simp only [skipTurn] at again
  split at again
  · cases again
  · rename_i more
    split at again
    · cases again
    · split at again
      all_goals
        split at again
        · cases again
        · cases again
          exact (n.draft.behind_take none).beyond (rest_of_not_end more)

theorem advances_collapse : (ofNested collapseTurn).Advances := by
  apply advances_ofNested
  intro n next again
  by_cases ended : n.draft.isAt .endOfInput = true
  · simp [collapseTurn, ended] at again
  · by_cases stops : (n.depth == 0 && isExpressionStop n.draft.state.peek.kind) = true
    · simp [collapseTurn, ended, stops] at again
    · simp only [collapseTurn, ended, stops, Bool.false_eq_true, if_false, Turn.again.injEq] at again
      rw [← again]
      exact (n.draft.behind_take none).beyond (rest_of_not_end ended)

end Loop

/-- Input that does not fit is gathered at least up to the next token. -/
theorem behind_skipUntil (stop : TokenKind → Bool) {s : State} (more : s.peek.kind ≠ .endOfInput) :
    s.Behind (skipUntil stop s).2 := by
  rw [skipUntil, state_toError]
  refine iterate_first (P := fun n : Nested => s.Behind n.draft.state) ?_
    fun n behind => behind.trans (onward_skipTurn stop n)
  have opened : (Draft.opened .error s).isAt .endOfInput = false := beq_eq_false_iff_ne.mpr more
  have bare : (Draft.opened .error s).isBare = true := rfl
  simp only [skipTurn, opened, bare, Bool.false_eq_true, if_false, Bool.not_true, Bool.and_false, Bool.false_and]
  split
  all_goals
    split
    all_goals exact (Draft.opened .error s).behind_take none

theorem behind_documentItem {service : Production} (taking : Takes service) {s : State}
    (more : s.peek.kind ≠ .endOfInput) (kind : TokenKind) : s.Behind (documentItem service kind s).2 := by
  rw [documentItem.eq_def]
  split
  · exact behind_of_taking (fun _ _ => taking_rulesVersion) s
  · exact taking s
  · exact behind_skipUntil _ more

namespace Loop

theorem advances_body {item? : TokenKind → Option Production}
    (items : ∀ kind, ∀ p ∈ item? kind, Takes p) : (ofDraft (bodyTurn item?)).Advances := by
  apply advances_ofDraft
  intro d next again
  by_cases closed : d.isAtAny [.rightBrace, .endOfInput] = true
  · simp [bodyTurn, closed] at again
  · have more : d.state.peek.kind ≠ .endOfInput := by
      intro ended
      apply closed
      simp [Draft.isAtAny, State.isAtAny, ended]
    simp only [bodyTurn, closed, Bool.false_eq_true, if_false, Turn.again.injEq] at again
    rw [← again]
    apply Behind.beyond _ (State.rest_ne_nil more)
    apply Draft.behind_place
    cases item : item? d.state.peek.kind with
    | none => exact behind_skipUntil _ more
    | some p => exact items _ p item d.state

theorem advances_document {service : Production} (taking : Takes service) :
    (ofDraft (documentTurn service)).Advances := by
  apply advances_ofDraft
  intro d next again
  rw [documentTurn_eq] at again
  by_cases ended : d.isAt .endOfInput = true
  · simp [ended] at again
  · have more : d.state.peek.kind ≠ .endOfInput := fun kind => ended (beq_iff_eq.mpr kind)
    simp only [ended, Bool.false_eq_true, if_false, Turn.again.injEq] at again
    rw [← again]
    have behind := Draft.behind_place none (behind_documentItem taking more d.state.peek.kind)
    exact behind.beyond (State.rest_ne_nil more)

end Loop

/-! ## Calls -/

/-- The productions that are entered again while they read. -/
inductive Recurrent where
  | expression | unary | matchBody

/-- A production at a state. -/
abbrev Call := Recurrent × State

namespace Recurrent

variable (limit : Nat)

/-- The equations of the parser: what a production reads, where nested ones read what is given for them. -/
def reads (nested : Recurrent → Production) : Recurrent → Production
  | expression => entered limit (ternary (nested unary) (nested expression)) collapse
  | unary => fun s =>
    if s.isAtUnary then entered limit (Parser.unary (nested unary)) collapse s else postfixed (nested expression) s
  | matchBody => fun s =>
    if s.isAt .leftBrace then
      entered limit (branch .matchBody (·.body (bodyItem? (nested matchBody) (nested expression)))) closedBody s
    else branch .matchBody (·.lacking none (.token .leftBrace)) s

end Recurrent

/-- One call may be made inside another one: tokens have been taken in between, or it is the first operand of an
expression. -/
structure Call.Inside (inner outer : Call) : Prop where
  onward : outer.2.Onward inner.2
  less : inner.2.rest.length < outer.2.rest.length ∨ outer.1 = .expression ∧ inner.1 = .unary

/-- One call is made by another one: what the other one reads depends on what is read there. All that is read finds its
way into the tree and the state behind it, so any mark that a nested production leaves would be seen. -/
def Call.MadeBy (limit : Nat) (nested : Recurrent → Production) (inner outer : Call) : Prop :=
  ∃ other : Recurrent → Production, (∀ call : Call, call ≠ inner → other call.1 call.2 = nested call.1 call.2) ∧
    outer.1.reads limit other outer.2 ≠ outer.1.reads limit nested outer.2

namespace Call

variable {limit : Nat} {a b c : Call}

theorem Inside.trans (first : Inside a b) (second : Inside b c) : Inside a c := by
  refine ⟨second.onward.trans first.onward, ?_⟩
  have less := first.onward.length_le
  have less' := second.onward.length_le
  rcases first.less with fewer | ⟨outer, inner⟩
  · exact .inl (Nat.lt_of_lt_of_le fewer less')
  · rcases second.less with fewer | ⟨-, operand⟩
    · exact .inl (Nat.lt_of_le_of_lt less fewer)
    · rw [outer] at operand
      cases operand

/-- Calls inside each other have fewer and fewer tokens ahead, and an expression stands before its first operand. -/
def measure (c : Call) : Nat × Nat := (c.2.rest.length, if c.1 matches .expression then 1 else 0)

theorem measure_lt_of_inside (inside : Inside a b) : Prod.Lex (· < ·) (· < ·) a.measure b.measure := by
  have bound := inside.onward.length_le
  by_cases fewer : a.2.rest.length < b.2.rest.length
  · exact .left _ _ fewer
  · obtain ⟨expression, operand⟩ := inside.less.resolve_left fewer
    have same : a.2.rest.length = b.2.rest.length := by omega
    rw [measure, measure, same, expression, operand]
    exact .right _ Nat.zero_lt_one

theorem wellFounded_inside : WellFounded Inside := by
  apply Subrelation.wf measure_lt_of_inside
  exact InvImage.wf measure (WellFounded.prod_lex Nat.lt_wfRel.wf Nat.lt_wfRel.wf)

end Call

/-- What is entered reads the same if both of its productions do. -/
theorem entered_meets {limit : Nat} {s : State} {q q' p p' : Production}
    (inside : q s.enter = p s.enter ∧ s.enter.Onward (p s.enter).2)
    (beyond : q' s.enter = p' s.enter ∧ s.enter.Onward (p' s.enter).2) :
    entered limit q q' s = entered limit p p' s ∧ s.Onward (entered limit p p' s).2 := by
  rw [entered, entered]
  dsimp only
  split
  · rw [inside.1]
    exact ⟨rfl, inside.2.file, inside.2.rest⟩
  · rw [beyond.1]
    exact ⟨rfl, beyond.2.file, beyond.2.rest⟩

/-- A production reads the same whatever nested productions would read elsewhere than inside it. -/
theorem Recurrent.reads_meets (limit : Nat) {other nested : Recurrent → Production} (goes : ∀ k, Goes (nested k))
    (call : Call) (same : ∀ c : Call, c.Inside call → other c.1 c.2 = nested c.1 c.2) :
    call.1.reads limit other call.2 = call.1.reads limit nested call.2 ∧
      call.2.Onward (call.1.reads limit nested call.2).2 := by
  obtain ⟨k, s⟩ := call
  have entering : s.Onward s.enter := .of_eq rfl rfl
  have agree : ∀ k', Agrees s s.rest.length (other k') (nested k') := fun k' =>
    ⟨fun v onward fewer => ⟨same (k', v) ⟨onward, .inl fewer⟩, goes k' v⟩⟩
  have fewer : s.enter.rest.length < s.rest.length + 1 := Nat.lt_succ_self _
  have collapsed : collapse s.enter = collapse s.enter ∧ s.enter.Onward (collapse s.enter).2 :=
    agrees_collapse.meets s.enter entering fewer
  cases k with
  | expression =>
    have operand : Agrees s (s.rest.length + 1) (other .unary) (nested .unary) :=
      ⟨fun v onward _ => ⟨same (.unary, v) ⟨onward, .inr ⟨rfl, rfl⟩⟩, goes .unary v⟩⟩
    exact entered_meets ((operand.ternary (agree .expression)).meets s.enter entering fewer) collapsed
  | unary =>
    rw [reads, reads]
    dsimp only
    split
    · rename_i found
      have behind := State.length_tail_lt (rest_of_isAtUnary found)
      obtain ⟨equal, taken⟩ := (agree .unary).unary.meets s.enter entering behind
      exact entered_meets ⟨equal, taken.onward⟩ collapsed
    · exact (agree .expression).postfixed.meets s (.refl s) (Nat.lt_succ_self _)
  | matchBody =>
    rw [reads, reads]
    dsimp only
    split
    · rename_i found
      have behind := State.length_tail_lt (State.rest_of_isAt found TokenKind.noConfusion)
      obtain ⟨equal, taken⟩ := ((taking_body ((agree .matchBody).bodyItem (agree .expression))).branch .matchBody).meets
        s.enter entering behind
      exact entered_meets ⟨equal, taken.onward⟩ (agrees_closedBody.meets s.enter entering fewer)
    · exact agrees_bodiless.meets s (.refl s) (Nat.lt_succ_self _)

theorem Recurrent.goes_reads (limit : Nat) {nested : Recurrent → Production} (goes : ∀ k, Goes (nested k))
    (k : Recurrent) : Goes (k.reads limit nested) :=
  fun s => (reads_meets limit goes (k, s) fun _ _ => rfl).2

/-! ## The recursion -/

namespace Recurrent

variable (limit : Nat)

/-- A production, where as many levels of nesting are followed. -/
def counted (levels : Nat) : Recurrent → Production
  | expression => countedExpression limit levels
  | unary => countedUnary limit levels
  | matchBody => countedBody limit levels

/-- The levels of nesting that are followed inside a production. Only from an operand to an expression in it, no level
is spent. -/
def levelsInside (levels : Nat) : Recurrent → Recurrent → Nat
  | unary, unary => levels - 1
  | unary, _ => levels
  | _, _ => levels - 1

end Recurrent

/-- As many levels as calls can be nested inside a call. -/
def Call.levels : Call → Nat
  | (.unary, s) => s.rest.length
  | (_, s) => s.rest.length + 1

namespace Recurrent

variable {limit levels : Nat}

/-- Where enough levels are followed, a production satisfies the equations. -/
theorem counted_eq {call : Call} (enough : call.levels ≤ levels) : counted limit levels call.1 call.2 =
    call.1.reads limit (fun k => counted limit (levelsInside levels call.1 k) k) call.2 := by
  obtain ⟨k, s⟩ := call
  cases k with
  | expression =>
    cases levels with
    | zero => exact absurd enough (Nat.not_succ_le_zero _)
    | succ below => rfl
  | unary =>
    cases levels with
    | zero =>
      -- No token is ahead, so no operator either.
      have ended : s.rest = [] := List.length_eq_zero_iff.mp (Nat.le_zero.mp enough)
      have none : s.isAtUnary = false := by
        rw [State.isAtUnary, State.isAtAny, State.peek_of_end ended]
        rfl
      rw [counted, countedUnary, reads]
      dsimp only
      rw [none]
      rfl
    | succ below => rfl
  | matchBody =>
    cases levels with
    | zero => exact absurd enough (Nat.not_succ_le_zero _)
    | succ below => rfl

/-- Enough levels for a call leave enough for those inside it. -/
theorem enough_inside {inner outer : Call} (inside : inner.Inside outer) (enough : outer.levels ≤ levels) :
    inner.levels ≤ levelsInside levels outer.1 inner.1 := by
  obtain ⟨k, s⟩ := outer
  obtain ⟨k', v⟩ := inner
  have less := inside.less
  have bound := inside.onward.length_le
  cases k
  all_goals
    cases k'
    all_goals
      simp only [Call.levels, levelsInside, reduceCtorEq, and_false, and_true, or_false, or_true] at *
      omega

theorem goes_counted (limit levels : Nat) (k : Recurrent) : Goes (counted limit levels k) := by
  have goes_entered {q p : Production} (inside : Goes q) (beyond : Goes p) : Goes (entered limit q p) :=
    fun s => (entered_meets ⟨rfl, inside s.enter⟩ ⟨rfl, beyond s.enter⟩).2
  have collapses : Goes collapse := fun s => onward_of_agree (fun _ _ => agrees_collapse) s
  have collapsed := goes_entered collapses collapses
  have closed : Goes closedBody := fun s => onward_of_agree (fun _ _ => agrees_closedBody) s
  have bodiless : Goes (branch .matchBody (·.lacking none (.token .leftBrace))) :=
    fun s => onward_of_agree (fun _ _ => agrees_bodiless) s
  induction levels generalizing k with
  | zero =>
    intro s
    cases k with
    | expression => exact collapsed s
    | unary =>
      rw [counted, countedUnary]
      dsimp only
      split
      · exact collapsed s
      · exact (collapsed.agrees.postfixed.meets s (.refl s) (Nat.lt_succ_self _)).2
    | matchBody =>
      rw [counted, countedBody]
      dsimp only
      split
      · exact goes_entered closed closed s
      · exact bodiless s
  | succ levels ih =>
    have expression : Goes (counted limit (levels + 1) .expression) := goes_reads limit ih .expression
    cases k with
    | expression => exact expression
    | unary =>
      have inside : ∀ k, Goes (counted limit (levelsInside (levels + 1) .unary k) k) := by
        intro k
        cases k with
        | expression => exact expression
        | unary => exact ih .unary
        | matchBody => exact goes_reads limit ih .matchBody
      exact goes_reads limit inside .unary
    | matchBody => exact goes_reads limit ih .matchBody

/-- It does not matter how many levels are followed, as long as they are enough. -/
theorem counted_stable {levels' : Nat} (call : Call) (enough : call.levels ≤ levels) (enough' : call.levels ≤ levels') :
    counted limit levels call.1 call.2 = counted limit levels' call.1 call.2 := by
  induction call using Call.wellFounded_inside.induction generalizing levels levels' with
  | _ call ih =>
    have same : ∀ c : Call, c.Inside call → counted limit (levelsInside levels call.1 c.1) c.1 c.2 =
        counted limit (levelsInside levels' call.1 c.1) c.1 c.2 :=
      fun c inside => ih c inside (enough_inside inside enough) (enough_inside inside enough')
    rw [counted_eq enough, counted_eq enough']
    exact (reads_meets limit (fun k => goes_counted limit (levelsInside levels' call.1 k) k) call same).1

/-- The parser without a budget. -/
def unbounded (limit : Nat) (k : Recurrent) : Production := fun s => counted limit (Call.levels (k, s)) k s

theorem unbounded_eq {call : Call} (enough : call.levels ≤ levels) :
    unbounded limit call.1 call.2 = counted limit levels call.1 call.2 := counted_stable call (Nat.le_refl _) enough

theorem goes_unbounded (limit : Nat) (k : Recurrent) : Goes (unbounded limit k) := fun s => goes_counted limit _ k s

theorem reads_unbounded (limit : Nat) (k : Recurrent) : k.reads limit (unbounded limit) = unbounded limit k := by
  funext s
  have same := (reads_meets limit (fun k' => goes_counted limit (levelsInside (Call.levels (k, s)) k k') k') (k, s)
    fun c inside => unbounded_eq (enough_inside inside (Nat.le_refl _))).1
  have whole : unbounded limit k s = k.reads limit _ s := counted_eq (Nat.le_refl (Call.levels (k, s)))
  exact same.trans whole.symm

/-- The induction is on calls inside each other. -/
theorem eq_unbounded {other : Recurrent → Production} (solves : ∀ k, k.reads limit other = other k) :
    other = unbounded limit := by
  suffices same : ∀ call : Call, other call.1 call.2 = unbounded limit call.1 call.2 from
    funext fun k => funext fun s => same (k, s)
  intro call
  induction call using Call.wellFounded_inside.induction with
  | _ call ih =>
    rw [← solves, ← reads_unbounded]
    exact (reads_meets _ (goes_unbounded limit) call ih).1

end Recurrent

/-! ## Calls inside each other -/

namespace Call

open Recurrent (unbounded reads_meets goes_unbounded)

variable {limit : Nat}

theorem MadeBy.inside {inner outer : Call} (made : MadeBy limit (unbounded limit) inner outer) :
    inner.Inside outer := by
  obtain ⟨other, same, differs⟩ := made
  by_contra apart
  refine differs (reads_meets _ (goes_unbounded limit) outer fun c inside => same c ?_).1
  rintro rfl
  exact apart inside

theorem inside_of_transGen {inner outer : Call}
    (chain : Relation.TransGen (MadeBy limit (unbounded limit)) inner outer) : inner.Inside outer := by
  induction chain with
  | single made => exact made.inside
  | tail _ made ih => exact ih.trans made.inside

/-- Inside a call of the same production tokens have been taken. -/
theorem Inside.beyond {k : Recurrent} {s v : State} (inside : Inside (k, v) (k, s)) : s.Beyond v := by
  refine ⟨inside.onward, inside.less.resolve_right ?_⟩
  rintro ⟨expression, operand⟩
  have both : Recurrent.expression = .unary := expression.symm.trans operand
  cases both

end Call

/-! ## Documents -/

/-- Every production of the grammar goes on, as the nested ones do. -/
theorem goes_read (kind : Nonterminal) (limit levels : Nat) : Goes (kind.read limit levels) := by
  have nested := Recurrent.goes_counted limit levels
  have expression {o : State} {n : Nat} :
      Agrees o n (countedExpression limit levels) (countedExpression limit levels) := (nested .expression).agrees
  have operand {o : State} {n : Nat} : Agrees o n (countedUnary limit levels) (countedUnary limit levels) :=
    (nested .unary).agrees
  have body {o : State} {n : Nat} : Agrees o n (countedBody limit levels) (countedBody limit levels) :=
    (nested .matchBody).agrees
  intro s
  suffices meets : Agrees s (s.rest.length + 1) (kind.read limit levels) (kind.read limit levels) from
    (meets.meets s (.refl s) (Nat.lt_succ_self _)).2
  cases kind with
  | rulesVersion => exact taking_rulesVersion.agree
  | service => exact body.serviceOf.agree
  | serviceName => exact agrees_serviceName
  | matchDef => exact body.matchDef.agree
  | matchPath => exact agrees_matchPath
  | captureSegment => exact taking_captureSegment.agree
  | segment kind => exact (taking_segment kind).agree
  | matchBody => exact body
  | functionDef => exact expression.functionDef.agree
  | functionBody => exact expression.functionBody
  | variableDef => exact expression.variableDef.agree
  | returnStatement => exact expression.returnStatement.agree
  | ruleDef => exact expression.ruleDef.agree
  | expression => exact expression
  | ternary => exact operand.ternary expression
  | unary => exact operand
  | postfixed => exact expression.postfixed
  | primary => exact expression.primary
  | memberField => exact expression.memberField
  | index => exact expression.index
  | joined tiers => exact (operand.operands tiers).2
  | functionCall => exact expression.functionCall.agree
  | argumentList => exact expression.argumentList.agree
  | parenthesized => exact expression.parenthesized.agree
  | list => exact expression.list.agree
  | map => exact expression.map.agree
  | mapEntry => exact expression.mapEntry
  | path => exact expression.path.agree
  | interpolation => exact expression.interpolation.agree
  | leaf kind => exact (taking_leafOf kind).agree
  | stray => exact agrees_stray
  | skipUntil stop => exact agrees_skipUntil stop
  | collapse => exact agrees_collapse

/-- The parser without a budget reads what the one with a budget reads. -/
theorem mirrors_unbounded (limit : Nat) :
    Mirrors (.depth 0) False (Recurrent.unbounded limit .matchBody) (matchBodyAt limit) := by
  intro s fine
  have affords : Affords False limit (limit + (s.rest.length + 1)) 0 limit :=
    ⟨Nat.le_add_right _ _, fun _ => by omega, fun _ => .inr (by omega)⟩
  rw [← mirrors_countedBody affords s fine]
  have enough : Call.levels (.matchBody, s.atDepth 0) ≤ limit + (s.rest.length + 1) := Nat.le_add_left _ _
  exact Recurrent.unbounded_eq enough

theorem parse_eq_unbounded (f : SourceFile) (maxDepth : Int) : parse f maxDepth =
    closeRoot (documentItems (serviceOf (Recurrent.unbounded (depthLimit maxDepth) .matchBody)) f) := by
  have items : documentItems (serviceOf (Recurrent.unbounded (depthLimit maxDepth) .matchBody)) f =
      (documentItems (serviceOf (matchBodyAt (depthLimit maxDepth))) f).under (.depth 0) :=
    documentItems_mirrored (mirrors_unbounded _).serviceOf rfl False.elim
  rw [items, closeRoot_under]
  rfl

theorem agrees_documentTurn {o : State} {n : Nat} {service : Production} (goes : Goes service) :
    AgreesTurn o n (documentTurn service) (documentTurn service) := by
  rw [funext (documentTurn_eq service)]
  refine .ite (c := (·.isAt .endOfInput)) agrees_done
    (Agree.byKind (g := fun kind d => d.place none (documentItem service kind))
      (f := fun kind d => d.place none (documentItem service kind)) fun kind => Agree.place none ?_).again
  rw [documentItem.eq_def]
  split
  · exact taking_rulesVersion.agree
  · exact goes.agrees
  · exact agrees_skipUntil _

theorem onward_documentItems {service : Production} (goes : Goes service) (f : SourceFile) :
    (State.start f).Onward (documentItems service f).state := by
  have items : (State.start f).Onward ((Draft.opened .sourceFile (State.start f)).loop (documentTurn service)).state :=
    onward_of_agree (fun _ _ => Agree.loop (agrees_documentTurn goes)) (Draft.opened .sourceFile (State.start f))
  rw [documentItems]
  split
  · exact items
  · exact items.trans (Draft.onward_attach _ _ _)

/-- The loops of the parser. -/
inductive LoopName where
  | document | serviceName | matchBody | matchPath | functionBody | parameters | methods
  /-- The operators of a tier, between operands that the operators of some tiers join. -/
  | operators (tiers : List Tier) (tier : Tier)
  | accesses | arguments | list | map | path | segment
  | skipUntil (stop : TokenKind → Bool) | collapse

/-- A loop of the parser, with nested productions. -/
def LoopName.loop (nested : Recurrent → Production) : LoopName → Loop
  | document => .ofDraft (documentTurn (serviceOf (nested .matchBody)))
  | serviceName => .ofDraft serviceNameTurn
  | matchBody => .ofDraft (bodyTurn (bodyItem? (nested .matchBody) (nested .expression)))
  | matchPath => .ofDraft matchPathTurn
  | functionBody => .ofDraft (bodyTurn (functionItem? (nested .expression)))
  | parameters => .ofDraft parameterTurn
  | methods => .ofDraft methodTurn
  | operators tiers tier => .ofDraft (infixTurn (operandsOf (nested .unary) tiers).beside tier)
  | accesses => .ofDraft (postfixTurn (nested .expression))
  | arguments => .ofDraft (itemTurn .rightParen (·.place none (nested .expression)))
  | list => .ofDraft (itemTurn .rightBracket (·.place (some .element) (nested .expression)))
  | map => .ofDraft (itemTurn .rightBrace (·.place (some .entry) (mapEntry (nested .expression))))
  | path => .ofDraft (pathTurn (nested .expression))
  | segment => ⟨State, id, segmentTurn⟩
  | skipUntil stop => .ofNested (skipTurn stop)
  | collapse => .ofNested collapseTurn

theorem LoopName.advances {nested : Recurrent → Production} (goes : ∀ k, Goes (nested k)) (name : LoopName) :
    (name.loop nested).Advances := by
  have expression {o : State} {n : Nat} := (goes .expression).agrees (o := o) (n := n)
  have body {o : State} {n : Nat} := (goes .matchBody).agrees (o := o) (n := n)
  cases name with
  | document => exact Loop.advances_document fun s => behind_of_taking (fun _ _ => body.serviceOf) s
  | serviceName => exact Loop.advances_serviceName
  | matchBody =>
    refine Loop.advances_body fun kind p item s => ?_
    rw [bodyItem?.eq_def] at item
    split at item
    · cases item
      exact behind_of_taking (fun _ _ => body.matchDef) s
    · cases item
      exact behind_of_taking (fun _ _ => expression.functionDef) s
    · cases item
      exact behind_of_taking (fun _ _ => expression.ruleDef) s
    · cases item
  | matchPath => exact Loop.advances_matchPath
  | functionBody =>
    refine Loop.advances_body fun kind p item s => ?_
    rw [functionItem?.eq_def] at item
    split at item
    · cases item
      exact behind_of_taking (fun _ _ => expression.variableDef) s
    · cases item
      exact behind_of_taking (fun _ _ => expression.returnStatement) s
    · cases item
  | parameters => exact Loop.advances_parameters
  | methods => exact Loop.advances_methods
  | operators tiers tier =>
    refine Loop.advances_operators (fun t s => ?_) tier
    exact onward_of_agree (fun _ _ => ((goes .unary).agrees.operands tiers).1 t) s
  | accesses => exact Loop.advances_accesses (goes .expression)
  | arguments => exact Loop.advances_items _ fun d => Draft.onward_place _ (goes .expression d.state)
  | list => exact Loop.advances_items _ fun d => Draft.onward_place _ (goes .expression d.state)
  | map =>
    exact Loop.advances_items _ fun d =>
      Draft.onward_place _ (onward_of_agree (fun _ _ => expression.mapEntry) d.state)
  | path => exact Loop.advances_path (goes .expression)
  | segment => exact Loop.advances_segment
  | skipUntil stop => exact Loop.advances_skipUntil stop
  | collapse => exact Loop.advances_collapse

/-- The tokens ahead, the empty one at the end included. -/
def State.tokens (s : State) : List Token := s.rest ++ [Token.endAt s.file.size]

/-- Wherever the parser gets, the token it looks at and the one behind that are among the tokens, and none of them is
behind the one at the end. -/
theorem State.Onward.tokens {s v : State} (onward : s.Onward v) : ∃ i ≤ s.rest.length,
    v.tokens = s.tokens.drop i ∧ s.tokens[i]? = some v.peek ∧
      s.tokens[min (i + 1) s.rest.length]? = some v.peekSecond := by
  obtain ⟨file, front, rest⟩ := onward
  have tokens : s.tokens = front ++ v.tokens := by
    rw [State.tokens, State.tokens, file, ← rest, List.append_assoc]
  have length : s.rest.length = front.length + v.rest.length := by rw [← rest, List.length_append]
  have later (i : Nat) : s.tokens[front.length + i]? = v.tokens[i]? := by
    rw [tokens, List.getElem?_append_right (Nat.le_add_right _ _), Nat.add_sub_cancel_left]
  refine ⟨front.length, by omega, by rw [tokens, List.drop_left], ?_, ?_⟩
  · rw [← Nat.add_zero front.length, later, State.tokens, State.peek]
    cases v.rest <;> rfl
  · cases shape : v.rest with
    | nil =>
      have last : min (front.length + 1) s.rest.length = front.length + 0 := by
        rw [length, shape]
        simp
      rw [last, later, State.tokens, State.peekSecond, shape]
      rfl
    | cons t behind =>
      have next : min (front.length + 1) s.rest.length = front.length + 1 := by
        rw [length, shape, List.length_cons]
        omega
      rw [next, later, State.tokens, State.peekSecond, shape]
      cases behind <;> rfl

/-- What the parser without a budget is like. -/
structure Unaided (limit : Nat) (nested : Recurrent → Production) : Prop where
  /-- The equations hold for it. -/
  solves : ∀ k, k.reads limit nested = nested k
  /-- They hold for nothing else. -/
  only : ∀ other : Recurrent → Production, (∀ k, k.reads limit other = other k) → other = nested
  /-- More levels than there are tokens change nothing. -/
  levels : ∀ (k : Recurrent) (levels : Nat) (s : State), s.rest.length < levels → k.counted limit levels s = nested k s
  /-- A turn of a loop takes tokens, or it is the last one. -/
  advances : ∀ name : LoopName, (name.loop nested).Advances
  /-- No loop is cut short. -/
  runs : ∀ (name : LoopName) (v : (name.loop nested).Value),
    (name.loop nested).Runs v (iterate (name.loop nested).stateOf (name.loop nested).turn v)
  /-- What nested productions would read anywhere else than inside a call does not matter. -/
  elsewhere : ∀ (call : Call) (other : Recurrent → Production),
    (∀ c : Call, c.Inside call → other c.1 c.2 = nested c.1 c.2) →
      call.1.reads limit other call.2 = nested call.1 call.2
  /-- A production is entered again only behind tokens that have been taken since. -/
  reentry : ∀ (k : Recurrent) (s v : State),
    Relation.TransGen (Call.MadeBy limit nested) (k, v) (k, s) → s.Beyond v
  /-- Calls do not nest forever. -/
  founded : WellFounded (Call.MadeBy limit nested)
  /-- No production goes back or beyond the end. -/
  goes : ∀ (kind : Nonterminal) (levels : Nat), Goes (kind.read limit levels)

open Recurrent in
/-- For every limit the equations of the parser have a solution that needs no budget: its loops and its recursion end
since they take tokens. It is what the parser reads, and it never looks beyond the token at the end. -/
theorem parse_ends_unaided (maxDepth : Int) : ∃ nested : Recurrent → Production,
    Unaided (depthLimit maxDepth) nested ∧
      (∀ f : SourceFile, parse f maxDepth = closeRoot (documentItems (serviceOf (nested .matchBody)) f) ∧
        (State.start f).Onward (documentItems (serviceOf (nested .matchBody)) f).state) ∧
        ∀ s v : State, s.Onward v → ∃ i ≤ s.rest.length, v.tokens = s.tokens.drop i ∧
          s.tokens[i]? = some v.peek ∧ s.tokens[min (i + 1) s.rest.length]? = some v.peekSecond := by
  have advances := LoopName.advances (goes_unbounded (depthLimit maxDepth))
  have service : Goes (serviceOf (unbounded (depthLimit maxDepth) .matchBody)) := fun s =>
    onward_of_agree (fun _ _ => (goes_unbounded _ .matchBody).agrees.serviceOf.agree) s
  refine ⟨unbounded (depthLimit maxDepth), ⟨reads_unbounded _, fun _ => eq_unbounded, ?_, advances,
    fun name => (advances name).runs, ?_, ?_, ?_, fun kind => goes_read kind _⟩,
    fun f => ⟨parse_eq_unbounded f maxDepth, onward_documentItems service f⟩, fun _ _ onward => onward.tokens⟩
  · intro k levels s more
    have enough : Call.levels (k, s) ≤ levels := by
      cases k
      all_goals
        simp only [Call.levels]
        omega
    exact (unbounded_eq enough).symm
  · intro call other same
    rw [← reads_unbounded]
    exact (reads_meets _ (goes_unbounded _) call same).1
  · intro k s v chain
    exact (Call.inside_of_transGen chain).beyond
  · exact Subrelation.wf Call.MadeBy.inside Call.wellFounded_inside

end SecurityRules.Parser
