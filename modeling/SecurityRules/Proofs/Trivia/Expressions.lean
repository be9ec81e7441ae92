import SecurityRules.Proofs.Trivia.Steps

/-!
# Expressions over the same words

Recovery and every production of expressions read trees that are alike from states that are the same. The knot of the
expressions is tied by induction on the nesting still allowed.
-/

namespace SecurityRules.Parser

open ParseTree (Alike)

variable {f f' : SourceFile} {s s' : State} {kind : NodeKind} {d d' : Draft}

/-! ## Recovery -/

theorem stable_stray : Stable stray := by
  refine stable_branch rfl NodeKind.noConfusion fun f f' d d' grows => ?_
  rw [← grows.isAt]
  split
  · exact grows
  · exact grows.take none

theorem Grows.expect (grows : Grows f f' kind d d') (wanted : TokenKind) (free : kind.isLabelled none = false) :
    Grows f f' kind (d.expect wanted) (d'.expect wanted) := by
  rw [Draft.expect, Draft.expect, ← grows.isAt, ← grows.state.isAtSync, ← grows.state.second_kind]
  split
  · exact grows.take none
  · split
    · exact (grows.place (stable_stray _ _ _ _ grows.state) none free).take none
    · exact grows.lacking none NodeKind.noConfusion

theorem Grows.finds (grows : Grows f f' kind d d') (wanted : TokenKind) : d.finds wanted = d'.finds wanted := by
  rw [Draft.finds, Draft.finds, grows.isAt, grows.state.isAtSync, grows.state.second_kind]

/-- Errors in the making with the same number of open brackets. -/
structure NestedGrows (f f' : SourceFile) (n n' : Nested) : Prop where
  depth : n.depth = n'.depth
  grows : Grows f f' .error n.draft n'.draft

theorem NestedGrows.toError {n n' : Nested} (nested : NestedGrows f f' n n') : Pair f f' n.toError n'.toError := by
  rw [Nested.toError, Nested.toError, ← nested.grows.isBare]
  split
  · refine ⟨?_, rfl, nested.grows.state⟩
    exact .leaf rfl rfl rfl rfl rfl ((f.bytesBetween_self _).trans (f'.bytesBetween_self _).symm)
  · exact nested.grows.pair NodeKind.noConfusion

/-- A turn of a skip does the same on both sides. Of the states in front of it only what is asked matters. -/
theorem related_skipTurn (stop : TokenKind → Bool) {n n' : Nested} (depth : n.depth = n'.depth)
    (kinds : n.draft.state.peek.kind = n'.draft.state.peek.kind) (bare : n.draft.isBare = n'.draft.isBare)
    (here : n.draft.state.peek.kind = .endOfInput ∨ n.draft.isBare = false → Grows f f' .error n.draft n'.draft)
    (taken : Grows f f' .error n.draft.take n'.draft.take) :
    Turn.Related (NestedGrows f f') (skipTurn stop n) (skipTurn stop n') := by
  rw [skipTurn, skipTurn]
  dsimp only
  rw [Draft.isAt, Draft.isAt, State.isAt, State.isAt, ← kinds, ← depth, ← bare]
  split
  · rename_i ended
    exact .done ⟨depth, here (Or.inl (beq_iff_eq.mp ended))⟩
  · split
    · rename_i stopped
      simp only [Bool.and_eq_true, Bool.not_eq_true'] at stopped
      exact .done ⟨depth, here (Or.inr stopped.1.2)⟩
    · exact .ite rfl (.done ⟨rfl, taken⟩) (.again ⟨rfl, taken⟩)

/-- A skip starts with the next token, whatever that touches. -/
theorem Near.skipUntil (near : Near f f' s s') (stop : TokenKind → Bool) :
    Pair f f' (skipUntil stop s) (skipUntil stop s') := by
  refine NestedGrows.toError (iterate_related (fun _ _ nested => nested.grows.state.length_rest) near.length_rest ?_ ?_)
  · refine related_skipTurn stop rfl near.peek.1 rfl ?_ (near.take none rfl)
    rintro (ended | grown)
    · exact (near.same_of_end ended).opened rfl
    · cases grown
  · intro n n' nested
    exact related_skipTurn stop nested.depth nested.grows.state.kind nested.grows.isBare (fun _ => nested.grows)
      (nested.grows.take none)

theorem stable_collapse : Stable collapse := by
  intro f f' s s' same
  have start : NestedGrows f f' ⟨0, Draft.opened .error s⟩ ⟨0, Draft.opened .error s'⟩ := ⟨rfl, same.opened rfl⟩
  have step : ∀ n n', NestedGrows f f' n n' → Turn.Related (NestedGrows f f') (collapseTurn n) (collapseTurn n') := by
    intro n n' nested
    rw [collapseTurn, collapseTurn]
    dsimp only
    rw [Draft.isAt, Draft.isAt, State.isAt, State.isAt, ← nested.grows.state.kind, ← nested.depth]
    exact .ite rfl (.done nested) (.ite rfl (.done nested) (.again ⟨rfl, nested.grows.take none⟩))
  exact NestedGrows.toError (iterate_related (fun _ _ nested => nested.grows.state.length_rest)
    start.grows.state.length_rest (step _ _ start) step)

/-! ## Segments of paths -/

theorem isSegmentToken_ne {k : TokenKind} (isSegment : isSegmentToken k = true) : k ≠ .endOfInput := by
  rintro rfl
  cases isSegment

theorem rest_of_isSegmentToken (isSegment : isSegmentToken s.peek.kind = true) : s.rest ≠ [] :=
  State.rest_ne_nil (isSegmentToken_ne isSegment)

/-- Whether a word goes on behind what has been taken, where words of its sort are not at the end. -/
theorem Same.and_isAdjacent (same : Same f f' s s') {p : TokenKind → Bool} (ahead : p .endOfInput = false) :
    (p s.peek.kind && s.isAdjacent) = (p s'.peek.kind && s'.isAdjacent) := by
  rw [← same.kind]
  cases found : p s.peek.kind with
  | false => rfl
  | true =>
    refine congrArg _ (same.isAdjacent (State.rest_ne_nil fun ended => ?_))
    rw [ended, ahead] at found
    cases found

theorem lastStop_advance (ahead : s.rest ≠ []) : s.advance.lastStop = s.peek.stop := by
  obtain ⟨t, rest, shape⟩ := List.exists_cons_of_ne_nil ahead
  rw [State.advance, shape, State.peek_of_rest shape]
  rfl

/-- States that are the same, behind texts from given offsets on that are equal. -/
structure SegmentRun (f f' : SourceFile) (start start' : Nat) (s s' : State) : Prop where
  same : Same f f' s s'
  forward : start ≤ s.lastStop
  forward' : start' ≤ s'.lastStop
  text : f.bytesBetween start s.lastStop = f'.bytesBetween start' s'.lastStop

theorem SegmentRun.advance {start start' : Nat} (running : SegmentRun f f' start start' s s')
    (isSegment : isSegmentToken s.peek.kind = true) (adjacent : s.peek.start = s.lastStop)
    (adjacent' : s'.peek.start = s'.lastStop) : SegmentRun f f' start start' s.advance s'.advance := by
  have same := running.same
  have ahead := rest_of_isSegmentToken isSegment
  have ahead' : s'.rest ≠ [] := rest_of_isSegmentToken (same.kind ▸ isSegment)
  obtain ⟨forward, text⟩ := same.first.spelled_peek
  obtain ⟨forward', text'⟩ := same.second.spelled_peek
  rw [adjacent] at forward text
  rw [adjacent'] at forward' text'
  have low := running.forward
  have low' := running.forward'
  have stop := lastStop_advance ahead
  have stop' := lastStop_advance ahead'
  refine ⟨same.near.advance, by omega, by omega, ?_⟩
  rw [stop, stop', ← f.bytesBetween_append low forward, ← f'.bytesBetween_append low' forward', running.text, text,
    text', same.text]

theorem Same.passSegment (same : Same f f' s s') (isSegment : isSegmentToken s.peek.kind = true) :
    SegmentRun f f' s.peek.start s'.peek.start s.passSegment s'.passSegment := by
  have ahead := rest_of_isSegmentToken isSegment
  have ahead' : s'.rest ≠ [] := rest_of_isSegmentToken (same.kind ▸ isSegment)
  have first : SegmentRun f f' s.peek.start s'.peek.start s.advance s'.advance := by
    obtain ⟨forward, text⟩ := same.first.spelled_peek
    obtain ⟨forward', text'⟩ := same.second.spelled_peek
    have stop := lastStop_advance ahead
    have stop' := lastStop_advance ahead'
    exact ⟨same.near.advance, by omega, by omega, by rw [stop, stop', text, text', same.text]⟩
  have step : ∀ v v', SegmentRun f f' s.peek.start s'.peek.start v v' →
      Turn.Related (SegmentRun f f' s.peek.start s'.peek.start)
        (if isSegmentToken v.peek.kind && v.isAdjacent then .again v.advance else .done v)
        (if isSegmentToken v'.peek.kind && v'.isAdjacent then .again v'.advance else .done v') := by
    intro v v' running
    have both : (isSegmentToken v.peek.kind && v.isAdjacent) = (isSegmentToken v'.peek.kind && v'.isAdjacent) :=
      running.same.and_isAdjacent rfl
    cases goes : isSegmentToken v.peek.kind && v.isAdjacent with
    | true =>
      rw [goes] at both
      obtain ⟨isSegment, adjacent⟩ := Bool.and_eq_true_iff.mp goes
      rw [← both]
      exact .again (running.advance isSegment (beq_iff_eq.mp adjacent)
        (beq_iff_eq.mp (Bool.and_eq_true_iff.mp both.symm).2))
    | false =>
      rw [← both, goes]
      exact .done running
  exact iterate_related (fun _ _ running => running.same.length_rest) first.same.length_rest (step _ _ first) step

theorem Same.segment (same : Same f f' s s') (isSegment : isSegmentToken s.peek.kind = true) (other : kind ≠ .comment) :
    Pair f f' (segment kind s) (segment kind s') :=
  have running := same.passSegment isSegment
  ⟨alike_leaf kind running.text, beq_eq_false_iff_ne.mpr other, running.same⟩

theorem related_slashTurn (grows : Grows f f' kind d d') :
    Turn.Related (Grows f f' kind) (slashTurn d) (slashTurn d') := by
  rw [slashTurn, slashTurn]
  exact .ite (grows.state.and_isAdjacent (p := (· == .slash)) rfl) (.again grows) (.done grows)

theorem related_slashedPart {opening : TokenKind} {bracketed : Production} {leaf : NodeKind}
    (grows : Grows f f' kind d d') (stable : Stable bracketed) (other : leaf ≠ .comment)
    (free : kind.isLabelled (some .segment) = false) :
    Turn.Related (Grows f f' kind) (slashedPart opening bracketed leaf d) (slashedPart opening bracketed leaf d') := by
  rw [slashedPart, slashedPart, ← grows.isAt, ← grows.state.kind]
  split
  · exact related_slashTurn (grows.place (stable _ _ _ _ grows.state) _ free)
  · split
    · rename_i isSegment
      exact related_slashTurn (grows.place (grows.state.segment isSegment other) _ free)
    · exact .done (grows.lacking _ other)

/-! ## Expressions -/

section

variable {expression : Production}

theorem Grows.items {closing : TokenKind} {item : Draft → Draft} (grows : Grows f f' kind d d')
    (free : kind.isLabelled none = false)
    (step : ∀ d d', Grows f f' kind d d' → Grows f f' kind (item d) (item d')) :
    Grows f f' kind (d.items closing item) (d'.items closing item) := by
  refine Grows.expect (grows.loop fun d d' grows => ?_) closing free
  have placed := step d d' grows
  rw [itemTurn, itemTurn]
  refine .ite (by rw [grows.isAt, grows.state.kind]) (.done grows) ?_
  exact .ite (placed.isAt .comma) (.again (placed.take none)) (.done placed)

/-- A tree that has been read becomes the first child of another one. -/
theorem Pair.wrapped {r r' : ParseTree × State} (pair : Pair f f' r r') {role : Option Role}
    (inner : kind.isSpelled = false) (free : kind.isLabelled role = false) :
    Grows f f' kind ((Draft.opened kind r.2).attach role r.1) ((Draft.opened kind r'.2).attach role r'.1) := by
  refine grows_attach (alike_opened kind r.2 r'.2) rfl pair role inner fun labelled => ?_
  have labelled : kind.isLabelled role = true := labelled
  rw [free] at labelled
  cases labelled

/-- Drafts whose trees are alike, and no comments, with states that are the same. -/
def Held (f f' : SourceFile) (d d' : Draft) : Prop := Pair f f' (d.tree, d.state) (d'.tree, d'.state)

theorem Held.loop {turn : Draft → Turn Draft} (held : Held f f' d d')
    (step : ∀ d d', Held f f' d d' → Turn.Related (Held f f') (turn d) (turn d')) :
    Held f f' (d.loop turn) (d'.loop turn) :=
  iterate_related (fun _ _ held => held.state.length_rest) held.state.length_rest (step d d' held) step

variable (stable : Stable expression)
include stable

theorem Grows.read {role : Option Role} (grows : Grows f f' kind d d') (free : kind.isLabelled role = false) :
    Grows f f' kind (d.place role expression) (d'.place role expression) :=
  grows.place (stable _ _ _ _ grows.state) role free

theorem stable_argumentList : Stable (argumentList expression) :=
  stable_branch rfl NodeKind.noConfusion fun _ _ _ _ grows =>
    (grows.take none).items rfl fun _ _ grows => grows.read stable rfl

theorem stable_functionCall : Stable (functionCall expression) :=
  stable_branch rfl NodeKind.noConfusion fun _ _ _ _ grows =>
    (grows.takeAs (some .name) NodeKind.noConfusion).read (stable_argumentList stable) rfl

theorem stable_parenthesized : Stable (parenthesized expression) :=
  stable_branch rfl NodeKind.noConfusion fun _ _ _ _ grows =>
    ((grows.take none).read stable rfl).expect .rightParen rfl

theorem stable_list : Stable (list expression) :=
  stable_branch rfl NodeKind.noConfusion fun _ _ _ _ grows =>
    (grows.take none).items rfl fun _ _ grows => grows.read stable rfl

theorem stable_mapEntry : Stable (mapEntry expression) :=
  stable_branch rfl NodeKind.noConfusion fun _ _ _ _ grows =>
    ((grows.read stable rfl).expect .colon rfl).read stable rfl

theorem stable_map : Stable (map expression) :=
  stable_branch rfl NodeKind.noConfusion fun _ _ _ _ grows =>
    (grows.take none).items rfl fun _ _ grows => grows.read (stable_mapEntry stable) rfl

theorem stable_interpolation : Stable (interpolation expression) :=
  stable_branch rfl NodeKind.noConfusion fun _ _ _ _ grows =>
    ((((grows.take none).expect .leftParen rfl).read stable rfl).expect .rightParen rfl)

theorem stable_path : Stable (path expression) :=
  stable_branch rfl NodeKind.noConfusion fun _ _ _ _ grows =>
    grows.loop fun _ _ grows =>
      related_slashedPart (grows.take none) (stable_interpolation stable) NodeKind.noConfusion rfl

theorem stable_primary : Stable (primary expression) := by
  intro f f' s s' same
  rw [primary, primary, ← same.kind, ← same.second_kind]
  split
  · split
    · exact stable_functionCall stable _ _ _ _ same
    · exact stable_leafOf NodeKind.noConfusion _ _ _ _ same
  · exact stable_leafOf NodeKind.noConfusion _ _ _ _ same
  · exact stable_leafOf NodeKind.noConfusion _ _ _ _ same
  · exact stable_leafOf NodeKind.noConfusion _ _ _ _ same
  · exact stable_leafOf NodeKind.noConfusion _ _ _ _ same
  · exact stable_leafOf NodeKind.noConfusion _ _ _ _ same
  · exact stable_parenthesized stable _ _ _ _ same
  · exact stable_list stable _ _ _ _ same
  · exact stable_map stable _ _ _ _ same
  · exact stable_path stable _ _ _ _ same
  · split
    · exact same.placeholder NodeKind.noConfusion
    · exact stable_stray _ _ _ _ same

theorem stable_memberField : Stable (memberField expression) := by
  intro f f' s s' same
  rw [memberField, memberField, ← same.isAt, ← same.kind, ← same.second_kind]
  split
  · split
    · exact stable_functionCall stable _ _ _ _ same
    · exact stable_leafOf NodeKind.noConfusion _ _ _ _ same
  · exact same.placeholder NodeKind.noConfusion

theorem Grows.rangeTail (grows : Grows f f' .range d d') :
    Grows f f' .range (d.rangeTail expression) (d'.rangeTail expression) := by
  have taken := grows.take none
  rw [Draft.rangeTail, Draft.rangeTail, Draft.isAtAny, Draft.isAtAny, ← taken.state.isAtAny]
  split
  · exact taken
  · exact taken.read stable rfl

omit stable in
theorem index_eq (expression : Production) (s : State) : index expression s =
    if s.isAt .colon then branch .range (·.rangeTail expression) s
    else if (expression s).2.isAt .colon then
      branch .range (fun d => (d.attach (some .start) (expression s).1).rangeTail expression) (expression s).2
    else expression s := rfl

theorem stable_index : Stable (index expression) := by
  intro f f' s s' same
  rw [index_eq, index_eq, ← same.isAt]
  split
  · exact ((same.opened rfl).rangeTail stable).pair NodeKind.noConfusion
  · have first := stable _ _ _ _ same
    rw [← first.state.isAt]
    split
    · exact ((first.wrapped rfl rfl).rangeTail stable).pair NodeKind.noConfusion
    · exact first

theorem related_postfixTurn (pair : Held f f' d d') :
    Turn.Related (Held f f') (postfixTurn expression d) (postfixTurn expression d') := by
  have dot : d.isAt .dot = d'.isAt .dot := pair.state.isAt .dot
  have bracket : d.isAt .leftBracket = d'.isAt .leftBracket := pair.state.isAt .leftBracket
  rw [postfixTurn, postfixTurn, ← dot, ← bracket]
  split
  · exact .again ((((pair.wrapped rfl rfl).take none).read (stable_memberField stable) rfl).pair
      NodeKind.noConfusion)
  · split
    · exact .again (((((pair.wrapped rfl rfl).take none).read (stable_index stable) rfl).expect .rightBracket
        rfl).pair NodeKind.noConfusion)
    · exact .done pair

theorem stable_postfixed : Stable (postfixed expression) := by
  intro f f' s s' same
  have first : Held f f' ⟨_, _⟩ ⟨_, _⟩ := stable_primary stable _ _ _ _ same
  exact first.loop fun _ _ held => related_postfixTurn stable held

omit stable in
theorem inner_infixOperator {k : TokenKind} {tier : Tier} (known : infixOperator? k = some (tier, kind)) :
    kind.isSpelled = false ∧ kind ≠ .comment ∧ kind.isLabelled (some .left) = false ∧
      (kind ≠ .typeComparison → kind.isLabelled (some .right) = false) := by
  unfold infixOperator? at known
  split at known
  all_goals
    cases known
    try exact ⟨rfl, NodeKind.noConfusion, rfl, fun other => by first | rfl | exact absurd rfl other⟩

omit stable in
/-- An operator and its right operand behind a left operand. -/
theorem pair_joined {operand : Tier → Production} (stable : ∀ t, Stable (operand t)) {k : TokenKind} {tier : Tier}
    (held : Held f f' d d') (known : infixOperator? k = some (tier, kind)) :
    Pair f f' (branch kind (fun n =>
        let n := (n.attach (some .left) d.tree).take (some .operator)
        if kind = .typeComparison then
          if n.isAt .identifier then n.takeAs (some .right) .typeName
          else n.lacking (some .right) .typeName
        else n.place (some .right) (operand tier)) d.state)
      (branch kind (fun n =>
        let n := (n.attach (some .left) d'.tree).take (some .operator)
        if kind = .typeComparison then
          if n.isAt .identifier then n.takeAs (some .right) .typeName
          else n.lacking (some .right) .typeName
        else n.place (some .right) (operand tier)) d'.state) := by
  obtain ⟨inner, other, free, freeRight⟩ := inner_infixOperator known
  have taken := (Pair.wrapped held inner free).take (some .operator)
  refine (?_ : Grows f f' kind _ _).pair other
  dsimp only
  split
  · rw [← taken.isAt]
    split
    · exact taken.takeAs _ NodeKind.noConfusion
    · exact taken.lacking _ NodeKind.noConfusion
  · rename_i noType
    exact taken.read (stable tier) (freeRight noType)

omit stable in
theorem related_infixTurn {operand : Tier → Production} (stable : ∀ t, Stable (operand t)) (tier : Tier)
    (held : Held f f' d d') : Turn.Related (Held f f') (infixTurn operand tier d) (infixTurn operand tier d') := by
  have kinds : d.state.peek.kind = d'.state.peek.kind := held.state.kind
  rw [infixTurn, infixTurn, ← kinds]
  split
  · rename_i found kind known
    split
    · exact .again (pair_joined stable held known)
    · exact .done held
  · exact .done held

omit stable in
theorem stable_infixed {operand : Tier → Production} (stable : ∀ t, Stable (operand t)) (tier : Tier) :
    Stable (infixed operand tier) := by
  intro f f' s s' same
  have first : Held f f' ⟨_, _⟩ ⟨_, _⟩ := stable tier _ _ _ _ same
  exact first.loop fun _ _ held => related_infixTurn stable tier held

omit stable in
theorem stable_loosen {o : Operands} (tier : Tier) (stable : (∀ t, Stable (o.beside t)) ∧ Stable o.joined) :
    (∀ t, Stable ((o.loosen tier).beside t)) ∧ Stable (o.loosen tier).joined := by
  have beside : ∀ t, Stable ((o.loosen tier).beside t) := by
    intro t
    rw [Operands.loosen]
    dsimp only
    split
    · exact stable.2
    · exact stable.1 t
  exact ⟨beside, stable_infixed beside tier⟩

omit stable in
theorem stable_binary {unary : Production} (stable : Stable unary) : Stable (binary unary) := by
  rw [binary]
  suffices keeps : ∀ (tiers : List Tier) (o : Operands),
      (∀ t, Stable (o.beside t)) ∧ Stable o.joined → Stable (tiers.foldl Operands.loosen o).joined from
    keeps _ _ ⟨fun _ => stable, stable⟩
  intro tiers
  induction tiers with
  | nil => exact fun o stable => stable.2
  | cons tier rest ih => exact fun o stable => ih _ (stable_loosen tier stable)

theorem stable_ternary {unary : Production} (operand : Stable unary) : Stable (ternary unary expression) := by
  intro f f' s s' same
  have first := stable_binary operand _ _ _ _ same
  rw [ternary, ternary]
  dsimp only
  rw [← first.state.isAt]
  split
  · exact (((((first.wrapped rfl rfl).take none).read stable rfl).expect .colon rfl).read stable rfl).pair
      NodeKind.noConfusion
  · exact first

theorem stable_unary : Stable (unary expression) :=
  stable_branch rfl NodeKind.noConfusion fun _ _ _ _ grows => (grows.take (some .operator)).read stable rfl

end

/-- Expressions and operands are alike whatever nesting is still allowed. -/
theorem stable_expressionAt (budget : Nat) : Stable (expressionAt budget) ∧ Stable (unaryAt budget) := by
  induction budget with
  | zero =>
    refine ⟨fun f f' s s' same => stable_collapse _ _ _ _ same, fun f f' s s' same => ?_⟩
    rw [unaryAt, unaryAt, State.isAtUnary, State.isAtUnary, ← same.isAtAny]
    split
    · exact stable_collapse _ _ _ _ same
    · exact stable_postfixed stable_collapse _ _ _ _ same
  | succ budget ih =>
    have nested := stable_ternary ih.1 ih.2
    refine ⟨fun f f' s s' same => ?_, fun f f' s s' same => ?_⟩
    · rw [expressionAt, expressionAt]
      exact nested _ _ _ _ same
    · rw [unaryAt, unaryAt, State.isAtUnary, State.isAtUnary, ← same.isAtAny]
      split
      · exact stable_unary ih.2 _ _ _ _ same
      · exact stable_postfixed nested _ _ _ _ same

end SecurityRules.Parser
