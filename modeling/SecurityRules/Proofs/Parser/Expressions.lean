import SecurityRules.Parser.Declaration
import SecurityRules.Proofs.Parser.Steps

/-!
# Expressions read the text

One theorem for each production of recovery and of expressions: from the states at which it is asked for a
tree, it reads one. The knot of the expressions is tied by induction on the nesting still allowed.
-/

namespace SecurityRules.Parser

variable {f : SourceFile} {s : State} {kind : NodeKind} {reach : Nat} {d : Draft}

theorem Growing.opened (place : State.At f s) (other : kind ≠ .comment) :
    Growing f kind s s.lastStop (Draft.opened kind s) :=
  .bare place other (Nat.le_refl _)

/-! ## Recovery -/

/-- A stray token is an error of its own. -/
theorem stray_eq (place : State.At f s) (ahead : s.rest ≠ []) :
    stray s = ((Draft.opened .error s).take.tree, (Draft.opened .error s).take.state) := by
  have there : (Draft.opened .error s).isAt .endOfInput = false :=
    beq_eq_false_iff_ne.mpr (place.peek_kind ahead)
  simp only [stray, branch, there, Bool.false_eq_true, ↓reduceIte]

theorem reads_stray (place : State.At f s) (ahead : s.rest ≠ []) : Reads f s (stray s) := by
  rw [stray_eq place ahead]
  exact ((Growing.opened place NodeKind.noConfusion).take none ahead).reads_error

theorem state_stray (place : State.At f s) (ahead : s.rest ≠ []) : (stray s).2 = s.advance := by
  rw [stray_eq place ahead]
  rfl

theorem rest_advance (s : State) : s.advance.rest = s.rest.drop 1 := by
  rw [State.advance]
  split
  · rename_i ended
    rw [ended]
    rfl
  · rename_i split
    rw [split]
    rfl

theorem drop_of_second {wanted : TokenKind} (second : s.peekSecond.kind = wanted)
    (other : wanted ≠ .endOfInput) : s.rest.drop 1 ≠ [] := by
  intro ended
  rw [State.peekSecond, ended] at second
  exact other second.symm

/-- What every child without a role establishes, `expect` establishes. -/
theorem expect_ends {P Q : Draft → Prop} {wanted : TokenKind} (holds : P d) (other : wanted ≠ .endOfInput)
    (placed : ∀ d, P d → State.At f d.state)
    (step : ∀ d r, P d → Reads f d.state r → Q (({ d with state := r.2 } : Draft).attach none r.1))
    (weaken : ∀ d, Q d → P d) : Q (d.expect wanted) := by
  have taken : ∀ d, P d → d.state.rest ≠ [] → Q d.take := by
    intro d holds ahead
    have place := placed d holds
    rw [Draft.take, Draft.takeAs, Draft.place_eq]
    exact step d _ holds (reads_leafOf place ahead (spells_leafKind (place.peek_mem ahead).2.1))
  have place := placed d holds
  rw [Draft.expect]
  split
  · rename_i found
    exact taken d holds (State.rest_of_isAt found other)
  · split
    · rename_i found
      obtain ⟨away, second⟩ := Bool.and_eq_true_iff.mp found
      have ahead : d.state.rest ≠ [] := by
        intro ended
        rw [State.isAtSync, State.peek_of_end ended] at away
        exact absurd away Bool.false_ne_true
      have passed := step d _ holds (reads_stray place ahead)
      rw [← Draft.place_eq] at passed
      refine taken _ (weaken _ passed) ?_
      rw [Draft.place_eq, Draft.rest_attach]
      show (stray d.state).2.rest ≠ []
      rw [state_stray place ahead, rest_advance]
      exact drop_of_second (beq_iff_eq.mp second) other
    · exact step d (_, d.state) holds (reads_placeholder place rfl)

theorem Growing.expect {wanted : TokenKind} (growing : Growing f kind s reach d)
    (other : wanted ≠ .endOfInput) : Grown f kind s reach (d.expect wanted) := by
  refine expect_ends growing other (fun _ growing => growing.place_state) ?_ (fun _ => .grown)
  intro d r growing reads
  have attached := growing.attach none reads
  exact attached.mono (Nat.le_trans (growing.reach_le reads.reading) attached.reaches)

theorem reads_toError {n : Nested} (growing : Growing f .error s reach n.draft) :
    Reads f s n.toError := by
  rw [Nested.toError]
  cases split : n.draft.isBare with
  | true =>
    simp only [↓reduceIte]
    generalize n.draft = d at growing split
    cases growing with
    | bare place other reaches => exact reads_emptyError place
    | grown grown => exact absurd (by simpa [Draft.isBare] using split) grown.grown
  | false =>
    simp only [Bool.false_eq_true, ↓reduceIte]
    generalize n.draft = d at growing split
    cases growing with
    | bare place other reaches => exact absurd split (by simp [Draft.isBare, Draft.opened, ParseTree.childless, ParseTree.children])
    | grown grown => exact grown.reads_error

theorem rest_of_not_end (there : ¬ d.isAt .endOfInput = true) : d.state.rest ≠ [] := by
  apply State.rest_ne_nil
  simpa [Draft.isAt, State.isAt] using there

theorem value_ite {α : Type} (c : Prop) [Decidable c] (value : α) :
    (if c then Turn.done value else Turn.again value).value = value := by
  split <;> rfl

/-- A turn of a skip takes the next token or nothing. -/
theorem draft_skipTurn (stop : TokenKind → Bool) (n : Nested) :
    (skipTurn stop n).value.draft = n.draft ∨
      n.draft.state.rest ≠ [] ∧ (skipTurn stop n).value.draft = n.draft.take := by
  rw [skipTurn]
  split
  · exact Or.inl rfl
  · rename_i there
    split
    · exact Or.inl rfl
    · right
      refine ⟨rest_of_not_end there, ?_⟩
      dsimp only
      rw [value_ite]

theorem reads_skipUntil (stop : TokenKind → Bool) (place : State.At f s) :
    Reads f s (skipUntil stop s) := by
  refine reads_toError (@?_ : Growing f .error s s.lastStop _)
  refine iterate_keeps (P := fun n : Nested => Growing f .error s s.lastStop n.draft)
    (Growing.opened place NodeKind.noConfusion) ?_
  intro n growing
  rcases draft_skipTurn stop n with same | ⟨ahead, taken⟩
  · rw [same]
    exact growing
  · rw [taken]
    exact .grown (growing.take_keeps none ahead)

/-- Skipping takes the next token whatever it is. -/
theorem takes_skipUntil (stop : TokenKind → Bool) (place : State.At f s) (ahead : s.rest ≠ []) :
    s.peek.stop ≤ (skipUntil stop s).1.stop := by
  have there : (Draft.opened .error s).isAt .endOfInput = false :=
    beq_eq_false_iff_ne.mpr (place.peek_kind ahead)
  have bare : (Draft.opened .error s).isBare = true := rfl
  have first : (skipTurn stop ⟨0, Draft.opened .error s⟩).value.draft = (Draft.opened .error s).take := by
    rw [skipTurn]
    simp only [there, bare, Bool.false_eq_true, ↓reduceIte, Bool.not_true, Bool.and_false, Bool.false_and]
    rw [value_ite]
  have taken := (Growing.opened place (NodeKind.noConfusion : NodeKind.error ≠ .comment)).take none ahead
  have grown : Grown f .error s s.peek.stop
      (iterate (·.draft.state) (skipTurn stop) ⟨0, Draft.opened .error s⟩).draft := by
    refine iterate_first (P := fun n : Nested => Grown f .error s s.peek.stop n.draft) ?_ ?_
    · rw [first]
      exact taken
    · intro n grown
      rcases draft_skipTurn stop n with same | ⟨ahead, taken⟩
      · rw [same]
        exact grown
      · rw [taken]
        exact Growing.take_keeps (.grown grown) none ahead
  rw [skipUntil]
  generalize iterate (·.draft.state) (skipTurn stop) ⟨0, Draft.opened .error s⟩ = n at grown
  have notBare : n.draft.isBare = false := by simpa [Draft.isBare] using grown.grown
  rw [Nested.toError, if_neg (by rw [notBare]; exact Bool.false_ne_true)]
  exact grown.reaches

theorem reader_collapse : Reader f collapse := by
  intro s place
  refine reads_toError (@?_ : Growing f .error s s.lastStop _)
  refine iterate_keeps (P := fun n : Nested => Growing f .error s s.lastStop n.draft) ?_ ?_
  · exact Growing.opened place NodeKind.noConfusion
  · intro n growing
    rw [collapseTurn]
    split
    · exact growing
    · rename_i there
      split
      · exact growing
      · exact .grown (growing.take_keeps none (rest_of_not_end there))

/-! ## Expressions -/

section

variable {expression : Production}

/-- Items between commas keep the reading if each item does. -/
theorem Growing.items {closing : TokenKind} {item : Draft → Draft} (growing : Grown f kind s reach d)
    (other : closing ≠ .endOfInput)
    (keeps : ∀ d, Grown f kind s reach d → Grown f kind s reach (item d)) :
    Grown f kind s reach (d.items closing item) := by
  rw [Draft.items]
  refine Growing.expect (.grown ?_) other
  refine iterate_keeps growing ?_
  intro d grown
  rw [itemTurn]
  split
  · exact grown
  · have placed := keeps d grown
    dsimp only
    split
    · rename_i found
      exact Growing.take_keeps (.grown placed) none (State.rest_of_isAt found TokenKind.noConfusion)
    · exact placed

theorem reads_argumentList (reader : Reader f expression) (place : State.At f s) (ahead : s.rest ≠ []) :
    Reads f s (argumentList expression s) := by
  refine reads_branch place ahead rfl ?_
  refine Growing.items ?_ TokenKind.noConfusion ?_
  · exact (Growing.opened place NodeKind.noConfusion).take none ahead
  · intro d grown
    exact Growing.read (.grown grown) _ reader

theorem reads_parenthesized (reader : Reader f expression) (place : State.At f s) (ahead : s.rest ≠ []) :
    Reads f s (parenthesized expression s) := by
  refine reads_branch place ahead rfl ?_
  refine Growing.expect (.grown ?_) TokenKind.noConfusion
  refine Growing.read (.grown ?_) _ reader
  exact (Growing.opened place NodeKind.noConfusion).take none ahead

theorem reads_list (reader : Reader f expression) (place : State.At f s) (ahead : s.rest ≠ []) :
    Reads f s (list expression s) := by
  refine reads_branch place ahead rfl ?_
  refine Growing.items ?_ TokenKind.noConfusion ?_
  · exact (Growing.opened place NodeKind.noConfusion).take none ahead
  · intro d grown
    exact Growing.read (.grown grown) _ reader

theorem reads_mapEntry (reader : Reader f expression) (place : State.At f s) :
    ReadsHollow f s (mapEntry expression s) := by
  refine Grown.reads_hollow (@?_ : Grown f .mapEntry s s.lastStop _) rfl
    ⟨NodeKind.noConfusion, NodeKind.noConfusion⟩
  refine Growing.read (.grown ?_) _ reader
  refine Growing.expect (.grown ?_) TokenKind.noConfusion
  exact (Growing.opened place NodeKind.noConfusion).read _ reader

theorem reads_interpolation (reader : Reader f expression) (place : State.At f s) (ahead : s.rest ≠ []) :
    Reads f s (interpolation expression s) := by
  refine reads_branch place ahead rfl ?_
  refine Growing.expect (.grown ?_) TokenKind.noConfusion
  refine Growing.read (.grown ?_) _ reader
  refine Growing.expect (.grown ?_) TokenKind.noConfusion
  exact (Growing.opened place NodeKind.noConfusion).take none ahead

theorem value_slashTurn (d : Draft) : (slashTurn d).value = d := by
  rw [slashTurn]
  split <;> rfl

/-- What stands behind a slash: something in brackets, or a segment. A path ends where neither starts. -/
def slashedPart (opening : TokenKind) (bracketed : Production) (leaf : NodeKind) (d : Draft) : Turn Draft :=
  if d.isAt opening then slashTurn (d.place (some .segment) bracketed)
  else if isSegmentToken d.state.peek.kind then slashTurn (d.place (some .segment) (segment leaf))
  else .done (d.lacking (some .segment) leaf)

theorem Growing.slashedPart {opening : TokenKind} {bracketed : Production} {leaf : NodeKind}
    (growing : Growing f kind s reach d) (isSegment : leaf.isSegment = true)
    (spells : ∀ k, leaf.spells k = isSegmentToken k)
    (inside : d.isAt opening = true → Reads f d.state (bracketed d.state)) :
    Grown f kind s reach (slashedPart opening bracketed leaf d).value := by
  rw [Parser.slashedPart]
  split
  · rename_i found
    rw [value_slashTurn]
    exact growing.place _ (inside found)
  · split
    · rename_i found
      rw [value_slashTurn]
      exact growing.place _ (reads_segment isSegment spells growing.place_state found)
    · exact growing.lacking _ (isLeaf_of_isSegment isSegment)

theorem pathTurn_eq (expression : Production) (d : Draft) :
    pathTurn expression d = slashedPart .dollar (interpolation expression) .pathSegment d.take := rfl

/-- A turn of a path takes a slash. -/
theorem Growing.pathTurn (reader : Reader f expression) (growing : Growing f kind s reach d)
    (ahead : d.state.rest ≠ []) : Grown f kind s d.state.peek.stop (pathTurn expression d).value := by
  have taken := growing.take none ahead
  rw [pathTurn_eq]
  refine Growing.slashedPart (.grown taken) rfl (fun _ => rfl) fun found => ?_
  exact reads_interpolation reader taken.reading.place (State.rest_of_isAt found TokenKind.noConfusion)

theorem isAt_of_slashedPart {opening : TokenKind} {bracketed : Production} {leaf : NodeKind} {next : Draft}
    (found : slashedPart opening bracketed leaf d = .again next) : next.isAt .slash = true := by
  have goesOn : ∀ d, slashTurn d = .again next → next.isAt .slash = true := by
    intro d again
    rw [slashTurn] at again
    split at again
    · rename_i glued
      rw [← Turn.again.inj again]
      exact (Bool.and_eq_true_iff.mp glued).1
    · cases again
  rw [slashedPart] at found
  split at found
  · exact goesOn _ found
  · split at found
    · exact goesOn _ found
    · cases found

/-- From the second turn on a path stands at a slash, which each turn takes. -/
theorem reads_path (reader : Reader f expression) (place : State.At f s) (ahead : s.rest ≠ []) :
    Reads f s (path expression s) := by
  refine reads_branch place ahead rfl ?_
  have keeps : ∀ d, Growing f .path s 0 d → d.state.rest ≠ [] → s.peek.stop ≤ d.state.peek.stop →
      Grown f .path s s.peek.stop (Parser.pathTurn expression d).value := by
    intro d growing ahead beyond
    have turned := growing.pathTurn reader ahead
    exact turned.mono (Nat.le_trans beyond turned.reaches)
  refine iterate_ends (P := fun d => Growing f .path s 0 d ∧ d.state.rest ≠ [] ∧
    s.peek.stop ≤ d.state.peek.stop) (Q := Grown f .path s s.peek.stop) ?_ ?_ ?_
  · exact ⟨.bare place NodeKind.noConfusion (Nat.zero_le _), ahead, Nat.le_refl _⟩
  · rintro d next ⟨growing, ahead', beyond⟩ found
    have turned := keeps d growing ahead' beyond
    rw [found] at turned
    have more : next.state.rest ≠ [] := State.rest_of_isAt (isAt_of_slashedPart found) TokenKind.noConfusion
    have reached := Growing.reach_le_peek (.grown turned) more
    exact ⟨⟨.grown (turned.mono (Nat.zero_le _)), more, reached⟩, turned⟩
  · rintro d next ⟨growing, ahead', beyond⟩ found
    have turned := keeps d growing ahead' beyond
    rw [found] at turned
    exact turned

/-- The name of a call is its first child. -/
theorem reads_functionCall (reader : Reader f expression) (place : State.At f s)
    (spelled : NodeKind.spells .identifier s.peek.kind = true)
    (second : s.peekSecond.kind = .leftParen) : Reads f s (functionCall expression s) := by
  have ahead : s.rest ≠ [] := by
    intro ended
    rw [State.peek_of_end ended] at spelled
    exact absurd spelled Bool.false_ne_true
  have first := reads_leafOf place ahead spelled
  have named := (Growing.opened place (NodeKind.noConfusion : NodeKind.functionCall ≠ .comment)).takeAs
    (some .name) ahead spelled
  have more : s.advance.rest ≠ [] := by
    rw [rest_advance]
    exact drop_of_second second TokenKind.noConfusion
  have arguments := reads_argumentList reader first.reading.place more
  have whole := (Growing.grown named).place (some .arguments) arguments
  have filled := whole.filled (f.laid_tokens.filled _ (place.peek_mem ahead).1)
  have children := named.children_attach (some .arguments) arguments.reading
  refine ⟨⟨whole.reading, ⟨?_, ?_, ?_, ?_, ?_, whole.firm⟩⟩, ?_⟩
  · intro isEmpty
    exact absurd (filled.symm.trans isEmpty) Bool.false_ne_true
  · intro kind
    exact absurd (whole.kind.symm.trans kind) NodeKind.noConfusion
  · intro kind
    exact absurd (whole.kind.symm.trans kind) NodeKind.noConfusion
  · intro _
    refine ⟨_, _, children, rfl, rfl, rfl, rfl, ?_⟩
    exact isEmpty_eq_false (f.laid_tokens.filled _ (place.peek_mem ahead).1)
  · rintro (kind | kind)
    · exact absurd (whole.kind.symm.trans kind) NodeKind.noConfusion
    · exact absurd (whole.kind.symm.trans kind) NodeKind.noConfusion
  · exact congrArg NodeKind.isHollow whole.kind

/-- The entries of a map so far start behind each other. -/
structure Entries (f : SourceFile) (s : State) (d : Draft) : Prop where
  grown : Grown f .map s s.peek.stop d
  sorted : (d.tree.childrenIn .entry).Pairwise fun a b => a.start < b.start
  before : ∀ e ∈ d.tree.childrenIn .entry, e.start ≤ d.tree.stop

/-- The text so far goes on behind the start of the last entry. -/
def Entries.Apart (d : Draft) : Prop := ∀ e ∈ d.tree.childrenIn .entry, e.start < d.tree.stop

theorem Entries.opened (place : State.At f s) (ahead : s.rest ≠ []) :
    Entries f s ((Draft.opened .map s).take) ∧ Entries.Apart ((Draft.opened .map s).take) := by
  have taken := (Growing.opened place (NodeKind.noConfusion : NodeKind.map ≠ .comment)).take none ahead
  have empty : ((Draft.opened .map s).take).tree.childrenIn .entry = [] := rfl
  refine ⟨⟨taken, ?_, ?_⟩, ?_⟩
  · rw [empty]
    exact List.Pairwise.nil
  · intro e member
    rw [empty] at member
    exact absurd member List.not_mem_nil
  · intro e member
    rw [empty] at member
    exact absurd member List.not_mem_nil

/-- A further child in no role leaves the entries alone. -/
theorem Entries.attach {r : ParseTree × State} (entries : Entries f s d)
    (reads : Reads f d.state r) : Entries f s (({ d with state := r.2 } : Draft).attach none r.1) ∧
      (d.tree.stop < r.1.stop →
        Entries.Apart (({ d with state := r.2 } : Draft).attach none r.1)) := by
  have same : (({ d with state := r.2 } : Draft).attach none r.1).tree.childrenIn .entry =
      d.tree.childrenIn .entry := by
    rw [entries.grown.childrenIn_attach none reads.reading .entry, if_neg (by simp), List.append_nil]
  have attached : Grown f .map s r.1.stop (({ d with state := r.2 } : Draft).attach none r.1) :=
    Growing.attach (.grown entries.grown) none reads
  have reached := Growing.reach_le (.grown entries.grown) reads.reading
  have further := attached.reaches
  have low := reads.reading.low
  have forward := reads.reading.forward
  have stop := entries.grown.reading.stop
  refine ⟨⟨attached.mono (by omega), ?_, ?_⟩, ?_⟩
  · rw [same]
    exact entries.sorted
  · intro e member
    rw [same] at member
    have := entries.before e member
    omega
  · intro longer e member
    rw [same] at member
    have := entries.before e member
    omega

/-- A further entry starts behind the others if the text so far goes on behind their starts. -/
theorem Entries.place_entry {p : Production} (entries : Entries f s d) (apart : Entries.Apart d)
    (reads : ReadsHollow f d.state (p d.state)) : Entries f s (d.place (some .entry) p) := by
  rw [Draft.place_eq]
  generalize p d.state = r at reads
  have more : (({ d with state := r.2 } : Draft).attach (some .entry) r.1).tree.childrenIn .entry =
      d.tree.childrenIn .entry ++ [r.1.inRole (some .entry)] := by
    rw [entries.grown.childrenIn_attach (some .entry) reads.reading .entry, if_pos rfl]
  have attached : Grown f .map s r.1.stop (({ d with state := r.2 } : Draft).attach (some .entry) r.1) :=
    entries.grown.attach reads fun _ => rfl
  have reached := Growing.reach_le (.grown entries.grown) reads.reading
  have further := attached.reaches
  have low := reads.reading.low
  have forward := reads.reading.forward
  have stop := entries.grown.reading.stop
  refine ⟨attached.mono (by omega), ?_, ?_⟩
  · rw [more, List.pairwise_append]
    refine ⟨entries.sorted, List.pairwise_singleton _ _, ?_⟩
    intro a old b new
    rw [List.mem_singleton.mp new, ParseTree.start_inRole]
    have := apart a old
    omega
  · intro e member
    rw [more, List.mem_append, List.mem_singleton] at member
    rcases member with old | rfl
    · have := entries.before e old
      omega
    · rw [ParseTree.start_inRole]
      omega

/-- Taking a comma separates the entries before it from those behind it. -/
theorem Entries.take (entries : Entries f s d) (ahead : d.state.rest ≠ []) :
    Entries f s d.take ∧ Entries.Apart d.take := by
  have place := entries.grown.reading.place
  obtain ⟨member, significant, low⟩ := place.peek_mem ahead
  have taken := entries.attach (reads_leafOf place ahead (spells_leafKind significant))
  refine ⟨taken.1, taken.2 ?_⟩
  have filled := f.laid_tokens.filled _ member
  have stop := entries.grown.reading.stop
  show d.tree.stop < d.state.peek.stop
  omega

theorem reads_map (reader : Reader f expression) (place : State.At f s) (ahead : s.rest ≠ []) :
    Reads f s (map expression s) := by
  have placed : ∀ d, Entries f s d → Entries.Apart d →
      Entries f s (d.place (some .entry) (mapEntry expression)) := by
    intro d entries apart
    exact entries.place_entry apart (reads_mapEntry reader entries.grown.reading.place)
  have loop : Entries f s (((Draft.opened .map s).take).loop
      (itemTurn .rightBrace (·.place (some .entry) (mapEntry expression)))) := by
    refine iterate_ends (P := fun d => Entries f s d ∧ Entries.Apart d) (Q := Entries f s)
      (Entries.opened place ahead) ?_ ?_
    · rintro d next ⟨entries, apart⟩ found
      rw [itemTurn] at found
      split at found
      · cases found
      · dsimp only at found
        split at found
        · rename_i comma
          rw [← Turn.again.inj found]
          have taken := (placed d entries apart).take (State.rest_of_isAt comma TokenKind.noConfusion)
          exact ⟨taken, taken.1⟩
        · cases found
    · rintro d next ⟨entries, apart⟩ found
      rw [itemTurn] at found
      split at found
      · rw [← Turn.done.inj found]
        exact entries
      · dsimp only at found
        split at found
        · cases found
        · rw [← Turn.done.inj found]
          exact placed d entries apart
  have whole : Entries f s (((Draft.opened .map s).take).items .rightBrace
      (·.place (some .entry) (mapEntry expression))) := by
    refine expect_ends loop TokenKind.noConfusion (fun _ entries => entries.grown.reading.place)
      ?_ (fun _ entries => entries)
    intro d r entries reads
    exact (entries.attach reads).1
  have kind := whole.grown.kind
  refine ⟨⟨whole.grown.reading, ⟨?_, ?_, ?_, ?_, ?_, whole.grown.firm⟩⟩, ?_⟩
  · intro isEmpty
    have filled := whole.grown.filled (f.laid_tokens.filled _ (place.peek_mem ahead).1)
    exact absurd (filled.symm.trans isEmpty) Bool.false_ne_true
  · intro _
    exact whole.sorted
  · intro other
    exact absurd (kind.symm.trans other) NodeKind.noConfusion
  · intro other
    exact absurd (kind.symm.trans other) NodeKind.noConfusion
  · rintro (other | other)
    · exact absurd (kind.symm.trans other) NodeKind.noConfusion
    · exact absurd (kind.symm.trans other) NodeKind.noConfusion
  · exact congrArg NodeKind.isHollow kind

theorem reader_primary (reader : Reader f expression) : Reader f (primary expression) := by
  intro s place
  have ahead : ∀ {kind : TokenKind}, s.peek.kind = kind → kind ≠ .endOfInput → s.rest ≠ [] := by
    intro kind found other
    apply State.rest_ne_nil
    rw [found]
    exact other
  rw [primary]
  split
  · rename_i found
    split
    · rename_i second
      exact reads_functionCall reader place (by rw [found]; rfl) (beq_iff_eq.mp second)
    · exact reads_leafOf place (ahead found TokenKind.noConfusion) (by rw [found]; rfl)
  · rename_i found
    exact reads_leafOf place (ahead found TokenKind.noConfusion) (by rw [found]; rfl)
  · rename_i found
    exact reads_leafOf place (ahead found TokenKind.noConfusion) (by rw [found]; rfl)
  · rename_i found
    exact reads_leafOf place (ahead found TokenKind.noConfusion) (by rw [found]; rfl)
  · rename_i found
    exact reads_leafOf place (ahead found TokenKind.noConfusion) (by rw [found]; rfl)
  · rename_i found
    exact reads_leafOf place (ahead found TokenKind.noConfusion) (by rw [found]; rfl)
  · rename_i found
    exact reads_parenthesized reader place (ahead found TokenKind.noConfusion)
  · rename_i found
    exact reads_list reader place (ahead found TokenKind.noConfusion)
  · rename_i found
    exact reads_map reader place (ahead found TokenKind.noConfusion)
  · rename_i found
    exact reads_path reader place (ahead found TokenKind.noConfusion)
  · split
    · exact reads_placeholder place rfl
    · rename_i unstopped
      refine reads_stray place (State.rest_ne_nil fun ended => unstopped ?_)
      rw [ended]
      rfl

theorem reader_memberField (reader : Reader f expression) : Reader f (memberField expression) := by
  intro s place
  rw [memberField]
  split
  · rename_i found
    have name : s.peek.kind = .identifier ∨ s.peek.kind.isKeyword = true := by
      simpa [State.isAt] using found
    have spelled : NodeKind.spells .identifier s.peek.kind = true := by
      simpa [NodeKind.spells] using name
    have ahead : s.rest ≠ [] := by
      intro ended
      rw [State.peek_of_end ended] at spelled
      exact absurd spelled Bool.false_ne_true
    split
    · rename_i second
      exact reads_functionCall reader place spelled (beq_iff_eq.mp second)
    · exact reads_leafOf place ahead spelled
  · exact reads_placeholder place rfl

theorem Growing.rangeTail (reader : Reader f expression) (growing : Growing f kind s reach d)
    (ahead : d.state.rest ≠ []) : Grown f kind s d.state.peek.stop (d.rangeTail expression) := by
  have taken := growing.take none ahead
  rw [Draft.rangeTail]
  split
  · exact taken
  · exact Growing.read (.grown taken) _ reader

theorem reader_index (reader : Reader f expression) : Reader f (index expression) := by
  intro s place
  rw [index]
  split
  · rename_i found
    have ahead := State.rest_of_isAt found TokenKind.noConfusion
    exact reads_branch place ahead rfl
      ((Growing.opened place NodeKind.noConfusion).rangeTail reader ahead)
  · have first := reader s place
    generalize expression s = r at first
    obtain ⟨tree, s'⟩ := r
    dsimp only
    split
    · rename_i found
      have ahead := State.rest_of_isAt found TokenKind.noConfusion
      refine reads_wrap first ahead rfl ?_
      have attached := first.opened s' (some .start)
        (NodeKind.noConfusion : NodeKind.range ≠ .comment)
      exact Growing.rangeTail reader (.grown attached) ahead
    · exact first

/-- A tree that becomes the first child of a new one. -/
theorem Reads.wrapped {first : ParseTree} {s' : State} (reads : Reads f s (first, s'))
    (role : Option Role) (other : kind ≠ .comment) :
    Growing f kind s first.stop ((Draft.opened kind s').attach role first) :=
  .grown (reads.opened s' role other)

theorem reads_member (reader : Reader f expression) (reads : Reads f s (d.tree, d.state))
    (ahead : d.state.rest ≠ []) :
    Reads f s (branch .member (fun n => (n.attach (some .object) d.tree).take.place (some .field)
      (memberField expression)) d.state) := by
  refine reads_wrap reads ahead rfl ?_
  refine Growing.read (.grown ?_) _ (reader_memberField reader)
  refine (reads.wrapped _ NodeKind.noConfusion).take none ?_
  rw [Draft.rest_attach]
  exact ahead

theorem reads_indexing (reader : Reader f expression) (reads : Reads f s (d.tree, d.state))
    (ahead : d.state.rest ≠ []) :
    Reads f s (branch .indexing (fun n => ((n.attach (some .object) d.tree).take.place (some .index)
      (index expression)).expect .rightBracket) d.state) := by
  refine reads_wrap reads ahead rfl ?_
  refine Growing.expect (.grown ?_) TokenKind.noConfusion
  refine Growing.read (.grown ?_) _ (reader_index reader)
  refine (reads.wrapped _ NodeKind.noConfusion).take none ?_
  rw [Draft.rest_attach]
  exact ahead

theorem reads_postfixTurn (reader : Reader f expression) (reads : Reads f s (d.tree, d.state)) :
    Reads f s ((postfixTurn expression d).value.tree, (postfixTurn expression d).value.state) := by
  rw [postfixTurn]
  split
  · rename_i found
    exact reads_member reader reads (State.rest_of_isAt found TokenKind.noConfusion)
  · split
    · rename_i found
      exact reads_indexing reader reads (State.rest_of_isAt found TokenKind.noConfusion)
    · exact reads

theorem reader_postfixed (reader : Reader f expression) : Reader f (postfixed expression) := by
  intro s place
  have first := reader_primary reader s place
  exact iterate_keeps (P := fun d : Draft => Reads f s (d.tree, d.state)) first
    fun d reads => reads_postfixTurn reader reads

theorem plain_infixOperator {found : TokenKind} {tier : Tier} (known : infixOperator? found = some (tier, kind)) :
    ParseTree.plain kind = true ∧ kind ≠ .comment ∧ found ≠ .endOfInput := by
  cases found <;> simp only [infixOperator?, reduceCtorEq, Option.some.injEq, Prod.mk.injEq] at known
  all_goals
    obtain ⟨-, rfl⟩ := known
    exact ⟨rfl, NodeKind.noConfusion, TokenKind.noConfusion⟩

theorem reads_joined {operand : Tier → Production} (readers : ∀ t, Reader f (operand t)) {tier : Tier}
    (reads : Reads f s (d.tree, d.state)) (known : infixOperator? d.state.peek.kind = some (tier, kind)) :
    Reads f s (branch kind (fun n =>
      let n := (n.attach (some .left) d.tree).take (some .operator)
      if kind = .typeComparison then
        if n.isAt .identifier then n.takeAs (some .right) .typeName
        else n.lacking (some .right) .typeName
      else n.place (some .right) (operand tier)) d.state) := by
  obtain ⟨isPlain, other, here⟩ := plain_infixOperator known
  have ahead : d.state.rest ≠ [] := State.rest_ne_nil here
  have taken : Grown f kind s d.state.peek.stop
      (((Draft.opened kind d.state).attach (some .left) d.tree).take (some .operator)) := by
    refine (reads.wrapped _ other).take _ ?_
    rw [Draft.rest_attach]
    exact ahead
  refine reads_wrap reads ahead isPlain ?_
  dsimp only
  split
  · split
    · rename_i name
      refine Growing.takeAs_keeps (.grown taken) _ (State.rest_of_isAt name TokenKind.noConfusion) ?_
      rw [State.kind_of_isAt name]
      rfl
    · exact Growing.lacking (.grown taken) _ rfl
  · exact Growing.read (.grown taken) _ (readers tier)

theorem reads_infixTurn {operand : Tier → Production} (readers : ∀ t, Reader f (operand t)) (tier : Tier)
    (reads : Reads f s (d.tree, d.state)) :
    Reads f s ((infixTurn operand tier d).value.tree, (infixTurn operand tier d).value.state) := by
  rw [infixTurn]
  split
  · rename_i found kind known
    split
    · exact reads_joined readers reads known
    · exact reads
  · exact reads

theorem reader_infixed {operand : Tier → Production} (readers : ∀ t, Reader f (operand t)) (tier : Tier) :
    Reader f (infixed operand tier) := by
  intro s place
  have first := readers tier s place
  exact iterate_keeps (P := fun d : Draft => Reads f s (d.tree, d.state)) first
    fun d reads => reads_infixTurn readers tier reads

theorem reader_loosen {o : Operands} (tier : Tier)
    (readers : (∀ t, Reader f (o.beside t)) ∧ Reader f o.joined) :
    (∀ t, Reader f ((o.loosen tier).beside t)) ∧ Reader f (o.loosen tier).joined := by
  have beside : ∀ t, Reader f ((o.loosen tier).beside t) := by
    intro t
    rw [Operands.loosen]
    dsimp only
    split
    · exact readers.2
    · exact readers.1 t
  exact ⟨beside, reader_infixed beside tier⟩

theorem reader_binary {unary : Production} (reader : Reader f unary) : Reader f (binary unary) := by
  rw [binary]
  suffices keeps : ∀ (tiers : List Tier) (o : Operands),
      (∀ t, Reader f (o.beside t)) ∧ Reader f o.joined → Reader f (tiers.foldl Operands.loosen o).joined from
    keeps _ _ ⟨fun _ => reader, reader⟩
  intro tiers
  induction tiers with
  | nil => exact fun o readers => readers.2
  | cons tier rest ih => exact fun o readers => ih _ (reader_loosen tier readers)

theorem reader_ternary {unary : Production} (operand : Reader f unary) (reader : Reader f expression) :
    Reader f (ternary unary expression) := by
  intro s place
  have first := reader_binary operand s place
  rw [ternary]
  generalize binary unary s = r at first
  obtain ⟨tree, s'⟩ := r
  dsimp only
  split
  · rename_i found
    have ahead := State.rest_of_isAt found TokenKind.noConfusion
    refine reads_wrap first ahead rfl ?_
    refine Growing.read (.grown ?_) _ reader
    refine Growing.expect (.grown ?_) TokenKind.noConfusion
    refine Growing.read (.grown ?_) _ reader
    refine (first.wrapped _ NodeKind.noConfusion).take none ?_
    rw [Draft.rest_attach]
    exact ahead
  · exact first

theorem reads_unary {operand : Production} (reader : Reader f operand) (place : State.At f s)
    (ahead : s.rest ≠ []) : Reads f s (unary operand s) := by
  refine reads_branch place ahead rfl ?_
  refine Growing.read (.grown ?_) _ reader
  exact (Growing.opened place NodeKind.noConfusion).take _ ahead

theorem rest_of_isAtUnary (found : s.isAtUnary = true) : s.rest ≠ [] := by
  intro ended
  rw [State.isAtUnary, State.isAtAny, State.peek_of_end ended] at found
  exact absurd found (by simp [Token.endAt])

/-- Expressions and operands read a tree whatever nesting is still allowed. -/
theorem reader_expressionAt (budget : Nat) :
    Reader f (expressionAt budget) ∧ Reader f (unaryAt budget) := by
  induction budget with
  | zero =>
    constructor
    · intro s place
      exact reader_collapse s place
    · intro s place
      rw [unaryAt]
      split
      · exact reader_collapse s place
      · exact reader_postfixed reader_collapse s place
  | succ budget ih =>
    have nested := reader_ternary ih.2 ih.1
    constructor
    · intro s place
      rw [expressionAt]
      exact nested s place
    · intro s place
      rw [unaryAt]
      split
      · rename_i found
        exact reads_unary ih.2 place (rest_of_isAtUnary found)
      · exact reader_postfixed nested s place

end

end SecurityRules.Parser
