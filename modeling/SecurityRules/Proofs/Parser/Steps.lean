import SecurityRules.Parser.Expression
import SecurityRules.Proofs.Parser.Reading

/-!
# The steps of a draft read the text

Each step that a production takes on a draft leads from a reading to a reading. A loop keeps what each of
its turns keeps.
-/

namespace SecurityRules.Parser

/-- The value that a turn goes on with or ends with. -/
def Turn.value {α : Type} : Turn α → α
  | again value => value
  | done value => value

/-- What the first turn establishes and every turn keeps holds of the value of a loop. -/
theorem iterate_first {α : Type} {stateOf : α → State} {turn : α → Turn α} {P : α → Prop} {value : α}
    (first : P (turn value).value) (step : ∀ v, P v → P (turn v).value) :
    P (iterate stateOf turn value) := by
  fun_induction iterate stateOf turn value with
  | case1 value next found =>
    rw [found] at first
    exact first
  | case2 value next found shorter ih =>
    rw [found] at first
    exact ih (step next first)
  | case3 value next found longer =>
    rw [found] at first
    exact first

theorem iterate_keeps {α : Type} {stateOf : α → State} {turn : α → Turn α} {P : α → Prop} {value : α}
    (holds : P value) (step : ∀ v, P v → P (turn v).value) : P (iterate stateOf turn value) :=
  iterate_first (step value holds) step

/-- A loop whose turns that go on keep a property, and whose turns all establish another one. -/
theorem iterate_ends {α : Type} {stateOf : α → State} {turn : α → Turn α} {P Q : α → Prop} {value : α}
    (holds : P value) (again : ∀ v next, P v → turn v = .again next → P next ∧ Q next)
    (done : ∀ v next, P v → turn v = .done next → Q next) : Q (iterate stateOf turn value) := by
  fun_induction iterate stateOf turn value with
  | case1 value next found => exact done value next holds found
  | case2 value next found shorter ih => exact ih (again value next holds found).1
  | case3 value next found longer => exact (again value next holds found).2

/-- A loop whose turns take tokens as long as they ask for another ends with the turn that asks for none. -/
theorem iterate_progress {α : Type} {stateOf : α → State} {turn : α → Turn α} {P Q : α → Prop} {value : α}
    (holds : P value)
    (again : ∀ v next, P v → turn v = .again next →
      P next ∧ (stateOf next).rest.length < (stateOf v).rest.length)
    (done : ∀ v next, P v → turn v = .done next → Q next) : Q (iterate stateOf turn value) := by
  fun_induction iterate stateOf turn value with
  | case1 value next found => exact done value next holds found
  | case2 value next found shorter ih => exact ih (again value next holds found).1
  | case3 value next found longer => exact absurd (again value next holds found).2 longer

/-- A production that reads a tree from every state. -/
def Reader (f : SourceFile) (p : Production) : Prop := ∀ s, State.At f s → Reads f s (p s)

variable {f : SourceFile} {s : State}

namespace State

theorem rest_ne_nil (ahead : s.peek.kind ≠ .endOfInput) : s.rest ≠ [] := by
  intro ended
  rw [peek_of_end ended] at ahead
  exact ahead rfl

theorem At.peek_kind (place : State.At f s) (ahead : s.rest ≠ []) : s.peek.kind ≠ .endOfInput :=
  f.kind_ne_endOfInput (place.peek_mem ahead).1

theorem kind_of_isAt {kind : TokenKind} (found : s.isAt kind = true) : s.peek.kind = kind := by
  simpa [State.isAt] using found

theorem rest_of_isAt {kind : TokenKind} (found : s.isAt kind = true) (other : kind ≠ .endOfInput) :
    s.rest ≠ [] := by
  apply rest_ne_nil
  rw [kind_of_isAt found]
  exact other

end State

/-! ## Leaves -/

theorem isLeaf_of_spells {kind : NodeKind} {found : TokenKind} (spelled : kind.spells found = true)
    (significant : found.isComment = false) : kind.isLeaf = true := by
  cases kind <;> simp_all [NodeKind.spells, NodeKind.isLeaf]

/-- A tree without children is a reading as soon as it stands where the parser stands. -/
theorem reads_childless {t : ParseTree} {s' : State} (origin : State.At f s) (place : State.At f s')
    (children : t.children = []) (extent : t.extent = Extent.ofRange f t.start t.stop)
    (edge : t.start = s.lastStop ∨ t.start = s.peek.start ∧ t.start < t.stop) (forward : t.start ≤ t.stop)
    (stop : t.stop = s'.lastStop)
    (pending : s'.pending = s.pending.filter (fun c => decide (c.start < t.start)) ++
      f.commentsIn t.stop s'.peek.start)
    (tiled : ParseTree.Tiled [t] (f.tokensIn t.start t.stop)) (isLeaf : t.kind.isLeaf = true)
    (filled : t.isEmpty = true → t.isFlagged = true) : Reads f s (t, s') := by
  obtain ⟨isPlain, other, word⟩ := ParseTree.of_isLeaf isLeaf
  have none : ∀ c, c ∉ t.children := by
    intro c
    rw [children]
    exact List.not_mem_nil
  have sound : t.Sound f := by
    refine ⟨?_, forward, ?_, fun _ => ⟨extent, fun isEmpty => ⟨filled isEmpty, ?_⟩⟩,
      fun grown => absurd children grown, ?_, ?_, fun _ => ⟨?_, ?_⟩, fun c child => absurd child (none c), ?_⟩
    · rw [children]
      exact List.Pairwise.nil
    · rw [stop]
      exact place.bounded
    · simpa [ParseTree.isExtra] using other
    · intro c head
      exact absurd (List.mem_of_mem_head? head) (none c)
    · intro c last
      exact absurd (List.mem_of_getLast? last) (none c)
    · rcases edge with edge | ⟨edge, _⟩
      · exact edge ▸ origin.edge
      · exact edge ▸ origin.edge_peek
    · exact stop ▸ place.edge
    · rw [children]
      exact List.isChain_nil
  refine ⟨⟨⟨origin, place, edge, forward, stop, pending, ?_, ?_, ?_, ?_⟩, ?_⟩,
    ParseTree.isHollow_of_plain isPlain⟩
  · rw [ParseTree.leaves_of_childless children]
    exact tiled
  · simpa [ParseTree.isExtra] using other
  · intro n inside
    rcases ParseTree.mem_nodes.mp inside with rfl | ⟨c, child, _⟩
    · exact sound
    · exact absurd child (none c)
  · intro c child
    exact absurd child (none c)
  · exact ParseTree.Shaped.of_plain isPlain (fun isEmpty => ⟨filled isEmpty, word⟩)
      (ParseTree.Firm.of_childless children)

theorem isEmpty_eq_false {t : ParseTree} (filled : t.start < t.stop) : t.isEmpty = false := by
  rw [Bool.eq_false_iff]
  intro isEmpty
  have := ParseTree.isEmpty_iff.mp isEmpty
  omega

/-- Comments passed in front of the next token start in front of it. -/
theorem State.At.filter_pending (place : State.At f s) :
    s.pending.filter (fun c => decide (c.start < s.peek.start)) = s.pending := by
  rw [List.filter_eq_self]
  intro c member
  simpa using place.pending_lt member

/-- A leaf over the next token. -/
theorem reads_leafOf {kind : NodeKind} (place : State.At f s) (ahead : s.rest ≠ [])
    (spelled : kind.spells s.peek.kind = true) : Reads f s (leafOf kind s) := by
  obtain ⟨t, rest, split⟩ := List.exists_cons_of_ne_nil ahead
  obtain ⟨moved, lastStop, _, pending⟩ := place.advance split
  obtain ⟨member, significant, low⟩ := place.peek_mem ahead
  rw [← State.peek_of_rest split] at lastStop pending
  have filled := f.laid_tokens.filled _ member
  refine reads_childless place moved rfl ?_ (Or.inr ⟨rfl, filled⟩) (Nat.le_of_lt filled) lastStop.symm ?_ ?_
    (isLeaf_of_spells spelled significant) ?_
  · rw [State.leaf, place.file]
    rfl
  · show s.advance.pending = s.pending.filter (fun c => decide (c.start < s.peek.start)) ++
      f.commentsIn s.peek.stop s.advance.peek.start
    rw [place.filter_pending, pending]
  · show ParseTree.Tiled _ (f.tokensIn s.peek.start s.peek.stop)
    rw [f.tokensIn_token member]
    refine ParseTree.Tiled.run (isEmpty_eq_false filled) ?_
    rw [ParseTree.Over.single_iff]
    exact ⟨rfl, rfl, spelled⟩
  · intro isEmpty
    have := ParseTree.isEmpty_iff.mp isEmpty
    have : s.peek.start = s.peek.stop := this
    omega

/-- An empty tree behind the last token reads nothing. -/
theorem reads_nothing {t : ParseTree} (place : State.At f s) (children : t.children = [])
    (extent : t.extent = Extent.ofRange f s.lastStop s.lastStop) (isFlagged : t.isFlagged = true)
    (isLeaf : t.kind.isLeaf = true) : Reads f s (t, s) := by
  have start : t.start = s.lastStop := by
    rw [ParseTree.start, extent]
    rfl
  have stop : t.stop = s.lastStop := by
    rw [ParseTree.stop, extent]
    rfl
  refine reads_childless place place children ?_ (Or.inl start) ?_ stop ?_ ?_ isLeaf fun _ => isFlagged
  · rw [extent, start, stop]
  · rw [start, stop]
  · rw [start, stop]
    exact place.pending
  · rw [f.tokensIn_eq_nil (by rw [start, stop])]
    exact ParseTree.Tiled.empty (ParseTree.isEmpty_iff.mpr (by rw [start, stop]))

theorem reads_placeholder (place : State.At f s) {kind : NodeKind} (isLeaf : kind.isLeaf = true) :
    Reads f s (s.placeholder kind, s) := by
  refine reads_nothing place rfl ?_ ?_ isLeaf
  · rw [State.placeholder, place.file]
    rfl
  · simp [ParseTree.isFlagged, State.placeholder, ParseTree.isMissing]

theorem reads_emptyError (place : State.At f s) : Reads f s (s.emptyError, s) := by
  refine reads_nothing place rfl ?_ rfl rfl
  rw [State.emptyError, State.leaf, place.file]
  rfl

/-- A state inside a run of segment tokens that starts at the next token of `s`. -/
structure Running (f : SourceFile) (kind : NodeKind) (s v : State) : Prop where
  place : State.At f v
  ahead : s.peek.start < v.lastStop
  pending : v.pending = s.pending ++ f.commentsIn v.lastStop v.peek.start
  above : (ParseTree.childless kind (Extent.ofRange f s.peek.start v.lastStop)).Over
    (f.tokensIn s.peek.start v.lastStop)

theorem Running.first {kind : NodeKind} (place : State.At f s) (ahead : s.rest ≠ [])
    (spelled : kind.spells s.peek.kind = true) : Running f kind s s.advance := by
  obtain ⟨t, rest, split⟩ := List.exists_cons_of_ne_nil ahead
  obtain ⟨moved, lastStop, _, pending⟩ := place.advance split
  have member := (place.peek_mem ahead).1
  rw [← State.peek_of_rest split] at lastStop pending
  refine ⟨moved, ?_, ?_, ?_⟩
  · rw [lastStop]
    exact f.laid_tokens.filled _ member
  · rw [lastStop, pending]
  · rw [lastStop, f.tokensIn_token member, ParseTree.Over.single_iff]
    exact ⟨rfl, rfl, spelled⟩

theorem Running.next {kind : NodeKind} {v : State} (running : Running f kind s v)
    (isSegment : kind.isSegment = true) (spelled : kind.spells v.peek.kind = true)
    (ahead : v.rest ≠ []) (adjacent : v.isAdjacent = true) : Running f kind s v.advance := by
  obtain ⟨t, rest, split⟩ := List.exists_cons_of_ne_nil ahead
  obtain ⟨moved, lastStop, _, pending⟩ := running.place.advance split
  have member := (running.place.peek_mem ahead).1
  have filled := f.laid_tokens.filled _ member
  have touching : v.peek.start = v.lastStop := by simpa [State.isAdjacent] using adjacent
  rw [← State.peek_of_rest split] at lastStop pending
  have longer : f.tokensIn s.peek.start v.advance.lastStop =
      f.tokensIn s.peek.start v.lastStop ++ [v.peek] := by
    have one := f.tokensIn_token member
    rw [touching] at one
    rw [lastStop, ← one, f.tokensIn_append (Nat.le_of_lt running.ahead) (by omega)]
  have above := running.above
  refine ⟨moved, ?_, ?_, ⟨?_, ?_, ?_, Or.inl isSegment, ?_⟩⟩
  · have := running.ahead
    omega
  · rw [pending, running.pending, touching, f.commentsIn_eq_nil (Nat.le_refl _), List.append_nil, lastStop]
  · rw [longer, List.head?_append]
    have start := above.start
    cases head : (f.tokensIn s.peek.start v.lastStop).head? with
    | none =>
      rw [head] at start
      exact absurd start (by simp)
    | some first =>
      rw [head] at start
      exact start
  · rw [longer, List.getLast?_concat, lastStop]
    rfl
  · rw [longer, List.isChain_append]
    refine ⟨above.joined, List.isChain_singleton _, ?_⟩
    intro a last b head
    have stop := above.stop
    rw [Option.mem_def] at last head
    rw [last] at stop
    rw [List.head?_cons] at head
    rw [← Option.some.inj head, touching]
    exact Option.some.inj stop
  · intro u inside
    rw [longer, List.mem_append, List.mem_singleton] at inside
    rcases inside with inside | rfl
    · exact above.spelled u inside
    · exact spelled

theorem running_passSegment {kind : NodeKind} (isSegment : kind.isSegment = true)
    (spells : ∀ k, kind.spells k = isSegmentToken k) (place : State.At f s)
    (found : isSegmentToken s.peek.kind = true) : Running f kind s s.passSegment := by
  have ahead : ∀ v : State, isSegmentToken v.peek.kind = true → v.rest ≠ [] := by
    intro v found ended
    rw [State.peek_of_end ended] at found
    exact absurd found Bool.false_ne_true
  refine iterate_keeps (P := Running f kind s) ?_ ?_
  · exact Running.first place (ahead s found) (by rw [spells]; exact found)
  · intro v running
    split
    · rename_i going
      obtain ⟨found, adjacent⟩ := Bool.and_eq_true_iff.mp going
      exact running.next isSegment (by rw [spells]; exact found) (ahead v found) adjacent
    · exact running

theorem isLeaf_of_isSegment {kind : NodeKind} (isSegment : kind.isSegment = true) :
    kind.isLeaf = true := by
  cases kind <;> simp_all [NodeKind.isSegment, NodeKind.isLeaf]

theorem reads_segment {kind : NodeKind} (isSegment : kind.isSegment = true)
    (spells : ∀ k, kind.spells k = isSegmentToken k) (place : State.At f s)
    (found : isSegmentToken s.peek.kind = true) : Reads f s (segment kind s) := by
  have running := running_passSegment isSegment spells place found
  have filled := running.ahead
  refine reads_childless place running.place rfl ?_ (Or.inr ⟨rfl, filled⟩) (Nat.le_of_lt filled) rfl ?_ ?_
    (isLeaf_of_isSegment isSegment) ?_
  · rw [State.leaf, running.place.file]
    rfl
  · show s.passSegment.pending = s.pending.filter (fun c => decide (c.start < s.peek.start)) ++ _
    rw [place.filter_pending, running.pending]
    rfl
  · refine ParseTree.Tiled.run (isEmpty_eq_false filled) ?_
    rw [State.leaf, running.place.file]
    exact running.above
  · intro isEmpty
    have same : s.peek.start = s.passSegment.lastStop := ParseTree.isEmpty_iff.mp isEmpty
    omega

/-! ## What attaching leaves alone -/

theorem Draft.rest_attach (d : Draft) (role : Option Role) (c : ParseTree) :
    (d.attach role c).state.rest = d.state.rest := by
  rw [Draft.attach]
  split <;> rfl

theorem Draft.file_attach (d : Draft) (role : Option Role) (c : ParseTree) :
    (d.attach role c).state.file = d.state.file := by
  rw [Draft.attach]
  split <;> rfl

theorem Draft.peek_attach (d : Draft) (role : Option Role) (c : ParseTree) :
    (d.attach role c).state.peek = d.state.peek := by
  rw [State.peek, State.peek, d.rest_attach, d.file_attach]

theorem State.peek_advance (s : State) : s.advance.peek = s.peekSecond := by
  rw [State.peekSecond, State.advance]
  split
  · rename_i ended
    rw [State.peek, ended]
    rfl
  · rename_i split
    rw [split]
    rfl

theorem Draft.peek_takeAs (d : Draft) (role : Option Role) (leaf : NodeKind) :
    (d.takeAs role leaf).state.peek = d.state.peekSecond := by
  rw [← State.peek_advance]
  exact Draft.peek_attach _ role _

theorem Draft.peek_take (d : Draft) (role : Option Role) :
    (d.take role).state.peek = d.state.peekSecond :=
  d.peek_takeAs role _

theorem Draft.place_eq (d : Draft) (role : Option Role) (p : Production) :
    d.place role p = ({ d with state := (p d.state).2 } : Draft).attach role (p d.state).1 := rfl

/-! ## Steps -/

section

variable {kind : NodeKind} {reach : Nat} {d : Draft}

theorem Growing.place_state (growing : Growing f kind s reach d) : State.At f d.state := by
  cases growing with
  | bare place other reaches => exact place
  | grown grown => exact grown.reading.place

theorem Growing.attach {r : ParseTree × State} (growing : Growing f kind s reach d)
    (role : Option Role) (reads : Reads f d.state r) :
    Grown f kind s r.1.stop (({ d with state := r.2 } : Draft).attach role r.1) := by
  cases growing with
  | bare place other reaches => exact Reads.opened reads s role other
  | grown grown =>
    apply grown.attach reads.toReadsHollow
    rw [reads.solid]
    exact fun isHollow => absurd isHollow Bool.false_ne_true

/-- The text read so far ends before what a further child reads. -/
theorem Growing.reach_le (growing : Growing f kind s reach d) {t : ParseTree} {s' : State}
    (reading : Reading f d.state t s') : reach ≤ t.stop := by
  have forward := reading.forward
  have low := reading.low
  cases growing with
  | bare place other reaches =>
    have : reach ≤ (Draft.opened kind s).state.lastStop := reaches
    omega
  | grown grown =>
    have := grown.reaches
    have := grown.reading.stop
    omega

/-- Reading one more child. -/
theorem Growing.place {p : Production} (growing : Growing f kind s reach d)
    (role : Option Role) (reads : Reads f d.state (p d.state)) : Grown f kind s reach (d.place role p) := by
  have attached := growing.attach role reads
  exact attached.mono (Nat.le_trans (growing.reach_le reads.reading) attached.reaches)

/-- Reading one more child, which may be hollow in its role. -/
theorem Grown.placeHollow {p : Production} {role : Option Role} (grown : Grown f kind s reach d)
    (reads : ReadsHollow f d.state (p d.state)) (fits : Role.mayBeHollow role = true) :
    Grown f kind s reach (d.place role p) := by
  have attached : Grown f kind s (p d.state).1.stop (d.place role p) := grown.attach reads fun _ => fits
  exact attached.mono (Nat.le_trans (Growing.reach_le (.grown grown) reads.reading) attached.reaches)

theorem Growing.read {p : Production} (growing : Growing f kind s reach d)
    (role : Option Role) (reader : Reader f p) : Grown f kind s reach (d.place role p) :=
  growing.place role (reader d.state growing.place_state)

theorem Growing.lacking {missing : NodeKind} (growing : Growing f kind s reach d)
    (role : Option Role) (isLeaf : missing.isLeaf = true) :
    Grown f kind s reach (d.lacking role missing) := by
  have reads := reads_placeholder growing.place_state isLeaf
  have attached := growing.attach role reads
  exact attached.mono (Nat.le_trans (growing.reach_le reads.reading) attached.reaches)

/-- Taking a token as a leaf reads up to the end of that token. -/
theorem Growing.takeAs {leaf : NodeKind} (growing : Growing f kind s reach d)
    (role : Option Role) (ahead : d.state.rest ≠ []) (spelled : leaf.spells d.state.peek.kind = true) :
    Grown f kind s d.state.peek.stop (d.takeAs role leaf) :=
  growing.attach role (reads_leafOf growing.place_state ahead spelled)

theorem spells_leafKind {found : TokenKind} (significant : found.isComment = false) :
    (leafKind found).spells found = true := by
  cases found <;> first | rfl | exact absurd significant (by decide)

theorem Growing.take (growing : Growing f kind s reach d)
    (role : Option Role) (ahead : d.state.rest ≠ []) : Grown f kind s d.state.peek.stop (d.take role) :=
  growing.takeAs role ahead (spells_leafKind (growing.place_state.peek_mem ahead).2.1)

/-- Taking a token keeps what has been reached. -/
theorem Growing.reach_le_peek (growing : Growing f kind s reach d) (ahead : d.state.rest ≠ []) :
    reach ≤ d.state.peek.stop := by
  obtain ⟨member, significant, _⟩ := growing.place_state.peek_mem ahead
  exact growing.reach_le (reads_leafOf growing.place_state ahead (spells_leafKind significant)).reading

theorem Growing.take_keeps (growing : Growing f kind s reach d)
    (role : Option Role) (ahead : d.state.rest ≠ []) : Grown f kind s reach (d.take role) := by
  have taken := growing.take role ahead
  exact taken.mono (Nat.le_trans (growing.reach_le_peek ahead) taken.reaches)

theorem Growing.takeAs_keeps {leaf : NodeKind} (growing : Growing f kind s reach d)
    (role : Option Role) (ahead : d.state.rest ≠ []) (spelled : leaf.spells d.state.peek.kind = true) :
    Grown f kind s reach (d.takeAs role leaf) := by
  have taken := growing.takeAs role ahead spelled
  exact taken.mono (Nat.le_trans (growing.reach_le_peek ahead) taken.reaches)

theorem Growing.takeName (growing : Growing f kind s reach d)
    (role : Option Role) :
    Grown f kind s reach (d.takeName role) := by
  rw [Draft.takeName]
  split
  · rename_i found
    refine growing.takeAs_keeps role (State.rest_of_isAt found TokenKind.noConfusion) ?_
    rw [State.kind_of_isAt found]
    rfl
  · exact growing.lacking role rfl

/-- A draft may change its kind while it has children. -/
theorem Grown.ofKind {other : NodeKind} (grown : Grown f kind s reach d) (significant : other ≠ .comment) :
    Grown f other s reach (d.ofKind other) where
  reading := grown.reading.ofKind grown.grown significant
  kind := ParseTree.kind_ofKind _ _
  grown := (ParseTree.children_ofKind d.tree other).symm ▸ grown.grown
  reaches := (ParseTree.stop_ofKind d.tree other).symm ▸ grown.reaches
  firm := grown.firm.ofKind other

/-- A loop of a draft keeps the reading if each turn does. -/
theorem Grown.loop {turn : Draft → Turn Draft} (first : Grown f kind s reach (turn d).value)
    (step : ∀ d, Grown f kind s reach d → Grown f kind s reach (turn d).value) :
    Grown f kind s reach (d.loop turn) :=
  iterate_first first step

end

/-! ## Finished trees -/

section

variable {kind : NodeKind} {reach : Nat} {d : Draft}

/-- A tree that has taken a token is not empty. -/
theorem Grown.filled (grown : Grown f kind s reach d) (beyond : s.peek.start < reach) :
    d.tree.isEmpty = false := by
  apply isEmpty_eq_false
  have := grown.reading.high
  have := grown.reaches
  omega

theorem Grown.solid (grown : Grown f kind s reach d) (isPlain : ParseTree.plain kind = true) :
    d.tree.kind.isHollow = false := by
  rw [grown.kind]
  exact ParseTree.isHollow_of_plain isPlain

theorem Grown.reads (grown : Grown f kind s reach d) (isPlain : ParseTree.plain kind = true)
    (beyond : s.peek.start < reach) : Reads f s (d.tree, d.state) := by
  refine ⟨⟨grown.reading, ParseTree.Shaped.of_plain ?_ ?_ grown.firm⟩, grown.solid isPlain⟩
  · rw [grown.kind]
    exact isPlain
  · intro isEmpty
    rw [grown.filled beyond] at isEmpty
    exact absurd isEmpty Bool.false_ne_true

/-- The first child of a tree may have been read before the tree was opened. -/
theorem reads_wrap {fill : Draft → Draft} {first : ParseTree} {s' : State}
    (reads : Reads f s (first, s')) (ahead : s'.rest ≠ []) (isPlain : ParseTree.plain kind = true)
    (grown : Grown f kind s s'.peek.stop (fill (Draft.opened kind s'))) :
    Reads f s (branch kind fill s') := by
  refine grown.reads isPlain ?_
  have filled : s'.peek.start < s'.peek.stop :=
    f.laid_tokens.filled _ (reads.reading.place.peek_mem ahead).1
  have later : s.peek.start ≤ s'.peek.start := reads.reading.peek_le
  omega

theorem Grown.reads_error (grown : Grown f .error s reach d) : Reads f s (d.tree, d.state) := by
  refine ⟨⟨grown.reading, ParseTree.Shaped.of_plain ?_ ?_ grown.firm⟩, grown.solid rfl⟩
  · rw [grown.kind]
    rfl
  · intro _
    rw [ParseTree.isFlagged, ParseTree.isError, grown.kind]
    exact ⟨rfl, rfl⟩

/-- A production that takes the next token reads a tree that goes on at least to the end of that token. -/
theorem takes_branch {fill : Draft → Draft} (place : State.At f s) (ahead : s.rest ≠ [])
    (isPlain : ParseTree.plain kind = true)
    (grown : Grown f kind s s.peek.stop (fill (Draft.opened kind s))) :
    Reads f s (branch kind fill s) ∧ s.peek.stop ≤ (branch kind fill s).1.stop :=
  ⟨grown.reads isPlain (f.laid_tokens.filled _ (place.peek_mem ahead).1), grown.reaches⟩

theorem reads_branch {fill : Draft → Draft} (place : State.At f s) (ahead : s.rest ≠ [])
    (isPlain : ParseTree.plain kind = true)
    (grown : Grown f kind s s.peek.stop (fill (Draft.opened kind s))) : Reads f s (branch kind fill s) :=
  (takes_branch place ahead isPlain grown).1

/-- A tree of a hollow kind that is no block. -/
theorem Grown.reads_hollow (grown : Grown f kind s reach d) (isHollow : kind.isHollow = true)
    (noBlock : kind ≠ .matchBody ∧ kind ≠ .functionBody) : ReadsHollow f s (d.tree, d.state) := by
  refine ⟨grown.reading, ParseTree.Shaped.of_hollow ?_ ?_ grown.firm⟩
  · rw [grown.kind]
    exact isHollow
  · rw [grown.kind]
    rintro (isBlock | isBlock)
    · exact absurd isBlock noBlock.1
    · exact absurd isBlock noBlock.2

end

end SecurityRules.Parser
