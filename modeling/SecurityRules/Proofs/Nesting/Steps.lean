import SecurityRules.Proofs.Grammar.Declarations
import SecurityRules.Proofs.Nesting.Cuts
import SecurityRules.Proofs.Trivia.Document

/-!
# Two parsers side by side

One parser reads a document without an error, another one has less nesting to spend. Side by side they stand at the
same place of the file, and where the count stays within the limit they have made the same tree. What the second one
makes where the count goes past the limit is left open.
-/

namespace SecurityRules.Parser

open ParseTree (visitsAll)

/-! ## States -/

/-- Whether all that waits to be placed are comments of the file. -/
def State.IsLoose (f : SourceFile) (s : State) : Prop := ∀ c ∈ s.pending, ∃ t ∈ f.tokens, c = f.commentLeaf t

/-- States at the same place of a file. They may hold different comments from before that place. -/
structure Level (f : SourceFile) (s s' : State) : Prop where
  first : State.At f s
  second : State.At f s'
  rest : s'.rest = s.rest
  lastStop : s'.lastStop = s.lastStop
  loose : s.IsLoose f

variable {f : SourceFile} {s s' : State}

/-- What waits behind a tree has waited in front of it, or is a comment behind it. -/
theorem Reading.isLoose {t : ParseTree} (reading : Reading f s t s') (loose : s.IsLoose f) : s'.IsLoose f := by
  intro c member
  rw [reading.pending] at member
  rcases List.mem_append.mp member with old | new
  · exact loose c (List.mem_of_mem_filter old)
  · obtain ⟨u, inside, _, rfl⟩ := f.mem_commentsIn new
    exact ⟨u, ((f.mem_tokensIn).mp inside).1, rfl⟩

namespace Level

variable (level : Level f s s')
include level

theorem file : s'.file = s.file := level.second.file.trans level.first.file.symm

theorem peek : s'.peek = s.peek := by rw [State.peek, State.peek, level.rest, level.file]

theorem second_eq : s'.peekSecond = s.peekSecond := by
  rw [State.peekSecond, State.peekSecond, level.rest, level.file]

theorem isAt (kind : TokenKind) : s'.isAt kind = s.isAt kind := by rw [State.isAt, State.isAt, level.peek]

theorem isAtAny (kinds : List TokenKind) : s'.isAtAny kinds = s.isAtAny kinds := by
  rw [State.isAtAny, State.isAtAny, level.peek]

theorem isAtSync : s'.isAtSync = s.isAtSync := by rw [State.isAtSync, State.isAtSync, level.peek]

theorem isAdjacent : s'.isAdjacent = s.isAdjacent := by
  rw [State.isAdjacent, State.isAdjacent, level.peek, level.lastStop]

theorem leaf (start stop : Nat) (kind : NodeKind) : s'.leaf start stop kind = s.leaf start stop kind := by
  rw [State.leaf, State.leaf, level.file]

theorem placeholder (kind : NodeKind) : s'.placeholder kind = s.placeholder kind := by
  rw [State.placeholder, State.placeholder, level.file, level.lastStop]

theorem advance : Level f s.advance s'.advance := by
  cases ahead : s.rest with
  | nil =>
    rw [State.advance, State.advance, level.rest, ahead]
    exact level
  | cons t rest =>
    obtain ⟨place, stop, behind, pending⟩ := level.first.advance ahead
    obtain ⟨place', stop', behind', _⟩ := level.second.advance (level.rest.trans ahead)
    refine ⟨place, place', behind'.trans behind.symm, stop'.trans stop.symm, fun c member => ?_⟩
    rw [pending] at member
    rcases List.mem_append.mp member with old | new
    · exact level.loose c old
    · obtain ⟨u, inside, _, rfl⟩ := f.mem_commentsIn new
      exact ⟨u, ((f.mem_tokensIn).mp inside).1, rfl⟩

/-- The tokens ahead and the comments passed are what the lexer makes. -/
theorem of : s.Of f where
  file := level.first.file
  kinds := fun _ member => f.kind_ne_endOfInput (level.first.mem_rest member).1
  spelled := fun _ member => spelled_of_measured (f.measured (level.first.mem_rest member).1)
  pending := fun c member => by
    obtain ⟨t, _, rfl⟩ := level.loose c member
    exact ⟨rfl, rfl, rfl⟩

theorem tidy : s.Tidy where
  tokens := fun _ member => f.kind_ne_endOfInput (level.first.mem_rest member).1
  comments := fun c member => by
    obtain ⟨t, _, rfl⟩ := level.loose c member
    rfl
  labelled := fun c member => by
    obtain ⟨t, _, rfl⟩ := level.loose c member
    rfl

end Level

/-! ## Trees -/

/-- The second result is in step with the first one: if the first tree has no errors and the limit cuts it well, then
the states behind are level, and the trees are the same if the count stays within the limit. -/
def InStep (f : SourceFile) (limit depth : Nat) (isWhole : Bool) (stop : Nat) (r r' : ParseTree × State) : Prop :=
  r.1.hasError = false → CutsWell f limit (r.1.visits depth isWhole stop) →
    Level f r.2 r'.2 ∧ (Shallow limit (r.1.visits depth isWhole stop) → r'.1 = r.1)

/-- A draft without errors that the limit cuts well. -/
structure Fine (f : SourceFile) (limit : Nat) (kind : NodeKind) (depth stop : Nat) (d : Draft) : Prop where
  clean : d.isClean = true
  cuts : CutsWell f limit (visitsAll kind depth stop d.tree.children)

/-- Two drafts of trees of a kind that grow side by side. -/
structure Abreast (f : SourceFile) (limit : Nat) (kind : NodeKind) (depth stop : Nat) (s s' : State) (d d' : Draft) :
    Prop where
  first : Growing f kind s 0 d
  second : Growing f kind s' 0 d'
  states : Level f d.state d'.state
  same : Shallow limit (visitsAll kind depth stop d.tree.children) → d'.tree = d.tree

variable {limit depth stop : Nat} {isWhole : Bool} {kind : NodeKind} {d d' : Draft} {role : Option Role}

theorem InStep.of_eq {r r' : ParseTree × State} (states : Level f r.2 r'.2) (tree : r'.1 = r.1) :
    InStep f limit depth isWhole stop r r' := fun _ _ => ⟨states, fun _ => tree⟩

/-- The visits in a draft that has gained a child. -/
theorem visitsAll_attach (kind : NodeKind) (depth stop : Nat) (d : Draft) (role : Option Role) (c : ParseTree) :
    ∃ placed, visitsAll kind depth stop (d.attach role c).tree.children = visitsAll kind depth stop d.tree.children ++
      placed ++ (c.inRole role).visits depth ((c.inRole role).isWholeIn kind) stop := by
  obtain ⟨placed, children, _⟩ := (attached_attach d role c).children
  refine ⟨visitsAll kind depth stop placed, ?_⟩
  rw [children, ParseTree.visitsAll_append, ParseTree.visitsAll_append]
  congr 1
  simp [visitsAll]

/-- The count stays within the limit in what a draft has had and in its new child. -/
theorem shallow_of_attach {c : ParseTree}
    (shallow : Shallow limit (visitsAll kind depth stop (d.attach role c).tree.children)) :
    Shallow limit (visitsAll kind depth stop d.tree.children) ∧
      Shallow limit (c.visits depth ((c.inRole role).isWholeIn kind) stop) := by
  obtain ⟨placed, visits⟩ := visitsAll_attach kind depth stop d role c
  rw [visits, Shallow.append_iff, Shallow.append_iff, Shallow.inRole_iff] at shallow
  exact ⟨shallow.1.1, shallow.2⟩

theorem shallow_of_place {p : Production}
    (shallow : Shallow limit (visitsAll kind depth stop (d.place role p).tree.children)) :
    Shallow limit (visitsAll kind depth stop d.tree.children) ∧
      Shallow limit ((p d.state).1.visits depth (((p d.state).1.inRole role).isWholeIn kind) stop) :=
  shallow_of_attach (d := { d with state := (p d.state).2 }) shallow

theorem shallow_of_expect {wanted : TokenKind}
    (shallow : Shallow limit (visitsAll kind depth stop (d.expect wanted).tree.children)) :
    Shallow limit (visitsAll kind depth stop d.tree.children) := by
  rw [Draft.expect] at shallow
  split at shallow
  · rw [Draft.take, Draft.takeAs] at shallow
    exact (shallow_of_place shallow).1
  · split at shallow
    · rw [Draft.take, Draft.takeAs] at shallow
      exact (shallow_of_place (shallow_of_place shallow).1).1
    · exact (shallow_of_attach shallow).1

namespace Fine

variable {c : ParseTree}

theorem of_attach (fine : Fine f limit kind depth stop (d.attach role c)) : Fine f limit kind depth stop d := by
  obtain ⟨placed, visits⟩ := visitsAll_attach kind depth stop d role c
  have cuts := fine.cuts
  rw [visits, CutsWell.append_iff, CutsWell.append_iff] at cuts
  exact ⟨(clean_of_attach fine.clean).1, cuts.1.1⟩

theorem child (fine : Fine f limit kind depth stop (d.attach role c)) :
    c.hasError = false ∧ CutsWell f limit (c.visits depth ((c.inRole role).isWholeIn kind) stop) := by
  obtain ⟨placed, visits⟩ := visitsAll_attach kind depth stop d role c
  have cuts := fine.cuts
  rw [visits, CutsWell.append_iff] at cuts
  exact ⟨(clean_of_attach fine.clean).2, CutsWell.inRole_iff.mp cuts.2⟩

theorem child_place {p : Production} (fine : Fine f limit kind depth stop (d.place role p)) :
    (p d.state).1.hasError = false ∧
      CutsWell f limit ((p d.state).1.visits depth (((p d.state).1.inRole role).isWholeIn kind) stop) :=
  child (d := { d with state := (p d.state).2 }) fine

theorem of_place {p : Production} (fine : Fine f limit kind depth stop (d.place role p)) :
    Fine f limit kind depth stop d := by
  have before := of_attach (d := { d with state := (p d.state).2 }) fine
  exact ⟨before.clean, before.cuts⟩

theorem of_take (fine : Fine f limit kind depth stop (d.take role)) : Fine f limit kind depth stop d :=
  of_place (p := leafOf (leafKind d.state.peek.kind)) fine

theorem of_comma (fine : Fine f limit kind depth stop (if d.isAt .comma then Turn.again d.take else .done d).value) :
    Fine f limit kind depth stop d := by
  split at fine
  · exact fine.of_take
  · exact fine

theorem of_lacking {missing : NodeKind} (fine : Fine f limit kind depth stop (d.lacking role missing)) :
    Fine f limit kind depth stop d := of_attach fine

theorem of_expect {wanted : TokenKind} (fine : Fine f limit kind depth stop (d.expect wanted)) :
    Fine f limit kind depth stop d := by
  rw [Draft.expect] at fine
  split at fine
  · exact fine.of_take
  · split at fine
    · exact fine.of_take.of_place
    · exact fine.of_lacking

end Fine

/-! ## Steps of two drafts -/

theorem Growing.grown_of {reach : Nat} (growing : Growing f kind s reach d) (filled : d.tree.children ≠ []) :
    Grown f kind s reach d := by
  cases growing with
  | bare place other reaches => exact absurd rfl filled
  | grown grown => exact grown

theorem children_attach_ne_nil (d : Draft) (role : Option Role) (c : ParseTree) :
    (d.attach role c).tree.children ≠ [] := (attached_attach d role c).children_ne_nil

theorem children_take_ne_nil (d : Draft) (role : Option Role) : (d.take role).tree.children ≠ [] :=
  children_attach_ne_nil _ _ _

theorem children_expect_ne_nil (d : Draft) (wanted : TokenKind) : (d.expect wanted).tree.children ≠ [] := by
  rw [Draft.expect]
  split
  · exact children_take_ne_nil d none
  · split
    · exact children_take_ne_nil _ none
    · exact children_attach_ne_nil _ _ _

namespace Abreast

theorem opened (states : Level f s s') (other : kind ≠ .comment) :
    Abreast f limit kind depth stop s s' (Draft.opened kind s) (Draft.opened kind s') :=
  ⟨.bare states.first other (Nat.zero_le _), .bare states.second other (Nat.zero_le _), states, fun _ => rfl⟩

/-- Two children are attached that are the same as far as the count stays within the limit. -/
theorem attach {r r' : ParseTree × State} (abreast : Abreast f limit kind depth stop s s' d d')
    (reading : Reading f d.state r.1 r.2) (reading' : Reading f d'.state r'.1 r'.2)
    (grown : Grown f kind s 0 (({ d with state := r.2 } : Draft).attach role r.1))
    (grown' : Grown f kind s' 0 (({ d' with state := r'.2 } : Draft).attach role r'.1)) (states : Level f r.2 r'.2)
    (same : Shallow limit (r.1.visits depth ((r.1.inRole role).isWholeIn kind) stop) → r'.1 = r.1) :
    Abreast f limit kind depth stop s s' (({ d with state := r.2 } : Draft).attach role r.1)
      (({ d' with state := r'.2 } : Draft).attach role r'.1) := by
  have pending := (attached_attach { d with state := r.2 } role r.1).pending
  refine ⟨.grown grown, .grown grown', ⟨grown.reading.place, grown'.reading.place, ?_, ?_, ?_⟩, fun shallow => ?_⟩
  · rw [Draft.rest_attach, Draft.rest_attach]
    exact states.rest
  · rw [Draft.lastStop_attach, Draft.lastStop_attach]
    exact states.lastStop
  · exact fun c member => states.loose c (pending c member)
  · obtain ⟨before, inside⟩ := shallow_of_attach (d := { d with state := r.2 }) shallow
    have tree := abreast.same before
    have child := same inside
    obtain ⟨c, u⟩ := r
    obtain ⟨c', u'⟩ := r'
    obtain rfl : c' = c := child
    rcases abreast.first with ⟨place, other, reaches⟩ | grows
    · rcases abreast.second with ⟨place', other', reaches'⟩ | grows'
      · rfl
      · exact absurd (congrArg ParseTree.children tree) grows'.grown
    · rcases abreast.second with ⟨place', other', reaches'⟩ | grows'
      · exact absurd (congrArg ParseTree.children tree).symm grows.grown
      · rw [grows.attach_eq reading, grows'.attach_eq reading']
        dsimp only
        rw [tree]

theorem attachReads {r r' : ParseTree × State} (abreast : Abreast f limit kind depth stop s s' d d')
    (reads : Reads f d.state r) (reads' : Reads f d'.state r') (states : Level f r.2 r'.2)
    (same : Shallow limit (r.1.visits depth ((r.1.inRole role).isWholeIn kind) stop) → r'.1 = r.1) :
    Abreast f limit kind depth stop s s' (({ d with state := r.2 } : Draft).attach role r.1)
      (({ d' with state := r'.2 } : Draft).attach role r'.1) :=
  abreast.attach reads.reading reads'.reading ((abreast.first.attach role reads).mono (Nat.zero_le _))
    ((abreast.second.attach role reads').mono (Nat.zero_le _)) states same

/-- Both read the same tree. -/
theorem attachSame {r r' : ParseTree × State} (abreast : Abreast f limit kind depth stop s s' d d')
    (reads : Reads f d.state r) (reads' : Reads f d'.state r') (states : Level f r.2 r'.2) (tree : r'.1 = r.1)
    (role : Option Role) :
    Abreast f limit kind depth stop s s' (({ d with state := r.2 } : Draft).attach role r.1)
      (({ d' with state := r'.2 } : Draft).attach role r'.1) :=
  abreast.attachReads reads reads' states fun _ => tree

/-- Both read a tree in step. -/
theorem read {p q : Production} (abreast : Abreast f limit kind depth stop s s' d d')
    (fine : Fine f limit kind depth stop (d.place role p)) (reads : Reads f d.state (p d.state))
    (reads' : Reads f d'.state (q d'.state)) (known : ((p d.state).1.inRole role).isWholeIn kind = isWhole)
    (inStep : InStep f limit depth isWhole stop (p d.state) (q d'.state)) :
    Abreast f limit kind depth stop s s' (d.place role p) (d'.place role q) := by
  subst known
  obtain ⟨clean, cuts⟩ := fine.child_place
  obtain ⟨states, same⟩ := inStep clean cuts
  exact abreast.attachReads reads reads' states same

/-- Both read a tree in step that may be hollow in its role. -/
theorem readHollow {p q : Production} (abreast : Abreast f limit kind depth stop s s' d d')
    (filled : d.tree.children ≠ [] ∧ d'.tree.children ≠ []) (fine : Fine f limit kind depth stop (d.place role p))
    (reads : ReadsHollow f d.state (p d.state)) (reads' : ReadsHollow f d'.state (q d'.state))
    (fits : Role.mayBeHollow role = true) (known : ((p d.state).1.inRole role).isWholeIn kind = isWhole)
    (inStep : InStep f limit depth isWhole stop (p d.state) (q d'.state)) :
    Abreast f limit kind depth stop s s' (d.place role p) (d'.place role q) := by
  subst known
  obtain ⟨clean, cuts⟩ := fine.child_place
  obtain ⟨states, same⟩ := inStep clean cuts
  exact abreast.attach reads.reading reads'.reading ((abreast.first.grown_of filled.1).placeHollow reads fits)
    ((abreast.second.grown_of filled.2).placeHollow reads' fits) states same

end Abreast

theorem Level.leafOf (states : Level f s s') (leaf : NodeKind) :
    Level f (leafOf leaf s).2 (leafOf leaf s').2 ∧ (leafOf leaf s').1 = (leafOf leaf s).1 := by
  refine ⟨states.advance, ?_⟩
  show s'.leaf s'.peek.start s'.peek.stop leaf = s.leaf s.peek.start s.peek.stop leaf
  rw [states.peek, states.leaf]

theorem Level.stray (states : Level f s s') (ahead : s.rest ≠ []) :
    Level f (stray s).2 (stray s').2 ∧ (stray s').1 = (stray s).1 := by
  have ahead' : s'.rest ≠ [] := by rw [states.rest]; exact ahead
  rw [state_stray states.first ahead, state_stray states.second ahead', stray_eq states.first ahead,
    stray_eq states.second ahead']
  refine ⟨states.advance, ?_⟩
  have leaf := (states.leafOf (leafKind s.peek.kind)).2
  show ((ParseTree.childless .error {}).push ((Parser.leafOf (leafKind s'.peek.kind) s').1.inRole none)) =
    ((ParseTree.childless .error {}).push ((Parser.leafOf (leafKind s.peek.kind) s).1.inRole none))
  rw [states.peek, leaf]

namespace Abreast

variable (abreast : Abreast f limit kind depth stop s s' d d')
include abreast

theorem isAt (wanted : TokenKind) : d'.isAt wanted = d.isAt wanted := abreast.states.isAt wanted

theorem isAtAny (kinds : List TokenKind) : d'.isAtAny kinds = d.isAtAny kinds := abreast.states.isAtAny kinds

theorem ahead' (ahead : d.state.rest ≠ []) : d'.state.rest ≠ [] := by
  rw [abreast.states.rest]
  exact ahead

theorem takeAs {leaf : NodeKind} (role : Option Role) (ahead : d.state.rest ≠ [])
    (spelled : leaf.spells d.state.peek.kind = true) :
    Abreast f limit kind depth stop s s' (d.takeAs role leaf) (d'.takeAs role leaf) := by
  have spelled' : leaf.spells d'.state.peek.kind = true := by
    rw [abreast.states.peek]
    exact spelled
  obtain ⟨states, tree⟩ := abreast.states.leafOf leaf
  exact abreast.attachSame (reads_leafOf abreast.states.first ahead spelled)
    (reads_leafOf abreast.states.second (abreast.ahead' ahead) spelled') states tree role

theorem take (role : Option Role) (ahead : d.state.rest ≠ []) :
    Abreast f limit kind depth stop s s' (d.take role) (d'.take role) := by
  rw [Draft.take, Draft.take, abreast.states.peek]
  exact abreast.takeAs role ahead (spells_leafKind (abreast.states.first.peek_mem ahead).2.1)

theorem takeToken {wanted : TokenKind} (role : Option Role) (found : d.isAt wanted = true)
    (other : wanted ≠ .endOfInput) : Abreast f limit kind depth stop s s' (d.take role) (d'.take role) :=
  abreast.take role (State.rest_of_isAt found other)

theorem lacking {missing : NodeKind} (role : Option Role) (isLeaf : missing.isLeaf = true) :
    Abreast f limit kind depth stop s s' (d.lacking role missing) (d'.lacking role missing) :=
  abreast.attachSame (reads_placeholder abreast.states.first isLeaf) (reads_placeholder abreast.states.second isLeaf)
    abreast.states (abreast.states.placeholder missing) role

theorem takeName (role : Option Role) :
    Abreast f limit kind depth stop s s' (d.takeName role) (d'.takeName role) := by
  rw [Draft.takeName, Draft.takeName, abreast.isAt]
  split
  · rename_i found
    refine abreast.takeAs role (State.rest_of_isAt found TokenKind.noConfusion) ?_
    rw [State.kind_of_isAt found]
    rfl
  · exact abreast.lacking role rfl

theorem stray (ahead : d.state.rest ≠ []) :
    Abreast f limit kind depth stop s s' (d.place none stray) (d'.place none stray) := by
  obtain ⟨states, tree⟩ := abreast.states.stray ahead
  exact abreast.attachSame (reads_stray abreast.states.first ahead)
    (reads_stray abreast.states.second (abreast.ahead' ahead)) states tree none

theorem expect {wanted : TokenKind} (other : wanted ≠ .endOfInput) :
    Abreast f limit kind depth stop s s' (d.expect wanted) (d'.expect wanted) := by
  rw [Draft.expect, Draft.expect, abreast.isAt, abreast.states.isAtSync, abreast.states.second_eq]
  split
  · rename_i found
    exact abreast.takeToken none found other
  · split
    · rename_i found
      obtain ⟨away, second⟩ := Bool.and_eq_true_iff.mp found
      have ahead : d.state.rest ≠ [] := by
        intro ended
        rw [State.isAtSync, State.peek_of_end ended] at away
        exact absurd away Bool.false_ne_true
      refine (abreast.stray ahead).take none ?_
      rw [Draft.place_eq, Draft.rest_attach]
      show (Parser.stray d.state).2.rest ≠ []
      rw [state_stray abreast.states.first ahead, rest_advance]
      exact drop_of_second (beq_iff_eq.mp second) other
    · exact abreast.lacking none rfl

end Abreast

/-- Two trees become the first children of new ones. -/
theorem Abreast.wrapped {t t' : ParseTree} {u u' : State} (reads : Reads f s (t, u)) (reads' : Reads f s' (t', u'))
    (states : Level f u u') (role : Option Role) (other : kind ≠ .comment)
    (same : Shallow limit (t.visits depth ((t.inRole role).isWholeIn kind) stop) → t' = t) :
    Abreast f limit kind depth stop s s' ((Draft.opened kind u).attach role t)
      ((Draft.opened kind u').attach role t') := by
  refine ⟨.grown ((reads.opened u role other).mono (Nat.zero_le _)),
    .grown ((reads'.opened u' role other).mono (Nat.zero_le _)), states, fun shallow => ?_⟩
  have child : t' = t := by
    refine same (Shallow.inRole_iff.mp (?_ : Shallow limit ((t.inRole role).visits depth _ stop)))
    simpa [visitsAll] using (Shallow.append_iff.mp shallow).1
  rw [child]
  rfl

/-! ## Loops -/

/-- Turns that both go on or both end. -/
inductive Turn.Paired {α : Type} (R Q : α → α → Prop) : Turn α → Turn α → Prop
  | again {a b : α} (related : R a b) (ends : Q a b) : Paired R Q (.again a) (.again b)
  | done {a b : α} (ends : Q a b) : Paired R Q (.done a) (.done b)

theorem Turn.Paired.mono {α : Type} {R R' Q : α → α → Prop} {x y : Turn α} (paired : Paired R Q x y)
    (wider : ∀ a b, R a b → R' a b) : Paired R' Q x y := by
  cases paired with
  | again related ends => exact .again (wider _ _ related) ends
  | done ends => exact .done ends

/-- What holds in front of a turn if it holds behind it held behind the first turn of a loop. -/
theorem iterate_back {α : Type} {stateOf : α → State} {turn : α → Turn α} {G : α → Prop}
    (back : ∀ a, G (turn a).value → G a) {a : α} (good : G (iterate stateOf turn a)) : G (turn a).value := by
  fun_induction iterate stateOf turn a with
  | case1 a next found =>
    rw [found]
    exact good
  | case2 a next found shorter ih =>
    rw [found]
    exact back next (ih good)
  | case3 a next found longer =>
    rw [found]
    exact good

/-- Two loops side by side, of which the second one may end early. What holds of the first one at its end has held of
it all along. -/
theorem iterate_paired {α : Type} {stateOf : α → State} {turn turn' : α → Turn α} {R E Q : α → α → Prop} {G : α → Prop}
    {a b : α} (length : ∀ a b, R a b → (stateOf a).rest.length = (stateOf b).rest.length)
    (settled : ∀ a b, E a b → turn' b = .done b) (keeps : ∀ a b, E a b → E (turn a).value b)
    (ends : ∀ a b, E a b → Q a b) (back : ∀ a, G (turn a).value → G a)
    (step : ∀ a b, R a b → G (turn a).value → Turn.Paired (fun a b => R a b ∨ E a b) Q (turn a) (turn' b))
    (related : R a b ∨ E a b) (good : G (iterate stateOf turn a)) :
    Q (iterate stateOf turn a) (iterate stateOf turn' b) := by
  have first := iterate_back back good
  have early : ∀ a b, E a b → iterate stateOf turn' b = b := by
    intro a b ended
    rw [iterate.eq_def, settled a b ended]
  have late : ∀ a b, E a b → Q (iterate stateOf turn a) (iterate stateOf turn' b) := by
    intro a b ended
    rw [early a b ended]
    exact ends _ _ (iterate_keeps (P := fun a => E a b) ended fun a => keeps a b)
  rcases related with related | ended
  case inr => exact late a b ended
  fun_induction iterate stateOf turn a generalizing b with
  | case1 a next found =>
    have paired := step a b related first
    rw [found] at paired
    rw [iterate.eq_def stateOf turn' b]
    generalize turn' b = other at paired
    cases paired with
    | done ends => exact ends
  | case2 a next found shorter ih =>
    have paired := step a b related first
    rw [found] at paired
    rw [iterate.eq_def stateOf turn' b]
    generalize turn' b = other at paired
    cases paired with
    | @again _ next' related' _ =>
      show Q _ (if _ then _ else _)
      rcases related' with related' | ended
      · rw [if_pos (by rw [← length _ _ related, ← length _ _ related']; exact shorter)]
        exact ih good (iterate_back back good) related'
      · rw [early next next' ended, ite_self, ← early next next' ended]
        exact late next next' ended
  | case3 a next found longer =>
    have paired := step a b related first
    rw [found] at paired
    rw [iterate.eq_def stateOf turn' b]
    generalize turn' b = other at paired
    cases paired with
    | @again _ next' related' ends =>
      show Q _ (if _ then _ else _)
      rcases related' with related' | ended
      · rw [if_neg (by rw [← length _ _ related, ← length _ _ related']; exact longer)]
        exact ends
      · rw [early next next' ended, ite_self]
        exact ends

/-- Two loops side by side that end together. -/
theorem iterate_together {α : Type} {stateOf : α → State} {turn turn' : α → Turn α} {R Q : α → α → Prop} {G : α → Prop}
    {a b : α} (length : ∀ a b, R a b → (stateOf a).rest.length = (stateOf b).rest.length)
    (back : ∀ a, G (turn a).value → G a)
    (step : ∀ a b, R a b → G (turn a).value → Turn.Paired R Q (turn a) (turn' b)) (related : R a b)
    (good : G (iterate stateOf turn a)) : Q (iterate stateOf turn a) (iterate stateOf turn' b) := by
  refine iterate_paired (E := fun _ _ => False) length (fun _ _ none => none.elim) (fun _ _ => id)
    (fun _ _ none => none.elim) back (fun a b related good => ?_) (Or.inl related) good
  exact (step a b related good).mono (fun _ _ => Or.inl)

namespace Abreast

/-- A loop whose drafts stay abreast. -/
theorem loop {turn turn' : Draft → Turn Draft} (abreast : Abreast f limit kind depth stop s s' d d')
    (fine : Fine f limit kind depth stop (d.loop turn))
    (back : ∀ v, Fine f limit kind depth stop (turn v).value → Fine f limit kind depth stop v)
    (step : ∀ v w, Abreast f limit kind depth stop s s' v w → Fine f limit kind depth stop (turn v).value →
      Turn.Paired (Abreast f limit kind depth stop s s') (Abreast f limit kind depth stop s s') (turn v) (turn' w)) :
    Abreast f limit kind depth stop s s' (d.loop turn) (d'.loop turn') :=
  iterate_together (fun _ _ abreast => by rw [abreast.states.rest]) back step abreast fine

/-- Items between commas, behind a first child. -/
theorem items {closing : TokenKind} {item item' : Draft → Draft}
    (abreast : Abreast f limit kind depth stop s s' d d') (other : closing ≠ .endOfInput)
    (filled : d.tree.children ≠ [] ∧ d'.tree.children ≠ []) (fine : Fine f limit kind depth stop (d.items closing item))
    (back : ∀ v, Fine f limit kind depth stop (item v) → Fine f limit kind depth stop v)
    (step : ∀ v w, Abreast f limit kind depth stop s s' v w → v.tree.children ≠ [] ∧ w.tree.children ≠ [] →
      Fine f limit kind depth stop (item v) → Abreast f limit kind depth stop s s' (item v) (item' w)) :
    Abreast f limit kind depth stop s s' (d.items closing item) (d'.items closing item') := by
  refine Abreast.expect (iterate_together (Q := Abreast f limit kind depth stop s s')
    (R := fun v w => Abreast f limit kind depth stop s s' v w ∧ v.tree.children ≠ [] ∧ w.tree.children ≠ [])
    (fun _ _ both => by rw [both.1.states.rest]) (fun v fine => ?_) (fun v w both fine => ?_) ⟨abreast, filled⟩
    fine.of_expect) other
  · rw [itemTurn] at fine
    split at fine
    · exact fine
    · exact back v (Fine.of_comma fine)
  · obtain ⟨abreast, filled⟩ := both
    rw [itemTurn] at fine ⊢
    rw [itemTurn, abreast.isAt, abreast.states.peek]
    split
    · exact .done abreast
    · rename_i inside
      rw [if_neg inside] at fine
      have placed := step v w abreast filled (Fine.of_comma fine)
      dsimp only
      rw [placed.isAt]
      split
      · rename_i comma
        have taken := placed.takeToken none comma TokenKind.noConfusion
        exact .again ⟨taken, children_take_ne_nil _ _, children_take_ne_nil _ _⟩ taken
      · exact .done placed

end Abreast

theorem Draft.kind_loop {turn : Draft → Turn Draft} (keeps : ∀ d, (turn d).value.tree.kind = d.tree.kind) (d : Draft) :
    (d.loop turn).tree.kind = d.tree.kind :=
  iterate_keeps (P := fun v : Draft => v.tree.kind = d.tree.kind) rfl fun v same => (keeps v).trans same

theorem Draft.kind_items {closing : TokenKind} {item : Draft → Draft} (keeps : ∀ d, (item d).tree.kind = d.tree.kind)
    (d : Draft) : (d.items closing item).tree.kind = d.tree.kind := by
  rw [Draft.items, Draft.kind_expect, Draft.kind_loop]
  intro v
  rw [itemTurn]
  split
  · rfl
  · dsimp only
    split
    · exact (Draft.kind_take _ none).trans (keeps v)
    · exact keeps v

/-! ## Finished trees -/

section

variable (known : d.tree.kind = kind)
include known

theorem Fine.of_visits (clean : d.tree.hasError = false) (cuts : CutsWell f limit (d.tree.visits depth false stop)) :
    Fine f limit kind (depth + kind.deepens.toNat) stop d := by
  have within : (Visit.of depth false stop d.tree).within = depth + kind.deepens.toNat := by
    simp [Visit.of, Visit.within, known]
  rw [CutsWell.visits_iff, within, known] at cuts
  exact ⟨by rw [Draft.isClean, clean]; rfl, cuts.2⟩

theorem shallow_children (shallow : Shallow limit (d.tree.visits depth false stop)) :
    Shallow limit (visitsAll kind (depth + kind.deepens.toNat) stop d.tree.children) := by
  have within : (Visit.of depth false stop d.tree).within = depth + kind.deepens.toNat := by
    simp [Visit.of, Visit.within, known]
  rw [Shallow.visits_iff, within, known] at shallow
  exact shallow.2

theorem Fine.of_tree (flat : kind.deepens = false) (clean : d.tree.hasError = false)
    (cuts : CutsWell f limit (d.tree.visits depth false stop)) : Fine f limit kind depth stop d := by
  have fine := Fine.of_visits known clean cuts
  rw [flat] at fine
  exact fine

theorem Abreast.same_tree (flat : kind.deepens = false) (abreast : Abreast f limit kind depth stop s s' d d')
    (shallow : Shallow limit (d.tree.visits depth false stop)) : d'.tree = d.tree := by
  have children := shallow_children known shallow
  rw [flat] at children
  exact abreast.same children

end

/-- Trees made by drafts that are abreast are in step. -/
theorem InStep.of_abreast (known : d.tree.kind = kind) (flat : kind.deepens = false)
    (abreast : Fine f limit kind depth stop d → Abreast f limit kind depth stop s s' d d') :
    InStep f limit depth false stop (d.tree, d.state) (d'.tree, d'.state) := by
  intro clean cuts
  have both := abreast (.of_tree known flat clean cuts)
  exact ⟨both.states, both.same_tree known flat⟩

end SecurityRules.Parser
