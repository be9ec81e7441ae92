import SecurityRules.Proofs.Landmark.Declarations
import SecurityRules.Proofs.Nesting.Expressions

/-!
# Statements side by side

Drafts of trees that statements stand in, read by two parsers: the second draft has all statements of the first one
that stay within the limit. In other trees there are no statements at all.
-/

namespace SecurityRules

open ParseTree (visitsAll)

/-! ## Where statements stand -/

/-- The kinds of trees that statements stand in. -/
def NodeKind.holdsItems : NodeKind → Bool
  | .sourceFile | .serviceDef | .matchBody | .matchDef | .functionDef | .functionBody => true
  | _ => false

/-- A tree in which no statements stand has none further down either. -/
theorem NodeKind.any_slots_of_holdsItems {kind child : NodeKind} (none : kind.holdsItems = false)
    (holds : (child.holdsItems || child.isStatementItem) = true) :
    (kind.layout.flatMap Piece.slots).any (fun slot => slot.kinds child) = false := by
  cases child <;> simp only [NodeKind.holdsItems, NodeKind.isStatementItem, Bool.or_self, Bool.false_eq_true] at holds
  all_goals cases kind <;> first | rfl | exact absurd none (by decide)

theorem ParseTree.AllOrdered.isStatementItem_below {t n : ParseTree} (ordered : t.AllOrdered)
    (none : t.kind.holdsItems = false) (inside : n ∈ t.children.flatMap nodes) : n.kind.isStatementItem = false := by
  induction t using ParseTree.induct with
  | step t ih =>
    obtain ⟨c, child, inside⟩ := List.mem_flatMap.mp inside
    obtain ⟨self, below⟩ := ParseTree.allOrdered_iff.mp ordered
    have plain : (c.kind.holdsItems || c.kind.isStatementItem) = false := by
      cases isExtra : c.isExtra with
      | true =>
        rw [(self.loose c child isExtra).kind]
        rfl
      | false =>
        have significant : c ∈ t.significant := List.mem_filter.mpr ⟨child, by simp [isExtra]⟩
        obtain ⟨slot, known, fits⟩ := self.fits.exists_slot significant
        rw [Bool.eq_false_iff]
        intro holds
        have filled := List.any_eq_false.mp (NodeKind.any_slots_of_holdsItems none holds) slot known
        exact filled fits.2
    obtain ⟨holds, item⟩ := Bool.or_eq_false_iff.mp plain
    rcases mem_nodes.mp inside with rfl | deeper
    · exact item
    · exact ih c child (below c child) holds (List.mem_flatMap.mpr deeper)

/-- The statements among visits that stay within a limit stand in some trees. -/
def Keeps (limit : Nat) (vs : List Visit) (ts : List ParseTree) : Prop :=
  ∀ v ∈ vs, v.tree.kind.isStatementItem = true → Shallow limit (v.tree.visits v.before v.isWhole v.stop) →
    ∃ t ∈ ts, v.tree ∈ t.nodes

namespace Keeps

variable {limit level stop : Nat} {isWhole : Bool} {parent : NodeKind} {vs ws : List Visit} {ts us : List ParseTree}

theorem of_none (none : ∀ v ∈ vs, v.tree.kind.isStatementItem = false) : Keeps limit vs ts := by
  intro v member item
  rw [none v member] at item
  cases item

theorem append (first : Keeps limit vs ts) (second : Keeps limit ws ts) : Keeps limit (vs ++ ws) ts := by
  intro v member
  rcases List.mem_append.mp member with front | back
  · exact first v front
  · exact second v back

theorem mono (keeps : Keeps limit vs ts) (wider : ∀ t ∈ ts, t ∈ us) : Keeps limit vs us := by
  intro v member item shallow
  obtain ⟨t, inside, found⟩ := keeps v member item shallow
  exact ⟨t, wider t inside, found⟩

/-- Visits past the limit are of no statement within it. -/
theorem of_deep (deep : ∀ v ∈ vs, limit < v.within) : Keeps limit vs ts := by
  intro v member _ shallow
  have within := shallow _ (ParseTree.of_mem_visits v.before v.isWhole v.stop v.tree)
  have here : (Visit.of v.before v.isWhole v.stop v.tree).within = v.within := rfl
  exact absurd within (by rw [here]; exact Nat.not_le_of_lt (deep v member))

theorem of_allOrdered {t : ParseTree} (ordered : t.AllOrdered) (none : t.kind.holdsItems = false) :
    Keeps limit (visitsAll parent level stop t.children) ts := by
  refine of_none fun v member => ordered.isStatementItem_below none ?_
  obtain ⟨c, child, below⟩ := ParseTree.mem_visitsAll.mp member
  exact List.mem_flatMap.mpr ⟨c, child, ParseTree.tree_mem_nodes_of_mem_visits below⟩

theorem of_leaf {t : ParseTree} (childless : t.children = []) (other : t.kind.isStatementItem = false) :
    Keeps limit (t.visits level isWhole stop) ts := by
  refine of_none fun v member => ?_
  rcases ParseTree.mem_visits.mp member with rfl | ⟨c, child, _⟩
  · exact other
  · rw [childless] at child
    cases child

end Keeps

namespace Parser

open ParseTree (AllOrdered)

variable {f : SourceFile} {limit depth stop : Nat} {kind : NodeKind} {s s' : State} {d d' : Draft} {role : Option Role}

/-! ## Drafts with statements -/

/-- Two drafts that grow side by side, where the second one has the statements of the first one that stay within the
limit. -/
structure Guarded (f : SourceFile) (limit : Nat) (kind : NodeKind) (depth stop : Nat) (s s' : State) (d d' : Draft) :
    Prop where
  abreast : Abreast f limit kind depth stop s s' d d'
  keeps : Keeps limit (visitsAll kind depth stop d.tree.children) d'.tree.children

/-- The second result is in step with the first one and has the statements in it that stay within the limit. -/
structure Preserves (f : SourceFile) (limit depth stop : Nat) (r r' : ParseTree × State) : Prop where
  inStep : InStep f limit depth false stop r r'
  keeps : r.1.hasError = false → CutsWell f limit (r.1.visits depth false stop) →
    Keeps limit (visitsAll r.1.kind (Visit.of depth false stop r.1).within stop r.1.children) r'.1.children

/-- A tree in which no statements stand. -/
theorem Preserves.of_inStep {kinds : NodeKind → Bool} {r r' : ParseTree × State}
    (inStep : InStep f limit depth false stop r r') (yielded : Yielded f kinds r)
    (none : ∀ k, kinds k = true → k.holdsItems = false) : Preserves f limit depth stop r r' := by
  refine ⟨inStep, fun clean _ => ?_⟩
  obtain ⟨known, ordered⟩ := yielded.made clean
  exact .of_allOrdered ordered (none _ known)

namespace Guarded

theorem opened (states : Level f s s') (other : kind ≠ .comment) :
    Guarded f limit kind depth stop s s' (Draft.opened kind s) (Draft.opened kind s') :=
  ⟨.opened states other, .of_none fun _ none => absurd none List.not_mem_nil⟩

/-- Both gain a child. -/
theorem attach (r r' : ParseTree × State) (guarded : Guarded f limit kind depth stop s s' d d')
    (next : Abreast f limit kind depth stop s s' (({ d with state := r.2 } : Draft).attach role r.1)
      (({ d' with state := r'.2 } : Draft).attach role r'.1)) (loose : r.2.IsLoose f)
    (child : Keeps limit ((r.1.inRole role).visits depth ((r.1.inRole role).isWholeIn kind) stop)
      [r'.1.inRole role]) :
    Guarded f limit kind depth stop s s' (({ d with state := r.2 } : Draft).attach role r.1)
      (({ d' with state := r'.2 } : Draft).attach role r'.1) := by
  obtain ⟨placed, children, comments, _⟩ := (attached_attach { d with state := r.2 } role r.1).children
  obtain ⟨placed', children', _⟩ := (attached_attach { d' with state := r'.2 } role r'.1).children
  refine ⟨next, ?_⟩
  rw [children, children', ParseTree.visitsAll_append, ParseTree.visitsAll_append]
  refine .append (.append ?_ ?_) ?_
  · exact guarded.keeps.mono fun t member => List.mem_append_left _ (List.mem_append_left _ member)
  · refine .of_none fun v member => ?_
    obtain ⟨c, inside, visit⟩ := ParseTree.mem_visitsAll.mp member
    obtain ⟨t, _, rfl⟩ := loose c (comments c inside)
    rcases ParseTree.mem_visits.mp visit with rfl | ⟨_, none, _⟩
    · rfl
    · cases none
  · have only : visitsAll kind depth stop [r.1.inRole role] =
        (r.1.inRole role).visits depth ((r.1.inRole role).isWholeIn kind) stop := by simp [visitsAll]
    rw [only]
    exact child.mono fun t member => List.mem_append_right _ member

/-- Both read a tree in which the statements within the limit are the same. -/
theorem read {p q : Production} (guarded : Guarded f limit kind depth stop s s' d d')
    (next : Abreast f limit kind depth stop s s' (d.place role p) (d'.place role q))
    (fine : Fine f limit kind depth stop (d.place role p))
    (known : ((p d.state).1.inRole role).isWholeIn kind = false)
    (preserves : Preserves f limit depth stop (p d.state) (q d'.state)) :
    Guarded f limit kind depth stop s s' (d.place role p) (d'.place role q) := by
  obtain ⟨clean, cuts⟩ := fine.child_place
  rw [known] at cuts
  obtain ⟨states, same⟩ := preserves.inStep clean cuts
  have keeps := preserves.keeps clean cuts
  refine guarded.attach (p d.state) (q d'.state) next states.loose ?_
  rw [known]
  intro v member item shallow
  refine ⟨_, List.mem_singleton_self _, ?_⟩
  rcases ParseTree.mem_visits.mp member with rfl | ⟨c, child, below⟩
  · rw [same (Shallow.inRole_iff.mp shallow)]
    exact ParseTree.self_mem_nodes _
  · have inside : v ∈ visitsAll (p d.state).1.kind (Visit.of depth false stop (p d.state).1).within stop
        (p d.state).1.children := by
      refine ParseTree.mem_visitsAll.mpr ⟨c, by simpa using child, ?_⟩
      simpa [Visit.of, Visit.within] using below
    obtain ⟨t, member, found⟩ := keeps v inside item shallow
    exact ParseTree.mem_nodes.mpr (Or.inr ⟨t, by simpa using member, found⟩)

variable (guarded : Guarded f limit kind depth stop s s' d d')
include guarded

theorem place {p q : Production} (fine : Fine f limit kind depth stop (d.place role p))
    (reads : Reads f d.state (p d.state)) (reads' : Reads f d'.state (q d'.state))
    (known : ((p d.state).1.inRole role).isWholeIn kind = false)
    (preserves : Preserves f limit depth stop (p d.state) (q d'.state)) :
    Guarded f limit kind depth stop s s' (d.place role p) (d'.place role q) :=
  guarded.read (guarded.abreast.read fine reads reads' known preserves.inStep) fine known preserves

theorem placeHollow {p q : Production} (filled : d.tree.children ≠ [] ∧ d'.tree.children ≠ [])
    (fine : Fine f limit kind depth stop (d.place role p)) (reads : ReadsHollow f d.state (p d.state))
    (reads' : ReadsHollow f d'.state (q d'.state)) (fits : Role.mayBeHollow role = true)
    (known : ((p d.state).1.inRole role).isWholeIn kind = false)
    (preserves : Preserves f limit depth stop (p d.state) (q d'.state)) :
    Guarded f limit kind depth stop s s' (d.place role p) (d'.place role q) :=
  guarded.read (guarded.abreast.readHollow filled fine reads reads' fits known preserves.inStep) fine known preserves

theorem takeAs {leaf : NodeKind} (role : Option Role) (ahead : d.state.rest ≠ [])
    (spelled : leaf.spells d.state.peek.kind = true) (other : leaf.isStatementItem = false) :
    Guarded f limit kind depth stop s s' (d.takeAs role leaf) (d'.takeAs role leaf) :=
  guarded.attach (leafOf leaf d.state) (leafOf leaf d'.state) (guarded.abreast.takeAs role ahead spelled)
    guarded.abreast.states.advance.loose (.of_leaf (ParseTree.children_inRole _ _)
      ((congrArg _ (ParseTree.kind_inRole _ _)).trans other))

theorem takeToken {wanted : TokenKind} (role : Option Role) (found : d.isAt wanted = true)
    (other : wanted ≠ .endOfInput) : Guarded f limit kind depth stop s s' (d.take role) (d'.take role) := by
  have ahead := State.rest_of_isAt found other
  rw [Draft.take, Draft.take, guarded.abreast.states.peek]
  refine guarded.takeAs role ahead (spells_leafKind (guarded.abreast.states.first.peek_mem ahead).2.1) ?_
  cases d.state.peek.kind <;> rfl

theorem expect {wanted : TokenKind} (fine : Fine f limit kind depth stop (d.expect wanted))
    (other : wanted ≠ .endOfInput) : Guarded f limit kind depth stop s s' (d.expect wanted) (d'.expect wanted) := by
  have found : d.isAt wanted = true := by
    by_contra absent
    have clean := fine.clean
    rw [dirty_expect absent] at clean
    cases clean
  rw [Draft.expect, Draft.expect, guarded.abreast.isAt, if_pos found, if_pos found]
  exact guarded.takeToken none found other

theorem takeName {role : Option Role} (fine : Fine f limit kind depth stop (d.takeName role)) :
    Guarded f limit kind depth stop s s' (d.takeName role) (d'.takeName role) := by
  have found : d.isAt .identifier = true := by
    by_contra absent
    have clean := fine.clean
    rw [Draft.takeName, if_neg absent, dirty_lacking] at clean
    cases clean
  rw [Draft.takeName, Draft.takeName, guarded.abreast.isAt, if_pos found, if_pos found]
  refine guarded.takeAs role (State.rest_of_isAt found TokenKind.noConfusion) ?_ rfl
  rw [State.kind_of_isAt found]
  rfl

end Guarded

/-- Trees made by drafts with statements. -/
theorem Preserves.branch {fill fill' : Draft → Draft} (states : Level f s s') (other : kind ≠ .comment)
    (yielded : Yielded f (· == kind) (Parser.branch kind fill s))
    (guarded : Guarded f limit kind (depth + kind.deepens.toNat) stop s s' (Draft.opened kind s)
      (Draft.opened kind s') → Fine f limit kind (depth + kind.deepens.toNat) stop (fill (Draft.opened kind s)) →
      Guarded f limit kind (depth + kind.deepens.toNat) stop s s' (fill (Draft.opened kind s))
        (fill' (Draft.opened kind s'))) :
    Preserves f limit depth stop (Parser.branch kind fill s) (Parser.branch kind fill' s') := by
  have both : ∀ (clean : (fill (Draft.opened kind s)).tree.hasError = false)
      (_ : CutsWell f limit ((fill (Draft.opened kind s)).tree.visits depth false stop)),
      (fill (Draft.opened kind s)).tree.kind = kind ∧
        Guarded f limit kind (depth + kind.deepens.toNat) stop s s' (fill (Draft.opened kind s))
          (fill' (Draft.opened kind s')) := by
    intro clean cuts
    have known : (fill (Draft.opened kind s)).tree.kind = kind := eq_of_beq (yielded.made clean).1
    exact ⟨known, guarded (.opened states other) (.of_visits known clean cuts)⟩
  constructor
  · intro clean cuts
    obtain ⟨known, guarded⟩ := both clean cuts
    exact ⟨guarded.abreast.states, fun shallow => guarded.abreast.same (shallow_children known shallow)⟩
  · intro clean cuts
    obtain ⟨known, guarded⟩ := both clean cuts
    have within : (Visit.of depth false stop (fill (Draft.opened kind s)).tree).within =
        depth + kind.deepens.toNat := by
      simp [Visit.of, Visit.within, known]
    show Keeps limit (visitsAll (fill (Draft.opened kind s)).tree.kind _ stop _) _
    rw [Parser.branch, within, known]
    exact guarded.keeps

/-- A tree made by drafts whose kind is known where it has no errors. -/
theorem InStep.yielded {fill fill' : Draft → Draft} (states : Level f s s') (other : kind ≠ .comment)
    (flat : kind.deepens = false) (yielded : Yielded f (· == kind) (Parser.branch kind fill s))
    (abreast : Abreast f limit kind depth stop s s' (Draft.opened kind s) (Draft.opened kind s') →
      Fine f limit kind depth stop (fill (Draft.opened kind s)) →
      Abreast f limit kind depth stop s s' (fill (Draft.opened kind s)) (fill' (Draft.opened kind s'))) :
    InStep f limit depth false stop (Parser.branch kind fill s) (Parser.branch kind fill' s') := fun clean =>
  InStep.branch states other flat (eq_of_beq (yielded.made clean).1) abreast clean

end Parser

end SecurityRules
