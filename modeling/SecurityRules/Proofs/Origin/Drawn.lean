import SecurityRules.Proofs.Lookup.Spans
import SecurityRules.Proofs.Origin.Makes

/-!
# Where the parts of an element come from

The parts of an element are made of trees inside its own tree that lie apart from each other. Mostly these trees
are drawn from different children of one tree, at most one from each child, and none of them is empty.
-/

namespace SecurityRules.Build

open ParseTree (Regular Apart)

/-- The parts of the element `e` are made of the trees `sources`, inside the tree `t` of `e`. -/
structure Sourced (f : SourceFile) (limit : Nat) (t : ParseTree) (e : Element) (sources : List ParseTree) : Prop where
  made : List.Forall₂ (Makes f limit) sources e.children
  inside : ∀ u ∈ sources, u ∈ t.nodes
  apart : sources.Pairwise Apart
  /-- A call starts with its name, in front of its arguments. -/
  called : ∀ p, e.callPoint? = some p →
    p = f.pointAt t.start ∧ t.kind = .functionCall ∧ ∀ u ∈ sources, t.start < u.start

/-- Elements made of trees that are not empty, in different ones of some children of a tree. -/
def Drawn (f : SourceFile) (limit : Nat) (cs : List ParseTree) (parts : List Element) : Prop :=
  ∃ sources : List ParseTree, List.Forall₂ (Makes f limit) sources parts ∧
    (∀ u ∈ sources, u.isEmpty = false ∧ ∃ a ∈ cs, u ∈ a.nodes) ∧ sources.Pairwise Apart

/-- An element is made of a tree that is not empty, in the tree `a`. -/
def DrawnFrom (f : SourceFile) (limit : Nat) (a : ParseTree) (part : Element) : Prop :=
  ∃ u ∈ a.nodes, Makes f limit u part ∧ u.isEmpty = false

variable {f : SourceFile} {limit : Nat} {t w : ParseTree} {e part : Element} {cs ds : List ParseTree}
  {parts more : List Element}

/-- Trees in different children lie apart if the first one is not empty. -/
theorem apart_of_children (regular : Regular f w) {a b u v : ParseTree} (childA : a ∈ w.children)
    (childB : b ∈ w.children) (differ : a ≠ b) (insideU : u ∈ a.nodes) (filled : u.isEmpty = false)
    (insideV : v ∈ b.nodes) : Apart u v := by
  have rangeU := (regular.of_child childA).inside insideU
  have rangeV := (regular.of_child childB).inside insideV
  have beside := regular.apart childA childB differ
  exact .of_filled (by omega) filled

namespace Drawn

theorem nil : Drawn f limit cs [] := ⟨[], .nil, by simp, .nil⟩

theorem mono (drawn : Drawn f limit cs parts) (more : cs ⊆ ds) : Drawn f limit ds parts := by
  obtain ⟨sources, made, inside, apart⟩ := drawn
  refine ⟨sources, made, fun u member => ?_, apart⟩
  obtain ⟨filled, a, child, node⟩ := inside u member
  exact ⟨filled, a, more child, node⟩

theorem one {a : ParseTree} (drawn : DrawnFrom f limit a part) : Drawn f limit [a] [part] := by
  obtain ⟨u, inside, made, filled⟩ := drawn
  refine ⟨[u], .cons made .nil, ?_, List.pairwise_singleton _ _⟩
  intro v member
  rw [List.mem_singleton.mp member]
  exact ⟨filled, a, List.mem_singleton_self a, inside⟩

theorem append (drawn : Drawn f limit cs parts) (regular : Regular f w) (children : cs ⊆ w.children)
    (children' : ds ⊆ w.children) (differ : ∀ a ∈ cs, ∀ b ∈ ds, a ≠ b) (drawn' : Drawn f limit ds more) :
    Drawn f limit (cs ++ ds) (parts ++ more) := by
  obtain ⟨sources, made, inside, apart⟩ := drawn
  obtain ⟨sources', made', inside', apart'⟩ := drawn'
  refine ⟨sources ++ sources', List.rel_append made made', ?_, List.pairwise_append.mpr ⟨apart, apart', ?_⟩⟩
  · intro u member
    rcases List.mem_append.mp member with old | new
    · obtain ⟨filled, a, child, node⟩ := inside u old
      exact ⟨filled, a, List.mem_append_left _ child, node⟩
    · obtain ⟨filled, a, child, node⟩ := inside' u new
      exact ⟨filled, a, List.mem_append_right _ child, node⟩
  · intro u old v new
    obtain ⟨filled, a, childA, nodeU⟩ := inside u old
    obtain ⟨_, b, childB, nodeV⟩ := inside' v new
    exact apart_of_children regular (children childA) (children' childB) (differ a childA b childB) nodeU filled
      nodeV

/-- At most one part from each of some children in their order. -/
theorem filterMap (regular : Regular f w) {partOf : ParseTree → Option Element} (children : cs.Sublist w.children)
    (each : ∀ a ∈ cs, ∀ part, partOf a = some part → DrawnFrom f limit a part) :
    Drawn f limit cs (cs.filterMap partOf) := by
  induction cs with
  | nil => exact nil
  | cons a rest ih =>
    have later := ih ((List.sublist_cons_self a rest).trans children)
      fun b member => each b (List.mem_cons_of_mem a member)
    cases found : partOf a with
    | none =>
      rw [List.filterMap_cons_none found]
      exact later.mono (List.subset_cons_self a rest)
    | some part =>
      rw [List.filterMap_cons_some found]
      obtain ⟨u, inside, made, filled⟩ := each a (List.mem_cons_self ..) part found
      obtain ⟨sources, madeRest, insideRest, apart⟩ := later
      have ordered := regular.sound.ordered.sublist children
      refine ⟨u :: sources, .cons made madeRest, ?_, List.pairwise_cons.mpr ⟨?_, apart⟩⟩
      · intro v member
        rcases List.mem_cons.mp member with rfl | member
        · exact ⟨filled, a, List.mem_cons_self .., inside⟩
        · obtain ⟨filledV, b, child, node⟩ := insideRest v member
          exact ⟨filledV, b, List.mem_cons_of_mem a child, node⟩
      · intro v member
        obtain ⟨_, b, child, node⟩ := insideRest v member
        have regularA := regular.of_child (children.subset (List.mem_cons_self ..))
        have regularB := regular.of_child (children.subset (List.mem_cons_of_mem a child))
        have before := (List.pairwise_cons.mp ordered).1 b child
        have rangeU := regularA.inside inside
        have rangeV := regularB.inside node
        exact .of_filled (by omega) filled

/-- At most one part from the first child in each of some roles. -/
theorem slots (regular : Regular f w) {slots : List (Role × (ParseTree → Option Element))}
    (roles : (slots.map (·.1)).Nodup)
    (each : ∀ slot ∈ slots, ∀ a ∈ w.children, a.role = some slot.1 → ∀ part, slot.2 a = some part →
      DrawnFrom f limit a part) :
    Drawn f limit (slots.filterMap fun slot => w.child? slot.1)
      (slots.filterMap fun slot => (w.child? slot.1).bind slot.2) := by
  induction slots with
  | nil => exact nil
  | cons slot rest ih =>
    obtain ⟨other, roles⟩ := List.nodup_cons.mp roles
    have later := ih roles fun slot member => each slot (List.mem_cons_of_mem _ member)
    have member : ∀ {role : Role} {a : ParseTree}, w.child? role = some a → a ∈ w.children ∧ a.role = some role :=
      fun found => ⟨List.mem_of_find?_eq_some found, by simpa using List.find?_some found⟩
    rw [List.filterMap_cons, List.filterMap_cons]
    cases found : w.child? slot.1 with
    | none => exact later
    | some a =>
      cases read : slot.2 a with
      | none =>
        simp only [Option.bind_some, read]
        exact later.mono (List.subset_cons_self _ _)
      | some part =>
        simp only [Option.bind_some, read]
        obtain ⟨child, role⟩ := member found
        have first : Drawn f limit [a] [part] := one (each slot (List.mem_cons_self ..) a child role part read)
        refine first.append regular ?_ ?_ ?_ later
        · simpa using child
        · intro b inside
          obtain ⟨_, _, there⟩ := List.mem_filterMap.mp inside
          exact (member there).1
        · intro b inside c insideC same
          obtain ⟨slotC, memberC, there⟩ := List.mem_filterMap.mp insideC
          rw [← same, List.mem_singleton.mp inside] at there
          have roleC := (member there).2
          rw [role] at roleC
          exact other (List.mem_map.mpr ⟨slotC, memberC, (Option.some.inj roleC).symm⟩)

end Drawn

/-- What is no call meets the condition on calls. -/
theorem not_called {P : Point → Prop} (noCall : e.callPoint? = none) : ∀ p, e.callPoint? = some p → P p := by
  intro p point
  rw [noCall] at point
  cases point

/-- Parts drawn from the children of a tree inside the own tree of an element. -/
theorem Drawn.sourced (drawn : Drawn f limit cs e.children) (children : cs ⊆ w.children) (inside : w ∈ t.nodes)
    (noCall : e.callPoint? = none) : ∃ sources, Sourced f limit t e sources := by
  obtain ⟨sources, made, from_, apart⟩ := drawn
  refine ⟨sources, made, fun u member => ?_, apart, not_called noCall⟩
  obtain ⟨_, a, child, node⟩ := from_ u member
  exact ParseTree.nodes_trans (ParseTree.mem_nodes.mpr (Or.inr ⟨a, children child, node⟩)) inside

/-- Behind the parts drawn from children one more may follow that is empty. -/
theorem Drawn.sourced_concat (drawn : Drawn f limit cs parts) (regular : Regular f t) (children : cs ⊆ t.children)
    {b : ParseTree} (child : b ∈ t.children) (differ : ∀ a ∈ cs, a ≠ b) (last : Makes f limit b part)
    (whole : e.children = parts ++ [part]) (noCall : e.callPoint? = none) : ∃ sources, Sourced f limit t e sources := by
  obtain ⟨sources, made, from_, apart⟩ := drawn
  refine ⟨sources ++ [b], ?_, fun u member => ?_, List.pairwise_append.mpr ⟨apart, List.pairwise_singleton _ _, ?_⟩,
    not_called noCall⟩
  · rw [whole]
    exact List.rel_append made (.cons last .nil)
  · rcases List.mem_append.mp member with old | new
    · obtain ⟨_, a, inner, node⟩ := from_ u old
      exact ParseTree.mem_nodes.mpr (Or.inr ⟨a, children inner, node⟩)
    · rw [List.mem_singleton.mp new]
      exact ParseTree.mem_nodes_of_mem_children child
  · intro u old v new
    rw [List.mem_singleton.mp new]
    obtain ⟨filled, a, inner, node⟩ := from_ u old
    exact apart_of_children regular (children inner) child (differ a inner) node filled b.self_mem_nodes

/-- An element without parts. -/
theorem Sourced.bare (childless : e.children = []) (noCall : e.callPoint? = none) :
    ∃ sources, Sourced f limit t e sources :=
  ⟨[], by rw [childless]; exact .nil, by simp, .nil, not_called noCall⟩

/-- An element with at most one part. -/
theorem Sourced.single {u : ParseTree} {o : Option Element} (children : e.children = o.toList)
    (made : ∀ part, o = some part → Makes f limit u part) (inside : u ∈ t.nodes) (noCall : e.callPoint? = none) :
    ∃ sources, Sourced f limit t e sources := by
  cases o with
  | none => exact bare children noCall
  | some part =>
    refine ⟨[u], by rw [children]; exact .cons (made part rfl) .nil, ?_, List.pairwise_singleton _ _,
      not_called noCall⟩
    intro v member
    rw [List.mem_singleton.mp member]
    exact inside

/-- Parts that may be empty, as long as no two of them start at the same place. -/
theorem Sourced.filterMap (regular : ParseTree.Regular f t) {partOf : ParseTree → Option Element}
    (children : cs.Sublist t.children) (starts : cs.Pairwise fun a b => a.start < b.start)
    (each : ∀ a ∈ cs, ∀ part, partOf a = some part → Makes f limit a part)
    (parts : e.children = cs.filterMap partOf) (noCall : e.callPoint? = none) :
    ∃ sources, Sourced f limit t e sources := by
  have made : ∀ ds : List ParseTree, (∀ a ∈ ds, ∀ part, partOf a = some part → Makes f limit a part) →
      List.Forall₂ (Makes f limit) (ds.filter fun a => (partOf a).isSome) (ds.filterMap partOf) := by
    intro ds each
    induction ds with
    | nil => exact .nil
    | cons a rest ih =>
      have later := ih fun b member => each b (List.mem_cons_of_mem a member)
      cases read : partOf a with
      | none =>
        rw [List.filter_cons_of_neg (by simp [read]), List.filterMap_cons_none read]
        exact later
      | some part =>
        rw [List.filter_cons_of_pos (by simp [read]), List.filterMap_cons_some read]
        exact .cons (each a (List.mem_cons_self ..) part read) later
  have kept : (cs.filter fun a => (partOf a).isSome).Sublist cs := List.filter_sublist
  refine ⟨_, by rw [parts]; exact made cs each, fun u member => ?_, ?_, not_called noCall⟩
  · exact ParseTree.mem_nodes_of_mem_children (children.subset (kept.subset member))
  · have ordered := (regular.sound.ordered.sublist children).and starts
    refine (ordered.sublist kept).imp ?_
    rintro a b ⟨before, less⟩
    exact ⟨Or.inl before, fun _ => Nat.ne_of_lt less⟩

end SecurityRules.Build
