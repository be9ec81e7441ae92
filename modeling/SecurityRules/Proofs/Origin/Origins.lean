import SecurityRules.Proofs.Lookup.Walk
import SecurityRules.Proofs.Origin.Declarations

/-!
# Origins

An origin is an element above the tree it is made of, with the same for all its parts. It is grounded if that is
how the builder made it. Every element that was made has a grounded origin.
-/

namespace SecurityRules.Build

open ParseTree (Regular Apart)

/-- An element, the tree it is made of, and the same for its parts in their order. -/
inductive Origin where
  | mk (element : Element) (source : ParseTree) (parts : List Origin)

namespace Origin

def element : Origin → Element
  | mk element _ _ => element

def source : Origin → ParseTree
  | mk _ source _ => source

/-- The origins of the parts of the element. -/
def parts : Origin → List Origin
  | mk _ _ parts => parts

/-- The span of the element. -/
def span (o : Origin) : Span := o.element.span

/-- Whether the element is made of a tree with a width. -/
def isFilled (o : Origin) : Bool := !o.source.isEmpty

theorem sizeOf_lt_of_mem_parts {o part : Origin} (member : part ∈ o.parts) : sizeOf part < sizeOf o := by
  cases o with
  | mk element source parts =>
    have := List.sizeOf_lt_of_mem member
    simp only [Origin.parts] at this
    simp
    omega

/-- The origin and all origins below it, parents first. -/
def nodes (o : Origin) : List Origin := o :: o.parts.attach.flatMap fun ⟨part, _⟩ => part.nodes
termination_by sizeOf o
decreasing_by exact sizeOf_lt_of_mem_parts (by assumption)

theorem nodes_eq (o : Origin) : o.nodes = o :: o.parts.flatMap nodes := by
  rw [nodes]
  simp

/-- What holds of an origin as soon as it holds of its parts holds of every origin. -/
theorem induct {motive : Origin → Prop} (step : ∀ o : Origin, (∀ part ∈ o.parts, motive part) → motive o)
    (o : Origin) : motive o :=
  step o fun part _ => induct step part
termination_by sizeOf o
decreasing_by exact sizeOf_lt_of_mem_parts (by assumption)

/-- The origins at a point from `o` down, given that `o` contains it: the way a lookup goes. -/
def chainAt (p : Point) (o : Origin) : List Origin :=
  o :: match _found : o.parts.find? (·.span.contains p) with
    | some part => part.chainAt p
    | none => []
termination_by sizeOf o
decreasing_by exact sizeOf_lt_of_mem_parts (List.mem_of_find?_eq_some (by assumption))

theorem chainAt_eq (p : Point) (o : Origin) :
    o.chainAt p = o :: ((o.parts.find? (·.span.contains p)).map (chainAt p)).getD [] := by
  rw [chainAt]
  cases o.parts.find? (·.span.contains p) <;> rfl

/-- The builder made the element of its tree, and its parts of theirs. -/
inductive Grounded (f : SourceFile) (limit : Nat) : Origin → Prop
  | mk {e : Element} {t : ParseTree} {parts : List Origin} (made : Makes f limit t e)
    (sourced : Sourced f limit t e (parts.map source)) (elements : parts.map element = e.children)
    (below : ∀ part ∈ parts, Grounded f limit part) : Grounded f limit (.mk e t parts)

variable {f : SourceFile} {limit : Nat} {o : Origin}

namespace Grounded

variable (grounded : Grounded f limit o)
include grounded

theorem made : Makes f limit o.source o.element := by
  cases grounded with
  | mk made _ _ _ => exact made

theorem sourced : Sourced f limit o.source o.element (o.parts.map source) := by
  cases grounded with
  | mk _ sourced _ _ => exact sourced

theorem elements : o.parts.map element = o.element.children := by
  cases grounded with
  | mk _ _ elements _ => exact elements

theorem of_part {part : Origin} (member : part ∈ o.parts) : Grounded f limit part := by
  cases grounded with
  | mk _ _ _ below => exact below part member

theorem span_eq : o.span = o.source.span := grounded.made.span_eq

theorem inside {part : Origin} (member : part ∈ o.parts) : part.source ∈ o.source.nodes :=
  grounded.sourced.inside _ (List.mem_map_of_mem member)

theorem apart : o.parts.Pairwise fun a b => Apart a.source b.source :=
  List.pairwise_map.mp grounded.sourced.apart

/-- The elements of a chain of origins are the chain of the element. -/
theorem chainAt (p : Point) : (o.chainAt p).map element = o.element.chainAt p := by
  induction o using Origin.induct with
  | step o ih =>
    have found : o.element.children.find? (·.span.contains p) =
        (o.parts.find? (·.span.contains p)).map element := by
      rw [← grounded.elements, List.find?_map]
      rfl
    rw [Origin.chainAt_eq, Element.chainAt_eq, found, List.map_cons]
    congr 1
    cases next : o.parts.find? (·.span.contains p) with
    | none => rfl
    | some part =>
      have member := List.mem_of_find?_eq_some next
      exact ih part member (grounded.of_part member)

end Grounded

/-- Parts with origins come from a list of origins. -/
theorem exists_parts {sources : List ParseTree} {elements : List Element}
    (each : List.Forall₂ (fun t e => ∃ o : Origin, o.source = t ∧ o.element = e ∧ Grounded f limit o) sources
      elements) :
    ∃ parts : List Origin, parts.map source = sources ∧ parts.map element = elements ∧
      ∀ part ∈ parts, Grounded f limit part := by
  induction each with
  | nil => exact ⟨[], rfl, rfl, by simp⟩
  | cons first _ ih =>
    obtain ⟨o, rfl, rfl, grounded⟩ := first
    obtain ⟨parts, rfl, rfl, below⟩ := ih
    refine ⟨o :: parts, rfl, rfl, fun part member => ?_⟩
    rcases List.mem_cons.mp member with rfl | later
    · exact grounded
    · exact below part later

/-- What is made of a regular tree has a grounded origin. -/
theorem exists_grounded (e : Element) : ∀ t : ParseTree, Regular f t → Makes f limit t e →
    ∃ o : Origin, o.source = t ∧ o.element = e ∧ Grounded f limit o := by
  induction e using Element.induct with
  | step e ih =>
    intro t regular made
    obtain ⟨sources, sourced⟩ := made.sourced regular
    have each : List.Forall₂ (fun u part => ∃ o : Origin, o.source = u ∧ o.element = part ∧ Grounded f limit o)
        sources e.children := by
      refine List.forall₂_iff_zip.mpr ⟨sourced.made.length_eq, fun {u part} pair => ?_⟩
      have members := List.of_mem_zip pair
      exact ih part members.2 u (regular.of_mem (sourced.inside u members.1))
        ((List.forall₂_iff_zip.mp sourced.made).2 pair)
    obtain ⟨parts, rfl, elements, below⟩ := exists_parts each
    exact ⟨.mk e t parts, rfl, rfl, .mk made sourced elements below⟩

/-- A document has a grounded origin above its whole parse tree. -/
theorem exists_document {root : ParseTree} (regular : ∀ c ∈ root.children, Regular f c) :
    ∃ body : Origin, Grounded f limit (.mk (.tree (build f root limit).tree) root [body]) ∧
      ((∃ c ∈ root.children, body.source ∈ c.nodes) ∨ body.source = root ∧ body.parts = []) := by
  have whole : ∀ body : Origin, Grounded f limit body → body.source ∈ root.nodes →
      body.element = .matchBody (build f root limit).tree.body →
      Grounded f limit (.mk (.tree (build f root limit).tree) root [body]) := by
    intro body grounded inside element
    refine .mk (.document root) (sourced_document ?_ inside) (congrArg (· :: []) element) fun part member => ?_
    · rw [← element]
      exact grounded.made
    · rw [List.mem_singleton.mp member]
      exact grounded
  obtain ⟨u, made, ⟨c, child, node⟩ | ⟨rfl, empty⟩⟩ := exists_body f limit root
  · obtain ⟨body, rfl, element, grounded⟩ := exists_grounded _ u ((regular c child).of_mem node) made
    exact ⟨body, whole body grounded (ParseTree.mem_nodes.mpr (Or.inr ⟨c, child, node⟩)) element,
      Or.inl ⟨c, child, node⟩⟩
  · refine ⟨.mk _ u [], whole _ (.mk made ?_ ?_ (by simp)) u.self_mem_nodes rfl, Or.inr ⟨rfl, rfl⟩⟩
    · rw [empty]
      exact ⟨.nil, by simp, .nil, not_called rfl⟩
    · rw [empty]
      rfl

end Origin

end SecurityRules.Build
