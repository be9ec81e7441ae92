import SecurityRules.Proofs.Grammar.Document
import SecurityRules.Proofs.Landmark.Declarations
import SecurityRules.Proofs.Token.Heads

/-!
# Documents in order

All trees of a document without errors are in order, and their signs and reserved words are spelled as they should.
-/

namespace SecurityRules

namespace ParseTree

/-- A tree in order that lies in a file as it should and spells signs and reserved words in the only way. -/
structure Legible (f : SourceFile) (n : ParseTree) : Prop where
  ordered : n.Ordered
  sound : n.Sound f
  spelled : ∀ k, n.kind = .token k → k.isFixed = true → n.text f = Bytes.ofString k.name

/-- All trees in a tree are legible. -/
def AllLegible (f : SourceFile) (t : ParseTree) : Prop := ∀ n ∈ t.nodes, n.Legible f

variable {f : SourceFile} {t c : ParseTree}

theorem AllLegible.self (all : t.AllLegible f) : t.Legible f := all t (self_mem_nodes t)

theorem AllLegible.child (all : t.AllLegible f) (member : c ∈ t.children) : c.AllLegible f :=
  fun n inside => all n (mem_nodes.mpr (Or.inr ⟨c, member, inside⟩))

theorem mem_children_of_significant (member : c ∈ t.significant) : c ∈ t.children := (List.mem_filter.mp member).1

namespace Ordered

theorem isPresent (ordered : t.Ordered) : Build.isPresent t = true := by
  have known : (t.isError || t.isMissing) = false := ordered.isFlagged
  rw [Bool.or_eq_false_iff] at known
  rw [Build.isPresent, known.1, known.2]
  rfl

theorem childrenIn_eq (ordered : t.Ordered) (role : Role) :
    t.childrenIn role = t.significant.filter (·.role == some role) :=
  childrenIn_eq_filter (fun c member isExtra => (ordered.loose c member isExtra).role) role

theorem child?_eq (ordered : t.Ordered) (role : Role) :
    t.child? role = t.significant.find? (·.role == some role) := by
  rw [child?_eq_head?, ordered.childrenIn_eq, List.head?_filter]

/-- A tree without children besides comments has none at all. -/
theorem children_eq_nil (ordered : t.Ordered) (bare : t.significant = []) : t.children = [] := by
  have head := head?_significant ordered.first
  rw [bare] at head
  exact List.head?_eq_none_iff.mp head.symm

end Ordered

/-- Comments stand neither in front of all other children nor behind them. -/
theorem Sound.only (sound : t.Sound f) (shape : t.significant = [c]) : t.children = [c] := by
  have head := head?_significant sound.first
  rw [shape, List.head?_cons] at head
  obtain ⟨rest, children⟩ := List.head?_eq_some_iff.mp head.symm
  have first : c.isExtra = false := sound.first c (by simp [children])
  rw [significant, children, List.filter_cons_of_pos (by simp [first])] at shape
  have none : rest.filter (!·.isExtra) = [] := (List.cons.inj shape).2
  cases last : rest.getLast? with
  | none => rw [children, List.getLast?_eq_none_iff.mp last]
  | some u =>
    have isExtra : u.isExtra = false := sound.last u (by rw [children, List.getLast?_cons, last]; rfl)
    have member : u ∈ rest.filter (!·.isExtra) :=
      List.mem_filter.mpr ⟨List.mem_of_getLast? last, by simp [isExtra]⟩
    rw [none] at member
    cases member

/-- A tree with one child has its span and its text. -/
theorem Sound.single (sound : t.Sound f) (only : t.children = [c]) : t.span = c.span ∧ t.text f = c.text f := by
  have extent : t.extent = c.extent.first := by
    rw [sound.whole (by simp [only]), only]
    rfl
  refine ⟨?_, ?_⟩
  · have same : c.extent.first.isEmpty = c.extent.isEmpty := rfl
    rw [span, span, extent, Extent.span, Extent.span, same, Extent.first]
    split <;> rfl
  · rw [text, text, start, stop, extent]
    rfl

end ParseTree

namespace Parser

open ParseTree (AllOrdered AllLegible)

variable {f : SourceFile} {maxDepth : Int}

/-- Comments between the items of a document are loose. -/
theorem loose_parse {c : ParseTree} (member : c ∈ (parse f maxDepth).children) (isExtra : c.isExtra = true) :
    IsLoose c := by
  obtain ⟨grown, ended⟩ := grown_items f maxDepth
  have comment : ∀ low high, c ∈ f.commentsIn low high → IsLoose c := by
    intro low high member
    obtain ⟨t, _, _, rfl⟩ := f.mem_commentsIn member
    exact ⟨rfl, rfl, rfl⟩
  rw [parse_eq, children_closeRoot grown ended, List.append_assoc] at member
  rcases List.mem_append.mp member with front | member
  · exact comment _ _ front
  · rcases List.mem_append.mp member with child | back
    · exact (lays_items f maxDepth).loose c child isExtra
    · exact comment _ _ back

/-- What a document without errors is made of. -/
theorem allOrdered_parse (clean : (parse f maxDepth).hasError = false) :
    (∀ c ∈ (parse f maxDepth).children, c.AllOrdered) ∧
      Fits (NodeKind.layout .sourceFile) (parse f maxDepth).significant := by
  have lays := lays_items f maxDepth
  obtain ⟨ordered, fits⟩ := lays.laid ((hasError_parse f maxDepth).mp clean)
  have significant := significant_parse lays.state
  refine ⟨fun c member => ?_, significant ▸ fits⟩
  cases isExtra : c.isExtra with
  | false =>
    refine ordered c ?_
    rw [← significant]
    exact List.mem_filter.mpr ⟨member, by simp [isExtra]⟩
  | true =>
    have loose := loose_parse member isExtra
    rw [hasError_eq_any, Bool.or_eq_false_iff, List.any_eq_false] at clean
    have known := clean.2 c member
    rw [hasError_eq_any, Bool.not_eq_true, Bool.or_eq_false_iff] at known
    exact ParseTree.allOrdered_leaf loose.children (by rw [loose.kind]; rfl) known.1

theorem allLegible_parse (clean : (parse f maxDepth).hasError = false) :
    ∀ c ∈ (parse f maxDepth).children, c.AllLegible f := by
  intro c member n inside
  have ordered := (allOrdered_parse clean).1 c member n inside
  have sound := (sound_parse f maxDepth c member n inside).1
  refine ⟨ordered, sound, fun k kind fixed => ?_⟩
  have bare : n.significant = [] := by
    have fits := ordered.fits
    rw [kind] at fits
    generalize n.significant = cs at fits
    cases fits
    rfl
  have childless := ordered.children_eq_nil bare
  have filled : n.isEmpty = false := by
    rw [Bool.eq_false_iff]
    intro isEmpty
    have flagged := ((sound.leaf childless).2 isEmpty).1
    rw [ordered.isFlagged] at flagged
    cases flagged
  have leaf : n ∈ (parse f maxDepth).leaves :=
    ParseTree.mem_leaves_of_mem_nodes (ParseTree.mem_nodes.mpr (Or.inr ⟨c, member, inside⟩)) childless
  obtain ⟨run, part, covers⟩ := (tiled_parse f maxDepth).run_of_mem leaf filled
  have single : run.length = 1 := covers.single.resolve_left (by rw [kind]; exact Bool.false_ne_true)
  obtain ⟨t, rfl⟩ := List.length_eq_one_iff.mp single
  have token : t ∈ f.tokens := part.subset (List.mem_singleton_self t)
  obtain ⟨start, stop, spells⟩ := ParseTree.Over.single_iff.mp covers
  rw [kind, NodeKind.spells, Bool.and_eq_true, beq_iff_eq] at spells
  rw [ParseTree.text, start, stop, (spelled_of_measured (f.measured token)).2, spells.1]
  exact f.text_of_isFixed token (spells.1 ▸ fixed)

end Parser

end SecurityRules
