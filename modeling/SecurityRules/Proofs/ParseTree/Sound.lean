import SecurityRules.Proofs.ParseTree.Cover
import SecurityRules.Rules.Build

/-!
# Order and extent inside a parse tree

`ParseTree.Sound` says how the children of a tree lie in it, `ParseTree.Shaped` what the kind of a tree says
about its children where they may be empty.
-/

namespace SecurityRules

/-- The kinds of trees that may be empty without being an error or a placeholder themselves. They hold a
placeholder then. -/
def NodeKind.isHollow : NodeKind → Bool
  | .matchPath | .matchBody | .functionBody | .mapEntry => true
  | _ => false

/-- The kinds of statements. They start with a word of their own and so are never empty. -/
def NodeKind.isStatement : NodeKind → Bool
  | .matchDef | .functionDef | .variableDef | .ruleDef => true
  | _ => false

/-- The kinds of trees that may have no children. -/
def NodeKind.isLeaf : NodeKind → Bool
  | .collectionSegment | .pathSegment | .identifier | .fieldIdentifier | .typeName | .method
  | .number | .string | .boolean | .null | .serviceDef | .serviceName | .error | .token _ => true
  | _ => false

/-- The roles in which trees may be hollow. -/
def Role.mayBeHollow : Option Role → Bool
  | some .path | some .body | some .entry => true
  | _ => false

namespace ParseTree

/-- The children of a tree lie behind each other and make up its extent; a leaf has the extent of its bytes. -/
structure Sound (f : SourceFile) (n : ParseTree) : Prop where
  ordered : n.children.Pairwise fun a b => a.stop ≤ b.start
  forward : n.start ≤ n.stop
  bounded : n.stop ≤ f.size
  leaf : n.children = [] →
    n.extent = Extent.ofRange f n.start n.stop ∧
      (n.isEmpty = true → n.isFlagged = true ∧ n.isExtra = false)
  whole : n.children ≠ [] → n.extent = extentOf n.children
  first : ∀ c ∈ n.children.head?, c.isExtra = false
  last : ∀ c ∈ n.children.getLast?, c.isExtra = false
  edges : n.children = [] → f.IsEdge n.start ∧ f.IsEdge n.stop
  comments : ∀ c ∈ n.children, c.isExtra = true → c.isMissing = false ∧ c.role = none ∧ c.children = []
  /-- An empty child stands where the child in front of it ends. -/
  snug : n.children.IsChain fun a b => b.isEmpty = true → a.stop = b.start

/-- Children that are hollow have a role in which they may be, and are never the first ones. -/
structure Firm (n : ParseTree) : Prop where
  role : ∀ c ∈ n.children, c.kind.isHollow = true → Role.mayBeHollow c.role = true
  first : ∀ c ∈ n.children.head?, c.kind.isHollow = false

/-- What the kind of a tree says about empty parts of it. -/
structure Shaped (n : ParseTree) : Prop where
  filled : n.isEmpty = true → n.isFlagged = true ∧ n.kind.isStatement = false ∨ n.kind.isHollow = true
  entries : n.kind = .map → (n.childrenIn .entry).Pairwise fun a b => a.start < b.start
  pathless : n.kind = .matchDef → ∀ path, n.child? .path = some path → path.isEmpty = true →
    ∀ body, n.child? .body = some body → Build.isOpened body = false
  named : n.kind = .functionCall → ∃ name rest, n.children = name :: rest ∧ name.role = some .name ∧
    name.kind = .identifier ∧ name.isMissing = false ∧ name.children = [] ∧ name.isEmpty = false
  opened : n.kind = .matchBody ∨ n.kind = .functionBody → Build.isOpened n = true → n.isEmpty = false
  firm : n.Firm

/-- The kinds about which `Shaped` says no more than that they are not empty. -/
def plain : NodeKind → Bool
  | .map | .matchDef | .functionCall => false
  | kind => !kind.isHollow

theorem isHollow_of_plain {kind : NodeKind} (isPlain : plain kind = true) : kind.isHollow = false := by
  unfold plain at isPlain
  split at isPlain
  · cases isPlain
  · cases isPlain
  · cases isPlain
  · simpa using isPlain

theorem of_isLeaf {kind : NodeKind} (isLeaf : kind.isLeaf = true) :
    plain kind = true ∧ kind ≠ .comment ∧ kind.isStatement = false := by
  unfold NodeKind.isLeaf at isLeaf
  split at isLeaf
  all_goals first
    | exact ⟨rfl, NodeKind.noConfusion, rfl⟩
    | cases isLeaf

theorem Firm.of_childless {n : ParseTree} (childless : n.children = []) : n.Firm := by
  constructor
  · intro c member
    rw [childless] at member
    cases member
  · intro c head
    rw [childless] at head
    cases head

theorem Firm.inRole {n : ParseTree} (firm : n.Firm) (r : Option Role) : (n.inRole r).Firm := by
  constructor
  · simpa using firm.role
  · simpa using firm.first

theorem Firm.ofKind {n : ParseTree} (firm : n.Firm) (k : NodeKind) : (n.ofKind k).Firm := by
  constructor
  · simpa using firm.role
  · simpa using firm.first

theorem Shaped.of_plain {n : ParseTree} (isPlain : plain n.kind = true)
    (filled : n.isEmpty = true → n.isFlagged = true ∧ n.kind.isStatement = false) (firm : n.Firm) :
    Shaped n where
  filled := fun isEmpty => Or.inl (filled isEmpty)
  entries := by
    intro kind
    rw [kind] at isPlain
    exact absurd isPlain Bool.false_ne_true
  pathless := by
    intro kind
    rw [kind] at isPlain
    exact absurd isPlain Bool.false_ne_true
  named := by
    intro kind
    rw [kind] at isPlain
    exact absurd isPlain Bool.false_ne_true
  opened := by
    rintro (kind | kind)
    · rw [kind] at isPlain
      exact absurd isPlain Bool.false_ne_true
    · rw [kind] at isPlain
      exact absurd isPlain Bool.false_ne_true
  firm := firm

theorem Shaped.of_hollow {n : ParseTree} (isHollow : n.kind.isHollow = true)
    (opened : n.kind = .matchBody ∨ n.kind = .functionBody → Build.isOpened n = true → n.isEmpty = false)
    (firm : n.Firm) : Shaped n where
  filled := fun _ => Or.inr isHollow
  entries := by
    intro kind
    rw [kind] at isHollow
    exact absurd isHollow Bool.false_ne_true
  pathless := by
    intro kind
    rw [kind] at isHollow
    exact absurd isHollow Bool.false_ne_true
  named := by
    intro kind
    rw [kind] at isHollow
    exact absurd isHollow Bool.false_ne_true
  opened := opened
  firm := firm

theorem Sound.inRole {f : SourceFile} {n : ParseTree} (sound : n.Sound f) (r : Option Role) :
    (n.inRole r).Sound f := by
  constructor
  · simpa using sound.ordered
  · simpa using sound.forward
  · simpa using sound.bounded
  · simpa using sound.leaf
  · simpa using sound.whole
  · simpa using sound.first
  · simpa using sound.last
  · simpa using sound.edges
  · simpa using sound.comments
  · simpa using sound.snug

/-- A tree that has children stays sound with another kind. -/
theorem Sound.ofKind {f : SourceFile} {n : ParseTree} (sound : n.Sound f) (grown : n.children ≠ []) (k : NodeKind) :
    (n.ofKind k).Sound f := by
  constructor
  · simpa using sound.ordered
  · simpa using sound.forward
  · simpa using sound.bounded
  · exact fun childless => absurd ((children_ofKind n k).symm.trans childless) grown
  · simpa using sound.whole
  · simpa using sound.first
  · simpa using sound.last
  · exact fun childless => absurd ((children_ofKind n k).symm.trans childless) grown
  · simpa using sound.comments
  · simpa using sound.snug

theorem Shaped.inRole {n : ParseTree} (shaped : n.Shaped) (r : Option Role) : (n.inRole r).Shaped := by
  constructor
  · simpa using shaped.filled
  · simpa [childrenIn] using shaped.entries
  · simpa [child?] using shaped.pathless
  · simpa using shaped.named
  · simpa [Build.isOpened] using shaped.opened
  · exact shaped.firm.inRole r

theorem extentOf_stop {cs : List ParseTree} {c : ParseTree} (last : cs.getLast? = some c) :
    (extentOf cs).stop = c.stop := by
  obtain ⟨before, rfl⟩ := List.getLast?_eq_some_iff.mp last
  exact extentOf_stop_concat before c

/-- A child lies inside its parent. -/
theorem Sound.inside {f : SourceFile} {n : ParseTree} (sound : n.Sound f)
    (below : ∀ c ∈ n.children, c.start ≤ c.stop) {c : ParseTree} (member : c ∈ n.children) :
    n.start ≤ c.start ∧ c.stop ≤ n.stop := by
  have grown : n.children ≠ [] := List.ne_nil_of_mem member
  have whole := sound.whole grown
  have ordered := sound.ordered
  constructor
  · cases split : n.children with
    | nil => exact absurd split grown
    | cons first rest =>
      have start : n.start = first.start := by
        rw [ParseTree.start, whole, split, extentOf_start]
      rw [split] at member ordered
      rcases List.mem_cons.mp member with rfl | later
      · exact Nat.le_of_eq start
      · have behind := (List.pairwise_cons.mp ordered).1 c later
        have forward := below first (by rw [split]; exact List.mem_cons_self ..)
        omega
  · obtain ⟨before, last, split⟩ := List.eq_nil_or_concat' n.children |>.resolve_left grown
    have stop : n.stop = last.stop := by
      rw [ParseTree.stop, whole, split, extentOf_stop_concat]
    rw [split] at member ordered
    rcases List.mem_append.mp member with earlier | same
    · have behind := (List.pairwise_append.mp ordered).2.2 c earlier last (List.mem_singleton_self last)
      have forward := below last (by rw [split]; exact List.mem_append_right _ (List.mem_singleton_self _))
      omega
    · rw [List.mem_singleton.mp same]
      exact Nat.le_of_eq stop.symm

end ParseTree

end SecurityRules
