import Mathlib.Data.List.Basic
import SecurityRules.ParseTree

/-!
# Nodes and leaves of a parse tree

The views of a tree that statements are made about: all trees in it, its leaves from left to right, and
the extent that its children have together. Each comes with what one more child does to it.
-/

namespace SecurityRules

namespace ParseTree

/-- What holds of a tree as soon as it holds of its children holds of every tree. -/
theorem induct {motive : ParseTree → Prop}
    (step : ∀ t : ParseTree, (∀ c ∈ t.children, motive c) → motive t) (t : ParseTree) : motive t :=
  step t fun c _ => induct step c
termination_by sizeOf t
decreasing_by exact sizeOf_lt_of_mem_children (by assumption)

/-- The tree and all trees below it, parents first. -/
def nodes (t : ParseTree) : List ParseTree := (t.preorder 0).map (·.2)

theorem preorderAll_eq_flatMap (depth : Nat) (ts : List ParseTree) :
    preorderAll depth ts = ts.flatMap (preorder depth) := by
  induction ts with
  | nil => rfl
  | cons t rest ih => rw [preorderAll, ih, List.flatMap_cons]

theorem preorder_eq (depth : Nat) (t : ParseTree) :
    t.preorder depth = (depth, t) :: t.children.flatMap (preorder (depth + 1)) := by
  cases t with
  | node kind isMissing role extent children =>
    rw [preorder, preorderAll_eq_flatMap]
    rfl

theorem map_preorder (t : ParseTree) : ∀ depth, (t.preorder depth).map (·.2) = t.nodes := by
  induction t using induct with
  | step t ih =>
    intro depth
    have below : ∀ d, (t.children.flatMap (preorder d)).map (·.2) = t.children.flatMap nodes := by
      intro d
      rw [List.map_flatMap]
      exact List.flatMap_congr fun c member => ih c member d
    rw [nodes, preorder_eq, preorder_eq, List.map_cons, List.map_cons, below, below]

theorem nodes_eq (t : ParseTree) : t.nodes = t :: t.children.flatMap nodes := by
  rw [nodes, preorder_eq, List.map_cons, List.map_flatMap]
  congr 1
  exact List.flatMap_congr fun c _ => map_preorder c _

theorem mem_nodes {n t : ParseTree} : n ∈ t.nodes ↔ n = t ∨ ∃ c ∈ t.children, n ∈ c.nodes := by
  rw [nodes_eq, List.mem_cons, List.mem_flatMap]

theorem self_mem_nodes (t : ParseTree) : t ∈ t.nodes := mem_nodes.mpr (Or.inl rfl)

theorem hasError_eq (t : ParseTree) : t.hasError = t.nodes.any isFlagged := by
  rw [hasError, nodes, List.any_map]
  rfl

mutual

/-- The trees without children in a tree, from left to right. -/
def leaves : ParseTree → List ParseTree
  | node kind isMissing role extent children =>
    if children.isEmpty then [node kind isMissing role extent children] else leavesAll children

/-- The leaves of a list of trees. -/
def leavesAll : List ParseTree → List ParseTree
  | [] => []
  | t :: rest => leaves t ++ leavesAll rest

end

theorem leavesAll_eq_flatMap (ts : List ParseTree) : leavesAll ts = ts.flatMap leaves := by
  induction ts with
  | nil => rfl
  | cons t rest ih => rw [leavesAll, ih, List.flatMap_cons]

theorem leaves_of_childless {t : ParseTree} (childless : t.children = []) : t.leaves = [t] := by
  cases t with
  | node kind isMissing role extent children =>
    have : children = [] := childless
    subst this
    rw [leaves]
    rfl

theorem leaves_of_children {t : ParseTree} (grown : t.children ≠ []) :
    t.leaves = t.children.flatMap leaves := by
  cases t with
  | node kind isMissing role extent children =>
    cases children with
    | nil => exact absurd rfl grown
    | cons c rest =>
      rw [leaves, leavesAll_eq_flatMap]
      rfl

theorem mem_leaves {leaf t : ParseTree} (member : leaf ∈ t.leaves) :
    leaf ∈ t.nodes ∧ leaf.children = [] := by
  induction t using induct with
  | step t ih =>
    by_cases childless : t.children = []
    · rw [leaves_of_childless childless, List.mem_singleton] at member
      rw [member]
      exact ⟨t.self_mem_nodes, childless⟩
    · rw [leaves_of_children childless, List.mem_flatMap] at member
      obtain ⟨c, child, inside⟩ := member
      obtain ⟨node, bare⟩ := ih c child inside
      exact ⟨mem_nodes.mpr (Or.inr ⟨c, child, node⟩), bare⟩

theorem mem_leaves_of_mem_nodes {leaf t : ParseTree} (member : leaf ∈ t.nodes) (childless : leaf.children = []) :
    leaf ∈ t.leaves := by
  induction t using induct with
  | step t ih =>
    rcases mem_nodes.mp member with rfl | ⟨c, child, below⟩
    · rw [leaves_of_childless childless]
      exact List.mem_singleton_self _
    · rw [leaves_of_children (List.ne_nil_of_mem child), List.mem_flatMap]
      exact ⟨c, child, ih c child below⟩

/-! ## A tree in another role or of another kind -/

section

variable (t : ParseTree) (r : Option Role) (k : NodeKind)

@[simp] theorem children_inRole : (t.inRole r).children = t.children := by cases t; rfl
@[simp] theorem kind_inRole : (t.inRole r).kind = t.kind := by cases t; rfl
@[simp] theorem role_inRole : (t.inRole r).role = r := by cases t; rfl
@[simp] theorem isMissing_inRole : (t.inRole r).isMissing = t.isMissing := by cases t; rfl
@[simp] theorem extent_inRole : (t.inRole r).extent = t.extent := by cases t; rfl
@[simp] theorem start_inRole : (t.inRole r).start = t.start := by cases t; rfl
@[simp] theorem stop_inRole : (t.inRole r).stop = t.stop := by cases t; rfl
@[simp] theorem isEmpty_inRole : (t.inRole r).isEmpty = t.isEmpty := by cases t; rfl
@[simp] theorem isExtra_inRole : (t.inRole r).isExtra = t.isExtra := by cases t; rfl
@[simp] theorem isFlagged_inRole : (t.inRole r).isFlagged = t.isFlagged := by cases t; rfl

@[simp] theorem children_ofKind : (t.ofKind k).children = t.children := by cases t; rfl
@[simp] theorem kind_ofKind : (t.ofKind k).kind = k := by cases t; rfl
@[simp] theorem extent_ofKind : (t.ofKind k).extent = t.extent := by cases t; rfl
@[simp] theorem start_ofKind : (t.ofKind k).start = t.start := by cases t; rfl
@[simp] theorem stop_ofKind : (t.ofKind k).stop = t.stop := by cases t; rfl
@[simp] theorem isMissing_ofKind : (t.ofKind k).isMissing = t.isMissing := by cases t; rfl

end

theorem isEmpty_iff {t : ParseTree} : t.isEmpty = true ↔ t.start = t.stop := by
  simp [isEmpty, Extent.isEmpty, start, stop]

theorem leaves_inRole (t : ParseTree) (r : Option Role) :
    (t.inRole r).leaves = if t.children = [] then [t.inRole r] else t.leaves := by
  by_cases childless : t.children = []
  · rw [if_pos childless]
    exact leaves_of_childless (by rw [children_inRole]; exact childless)
  · rw [if_neg childless, leaves_of_children childless,
      leaves_of_children (by rw [children_inRole]; exact childless), children_inRole]

theorem leaves_ofKind {t : ParseTree} (grown : t.children ≠ []) (k : NodeKind) :
    (t.ofKind k).leaves = t.leaves := by
  rw [leaves_of_children grown, leaves_of_children (by rw [children_ofKind]; exact grown),
    children_ofKind]

theorem child?_eq_head? (t : ParseTree) (wanted : Role) : t.child? wanted = (t.childrenIn wanted).head? := by
  rw [child?, childrenIn, List.head?_filter]

/-- Children with a part in a tree are no comments, if its comments have none. -/
theorem childrenIn_eq_filter {t : ParseTree} (extras : ∀ c ∈ t.children, c.isExtra = true → c.role = none)
    (wanted : Role) : t.childrenIn wanted = t.significant.filter (·.role == some wanted) := by
  rw [childrenIn, significant, List.filter_filter]
  apply List.filter_congr
  intro c member
  cases isExtra : c.isExtra with
  | true =>
    rw [extras c member isExtra]
    rfl
  | false => simp

/-- The first child is the first one that is no comment, if no comment comes first. -/
theorem head?_significant {t : ParseTree} (first : ∀ c ∈ t.children.head?, c.isExtra = false) :
    t.significant.head? = t.children.head? := by
  rw [significant]
  generalize t.children = cs at first
  cases cs with
  | nil => rfl
  | cons c rest =>
    rw [List.filter_cons_of_pos (by simp [first c rfl])]
    rfl

/-! ## One more child -/

/-- The extent of siblings together. -/
def extentOf : List ParseTree → Extent
  | [] => {}
  | first :: rest => rest.foldl (fun e c => e.extend c.extent) first.extent.first

theorem extentOf_concat {cs : List ParseTree} (grown : cs ≠ []) (c : ParseTree) :
    extentOf (cs ++ [c]) = (extentOf cs).extend c.extent := by
  cases cs with
  | nil => exact absurd rfl grown
  | cons first rest => simp only [List.cons_append, extentOf, List.foldl_append, List.foldl_cons,
      List.foldl_nil]

theorem extentOf_start (first : ParseTree) (rest : List ParseTree) :
    (extentOf (first :: rest)).start = first.start := by
  rw [extentOf]
  suffices keeps : ∀ e : Extent, (rest.foldl (fun e c => e.extend c.extent) e).start = e.start from
    keeps _
  induction rest with
  | nil => intro e; rfl
  | cons c rest ih => intro e; rw [List.foldl_cons, ih]; rfl

theorem extentOf_stop_concat (cs : List ParseTree) (c : ParseTree) :
    (extentOf (cs ++ [c])).stop = c.stop := by
  by_cases grown : cs = []
  · subst grown
    rfl
  · rw [extentOf_concat grown]
    rfl

section

variable (t c : ParseTree)

theorem push_of_childless (childless : t.children = []) :
    t.push c = node t.kind t.isMissing t.role c.extent.first [c] := by
  cases t with
  | node kind isMissing role extent children =>
    have : children = [] := childless
    subst this
    rfl

theorem push_of_children (grown : t.children ≠ []) :
    t.push c =
      node t.kind t.isMissing t.role (t.extent.extend c.extent) (t.children ++ [c]) := by
  cases t with
  | node kind isMissing role extent children =>
    cases children with
    | nil => exact absurd rfl grown
    | cons first rest => rfl

@[simp] theorem children_push : (t.push c).children = t.children ++ [c] := by
  by_cases childless : t.children = []
  · rw [push_of_childless t c childless, childless]
    rfl
  · rw [push_of_children t c childless]
    rfl

@[simp] theorem kind_push : (t.push c).kind = t.kind := by
  by_cases childless : t.children = []
  · rw [push_of_childless t c childless]
    rfl
  · rw [push_of_children t c childless]
    rfl

@[simp] theorem isMissing_push : (t.push c).isMissing = t.isMissing := by
  by_cases childless : t.children = []
  · rw [push_of_childless t c childless]
    rfl
  · rw [push_of_children t c childless]
    rfl

@[simp] theorem role_push : (t.push c).role = t.role := by
  by_cases childless : t.children = []
  · rw [push_of_childless t c childless]
    rfl
  · rw [push_of_children t c childless]
    rfl

theorem stop_push : (t.push c).stop = c.stop := by
  by_cases childless : t.children = []
  · rw [push_of_childless t c childless]
    rfl
  · rw [push_of_children t c childless]
    rfl

end

theorem isFlagged_push (t c : ParseTree) : (t.push c).isFlagged = t.isFlagged := by
  rw [isFlagged, isFlagged, isError, isError, kind_push, isMissing_push]

end ParseTree

end SecurityRules
