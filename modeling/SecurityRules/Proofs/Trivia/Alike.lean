import Mathlib.Data.List.Forall2
import Mathlib.Data.Option.Basic
import SecurityRules.Proofs.ParseTree.Nodes
import SecurityRules.Rules.Build

/-!
# Trees that differ in comments and places only

Two trees of two files are alike if they have the same kinds, flags, roles and leaf texts wherever no comment stands.
Comments never come first, play no part, and nothing else stands among the children that are read as text.
-/

namespace SecurityRules

/-- The kinds of trees that are read as text. -/
def NodeKind.isSpelled : NodeKind → Bool
  | .collectionSegment | .pathSegment | .identifier | .fieldIdentifier | .typeName | .method
  | .number | .string | .boolean | .null => true
  | _ => false

/-- Whether a child is read as text or holds what is, given its role in a tree of a given kind. -/
def NodeKind.isLabelled : NodeKind → Option Role → Bool
  | .parameter, _ => true
  | parent, some .name => parent != .serviceDef
  | _, some .operator | _, some .method | _, some .param => true
  | parent, some .right => parent == .typeComparison
  | _, _ => false

@[simp] theorem NodeKind.isLabelled_operator (parent : NodeKind) : parent.isLabelled (some .operator) = true := by
  cases parent <;> rfl

@[simp] theorem NodeKind.isLabelled_method (parent : NodeKind) : parent.isLabelled (some .method) = true := by
  cases parent <;> rfl

/-- A tree of a document without its places and its comments; only leaves have a text. -/
inductive Shape where
  | node (kind : NodeKind) (isMissing : Bool) (role : Option Role) (text : Bytes) (parts : List Shape)
deriving Repr

namespace ParseTree

mutual

/-- What is left of a tree without places and comments. -/
def shape (f : SourceFile) : ParseTree → Shape
  | node kind isMissing role extent children =>
    .node kind isMissing role (if children.isEmpty then f.bytesBetween extent.start extent.stop else [])
      (shapes f children)

/-- What is left of the trees of a list that are no comments. -/
def shapes (f : SourceFile) : List ParseTree → List Shape
  | [] => []
  | t :: rest => if t.isExtra then shapes f rest else shape f t :: shapes f rest

end

theorem shapes_eq (f : SourceFile) (ts : List ParseTree) : shapes f ts = (ts.filter (!·.isExtra)).map (shape f) := by
  induction ts with
  | nil => rfl
  | cons t rest ih =>
    rw [shapes]
    split
    · rename_i isExtra
      rw [List.filter_cons_of_neg (by simp [isExtra]), ih]
    · rename_i significant
      rw [List.filter_cons_of_pos (by simp [significant]), ih, List.map_cons]

theorem shape_eq (f : SourceFile) (t : ParseTree) : t.shape f =
    .node t.kind t.isMissing t.role (if t.children.isEmpty then t.text f else []) (t.significant.map (shape f)) := by
  cases t
  rw [shape, shapes_eq]
  rfl

/-- Comments stand in a tree only behind its first child and without a part in it; what is read as text is a leaf. -/
structure Tame (t : ParseTree) : Prop where
  spelled : t.kind.isSpelled = true → t.children = []
  first : ∀ c ∈ t.children.head?, c.isExtra = false
  extras : ∀ c ∈ t.children, c.isExtra = true → c.role = none
  labels : ∀ c ∈ t.children, t.kind.isLabelled c.role = true →
    c.children = [] ∨ (t.kind, c.role) = (.functionDef, some .param) ∧ c.kind = .parameter

/-- What trees that are alike have in common besides their children. -/
structure Matched (f f' : SourceFile) (t t' : ParseTree) : Prop where
  kind : t.kind = t'.kind
  isMissing : t.isMissing = t'.isMissing
  role : t.role = t'.role
  bare : t.children = [] ↔ t'.children = []
  text : t.children = [] → t.text f = t'.text f'
  tame : t.Tame
  tame' : t'.Tame

/-- Trees of two files that differ in comments and places only. -/
inductive Alike (f f' : SourceFile) : ParseTree → ParseTree → Prop
  | of {t t' : ParseTree} (matched : Matched f f' t t')
    (parts : List.Forall₂ (Alike f f') t.significant t'.significant) : Alike f f' t t'

variable {f f' : SourceFile} {t t' : ParseTree}

namespace Tame

theorem of_childless (childless : t.children = []) : t.Tame where
  spelled := fun _ => childless
  first := by
    intro c head
    rw [childless] at head
    cases head
  extras := by
    intro c member
    rw [childless] at member
    cases member
  labels := by
    intro c member
    rw [childless] at member
    cases member

end Tame

namespace Alike

theorem matched (alike : Alike f f' t t') : Matched f f' t t' := by
  cases alike with
  | of matched _ => exact matched

theorem parts (alike : Alike f f' t t') : List.Forall₂ (Alike f f') t.significant t'.significant := by
  cases alike with
  | of _ parts => exact parts

/-- Leaves of the same kind over the same text. -/
theorem leaf (kind : t.kind = t'.kind) (isMissing : t.isMissing = t'.isMissing) (role : t.role = t'.role)
    (childless : t.children = []) (childless' : t'.children = []) (text : t.text f = t'.text f') :
    Alike f f' t t' := by
  refine .of ⟨kind, isMissing, role, ⟨fun _ => childless', fun _ => childless⟩, fun _ => text,
    .of_childless childless, .of_childless childless'⟩ ?_
  rw [significant, significant, childless, childless']
  exact .nil

theorem inRole (alike : Alike f f' t t') (r : Option Role) : Alike f f' (t.inRole r) (t'.inRole r) := by
  have matched := alike.matched
  have tame {u : ParseTree} (tame : u.Tame) : (u.inRole r).Tame := by
    constructor
    · simpa using tame.spelled
    · simpa using tame.first
    · simpa using tame.extras
    · simpa using tame.labels
  have text (u : ParseTree) (file : SourceFile) : (u.inRole r).text file = u.text file := by
    rw [ParseTree.text, start_inRole, stop_inRole]
    rfl
  refine .of ⟨?_, ?_, ?_, ?_, ?_, tame matched.tame, tame matched.tame'⟩ ?_
  · simpa using matched.kind
  · simpa using matched.isMissing
  · rw [role_inRole, role_inRole]
  · simpa using matched.bare
  · rw [text, text, children_inRole]
    exact matched.text
  · simpa [significant] using alike.parts

theorem isExtra (alike : Alike f f' t t') : t.isExtra = t'.isExtra := by
  rw [ParseTree.isExtra, ParseTree.isExtra, alike.matched.kind]

theorem isPresent (alike : Alike f f' t t') : Build.isPresent t = Build.isPresent t' := by
  rw [Build.isPresent, Build.isPresent, isError, isError, alike.matched.kind, alike.matched.isMissing]

/-- Trees that are alike are the same without comments and places. -/
theorem shape_eq (alike : Alike f f' t t') : t.shape f = t'.shape f' := by
  induction t using induct generalizing t' with
  | step t ih =>
    have matched := alike.matched
    have below : ∀ c ∈ t.significant, c ∈ t.children := fun c member => (List.mem_filter.mp member).1
    have parts : t.significant.map (shape f) = t'.significant.map (shape f') := by
      have parts := alike.parts
      generalize t.significant = cs at parts below
      generalize t'.significant = cs' at parts
      induction parts with
      | nil => rfl
      | cons first rest ihs =>
        rw [List.map_cons, List.map_cons, ih _ (below _ (List.mem_cons_self ..)) first,
          ihs fun c member => below c (List.mem_cons_of_mem _ member)]
    rw [ParseTree.shape_eq, ParseTree.shape_eq, matched.kind, matched.isMissing, matched.role, parts]
    congr 1
    by_cases childless : t.children = []
    · rw [childless, matched.bare.mp childless, matched.text childless]
    · have other : t'.children ≠ [] := fun none => childless (matched.bare.mpr none)
      rw [if_neg (by simpa using childless), if_neg (by simpa using other)]

theorem childrenIn (alike : Alike f f' t t') (role : Role) :
    List.Forall₂ (Alike f f') (t.childrenIn role) (t'.childrenIn role) := by
  have matched := alike.matched
  rw [childrenIn_eq_filter matched.tame.extras, childrenIn_eq_filter matched.tame'.extras]
  refine List.rel_filter (fun c c' same => ?_) alike.parts
  dsimp only
  rw [same.matched.role]

theorem head? {R : ParseTree → ParseTree → Prop} {ts ts' : List ParseTree} (related : List.Forall₂ R ts ts') :
    Option.Rel R ts.head? ts'.head? := by
  cases related with
  | nil => exact .none
  | cons first _ => exact .some first

theorem child? (alike : Alike f f' t t') (role : Role) : Option.Rel (Alike f f') (t.child? role) (t'.child? role) := by
  rw [child?_eq_head?, child?_eq_head?]
  exact head? (alike.childrenIn role)

/-- The children of a kind that is no comment. -/
theorem childrenOf (alike : Alike f f' t t') {p : ParseTree → Bool} (significant : ∀ c, p c = true → c.isExtra = false)
    (congr : ∀ c c', Alike f f' c c' → p c = p c') :
    List.Forall₂ (Alike f f') (t.children.filter p) (t'.children.filter p) := by
  have kept (cs : List ParseTree) : cs.filter p = (cs.filter (!·.isExtra)).filter p := by
    rw [List.filter_filter]
    apply List.filter_congr
    intro c _
    cases found : p c with
    | true => rw [significant c found]; rfl
    | false => rfl
  rw [kept, kept t'.children]
  refine List.rel_filter (fun c c' same => ?_) alike.parts
  dsimp only
  rw [congr c c' same]

/-- Children that are read as text have the same text. -/
theorem text_of_labelled (alike : Alike f f' t t') {c c' : ParseTree} (member : c ∈ t.children)
    (labelled : t.kind.isLabelled c.role = true) (other : (t.kind, c.role) ≠ (.functionDef, some .param)) (same : Alike f f' c c') :
    c.text f = c'.text f' :=
  same.matched.text ((alike.matched.tame.labels c member labelled).resolve_right fun param => other param.1)

/-- A tree that is read as text has the same text. -/
theorem text_of_spelled (alike : Alike f f' t t') (spelled : t.kind.isSpelled = true) : t.text f = t'.text f' :=
  alike.matched.text (alike.matched.tame.spelled spelled)

end Alike

end ParseTree

end SecurityRules
