import SecurityRules.Proofs.Lookup.Walk
import SecurityRules.Proofs.ParseTree.Nodes
import SecurityRules.Rules.Build

/-!
# Landmarks

What a parse tree and a typed document have in common. A landmark is a node that stands for something: it has a kind, a
span, a text where it is read as one, and for a call the span of its name and the number of its arguments. Landmarks
are listed with those around them, so two lists that are the same say that the nodes lie inside each other in the same
way.
-/

namespace SecurityRules

/-- A node that stands for something. -/
structure Landmark where
  kind : NodeKind
  span : Span
  /-- A name, an operator or a constant as written. -/
  text : Bytes := []
  nameSpan : Span := {}
  arguments : Nat := 0
  /-- Whether it is accessed of a receiver. -/
  isField : Bool := false
deriving Repr, DecidableEq

/-- Whether trees of this kind are read as expressions. -/
def NodeKind.isOperand (kind : NodeKind) : Bool := kind.isExpression && kind.isNamed

namespace ParseTree

/-- Whether a name or a string stands for itself and not for an expression, given the kind of the tree it stands in. -/
def isLabel (parent : NodeKind) (t : ParseTree) : Bool :=
  t.role == some .name || t.role == some .version || parent == .serviceName || parent == .parameter

/-- The name in a tree. -/
def nameText (f : SourceFile) (t : ParseTree) : Bytes := ((t.child? .name).map (·.text f)).getD []

/-- The span of the name in a tree. -/
def nameSpan (t : ParseTree) : Span := ((t.child? .name).map (·.span)).getD {}

/-- The number of arguments of a call. -/
def argumentCount (t : ParseTree) : Nat :=
  (((t.child? .arguments).map (·.namedChildren.filter (!·.isExtra))).getD []).length

/-- What a tree stands for, given the kind of the tree it stands in. A type counts as a name, a literal segment of a
path as a string, and the name that a `let` declares as a parameter. -/
def landmark? (f : SourceFile) (parent : NodeKind) (t : ParseTree) : Option Landmark :=
  match t.kind with
  | .sourceFile | .matchBody | .matchDef | .matchPath | .functionBody | .variableDef | .ruleDef
  | .ternary | .member | .indexing | .range | .list | .map | .mapEntry | .path | .parenthesized =>
    some { kind := t.kind, span := t.span }
  | .collectionSegment | .parameter | .method | .number | .boolean | .null =>
    some { kind := t.kind, span := t.span, text := t.text f }
  | .singleSegment | .multiSegment => some { kind := t.kind, span := t.span, text := t.nameText f }
  | .functionDef => some { kind := t.kind, span := t.span, text := t.nameText f, nameSpan := t.nameSpan }
  | .unary | .disjunction | .conjunction | .relation | .contains | .typeComparison | .addition | .multiplication =>
    some { kind := t.kind, span := t.span, text := Build.operatorText f t }
  | .functionCall =>
    some { kind := t.kind, span := t.span, text := t.nameText f, nameSpan := t.nameSpan,
           arguments := t.argumentCount, isField := t.role == some .field }
  | .fieldIdentifier => some { kind := t.kind, span := t.span, text := t.text f, isField := true }
  | .pathSegment => some { kind := .string, span := t.span, text := t.text f }
  | .typeName => some { kind := .identifier, span := t.span, text := t.text f }
  | .string => if t.isLabel parent then none else some { kind := t.kind, span := t.span, text := t.text f }
  | .identifier =>
    if t.isLabel parent then
      if parent == .variableDef then some { kind := .parameter, span := t.span, text := t.text f } else none
    else some { kind := t.kind, span := t.span, text := t.text f }
  | _ => none

mutual

/-- The landmarks of a tree, each behind those around it. -/
def landmarks (f : SourceFile) (parent : NodeKind) (around : List Landmark) :
    ParseTree → List (List Landmark × Landmark)
  | node kind isMissing role extent children =>
    let own := ((node kind isMissing role extent children).landmark? f parent).toList
    own.map (around, ·) ++ landmarksAll f kind (around ++ own) children

/-- The landmarks of the trees of a list. -/
def landmarksAll (f : SourceFile) (parent : NodeKind) (around : List Landmark) :
    List ParseTree → List (List Landmark × Landmark)
  | [] => []
  | t :: rest => landmarks f parent around t ++ landmarksAll f parent around rest

end

theorem landmarksAll_eq (f : SourceFile) (parent : NodeKind) (around : List Landmark) (ts : List ParseTree) :
    landmarksAll f parent around ts = ts.flatMap (landmarks f parent around) := by
  induction ts with
  | nil => rfl
  | cons t rest ih => rw [landmarksAll, ih, List.flatMap_cons]

theorem landmarks_eq (f : SourceFile) (parent : NodeKind) (around : List Landmark) (t : ParseTree) :
    t.landmarks f parent around = (t.landmark? f parent).toList.map (around, ·) ++
      t.children.flatMap (landmarks f t.kind (around ++ (t.landmark? f parent).toList)) := by
  cases t
  rw [landmarks, landmarksAll_eq]
  rfl

/-- Whether a tree is read as an expression of its own. -/
def isAsked (parent : NodeKind) (t : ParseTree) : Bool :=
  t.kind.isOperand && !t.isLabel parent && t.role != some .field

mutual

/-- How many expressions nest in a tree. -/
def nesting (parent : NodeKind) : ParseTree → Nat
  | node kind isMissing role extent children =>
    ((node kind isMissing role extent children).isAsked parent).toNat + nestingAll kind children

/-- How many expressions nest in a tree of a list. -/
def nestingAll (parent : NodeKind) : List ParseTree → Nat
  | [] => 0
  | t :: rest => max (nesting parent t) (nestingAll parent rest)

end

theorem nesting_eq (parent : NodeKind) (t : ParseTree) :
    t.nesting parent = (t.isAsked parent).toNat + nestingAll t.kind t.children := by
  cases t
  rw [nesting]
  rfl

theorem nesting_le_nestingAll {parent : NodeKind} {c : ParseTree} {ts : List ParseTree} (member : c ∈ ts) :
    c.nesting parent ≤ nestingAll parent ts := by
  induction ts with
  | nil => cases member
  | cons t rest ih =>
    rw [nestingAll]
    rcases List.mem_cons.mp member with rfl | behind
    · exact Nat.le_max_left ..
    · exact Nat.le_trans (ih behind) (Nat.le_max_right ..)

/-- Below a child nests no more than in the whole list. -/
theorem nestingAll_le_of_mem {parent : NodeKind} {c : ParseTree} {ts : List ParseTree} (member : c ∈ ts) :
    nestingAll c.kind c.children ≤ nestingAll parent ts := by
  refine Nat.le_trans ?_ (nesting_le_nestingAll member)
  rw [nesting_eq]
  exact Nat.le_add_left ..

end ParseTree

/-! ## Landmarks of a typed document -/

/-- The kind of the trees that an operator joins. -/
def BinaryOperator.nodeKind : BinaryOperator → NodeKind
  | or => .disjunction
  | and => .conjunction
  | equal | notEqual | less | lessEqual | greater | greaterEqual => .relation
  | isIn => .contains
  | hasType => .typeComparison
  | add | subtract => .addition
  | multiply | divide | modulo => .multiplication
  | unknown => .error

/-- The kind of the leaves that spell a constant. -/
def Literal.nodeKind : Literal → NodeKind
  | integer _ _ | float _ _ => .number
  | string _ _ => .string
  | bool _ _ => .boolean
  | null _ => .null

/-- The kind of the trees that a segment of a match path is made of. -/
def PathPartKind.nodeKind : PathPartKind → NodeKind
  | collection => .collectionSegment
  | single => .singleSegment
  | multi => .multiSegment

/-- What an expression stands for. What wraps a receiver or what is accessed of it stands for nothing more. -/
def Expr.landmark? : Expr → Option Landmark
  | unary span op _ => some { kind := .unary, span, text := Bytes.ofString op.symbol }
  | binary span op _ _ => some { kind := op.nodeKind, span, text := Bytes.ofString op.symbol }
  | ternary span _ _ _ => some { kind := .ternary, span }
  | member span _ _ => some { kind := .member, span }
  | memberObject _ _ | memberField _ _ => none
  | memberVariable span name => some { kind := .fieldIdentifier, span, text := name, isField := true }
  | memberFunction span name nameSpan args =>
    some { kind := .functionCall, span, text := name, nameSpan, arguments := args.length, isField := true }
  | index span _ _ => some { kind := .indexing, span }
  | call span name nameSpan args =>
    some { kind := .functionCall, span, text := name, nameSpan, arguments := args.length }
  | list span _ => some { kind := .list, span }
  | map span _ => some { kind := .map, span }
  | mapEntry span _ _ => some { kind := .mapEntry, span }
  | path span _ => some { kind := .path, span }
  | range span _ _ => some { kind := .range, span }
  | group span _ => some { kind := .parenthesized, span }
  | literal span value => some { kind := value.nodeKind, span, text := value.raw }
  | reference span name => some { kind := .identifier, span, text := name }

namespace Element

/-- What an element stands for. -/
def landmark? : Element → Option Landmark
  | tree x => some { kind := .sourceFile, span := x.span }
  | matchBody x => some { kind := .matchBody, span := x.span }
  | matchBlock x => some { kind := .matchDef, span := x.span }
  | matchPath x => some { kind := .matchPath, span := x.span }
  | pathPart x => some { kind := x.kind.nodeKind, span := x.span, text := x.value }
  | function x => some { kind := .functionDef, span := x.span, text := x.name, nameSpan := x.nameSpan }
  | functionBody x => some { kind := .functionBody, span := x.span }
  | letDefinition x => some { kind := .variableDef, span := x.span }
  | rule x => some { kind := .ruleDef, span := x.span }
  | declaredName x => some { kind := .parameter, span := x.span, text := x.name }
  | method x => some { kind := .method, span := x.span, text := x.name }
  | expr x => x.landmark?

/-- The landmarks of an element, each behind those around it. -/
def landmarks (around : List Landmark) (e : Element) : List (List Landmark × Landmark) :=
  (e.walk []).filterMap fun (scopes, part) => part.landmark?.map (around ++ scopes.filterMap landmark?, ·)

theorem landmarks_eq (around : List Landmark) (e : Element) :
    e.landmarks around = e.landmark?.toList.map (around, ·) ++
      e.children.flatMap (landmarks (around ++ e.landmark?.toList)) := by
  have own : [e].filterMap landmark? = e.landmark?.toList := by
    cases found : e.landmark? <;> simp [found]
  have parts : (e.children.flatMap (walk ([] ++ [e]))).filterMap
        (fun (scopes, part) => part.landmark?.map (around ++ scopes.filterMap landmark?, ·)) =
      e.children.flatMap (landmarks (around ++ e.landmark?.toList)) := by
    rw [List.filterMap_flatMap]
    apply List.flatMap_congr
    intro part _
    rw [walk_append, List.filterMap_map, landmarks]
    congr 1
    funext ⟨scopes, x⟩
    simp only [Function.comp_apply, List.nil_append, List.filterMap_append, own, List.append_assoc]
  rw [landmarks, walk_eq, List.filterMap_cons, parts]
  cases found : e.landmark? <;> simp [found]

end Element

end SecurityRules
