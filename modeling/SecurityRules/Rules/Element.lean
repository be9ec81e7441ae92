import SecurityRules.Rules.Tree

/-!
# Elements of a document

One type for everything that can stand in a typed document, with its parts in a fixed order: of a body first
the functions, then the rules, then the matches. Walking the document visits parents before their parts.
-/

namespace SecurityRules

/-- Anything that stands in a typed document. -/
inductive Element where
  | tree (value : RulesTree)
  | matchBody (value : MatchBody)
  | matchBlock (value : MatchBlock)
  | matchPath (value : MatchPath)
  | pathPart (value : PathPart)
  | function (value : FunctionDecl)
  | functionBody (value : FunctionBody)
  | letDefinition (value : LetDefinition)
  | rule (value : Rule)
  | declaredName (value : DeclaredName)
  | method (value : Method)
  | expr (value : Expr)
deriving Repr

namespace Element

/-- The closed span of an element. -/
def span : Element → Span
  | tree x => x.span
  | matchBody x => x.span
  | matchBlock x => x.span
  | matchPath x => x.span
  | pathPart x => x.span
  | function x => x.span
  | functionBody x => x.span
  | letDefinition x => x.span
  | rule x => x.span
  | declaredName x => x.span
  | method x => x.span
  | expr x => x.span

/-- What sort of element this is. -/
def typeName : Element → String
  | tree _ => "FirestoreTree"
  | matchBody _ => "MatchBody"
  | matchBlock _ => "Match"
  | matchPath _ => "MatchPath"
  | pathPart _ => "MatchPathPart"
  | function _ => "Function"
  | functionBody _ => "FunctionBody"
  | letDefinition _ => "VariableDefinition"
  | rule _ => "Rule"
  | declaredName _ => "VariableDecl"
  | method _ => "Method"
  | expr x => x.kindName

/-- The direct parts of an element. -/
def children : Element → List Element
  | tree x => [matchBody x.body]
  | matchBody x => x.functions.map function ++ x.rules.map rule ++ x.blocks.map matchBlock
  | matchBlock x => (x.path.map matchPath).toList ++ (x.body.map matchBody).toList
  | matchPath x => x.parts.map pathPart
  | pathPart _ => []
  | function x => x.params.map declaredName ++ (x.body.map functionBody).toList
  | functionBody x => x.definitions.map letDefinition ++ (x.result.map expr).toList
  | letDefinition x => declaredName x.name :: (x.value.map expr).toList
  | rule x => x.methods.map method ++ (x.condition.map expr).toList
  | declaredName _ => []
  | method _ => []
  | expr x => x.children.map expr

theorem sizeOf_lt_of_toList {α : Type} [SizeOf α] {a : α} {o : Option α} (h : a ∈ o.toList) :
    sizeOf a < sizeOf o := by
  cases o with
  | none => simp at h
  | some b =>
    obtain rfl : a = b := by simpa using h
    simp

/-- A part is smaller than the whole. -/
theorem sizeOf_lt_of_mem_children {e part : Element} (h : part ∈ e.children) :
    sizeOf part < sizeOf e := by
  cases e with
  | tree x =>
    cases x
    simp only [children, List.mem_singleton] at h
    subst h
    simp only [tree.sizeOf_spec, RulesTree.mk.sizeOf_spec, matchBody.sizeOf_spec]
    omega
  | matchBody x =>
    cases x
    simp only [children, MatchBody.functions, MatchBody.rules, MatchBody.blocks, List.mem_append,
      List.mem_map] at h
    rcases h with (⟨y, member, rfl⟩ | ⟨y, member, rfl⟩) | ⟨y, member, rfl⟩
    all_goals
      have := List.sizeOf_lt_of_mem member
      simp
      omega
  | matchBlock x =>
    cases x
    simp only [children, MatchBlock.path, MatchBlock.body, Option.toList_map, List.mem_append,
      List.mem_map] at h
    rcases h with ⟨y, member, rfl⟩ | ⟨y, member, rfl⟩
    all_goals
      have := sizeOf_lt_of_toList member
      simp
      omega
  | matchPath x =>
    cases x
    simp only [children, List.mem_map] at h
    obtain ⟨y, member, rfl⟩ := h
    have := List.sizeOf_lt_of_mem member
    simp
    omega
  | function x =>
    cases x
    simp only [children, Option.toList_map, List.mem_append, List.mem_map] at h
    rcases h with ⟨y, member, rfl⟩ | ⟨y, member, rfl⟩
    · have := List.sizeOf_lt_of_mem member
      simp
      omega
    · have := sizeOf_lt_of_toList member
      simp
      omega
  | functionBody x =>
    cases x
    simp only [children, Option.toList_map, List.mem_append, List.mem_map] at h
    rcases h with ⟨y, member, rfl⟩ | ⟨y, member, rfl⟩
    · have := List.sizeOf_lt_of_mem member
      simp
      omega
    · have := sizeOf_lt_of_toList member
      simp
      omega
  | letDefinition x =>
    cases x
    simp only [children, Option.toList_map, List.mem_cons, List.mem_map] at h
    rcases h with rfl | ⟨y, member, rfl⟩
    · simp
      omega
    · have := sizeOf_lt_of_toList member
      simp
      omega
  | rule x =>
    cases x
    simp only [children, Option.toList_map, List.mem_append, List.mem_map] at h
    rcases h with ⟨y, member, rfl⟩ | ⟨y, member, rfl⟩
    · have := List.sizeOf_lt_of_mem member
      simp
      omega
    · have := sizeOf_lt_of_toList member
      simp
      omega
  | expr x =>
    simp only [children, List.mem_map] at h
    obtain ⟨y, member, rfl⟩ := h
    have := Expr.sizeOf_lt_of_mem_children member
    simp
    omega
  | pathPart x => simp [children] at h
  | declaredName x => simp [children] at h
  | method x => simp [children] at h

/-- The element and everything below it, parents first. Each comes with the elements around it, the
outermost first. -/
def walk (ancestors : List Element) (e : Element) : List (List Element × Element) :=
  (ancestors, e) ::
    e.children.attach.flatMap fun ⟨part, _⟩ => walk (ancestors ++ [e]) part
termination_by sizeOf e
decreasing_by exact sizeOf_lt_of_mem_children (by assumption)

/-- Whether the element is an expression. -/
def isExpr : Element → Bool
  | expr _ => true
  | _ => false

end Element

/-!
## What stands at a point

The chain of elements around a point, from the document down. Of the parts of an element the first one that
contains the point is taken.
-/

/-- The elements at a point from `e` down, given that `e` contains it. -/
def Element.chainAt (p : Point) (e : Element) : List Element :=
  e :: match _found : e.children.find? (·.span.contains p) with
    | some part => part.chainAt p
    | none => []
termination_by sizeOf e
decreasing_by exact Element.sizeOf_lt_of_mem_children (List.mem_of_find?_eq_some (by assumption))

/-- The elements around a point, the document first; none if the point lies outside it. -/
def RulesTree.lookup (t : RulesTree) (p : Point) : List Element :=
  if t.span.contains p then (Element.tree t).chainAt p else []

end SecurityRules
