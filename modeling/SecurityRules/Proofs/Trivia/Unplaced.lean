import SecurityRules.Diagnose
import SecurityRules.Proofs.Lookup.Walk

/-!
# Typed documents without places

What is left of a typed document if all its spans are forgotten. Walks, definitions and the resolution of references
ask for no span, so they can be read off what is left.
-/

namespace SecurityRules

namespace Expr

mutual

/-- An expression without spans. -/
def unplaced : Expr → Expr
  | unary _ op operand => unary {} op (unplacedOption operand)
  | binary _ op left right => binary {} op (unplacedOption left) (unplacedOption right)
  | ternary _ condition consequence alternative =>
    ternary {} (unplacedOption condition) (unplacedOption consequence) (unplacedOption alternative)
  | member _ object field => member {} (unplacedOption object) (unplacedOption field)
  | memberObject _ inner => memberObject {} (unplacedOption inner)
  | memberField _ inner => memberField {} (unplacedOption inner)
  | memberVariable _ name => memberVariable {} name
  | memberFunction _ name _ args => memberFunction {} name {} (unplacedAll args)
  | index _ object place => index {} (unplacedOption object) (unplacedOption place)
  | call _ name _ args => call {} name {} (unplacedAll args)
  | list _ items => list {} (unplacedAll items)
  | map _ entries => map {} (unplacedAll entries)
  | mapEntry _ key value => mapEntry {} (unplacedOption key) (unplacedOption value)
  | path _ segments => path {} (unplacedAll segments)
  | range _ start stop => range {} (unplacedOption start) (unplacedOption stop)
  | group _ inner => group {} (unplacedOption inner)
  | literal _ value => literal {} value
  | reference _ name => reference {} name

/-- A part that may be absent, without spans. -/
def unplacedOption : Option Expr → Option Expr
  | none => none
  | some e => some (unplaced e)

/-- Several parts without spans. -/
def unplacedAll : List Expr → List Expr
  | [] => []
  | e :: rest => unplaced e :: unplacedAll rest

end

@[simp] theorem unplacedOption_eq (e : Option Expr) : unplacedOption e = e.map unplaced := by
  cases e <;> rfl

@[simp] theorem unplacedAll_eq (es : List Expr) : unplacedAll es = es.map unplaced := by
  induction es with
  | nil => rfl
  | cons e rest ih => rw [unplacedAll, ih, List.map_cons]

theorem slots_unplaced (e : Expr) : e.unplaced.slots = e.slots.map (Option.map unplaced) := by
  cases e <;> simp [unplaced, slots]

/-- The parts of what is left are what is left of the parts. -/
theorem children_unplaced (e : Expr) : e.unplaced.children = e.children.map unplaced := by
  have slots : e.unplaced.slots.filterMap id = (e.slots.filterMap id).map unplaced := by
    rw [slots_unplaced, List.filterMap_map, List.map_filterMap]
    rfl
  cases e with
  | memberFunction | call | list | map | path => simp [unplaced, children]
  | _ => exact slots

end Expr

def PathPart.unplaced (p : PathPart) : PathPart := { p with span := {} }

def MatchPath.unplaced (p : MatchPath) : MatchPath := ⟨{}, p.parts.map (·.unplaced)⟩

def DeclaredName.unplaced (d : DeclaredName) : DeclaredName := { d with span := {} }

def LetDefinition.unplaced (d : LetDefinition) : LetDefinition := ⟨{}, d.name.unplaced, d.value.map (·.unplaced)⟩

def FunctionBody.unplaced (b : FunctionBody) : FunctionBody :=
  ⟨{}, b.definitions.map (·.unplaced), b.result.map (·.unplaced)⟩

def FunctionDecl.unplaced (f : FunctionDecl) : FunctionDecl :=
  ⟨{}, f.name, {}, f.params.map (·.unplaced), f.body.map (·.unplaced)⟩

def Method.unplaced (m : Method) : Method := { m with span := {} }

def Rule.unplaced (r : Rule) : Rule := ⟨{}, r.methods.map (·.unplaced), r.condition.map (·.unplaced)⟩

mutual

/-- A body without spans. -/
def MatchBody.unplaced : MatchBody → MatchBody
  | .mk _ functions rules blocks =>
    .mk {} (functions.map (·.unplaced)) (rules.map (·.unplaced)) (MatchBlock.unplacedAll blocks)

/-- A match without spans. -/
def MatchBlock.unplaced : MatchBlock → MatchBlock
  | .mk _ path body => .mk {} (path.map (·.unplaced)) (MatchBody.unplacedOption body)

/-- Several matches without spans. -/
def MatchBlock.unplacedAll : List MatchBlock → List MatchBlock
  | [] => []
  | block :: rest => block.unplaced :: MatchBlock.unplacedAll rest

/-- A body that may be absent, without spans. -/
def MatchBody.unplacedOption : Option MatchBody → Option MatchBody
  | none => none
  | some body => some body.unplaced

end

@[simp] theorem MatchBlock.unplacedAll_eq (blocks : List MatchBlock) :
    unplacedAll blocks = blocks.map MatchBlock.unplaced := by
  induction blocks with
  | nil => rfl
  | cons block rest ih => rw [unplacedAll, ih, List.map_cons]

@[simp] theorem MatchBody.unplacedOption_eq (body : Option MatchBody) :
    unplacedOption body = body.map MatchBody.unplaced := by
  cases body <;> rfl

def RulesTree.unplaced (t : RulesTree) : RulesTree := ⟨{}, t.body.unplaced⟩

namespace Element

/-- An element without spans. -/
def unplaced : Element → Element
  | tree x => tree x.unplaced
  | matchBody x => matchBody x.unplaced
  | matchBlock x => matchBlock x.unplaced
  | matchPath x => matchPath x.unplaced
  | pathPart x => pathPart x.unplaced
  | function x => function x.unplaced
  | functionBody x => functionBody x.unplaced
  | letDefinition x => letDefinition x.unplaced
  | rule x => rule x.unplaced
  | declaredName x => declaredName x.unplaced
  | method x => method x.unplaced
  | expr x => expr x.unplaced

/-- The parts of what is left are what is left of the parts. -/
theorem children_unplaced (e : Element) : e.unplaced.children = e.children.map unplaced := by
  cases e with
  | expr x => simp [unplaced, children, Expr.children_unplaced, Function.comp_def]
  | matchBody x =>
    cases x
    simp [unplaced, children, MatchBody.unplaced, MatchBody.functions, MatchBody.rules, MatchBody.blocks,
      Function.comp_def]
  | matchBlock x =>
    cases x
    simp [unplaced, children, MatchBlock.unplaced, MatchBlock.path, MatchBlock.body, Function.comp_def,
      Option.toList_map]
  | tree x => rfl
  | matchPath x => simp [unplaced, children, MatchPath.unplaced, Function.comp_def]
  | function x => simp [unplaced, children, FunctionDecl.unplaced, Function.comp_def, Option.toList_map]
  | functionBody x => simp [unplaced, children, FunctionBody.unplaced, Function.comp_def, Option.toList_map]
  | letDefinition x => simp [unplaced, children, LetDefinition.unplaced, Function.comp_def, Option.toList_map]
  | rule x => simp [unplaced, children, Rule.unplaced, Function.comp_def, Option.toList_map]
  | pathPart x => rfl
  | declaredName x => rfl
  | method x => rfl

/-- An element and those around it without spans. -/
def unplacedPair (p : List Element × Element) : List Element × Element := (p.1.map unplaced, p.2.unplaced)

/-- A walk over what is left visits what is left of all elements. -/
theorem walk_unplaced (e : Element) : ∀ around : List Element,
    e.unplaced.walk (around.map unplaced) = (e.walk around).map unplacedPair := by
  induction e using induct with
  | step e ih =>
    intro around
    have behind : (around.map unplaced ++ [e.unplaced]) = (around ++ [e]).map unplaced := by
      rw [List.map_append]
      rfl
    rw [walk_eq, walk_eq, List.map_cons, children_unplaced, List.flatMap_map, List.map_flatMap, behind]
    congr 1
    apply List.flatMap_congr
    intro part member
    exact ih part member _

end Element

/-! ## Definitions and references -/

def Definition.unplaced : Definition → Definition
  | function f => function f.unplaced
  | letDefinition d => letDefinition d.unplaced

theorem RulesTree.definitions_unplaced (t : RulesTree) : t.unplaced.definitions = t.definitions.map (·.unplaced) := by
  have walk := (Element.tree t).walk_unplaced []
  have tree : (Element.tree t).unplaced = Element.tree t.unplaced := rfl
  rw [tree, List.map_nil] at walk
  rw [definitions, definitions, walk, List.filterMap_map, List.map_filterMap]
  congr 1
  funext ⟨scopes, e⟩
  cases e <;> rfl

def Declaration.unplaced : Declaration → Declaration
  | function f => function f.unplaced
  | capture p => capture p.unplaced
  | letDefinition d => letDefinition d.unplaced

namespace Scope

theorem declared?_unplaced (reference : Reference) (e : Element) :
    declared? reference e.unplaced = (declared? reference e).map (·.unplaced) := by
  rcases reference with name | name
  · cases e with
    | matchBody body =>
      cases body
      simp only [declared?, function?, Element.unplaced, MatchBody.unplaced, MatchBody.functions, List.find?_map,
        Option.map_map]
      rfl
    | _ => rfl
  · cases e with
    | matchBlock block =>
      obtain ⟨_, path, _⟩ := block
      cases path with
      | none => rfl
      | some path =>
        simp only [declared?, binding?, Element.unplaced, MatchBlock.unplaced, MatchBlock.path, Option.map_some,
          Option.getD_some, MatchPath.unplaced, List.find?_map, Option.map_map]
        rfl
    | functionBody body =>
      simp only [declared?, binding?, Element.unplaced, FunctionBody.unplaced, List.find?_map, Option.map_map]
      rfl
    | _ => rfl

theorem order_map (policy : ScopePolicy) (g : Element → Element) (scopes : List Element) :
    policy.order (scopes.map g) = (policy.order scopes).map g := by
  cases policy with
  | outermost => rfl
  | innermost => exact List.map_reverse.symm

/-- A reference is resolved alike in what is left of its scopes. -/
theorem resolveIn_unplaced (policy : ScopePolicy) (reference : Reference) (scopes : List Element) :
    resolveIn policy reference (scopes.map Element.unplaced) =
      (resolveIn policy reference scopes).map (·.unplaced) := by
  have found : ((policy.order scopes).map Element.unplaced).findSome? (declared? reference) =
      ((policy.order scopes).findSome? (declared? reference)).map (·.unplaced) := by
    rw [List.findSome?_map, List.map_findSome?]
    congr 1
    funext e
    exact declared?_unplaced reference e
  rw [resolveIn, resolveIn, order_map, found]
  cases (policy.order scopes).findSome? (declared? reference) with
  | none => rfl
  | some declaration => rfl

theorem reference?_unplaced (e : Element) : reference? e.unplaced = reference? e := by
  cases e with
  | expr x => cases x <;> rfl
  | _ => rfl

end Scope

end SecurityRules
