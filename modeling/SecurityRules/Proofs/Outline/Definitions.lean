import SecurityRules.Proofs.Lookup.Walk
import SecurityRules.Proofs.Outline.Symbols

/-!
# The outline and the index of definitions

The outline goes down the matches of a document and names functions, `let`s and rules as it meets them. The index walks
over everything that stands in the document, and would go into expressions too, where there is nothing to find. Both
meet the same definitions in the same order, however matches are nested.
-/

namespace SecurityRules

/-! ## What a walk meets -/

namespace Element

/-- The definitions that a walk meets, the element itself included. -/
def definitions (e : Element) : List Definition :=
  (e.walk []).filterMap fun (_, part) => Definition.ofElement? part

theorem definitions_eq (e : Element) :
    e.definitions = (Definition.ofElement? e).toList ++ e.children.flatMap definitions := by
  have below : (e.children.flatMap (walk [e])).filterMap (fun (_, part) => Definition.ofElement? part) =
      e.children.flatMap definitions := by
    rw [List.filterMap_flatMap]
    refine List.flatMap_congr fun part _ => ?_
    rw [walk_append, List.filterMap_map]
    rfl
  rw [definitions, walk_eq, List.nil_append, List.filterMap_cons, below]
  dsimp only
  cases Definition.ofElement? e <;> rfl

/-- What is no definition and has none in its parts has none at all. -/
theorem definitions_eq_nil {e : Element} (other : Definition.ofElement? e = none)
    (parts : ∀ part ∈ e.children, part.definitions = []) : e.definitions = [] := by
  rw [definitions_eq, other, List.flatMap_eq_nil_iff.mpr parts]
  rfl

/-- Nothing is defined in an expression, so a walk for definitions may stop there. -/
theorem definitions_expr (x : Expr) : (expr x).definitions = [] := by
  suffices ∀ e : Element, ∀ x, e = expr x → e.definitions = [] from this _ x rfl
  intro e
  induction e using induct with
  | step e ih =>
    rintro x rfl
    refine definitions_eq_nil rfl fun part member => ?_
    obtain ⟨y, -, rfl⟩ := List.mem_map.mp member
    exact ih _ member y rfl

theorem definitions_optionalExpr (x : Option Expr) : (x.map expr).toList.flatMap definitions = [] := by
  cases x with
  | none => rfl
  | some x => rw [Option.map_some, Option.toList_some, List.flatMap_singleton, definitions_expr]

theorem definitions_declaredName (n : DeclaredName) : (declaredName n).definitions = [] :=
  definitions_eq_nil rfl fun _ member => absurd member List.not_mem_nil

theorem definitions_matchPath (p : MatchPath) : (matchPath p).definitions = [] := by
  refine definitions_eq_nil rfl fun part member => ?_
  obtain ⟨segment, -, rfl⟩ := List.mem_map.mp member
  exact definitions_eq_nil rfl fun _ member => absurd member List.not_mem_nil

theorem definitions_rule (r : Rule) : (rule r).definitions = [] := by
  have methods : (r.methods.map method).flatMap definitions = [] := by
    refine List.flatMap_eq_nil_iff.mpr fun part member => ?_
    obtain ⟨m, -, rfl⟩ := List.mem_map.mp member
    exact definitions_eq_nil rfl fun _ member => absurd member List.not_mem_nil
  rw [definitions_eq, children, List.flatMap_append, methods, definitions_optionalExpr]
  rfl

theorem definitions_letDefinition (d : LetDefinition) : (letDefinition d).definitions = [.letDefinition d] := by
  rw [definitions_eq, children, List.flatMap_cons, definitions_declaredName, definitions_optionalExpr]
  rfl

theorem definitions_functionBody (b : FunctionBody) :
    (functionBody b).definitions = b.definitions.map .letDefinition := by
  have lets : (b.definitions.map letDefinition).flatMap definitions = b.definitions.map .letDefinition := by
    rw [List.flatMap_map, List.map_eq_flatMap]
    exact List.flatMap_congr fun d _ => definitions_letDefinition d
  rw [definitions_eq, children, List.flatMap_append, lets, definitions_optionalExpr, List.append_nil]
  rfl

/-- A function comes before the `let`s of its body, if it has one. -/
theorem definitions_function (f : FunctionDecl) : (function f).definitions =
    .function f :: ((f.body.map (·.definitions)).getD []).map .letDefinition := by
  have params : (f.params.map declaredName).flatMap definitions = [] := by
    refine List.flatMap_eq_nil_iff.mpr fun part member => ?_
    obtain ⟨p, -, rfl⟩ := List.mem_map.mp member
    exact definitions_declaredName p
  rw [definitions_eq, children, List.flatMap_append, params]
  cases f.body with
  | none => rfl
  | some b =>
    rw [Option.map_some, Option.toList_some, List.flatMap_singleton, definitions_functionBody]
    rfl

/-- In a body the functions come before the matches. -/
theorem definitions_matchBody (b : MatchBody) : (matchBody b).definitions =
    (b.functions.map function).flatMap definitions ++ (b.blocks.map matchBlock).flatMap definitions := by
  have rules : (b.rules.map rule).flatMap definitions = [] := by
    refine List.flatMap_eq_nil_iff.mpr fun part member => ?_
    obtain ⟨r, -, rfl⟩ := List.mem_map.mp member
    exact definitions_rule r
  rw [definitions_eq, children, List.flatMap_append, List.flatMap_append, rules, List.append_nil]
  rfl

theorem definitions_matchBlock (m : MatchBlock) : (matchBlock m).definitions =
    (m.body.map matchBody).toList.flatMap definitions := by
  have path : (m.path.map matchPath).toList.flatMap definitions = [] := by
    cases m.path with
    | none => rfl
    | some p => rw [Option.map_some, Option.toList_some, List.flatMap_singleton, definitions_matchPath]
  rw [definitions_eq, children, List.flatMap_append, path]
  rfl

end Element

/-! ## What the outline names -/

namespace OutlineSymbol

/-- The symbol of a definition. -/
def ofDefinition : Definition → OutlineSymbol
  | .function f => ofFunction f
  | .letDefinition d => ofLet d

/-- Whether the symbol is that of a function or `let`. -/
def isDefinition (s : OutlineSymbol) : Bool := s.kind == .function || s.kind == .letDefinition

/-- The symbols of functions and `let`s, each symbol before those below it. -/
def definitions (symbols : List OutlineSymbol) : List OutlineSymbol := (nodesAll symbols).filter isDefinition

theorem definitions_append (first second : List OutlineSymbol) :
    definitions (first ++ second) = definitions first ++ definitions second := by
  rw [definitions, nodesAll_append, List.filter_append]
  rfl

theorem definitions_cons (s : OutlineSymbol) (rest : List OutlineSymbol) :
    definitions (s :: rest) = [s].filter isDefinition ++ definitions s.children ++ definitions rest := by
  obtain ⟨kind, name, detail, span, nameSpan, children⟩ := s
  rw [definitions, nodesAll, nodes, List.filter_append, ← List.singleton_append, List.filter_append]
  rfl

theorem definitions_ofLets (ds : List LetDefinition) :
    definitions (ds.map ofLet) = (ds.map Definition.letDefinition).map ofDefinition := by
  induction ds with
  | nil => rfl
  | cons d ds ih =>
    rw [List.map_cons, definitions_cons, ih]
    rfl

theorem definitions_ofFunctions (fs : List FunctionDecl) : definitions (fs.map ofFunction) =
    ((fs.map Element.function).flatMap Element.definitions).map ofDefinition := by
  induction fs with
  | nil => rfl
  | cons f fs ih =>
    have lets : (ofFunction f).children = ((f.body.map (·.definitions)).getD []).map ofLet := rfl
    rw [List.map_cons, definitions_cons, lets, definitions_ofLets, ih, List.map_cons, List.flatMap_cons, List.map_append,
      Element.definitions_function]
    rfl

theorem definitions_ofRules (rs : List Rule) : definitions (rs.map ofRule) = [] := by
  induction rs with
  | nil => rfl
  | cons r rs ih =>
    rw [List.map_cons, definitions_cons, ih]
    rfl

mutual

/-- The outline of a body names the definitions that a walk over the body meets. -/
theorem definitions_ofBody : ∀ b : MatchBody,
    definitions (ofBody b) = (Element.matchBody b).definitions.map ofDefinition
  | .mk span functions rules blocks => by
    rw [ofBody, definitions_append, definitions_append, definitions_ofFunctions, definitions_ofRules,
      definitions_ofBlocks blocks, List.append_nil, Element.definitions_matchBody, List.map_append]
    rfl

theorem definitions_ofBlocks : ∀ blocks : List MatchBlock,
    definitions (ofBlocks blocks) = ((blocks.map Element.matchBlock).flatMap Element.definitions).map ofDefinition
  | [] => rfl
  | .mk span path body :: rest => by
    have inner : (ofBlock (.mk span path body)).children = ofOptionalBody body := by rw [ofBlock, children]
    rw [ofBlocks, definitions_cons, inner, definitions_ofOptionalBody body, definitions_ofBlocks rest, List.map_cons,
      List.flatMap_cons, List.map_append, Element.definitions_matchBlock, ofBlock]
    rfl

theorem definitions_ofOptionalBody : ∀ body : Option MatchBody, definitions (ofOptionalBody body) =
    ((body.map Element.matchBody).toList.flatMap Element.definitions).map ofDefinition
  | none => rfl
  | some body => by
    rw [ofOptionalBody, definitions_ofBody body, Option.map_some, Option.toList_some, List.flatMap_singleton]

end

end OutlineSymbol

theorem RulesTree.definitions_outline (t : RulesTree) :
    OutlineSymbol.definitions t.outline = t.definitions.map OutlineSymbol.ofDefinition := by
  have whole : t.definitions = (Element.matchBody t.body).definitions := by
    show (Element.tree t).definitions = _
    rw [Element.definitions_eq, Element.children, List.flatMap_singleton]
    rfl
  rw [whole, outline, OutlineSymbol.definitions_ofBody]

/-- The functions and `let`s of the outline of a document, each symbol before those below it, are the definitions of its
index one by one: of the same kind and name, and in the same places. -/
theorem Document.outline_definitions (d : Document) :
    (OutlineSymbol.definitions d.outline).map (fun s => (s.kind.name, s.name, s.nameSpan, s.span)) =
      d.definitions.map fun x => (x.kindName, x.name, x.nameSpan, x.span) := by
  rw [outline, RulesTree.definitions_outline, definitions, List.map_map]
  refine List.map_congr_left fun x _ => ?_
  cases x with
  | function f => rfl
  | letDefinition l => rfl

end SecurityRules
