import SecurityRules.Proofs.Origin.Expressions
import SecurityRules.Proofs.Trivia.Alike
import SecurityRules.Proofs.Trivia.Unplaced

/-!
# Typed documents of trees that are alike

The builder asks a tree for its kind, for its children in roles or by kind, for how many of them are no comments, and
for the text of leaves. Of trees that are alike it therefore makes the same, places apart.
-/

namespace SecurityRules.Build

open ParseTree (Alike)

variable {f f' : SourceFile} {t t' : ParseTree}

/-- What is made of trees that are alike, one by one, is the same without places. -/
theorem map_filterMap_alike {α β : Type} {make make' : ParseTree → Option α} {h : α → β} {ts ts' : List ParseTree}
    (alike : List.Forall₂ (Alike f f') ts ts')
    (same : ∀ t ∈ ts, ∀ t', Alike f f' t t' → (make t).map h = (make' t').map h) :
    (ts.filterMap make).map h = (ts'.filterMap make').map h := by
  rw [List.map_filterMap, List.map_filterMap]
  induction alike with
  | nil => rfl
  | cons first _ ih =>
    rw [List.filterMap_cons, List.filterMap_cons, same _ (List.mem_cons_self ..) _ first,
      ih fun t member => same t (List.mem_cons_of_mem _ member)]

theorem map_bind_alike {α β : Type} {make make' : ParseTree → Option α} {h : α → β}
    (same : ∀ t t', Alike f f' t t' → (make t).map h = (make' t').map h) {o o' : Option ParseTree}
    (alike : Option.Rel (Alike f f') o o') : (o.bind make).map h = (o'.bind make').map h := by
  cases alike with
  | none => rfl
  | some alike => exact same _ _ alike

/-! ## What the builder asks a tree for -/

theorem filter_isPresent_alike {ts ts' : List ParseTree} (alike : List.Forall₂ (Alike f f') ts ts') :
    List.Forall₂ (Alike f f') (ts.filter isPresent) (ts'.filter isPresent) := by
  refine List.rel_filter (fun c c' alikeC => ?_) alike
  dsimp only
  rw [alikeC.isPresent]

section

variable (alike : Alike f f' t t')
include alike

theorem hasArity_alike (n : Nat) : hasArity t n = hasArity t' n := by
  rw [hasArity, hasArity, alike.parts.length_eq]

theorem isOpened_alike : isOpened t = isOpened t' := by
  have first := ParseTree.Alike.head? alike.parts
  rw [ParseTree.head?_significant alike.matched.tame.first, ParseTree.head?_significant alike.matched.tame'.first] at first
  have missing (u : ParseTree) : isOpened u = (u.children.head?.map (!·.isMissing)).getD false := by
    rw [isOpened]
    cases u.children <;> rfl
  rw [missing, missing]
  generalize t.children.head? = c at first
  generalize t'.children.head? = c' at first
  cases first with
  | none => rfl
  | some same => rw [Option.map_some, Option.map_some, same.matched.isMissing]

theorem presentChild?_alike (role : Role) :
    Option.Rel (Alike f f') (presentChild? t role) (presentChild? t' role) := by
  have found := alike.child? role
  rw [presentChild?, presentChild?]
  generalize t.child? role = c at found
  generalize t'.child? role = c' at found
  cases found with
  | none => exact .none
  | some same =>
    rw [Option.filter_some, Option.filter_some, same.isPresent]
    split
    · exact .some same
    · exact .none

/-- A part that is read as text is there on both sides, with the same text, or on neither. -/
theorem map_label_alike {α : Type} {role : Role} (labelled : t.kind.isLabelled (some role) = true) (other : role ≠ .param)
    {make make' : ParseTree → α} (same : ∀ c c', c.text f = c'.text f' → make c = make' c') :
    (presentChild? t role).map make = (presentChild? t' role).map make' := by
  have found := presentChild?_alike alike role
  cases left : presentChild? t role with
  | none =>
    rw [left] at found
    generalize presentChild? t' role = right at found
    cases found
    rfl
  | some c =>
    obtain ⟨child, _⟩ := presentChild?_eq_some left
    have part : c.role = some role := by simpa using List.find?_some child
    rw [left] at found
    generalize presentChild? t' role = right at found
    cases found with
    | some alikeC =>
      rw [Option.map_some, Option.map_some, same _ _ (alike.text_of_labelled
        (ParseTree.mem_children_of_child? child) (part ▸ labelled) (by rw [part]; simp [other]) alikeC)]

theorem operatorText_alike : operatorText f t = operatorText f' t' := by
  have found := alike.child? .operator
  rw [operatorText, operatorText]
  cases left : t.child? .operator with
  | none =>
    rw [left] at found
    generalize t'.child? .operator = right at found
    cases found
    rfl
  | some c =>
    obtain ⟨member, role⟩ := role_of_child? left
    rw [left] at found
    generalize t'.child? .operator = right at found
    cases found with
    | some alikeC =>
      exact alike.text_of_labelled member (by rw [role]; exact NodeKind.isLabelled_operator _) (by simp [role]) alikeC

end

/-! ## Expressions -/

section

variable {nested nested' : ParseTree → Option Expr}
  (same : ∀ t t', Alike f f' t t' → (nested t).map Expr.unplaced = (nested' t').map Expr.unplaced)
  (alike : Alike f f' t t')
include same alike

theorem exprIn_alike (role : Role) :
    (exprIn nested t role).map Expr.unplaced = (exprIn nested' t' role).map Expr.unplaced :=
  map_bind_alike same (alike.child? role)

omit same in
theorem ofArity_alike {n : Nat} {x x' : Expr} (value : x.unplaced = x'.unplaced) :
    (ofArity t n x).map Expr.unplaced = (ofArity t' n x').map Expr.unplaced := by
  rw [ofArity, ofArity, ← hasArity_alike alike]
  split
  · rw [Option.map_some, Option.map_some, value]
  · rfl

theorem arguments_alike : (arguments nested t).map Expr.unplaced = (arguments nested' t').map Expr.unplaced := by
  have found := alike.child? .arguments
  rw [arguments, arguments]
  generalize t.child? .arguments = args at found
  generalize t'.child? .arguments = args' at found
  cases found with
  | none => rfl
  | some alikeArgs =>
    refine map_filterMap_alike ?_ fun _ _ _ alike => same _ _ alike
    rw [ParseTree.namedChildren, ParseTree.namedChildren, List.filter_filter, List.filter_filter]
    refine alikeArgs.childrenOf (fun c kept => ?_) fun c c' alikeC => ?_
    · simpa using (Bool.and_eq_true_iff.mp kept).1
    · rw [alikeC.isExtra, ParseTree.isNamed, ParseTree.isNamed, alikeC.matched.kind]

/-- A call is there on both sides, with the same name and arguments, or on neither. -/
theorem map_call?_alike {α : Type} (kind : t.kind = .functionCall) {make make' : Bytes × Span × List Expr → α}
    (agree : ∀ name span span' args args', args.map Expr.unplaced = args'.map Expr.unplaced →
      make (name, span, args) = make' (name, span', args')) :
    (call? f nested t).map make = (call? f' nested' t').map make' := by
  rw [call?, call?, ← hasArity_alike alike]
  split
  · rw [Option.map_map, Option.map_map]
    refine map_label_alike alike (by rw [kind]; rfl) Role.noConfusion fun c c' text => ?_
    dsimp only [Function.comp_apply]
    rw [text]
    exact agree _ _ _ _ _ (arguments_alike same alike)
  · rfl

theorem memberObject_alike :
    (memberObject nested t).map Expr.unplaced = (memberObject nested' t').map Expr.unplaced := by
  have found := presentChild?_alike alike .object
  rw [memberObject, memberObject]
  generalize presentChild? t .object = object at found
  generalize presentChild? t' .object = object' at found
  cases found with
  | none => rfl
  | some alikeObject =>
    simp only [Option.map_some, Expr.unplaced, Expr.unplacedOption_eq, same _ _ alikeObject]

theorem fieldOf_alike : (fieldOf f nested t).map Expr.unplaced = (fieldOf f' nested' t').map Expr.unplaced := by
  rw [fieldOf, fieldOf, ← alike.matched.kind]
  split
  · rename_i kind
    rw [alike.text_of_spelled (by rw [kind]; rfl)]
    rfl
  · rename_i kind
    rw [Option.map_map, Option.map_map]
    refine map_call?_alike same alike kind fun name span span' args args' agree => ?_
    simp [Expr.unplaced, agree]
  · rfl

theorem memberField_alike :
    (memberField f nested t).map Expr.unplaced = (memberField f' nested' t').map Expr.unplaced :=
  map_bind_alike (fun _ _ alike => fieldOf_alike same alike) (presentChild?_alike alike .field)

theorem placeOf_alike : (placeOf nested t).map Expr.unplaced = (placeOf nested' t').map Expr.unplaced := by
  rw [placeOf, placeOf, ← alike.isPresent, ← alike.matched.kind]
  split
  · simp only [Option.map_some, Expr.unplaced, Expr.unplacedOption_eq, exprIn_alike same alike]
  · exact same _ _ alike

theorem entryOf_alike : (entryOf nested t).map Expr.unplaced = (entryOf nested' t').map Expr.unplaced := by
  refine ofArity_alike alike ?_
  simp only [Expr.unplaced, Expr.unplacedOption_eq, exprIn_alike same alike]

theorem segmentOf_alike : (segmentOf f nested t).map Expr.unplaced = (segmentOf f' nested' t').map Expr.unplaced := by
  rw [segmentOf, segmentOf, ← alike.matched.kind]
  split
  · rename_i kind
    rw [segmentLiteral, segmentLiteral, alike.text_of_spelled (by rw [kind]; rfl)]
    rfl
  · exact exprIn_alike same alike .expression
  · rfl

/-- The expressions of trees that are alike are the same, if those of the trees in them are. -/
theorem exprOf_alike : (exprOf f nested t).map Expr.unplaced = (exprOf f' nested' t').map Expr.unplaced := by
  have slot := fun role => exprIn_alike same alike role
  rw [exprOf, exprOf, ← alike.matched.kind]
  cases kind : t.kind with
  | ternary =>
    refine ofArity_alike alike ?_
    simp only [Expr.unplaced, Expr.unplacedOption_eq, slot]
  | disjunction | conjunction | relation | addition | multiplication | contains =>
    refine ofArity_alike alike ?_
    simp only [Expr.unplaced, Expr.unplacedOption_eq, slot, operatorText_alike alike]
  | typeComparison =>
    refine ofArity_alike alike ?_
    have right : (presentChild? t .right).map (fun c => Expr.reference {} (c.text f)) =
        (presentChild? t' .right).map fun c => Expr.reference {} (c.text f') :=
      map_label_alike alike (by rw [kind]; rfl) Role.noConfusion fun c c' text => by rw [text]
    simp only [Expr.unplaced, Expr.unplacedOption_eq, slot, Option.map_map, Function.comp_def]
    rw [right]
  | unary =>
    refine ofArity_alike alike ?_
    simp only [Expr.unplaced, Expr.unplacedOption_eq, slot, operatorText_alike alike]
  | member =>
    refine ofArity_alike alike ?_
    simp only [Expr.unplaced, Expr.unplacedOption_eq, memberObject_alike same alike, memberField_alike same alike]
  | indexing =>
    refine ofArity_alike alike ?_
    have place := map_bind_alike (fun _ _ alike => placeOf_alike same alike) (alike.child? .index)
    simp only [Expr.unplaced, Expr.unplacedOption_eq, slot, indexPlace_eq, place]
  | parenthesized =>
    refine ofArity_alike alike ?_
    simp only [Expr.unplaced, Expr.unplacedOption_eq, slot]
  | functionCall =>
    dsimp only
    rw [Option.map_map, Option.map_map]
    refine map_call?_alike same alike kind fun name span span' args args' agree => ?_
    simp [Expr.unplaced, agree]
  | list =>
    have items := map_filterMap_alike (alike.childrenIn .element) fun _ _ _ alike => same _ _ alike
    simp only [Option.map_some, Expr.unplaced, Expr.unplacedAll_eq, items]
  | map =>
    have entries := map_filterMap_alike (alike.childrenIn .entry) fun _ _ _ alike => entryOf_alike same alike
    simp only [Option.map_some, Expr.unplaced, Expr.unplacedAll_eq, mapEntries_eq, entries]
  | path =>
    have segments := map_filterMap_alike (filter_isPresent_alike (alike.childrenIn .segment))
      fun _ _ _ alike => segmentOf_alike same alike
    simp only [Option.map_some, Expr.unplaced, Expr.unplacedAll_eq, pathSegments_eq, segments]
  | identifier | number | string | boolean | null =>
    rw [alike.text_of_spelled (by rw [kind]; rfl)]
    rfl
  | _ => rfl

end

/-- The expressions of trees that are alike are the same, places apart. -/
theorem exprAt_alike (budget : Nat) (alike : Alike f f' t t') :
    (exprAt f budget t).map Expr.unplaced = (exprAt f' budget t').map Expr.unplaced := by
  induction budget generalizing t t' with
  | zero => rfl
  | succ budget ih =>
    rw [exprAt, exprAt, ← alike.isPresent]
    split
    · exact exprOf_alike (fun _ _ alike => ih alike) alike
    · rfl

/-! ## Declarations -/

theorem getLast?_alike {ts ts' : List ParseTree} (alike : List.Forall₂ (Alike f f') ts ts') :
    Option.Rel (Alike f f') ts.getLast? ts'.getLast? := by
  rw [← List.head?_reverse, ← List.head?_reverse]
  exact ParseTree.Alike.head? (List.rel_reverse alike)

section

variable (limit : Nat) (alike : Alike f f' t t')
include alike

theorem statementExpr_alike (role : Role) :
    (statementExpr f limit t role).map Expr.unplaced = (statementExpr f' limit t' role).map Expr.unplaced :=
  exprIn_alike (fun _ _ alike => exprAt_alike limit alike) alike role

omit limit in
theorem pathPart?_alike : (pathPart? f t).map PathPart.unplaced = (pathPart? f' t').map PathPart.unplaced := by
  rw [pathPart?, pathPart?, ← alike.matched.kind]
  split
  · rename_i kind
    rw [alike.text_of_spelled (by rw [kind]; rfl)]
    rfl
  · rename_i kind
    rw [Option.map_map, Option.map_map]
    refine map_label_alike alike (by rw [kind]; rfl) Role.noConfusion fun c c' text => ?_
    simp [PathPart.unplaced, text]
  · rename_i kind
    rw [Option.map_map, Option.map_map]
    refine map_label_alike alike (by rw [kind]; rfl) Role.noConfusion fun c c' text => ?_
    simp [PathPart.unplaced, text]
  · rfl

omit limit in
theorem matchPath_alike : (matchPath f t).unplaced = (matchPath f' t').unplaced := by
  have parts := map_filterMap_alike (filter_isPresent_alike (alike.childrenIn .segment))
    fun _ _ _ alike => pathPart?_alike alike
  simp only [matchPath, MatchPath.unplaced, parts]

theorem letDefinition?_alike (kind : t.kind = .variableDef) :
    (letDefinition? f limit t).map LetDefinition.unplaced = (letDefinition? f' limit t').map LetDefinition.unplaced := by
  rw [letDefinition?, letDefinition?, Option.map_map, Option.map_map]
  refine map_label_alike alike (by rw [kind]; rfl) Role.noConfusion fun c c' text => ?_
  simp [LetDefinition.unplaced, DeclaredName.unplaced, text, statementExpr_alike limit alike]

omit limit in
theorem childrenOfKind_alike (kind : NodeKind) (other : (kind == .comment) = false) :
    List.Forall₂ (Alike f f') (t.children.filter (·.kind == kind)) (t'.children.filter (·.kind == kind)) := by
  refine alike.childrenOf (fun c isKind => ?_) fun c c' alikeC => by rw [alikeC.matched.kind]
  rw [ParseTree.isExtra, beq_iff_eq.mp isKind]
  exact other

theorem functionBody_alike : (functionBody f limit t).1.map FunctionBody.unplaced =
      (functionBody f' limit t').1.map FunctionBody.unplaced ∧
    (functionBody f limit t).2.length = (functionBody f' limit t').2.length := by
  rw [functionBody, functionBody, ← isOpened_alike alike]
  split
  · have definitions := map_filterMap_alike (childrenOfKind_alike alike .variableDef rfl) fun c member _ alikeC =>
      letDefinition?_alike limit alikeC (beq_iff_eq.mp (List.mem_filter.mp member).2)
    have result := map_bind_alike (fun _ _ alike => statementExpr_alike limit alike .value)
      (getLast?_alike (childrenOfKind_alike alike .returnStatement rfl))
    have lost := (childrenOfKind_alike alike .error rfl).length_eq
    refine ⟨?_, ?_⟩
    · simp only [Option.map_some, FunctionBody.unplaced, definitions, result]
    · rw [List.length_map, List.length_map]
      exact lost
  · exact ⟨rfl, rfl⟩

omit limit in
theorem parameter?_alike (named : t.children = [] ∨ t.kind = .parameter) :
    (parameter? f t).map DeclaredName.unplaced = (parameter? f' t').map DeclaredName.unplaced := by
  have first := ParseTree.Alike.head? alike.parts
  rw [ParseTree.head?_significant alike.matched.tame.first, ParseTree.head?_significant alike.matched.tame'.first] at first
  rw [parameter?, parameter?]
  cases head : t.children.head? with
  | none =>
    rw [head] at first
    generalize t'.children.head? = right at first
    cases first
    rfl
  | some c =>
    rw [head] at first
    generalize t'.children.head? = right at first
    cases first with
    | some alikeC =>
      have kind : t.kind = .parameter := named.resolve_left fun none => by simp [none] at head
      have text := alike.text_of_labelled (List.mem_of_mem_head? head) (by rw [kind]; rfl) (by simp [kind]) alikeC
      rw [Option.filter_some, Option.filter_some, alikeC.isPresent]
      split
      · simp [DeclaredName.unplaced, text]
      · rfl

theorem function?_alike (kind : t.kind = .functionDef) :
    (function? f limit t).1.map FunctionDecl.unplaced = (function? f' limit t').1.map FunctionDecl.unplaced ∧
      (function? f limit t).2.length = (function? f' limit t').2.length := by
  have params : ((t.childrenIn .param).filterMap (parameter? f)).map DeclaredName.unplaced =
      ((t'.childrenIn .param).filterMap (parameter? f')).map DeclaredName.unplaced := by
    refine map_filterMap_alike (alike.childrenIn .param) fun c member c' alikeC => ?_
    rw [ParseTree.childrenIn, List.mem_filter, beq_iff_eq] at member
    refine parameter?_alike alikeC ((alike.matched.tame.labels c member.1 ?_).imp_right (·.2))
    rw [kind, member.2]
    rfl
  have named := map_label_alike alike (by rw [kind]; rfl) (Role.noConfusion : Role.name ≠ .param) fun c c' text => text
  have body := alike.child? .body
  rw [function?, function?]
  cases found : presentChild? t .name <;> cases found' : presentChild? t' .name
  case none.none => exact ⟨rfl, rfl⟩
  case some.some name name' =>
    have text : name.text f = name'.text f' := by simpa [*] using named
    dsimp only
    generalize t.child? .body = b at body
    generalize t'.child? .body = b' at body
    cases body with
    | none => simp [FunctionDecl.unplaced, params, text]
    | some alikeBody =>
      obtain ⟨bodies, lost⟩ := functionBody_alike limit alikeBody
      exact ⟨by simp [FunctionDecl.unplaced, params, text, bodies], lost⟩
  all_goals simp [*] at named

omit limit in
theorem methods_alike : ((t.childrenIn .method).filter isPresent).map (fun m => (⟨{}, m.text f⟩ : Method)) =
    ((t'.childrenIn .method).filter isPresent).map fun m => ⟨{}, m.text f'⟩ := by
  have methods := filter_isPresent_alike (alike.childrenIn .method)
  have labelled : ∀ c ∈ (t.childrenIn .method).filter isPresent, c ∈ t.children ∧ c.role = some .method := by
    intro c member
    have member := (List.mem_filter.mp member).1
    rw [ParseTree.childrenIn, List.mem_filter, beq_iff_eq] at member
    exact member
  generalize (t.childrenIn .method).filter isPresent = cs at methods labelled
  generalize (t'.childrenIn .method).filter isPresent = cs' at methods
  induction methods with
  | nil => rfl
  | cons first _ ih =>
    obtain ⟨member, role⟩ := labelled _ (List.mem_cons_self ..)
    rw [List.map_cons, List.map_cons, ih fun c member => labelled c (List.mem_cons_of_mem _ member),
      alike.text_of_labelled member (by rw [role]; exact NodeKind.isLabelled_method _) (by simp [role])
        first]

theorem rule_alike : (rule f limit t).unplaced = (rule f' limit t').unplaced := by
  simp only [rule, Rule.unplaced, List.map_map, Function.comp_def, Method.unplaced, statementExpr_alike limit alike]
  rw [methods_alike alike]

omit alike in
theorem functionIn_alike (alike : Alike f f' t t') :
    (functionIn f limit t).map FunctionDecl.unplaced = (functionIn f' limit t').map FunctionDecl.unplaced := by
  rw [functionIn, functionIn, ← alike.matched.kind]
  split
  · exact (function?_alike limit alike ‹_›).1
  · rfl

omit alike in
theorem ruleIn_alike (alike : Alike f f' t t') :
    (ruleIn f limit t).map Rule.unplaced = (ruleIn f' limit t').map Rule.unplaced := by
  rw [ruleIn, ruleIn, ← alike.matched.kind]
  split
  · rw [Option.map_some, Option.map_some, rule_alike limit alike]
  · rfl

omit alike in
/-- Of comments nothing is made. -/
theorem filterMap_significant {α : Type} {make : ParseTree → Option α} (none : ∀ c, c.isExtra = true → make c = none) :
    t.significant.filterMap make = t.children.filterMap make := by
  rw [ParseTree.significant, List.filterMap_filter]
  apply List.filterMap_congr
  intro c _
  cases isExtra : c.isExtra with
  | true => exact (none c isExtra).symm
  | false => rfl

omit alike in
theorem bodyItem_of_isExtra {c : ParseTree} (isExtra : c.isExtra = true) : functionIn f limit c = none ∧
    ruleIn f limit c = none ∧ blockIn f limit c = none ∧ lostIn f limit c = [] := by
  have kind : c.kind = .comment := beq_iff_eq.mp isExtra
  simp [functionIn, ruleIn, blockIn, lostIn, kind]

omit alike in
theorem length_lost (t : ParseTree) : (t.children.flatMap (lostIn f limit)).length =
    (t.significant.map fun c => (lostIn f limit c).length).sum := by
  rw [ParseTree.significant, List.length_flatMap]
  induction t.children with
  | nil => rfl
  | cons c rest ih =>
    cases isExtra : c.isExtra with
    | true => simp [ih, isExtra, (bodyItem_of_isExtra limit isExtra).2.2.2]
    | false => simp [ih, isExtra]

/-- What matches are the same and lose as much, in trees that are alike. -/
def SameBlocks (f f' : SourceFile) (limit : Nat) (t t' : ParseTree) : Prop :=
  (blockIn f limit t).map MatchBlock.unplaced = (blockIn f' limit t').map MatchBlock.unplaced ∧
    (lostIn f limit t).length = (lostIn f' limit t').length

/-- The bodies of trees are the same, places apart, and as much has no place in them. -/
def SameBodies (f f' : SourceFile) (limit : Nat) (t t' : ParseTree) : Prop :=
  (matchBody f limit t).1.map MatchBody.unplaced = (matchBody f' limit t').1.map MatchBody.unplaced ∧
    (matchBody f limit t).2.length = (matchBody f' limit t').2.length

theorem sameBlocks_of_bodies (bodies : ∀ body ∈ t.children, ∀ body', Alike f f' body body' →
      SameBodies f f' limit body body') : SameBlocks f f' limit t t' := by
  have body : ((t.child? .body).bind fun body => (matchBody f limit body).1).map MatchBody.unplaced =
        ((t'.child? .body).bind fun body => (matchBody f' limit body).1).map MatchBody.unplaced ∧
      ((t.child? .body).toList.flatMap fun body => (matchBody f limit body).2).length =
        ((t'.child? .body).toList.flatMap fun body => (matchBody f' limit body).2).length := by
    have found := alike.child? .body
    have below : ∀ body, t.child? .body = some body → body ∈ t.children := fun body =>
      ParseTree.mem_children_of_child?
    generalize t.child? .body = b at found below
    generalize t'.child? .body = b' at found
    cases found with
    | none => exact ⟨rfl, rfl⟩
    | some alikeBody =>
      obtain ⟨same, lost⟩ := bodies _ (below _ rfl) _ alikeBody
      exact ⟨same, by simpa using lost⟩
  have path : ((t.child? .path).map (matchPath f)).map MatchPath.unplaced =
      ((t'.child? .path).map (matchPath f')).map MatchPath.unplaced := by
    have found := alike.child? .path
    generalize t.child? .path = p at found
    generalize t'.child? .path = p' at found
    cases found with
    | none => rfl
    | some alikePath => exact congrArg some (matchPath_alike alikePath)
  refine ⟨?_, ?_⟩
  · rw [blockIn, blockIn, ← alike.matched.kind]
    split
    · simp only [Option.map_some, block, MatchBlock.unplaced, MatchBody.unplacedOption_eq, path, body.1]
    · rfl
  · rw [lostIn, lostIn, ← alike.matched.kind]
    split
    · exact body.2
    · exact (function?_alike limit alike ‹_›).2
    · rfl
    · rfl

theorem sameBodies_of_blocks (blocks : ∀ c ∈ t.children, ∀ c', Alike f f' c c' → SameBlocks f f' limit c c') :
    SameBodies f f' limit t t' := by
  have below : ∀ c ∈ t.significant, c ∈ t.children := fun c member => (List.mem_filter.mp member).1
  have functions := map_filterMap_alike alike.parts fun _ _ _ alike => functionIn_alike limit alike
  have rules := map_filterMap_alike alike.parts fun _ _ _ alike => ruleIn_alike limit alike
  have inner := map_filterMap_alike alike.parts fun c member _ alike => (blocks c (below c member) _ alike).1
  rw [filterMap_significant fun c isExtra => (bodyItem_of_isExtra limit isExtra).1,
    filterMap_significant fun c isExtra => (bodyItem_of_isExtra limit isExtra).1] at functions
  rw [filterMap_significant fun c isExtra => (bodyItem_of_isExtra limit isExtra).2.1,
    filterMap_significant fun c isExtra => (bodyItem_of_isExtra limit isExtra).2.1] at rules
  rw [filterMap_significant fun c isExtra => (bodyItem_of_isExtra limit isExtra).2.2.1,
    filterMap_significant fun c isExtra => (bodyItem_of_isExtra limit isExtra).2.2.1] at inner
  rw [SameBodies, matchBody_eq, matchBody_eq, ← isOpened_alike alike]
  split
  · refine ⟨?_, ?_⟩
    · simp only [Option.map_some, MatchBody.unplaced, MatchBlock.unplacedAll_eq, functions, rules, inner]
    · rw [length_lost, length_lost]
      have parts := alike.parts
      generalize t.significant = cs at parts below
      generalize t'.significant = cs' at parts
      induction parts with
      | nil => rfl
      | cons first _ ih =>
        rw [List.map_cons, List.map_cons, List.sum_cons, List.sum_cons,
          (blocks _ (below _ (List.mem_cons_self ..)) _ first).2,
          ih fun c member => below c (List.mem_cons_of_mem _ member)]
  · exact ⟨rfl, rfl⟩

/-- The body of a service or match is the same, places apart, and the same number of things has no place in it. -/
theorem sameBodies : SameBodies f f' limit t t' := by
  have both : SameBodies f f' limit t t' ∧ SameBlocks f f' limit t t' := by
    induction t using ParseTree.induct generalizing t' with
    | step t ih =>
      exact ⟨sameBodies_of_blocks limit alike fun c member _ alike => (ih c member alike).2,
        sameBlocks_of_bodies limit alike fun c member _ alike => (ih c member alike).1⟩
  exact both.1

end

/-! ## Documents -/

/-- The service of a document, or what stands where it should, among the children of the root. -/
theorem service_alike {root root' : ParseTree} (parts : List.Forall₂ (Alike f f') root.significant root'.significant) :
    (∃ t t', service root = .ok t ∧ service root' = .ok t' ∧ Alike f f' t t') ∨
      ∃ t t', service root = .error t ∧ service root' = .error t' := by
  rw [service, service]
  generalize root.significant = cs at parts
  generalize root'.significant = cs' at parts
  have check {t t' : ParseTree} (alike : Alike f f' t t') :
      (t'.kind == .serviceDef && !t'.isMissing) = (t.kind == .serviceDef && !t.isMissing) := by
    rw [alike.matched.kind, alike.matched.isMissing]
  cases parts with
  | nil => exact Or.inr ⟨root, root', rfl, rfl⟩
  | cons first rest =>
    dsimp only
    rw [check first, ← first.matched.kind]
    split
    · cases rest with
      | nil => exact Or.inr ⟨_, _, rfl, rfl⟩
      | cons second _ =>
        dsimp only
        rw [check second]
        split
        · exact Or.inl ⟨_, _, rfl, rfl, second⟩
        · exact Or.inr ⟨_, _, rfl, rfl⟩
    · split
      · exact Or.inl ⟨_, _, rfl, rfl, first⟩
      · exact Or.inr ⟨_, _, rfl, rfl⟩

/-- The typed document is the same, places apart, and the same number of things has no place in it. -/
theorem build_alike (limit : Nat) {root root' : ParseTree}
    (parts : List.Forall₂ (Alike f f') root.significant root'.significant) :
    (build f root limit).tree.unplaced = (build f' root' limit).tree.unplaced ∧
      (build f root limit).unmapped.length = (build f' root' limit).unmapped.length := by
  have errors : (root.significant.filter (·.isError)).length = (root'.significant.filter (·.isError)).length := by
    refine (List.rel_filter (fun c c' alike => ?_) parts).length_eq
    dsimp only
    rw [ParseTree.isError, ParseTree.isError, alike.matched.kind]
  rw [build, build]
  rcases service_alike parts with ⟨t, t', found, found', alike⟩ | ⟨t, t', found, found'⟩ <;> rw [found, found']
  · have part := alike.child? .body
    dsimp only
    generalize t.child? .body = b at part
    generalize t'.child? .body = b' at part
    cases part with
    | none => exact ⟨rfl, by simpa using errors⟩
    | some alikeBody =>
      obtain ⟨same, lost⟩ := sameBodies limit alikeBody
      dsimp only
      refine ⟨?_, by simp [lost, errors]⟩
      generalize (matchBody f limit _).1 = body at same
      generalize (matchBody f' limit _).1 = body' at same
      cases body <;> cases body' <;> simp_all [RulesTree.unplaced, MatchBody.unplaced]
  · exact ⟨rfl, rfl⟩

end SecurityRules.Build
