import SecurityRules.Proofs.Origin.Drawn

/-!
# The parts of expressions

One theorem for each shape of expression. What is there and is not hollow is not empty, so only the entries of a
map need a closer look.
-/

namespace SecurityRules.Build

open ParseTree (Regular Apart)

variable {f : SourceFile} {limit : Nat} {t : ParseTree}

theorem isPresent_iff : isPresent t = true ↔ t.isFlagged = false := by
  rw [isPresent, ParseTree.isFlagged]
  cases t.isMissing <;> cases t.isError <;> simp

theorem role_of_child? {role : Role} {c : ParseTree} (found : t.child? role = some c) :
    c ∈ t.children ∧ c.role = some role :=
  ⟨List.mem_of_find?_eq_some found, by simpa using List.find?_some found⟩

theorem presentChild?_eq_some {role : Role} {c : ParseTree} (found : presentChild? t role = some c) :
    t.child? role = some c ∧ isPresent c = true :=
  Option.filter_eq_some_iff.mp found

theorem bind_presentChild? {α : Type} (role : Role) (g : ParseTree → Option α) :
    (presentChild? t role).bind g = (t.child? role).bind fun a => if isPresent a then g a else none := by
  rw [presentChild?]
  cases t.child? role with
  | none => rfl
  | some a => cases present : isPresent a <;> simp [Option.filter, present]

theorem map_presentChild? {α : Type} (role : Role) (g : ParseTree → α) :
    (presentChild? t role).map g = (t.child? role).bind fun a => if isPresent a then some (g a) else none := by
  rw [Option.map_eq_bind, bind_presentChild?]
  rfl

/-- What is there and is not hollow is not empty. -/
theorem filled_of_isPresent (regular : Regular f t) (present : isPresent t = true)
    (solid : t.kind.isHollow = false) : t.isEmpty = false := by
  rw [Bool.eq_false_iff]
  intro isEmpty
  rcases regular.shaped.filled isEmpty with ⟨isFlagged, _⟩ | isHollow
  · rw [isPresent_iff.mp present] at isFlagged
    cases isFlagged
  · rw [solid] at isHollow
    cases isHollow

theorem filled_child (regular : Regular f t) {c : ParseTree} (child : c ∈ t.children)
    (present : isPresent c = true) (role : Role.mayBeHollow c.role = false) : c.isEmpty = false := by
  apply filled_of_isPresent (regular.of_child child) present
  rw [Bool.eq_false_iff]
  intro isHollow
  rw [regular.shaped.firm.role c child isHollow] at role
  cases role

theorem ofArity_eq_some {α : Type} {n : Nat} {value result : α} (found : ofArity t n value = some result) :
    result = value := by
  unfold ofArity at found
  split at found
  · exact (Option.some.inj found).symm
  · cases found

theorem call?_eq_some {nested : ParseTree → Option Expr} {text : Bytes} {nameSpan : Span} {args : List Expr}
    (found : call? f nested t = some (text, nameSpan, args)) :
    ∃ name, t.child? .name = some name ∧ nameSpan = name.span ∧ args = arguments nested t := by
  unfold call? at found
  split at found
  · obtain ⟨name, present, same⟩ := Option.map_eq_some_iff.mp found
    simp only [Prod.mk.injEq] at same
    exact ⟨name, (presentChild?_eq_some present).1, same.2.1.symm, same.2.2.symm⟩
  · cases found

/-! ## Nested expressions -/

/-- Hollow trees are no expressions. -/
theorem isHollow_of_exprOf {nested : ParseTree → Option Expr} {x : Expr} (found : exprOf f nested t = some x) :
    t.kind.isHollow = false := by
  rw [Bool.eq_false_iff]
  intro isHollow
  unfold NodeKind.isHollow at isHollow
  split at isHollow
  case h_5 => cases isHollow
  all_goals
    rename_i kind
    simp [exprOf, kind] at found

theorem filled_of_exprAt {budget : Nat} {x : Expr} (regular : Regular f t) (read : exprAt f budget t = some x) :
    t.isEmpty = false := by
  cases budget with
  | zero => cases read
  | succ budget =>
    rw [exprAt] at read
    split at read
    · rename_i present
      exact filled_of_isPresent regular present (isHollow_of_exprOf read)
    · cases read

theorem drawnFrom_expr {budget : Nat} {x : Expr} (regular : Regular f t) (read : exprAt f budget t = some x) :
    DrawnFrom f limit t (.expr x) :=
  ⟨t, t.self_mem_nodes, .expr read, filled_of_exprAt regular read⟩

/-- A child in a role in which no tree is hollow, as an element of its own. -/
theorem drawnFrom_child (regular : Regular f t) {a : ParseTree} {role : Role} (child : a ∈ t.children)
    (here : a.role = some role) (solid : Role.mayBeHollow (some role) = false) {value part : Element}
    (comes : (if isPresent a then some value else none) = some part) (made : Makes f limit a value) :
    DrawnFrom f limit a part := by
  split at comes
  · rename_i present
    rw [← Option.some.inj comes]
    exact ⟨a, a.self_mem_nodes, made, filled_child regular child present (by rw [here]; exact solid)⟩
  · cases comes

/-- Parts in different roles. -/
theorem sourced_roles (regular : Regular f t) {e : Element} (slots : List (Role × (ParseTree → Option Element)))
    (children : e.children = slots.filterMap fun slot => (t.child? slot.1).bind slot.2)
    (roles : (slots.map (·.1)).Nodup) (noCall : e.callPoint? = none)
    (each : ∀ slot ∈ slots, ∀ a ∈ t.children, a.role = some slot.1 → ∀ part, slot.2 a = some part →
      DrawnFrom f limit a part) : ∃ sources, Sourced f limit t e sources := by
  have drawn : Drawn f limit (slots.filterMap fun slot => t.child? slot.1) e.children := by
    rw [children]
    exact Drawn.slots regular roles each
  apply drawn.sourced (w := t) _ t.self_mem_nodes noCall
  intro a member
  obtain ⟨_, _, found⟩ := List.mem_filterMap.mp member
  exact (role_of_child? found).1

/-- Expressions in different roles. -/
theorem sourced_slots (regular : Regular f t) {e : Element} (slots : List (Role × (ParseTree → Option Expr)))
    (children : e.children = ((slots.map fun slot => (t.child? slot.1).bind slot.2).filterMap id).map .expr)
    (roles : (slots.map (·.1)).Nodup) (noCall : e.callPoint? = none)
    (each : ∀ slot ∈ slots, ∀ a ∈ t.children, a.role = some slot.1 → ∀ x, slot.2 a = some x →
      DrawnFrom f limit a (.expr x)) : ∃ sources, Sourced f limit t e sources := by
  apply sourced_roles regular (slots.map fun slot => (slot.1, fun a => (slot.2 a).map .expr)) _ _ noCall
  · intro slot member a child role part comes
    obtain ⟨plain, inside, rfl⟩ := List.mem_map.mp member
    obtain ⟨x, read, rfl⟩ := Option.map_eq_some_iff.mp comes
    exact each plain inside a child role x read
  · rw [children, List.filterMap_map, List.map_filterMap, List.filterMap_map]
    congr 1
    funext slot
    exact Option.map_bind
  · rw [List.map_map]
    exact roles

/-- The parts of an expression read from the children of a tree. -/
theorem sourced_exprIn (budget : Nat) (regular : Regular f t) {e : Element} (roles : List Role)
    (children : e.children = ((roles.map (exprIn (exprAt f budget) t)).filterMap id).map .expr)
    (differ : roles.Nodup) (noCall : e.callPoint? = none) : ∃ sources, Sourced f limit t e sources := by
  apply sourced_slots regular (roles.map fun role => (role, exprAt f budget))
  · rw [children, List.map_map]
    rfl
  · rw [List.map_map]
    exact (List.map_id roles).symm ▸ differ
  · exact noCall
  · intro slot member a child _ x read
    obtain ⟨role, _, rfl⟩ := List.mem_map.mp member
    exact drawnFrom_expr (regular.of_child child) read

section

variable {budget : Nat} (regular : Regular f t)
include regular

theorem sourced_typeComparison (op : BinaryOperator) :
    ∃ sources, Sourced f limit t (.expr (.binary t.span op (exprIn (exprAt f budget) t .left)
      ((presentChild? t .right).map fun right => .reference right.span (right.text f)))) sources := by
  apply sourced_slots regular [(.left, exprAt f budget),
    (.right, fun a => if isPresent a then some (.reference a.span (a.text f)) else none)]
  · rw [map_presentChild?]
    rfl
  · simp
  · rfl
  · intro slot member a child role x read
    simp only [List.mem_cons, List.not_mem_nil, or_false] at member
    rcases member with rfl | rfl
    · exact drawnFrom_expr (regular.of_child child) read
    · dsimp only at read
      split at read
      · rename_i present
        rw [← Option.some.inj read]
        exact ⟨a, a.self_mem_nodes, .typeName a, filled_child regular child present (by rw [role]; rfl)⟩
      · cases read

/-! ## Calls -/

/-- The arguments of a call are made of trees in the child that holds them. -/
theorem exists_argumentSources : ∃ sources : List ParseTree,
    List.Forall₂ (Makes f limit) sources ((arguments (exprAt f budget) t).map .expr) ∧
      (∀ u ∈ sources, ∃ args ∈ t.children, args.role = some .arguments ∧ u ∈ args.nodes) ∧
      sources.Pairwise Apart := by
  unfold arguments
  split
  · rename_i args found
    obtain ⟨child, role⟩ := role_of_child? found
    have regularArgs := regular.of_child child
    have children : (args.namedChildren.filter (!·.isExtra)).Sublist args.children :=
      List.filter_sublist.trans List.filter_sublist
    have drawn : Drawn f limit (args.namedChildren.filter (!·.isExtra))
        (((args.namedChildren.filter (!·.isExtra)).filterMap (exprAt f budget)).map .expr) := by
      rw [List.map_filterMap]
      apply Drawn.filterMap regularArgs children
      intro a member part comes
      obtain ⟨x, read, rfl⟩ := Option.map_eq_some_iff.mp comes
      exact drawnFrom_expr (regularArgs.of_child (children.subset member)) read
    obtain ⟨sources, made, from_, apart⟩ := drawn
    refine ⟨sources, made, fun u member => ?_, apart⟩
    obtain ⟨_, a, inner, node⟩ := from_ u member
    exact ⟨args, child, role, ParseTree.mem_nodes.mpr (Or.inr ⟨a, children.subset inner, node⟩)⟩
  · exact ⟨[], .nil, by simp, .nil⟩

theorem sourced_fieldCall {text : Bytes} {nameSpan : Span} {args : List Expr}
    (read : call? f (exprAt f budget) t = some (text, nameSpan, args)) :
    ∃ sources, Sourced f limit t (.expr (.memberFunction t.span text nameSpan args)) sources := by
  obtain ⟨_, _, _, rfl⟩ := call?_eq_some read
  obtain ⟨sources, made, from_, apart⟩ := exists_argumentSources (f := f) regular
  refine ⟨sources, made, fun u member => ?_, apart, not_called rfl⟩
  obtain ⟨args, child, _, node⟩ := from_ u member
  exact ParseTree.nodes_trans node (ParseTree.mem_nodes_of_mem_children child)

/-- The name of a call comes first, so its arguments start behind it. -/
theorem sourced_call {text : Bytes} {nameSpan : Span} {args : List Expr} (kind : t.kind = .functionCall)
    (read : call? f (exprAt f budget) t = some (text, nameSpan, args)) :
    ∃ sources, Sourced f limit t (.expr (.call t.span text nameSpan args)) sources := by
  obtain ⟨first, rest, children, role, _, _, _, filled⟩ := regular.shaped.named kind
  have child : first ∈ t.children := by
    rw [children]
    exact List.mem_cons_self ..
  obtain ⟨name, named, rfl, rfl⟩ := call?_eq_some read
  rw [ParseTree.child?, children, List.find?_cons_of_pos (by rw [role]; rfl)] at named
  obtain rfl := Option.some.inj named
  have start : t.start = first.start := by
    rw [ParseTree.start, regular.sound.whole (List.ne_nil_of_mem child), children, ParseTree.extentOf_start]
  have forward := (regular.of_child child).filled_of_mem first.self_mem_nodes filled
  obtain ⟨sources, made, from_, apart⟩ := exists_argumentSources (f := f) regular
  refine ⟨sources, made, fun u member => ?_, apart, fun p same => ⟨?_, kind, fun u member => ?_⟩⟩
  · obtain ⟨args, childArgs, _, node⟩ := from_ u member
    exact ParseTree.nodes_trans node (ParseTree.mem_nodes_of_mem_children childArgs)
  · obtain ⟨_, span, _⟩ := (regular.of_child child).exists_last
    rw [← Option.some.inj same, span, start]
  · obtain ⟨args, childArgs, roleArgs, node⟩ := from_ u member
    have later : args ∈ rest := by
      rw [children] at childArgs
      rcases List.mem_cons.mp childArgs with rfl | later
      · rw [role] at roleArgs
        cases roleArgs
      · exact later
    have ordered := regular.sound.ordered
    rw [children, List.pairwise_cons] at ordered
    have after := ordered.1 args later
    have within := (regular.of_child childArgs).inside node
    omega

/-! ## Members and indices -/

theorem sourced_member :
    ∃ sources, Sourced f limit t (.expr (.member t.span (memberObject (exprAt f budget) t)
      (memberField f (exprAt f budget) t))) sources := by
  apply sourced_slots regular
    [(.object, fun a => if isPresent a then some (.memberObject a.span (exprAt f budget a)) else none),
      (.field, fun a => if isPresent a then fieldOf f (exprAt f budget) a else none)]
  · rw [memberObject, map_presentChild?, memberField_eq, bind_presentChild?]
    rfl
  · simp
  · rfl
  · intro slot member a child role x read
    simp only [List.mem_cons, List.not_mem_nil, or_false] at member
    rcases member with rfl | rfl
    all_goals
      dsimp only at read
      split at read
      case isFalse => cases read
      rename_i present
      have solid := filled_child regular child present (by rw [role]; rfl)
    · rw [← Option.some.inj read]
      exact ⟨a, a.self_mem_nodes, .receiver budget a, solid⟩
    · exact ⟨a, a.self_mem_nodes, .field read, solid⟩

theorem drawnFrom_place {x : Expr} (read : placeOf (exprAt f budget) t = some x) :
    DrawnFrom f limit t (.expr x) := by
  refine ⟨t, t.self_mem_nodes, .place read, ?_⟩
  unfold placeOf at read
  split at read
  · rename_i range
    obtain ⟨present, kind⟩ := Bool.and_eq_true_iff.mp range
    apply filled_of_isPresent regular present
    rw [beq_iff_eq.mp kind]
    rfl
  · exact filled_of_exprAt regular read

theorem sourced_index :
    ∃ sources, Sourced f limit t (.expr (.index t.span (exprIn (exprAt f budget) t .object)
      (indexPlace (exprAt f budget) t))) sources := by
  apply sourced_slots regular [(.object, exprAt f budget), (.index, placeOf (exprAt f budget))]
  · rfl
  · simp
  · rfl
  · intro slot member a child _ x read
    simp only [List.mem_cons, List.not_mem_nil, or_false] at member
    rcases member with rfl | rfl
    · exact drawnFrom_expr (regular.of_child child) read
    · exact drawnFrom_place (regular.of_child child) read

/-! ## Lists, maps and paths -/

theorem sourced_list :
    ∃ sources, Sourced f limit t (.expr (.list t.span ((t.childrenIn .element).filterMap (exprAt f budget))))
      sources := by
  have drawn : Drawn f limit (t.childrenIn .element)
      (((t.childrenIn .element).filterMap (exprAt f budget)).map .expr) := by
    rw [List.map_filterMap]
    apply Drawn.filterMap regular List.filter_sublist
    intro a member part comes
    obtain ⟨x, read, rfl⟩ := Option.map_eq_some_iff.mp comes
    exact drawnFrom_expr (regular.of_child (List.mem_filter.mp member).1) read
  exact Drawn.sourced (e := .expr (.list t.span _)) drawn List.filter_sublist.subset t.self_mem_nodes rfl

/-- Entries may be empty, but no two of them start at the same place. -/
theorem sourced_map (kind : t.kind = .map) :
    ∃ sources, Sourced f limit t (.expr (.map t.span (mapEntries (exprAt f budget) t))) sources := by
  have parts : ((mapEntries (exprAt f budget) t).map .expr : List Element) =
      (t.childrenIn .entry).filterMap fun a => (entryOf (exprAt f budget) a).map .expr := by
    rw [mapEntries_eq]
    exact List.map_filterMap
  refine Sourced.filterMap regular List.filter_sublist (regular.shaped.entries kind) ?_ parts rfl
  intro a _ part comes
  obtain ⟨x, read, rfl⟩ := Option.map_eq_some_iff.mp comes
  exact .entry read

theorem drawnFrom_segment {x : Expr} (present : isPresent t = true)
    (read : segmentOf f (exprAt f budget) t = some x) : DrawnFrom f limit t (.expr x) := by
  unfold segmentOf at read
  split at read
  · rename_i kind
    rw [← Option.some.inj read]
    refine ⟨t, t.self_mem_nodes, .segment t, filled_of_isPresent regular present ?_⟩
    rw [kind]
    rfl
  · obtain ⟨a, found, nested⟩ := Option.bind_eq_some_iff.mp read
    have child := (role_of_child? found).1
    exact ⟨a, ParseTree.mem_nodes_of_mem_children child, .expr nested,
      filled_of_exprAt (regular.of_child child) nested⟩
  · cases read

theorem sourced_path :
    ∃ sources, Sourced f limit t (.expr (.path t.span (pathSegments f (exprAt f budget) t))) sources := by
  have children : ((t.childrenIn .segment).filter isPresent).Sublist t.children :=
    List.filter_sublist.trans List.filter_sublist
  have drawn : Drawn f limit ((t.childrenIn .segment).filter isPresent)
      ((pathSegments f (exprAt f budget) t).map .expr) := by
    rw [pathSegments_eq, List.map_filterMap]
    apply Drawn.filterMap regular children
    intro a member part comes
    obtain ⟨x, read, rfl⟩ := Option.map_eq_some_iff.mp comes
    exact drawnFrom_segment (regular.of_child (children.subset member)) (List.mem_filter.mp member).2 read
  exact Drawn.sourced (e := .expr (.path t.span _)) drawn children.subset t.self_mem_nodes rfl

/-! ## All expressions -/

theorem sourced_expr {x : Expr} (read : exprAt f budget t = some x) :
    ∃ sources, Sourced f limit t (.expr x) sources := by
  cases budget with
  | zero => cases read
  | succ budget =>
    rw [exprAt] at read
    split at read
    case isFalse => cases read
    unfold exprOf at read
    split at read
    case h_1 =>
      obtain rfl := ofArity_eq_some read
      exact sourced_exprIn budget regular [.condition, .consequence, .alternative] rfl (by simp) rfl
    case h_2 | h_3 | h_4 | h_5 | h_6 | h_7 =>
      obtain rfl := ofArity_eq_some read
      exact sourced_exprIn budget regular [.left, .right] rfl (by simp) rfl
    case h_8 =>
      obtain rfl := ofArity_eq_some read
      exact sourced_typeComparison regular _
    case h_9 =>
      obtain rfl := ofArity_eq_some read
      exact sourced_exprIn budget regular [.operand] rfl (by simp) rfl
    case h_10 =>
      obtain rfl := ofArity_eq_some read
      exact sourced_member regular
    case h_11 =>
      obtain rfl := ofArity_eq_some read
      exact sourced_index regular
    case h_12 =>
      obtain rfl := ofArity_eq_some read
      exact sourced_exprIn budget regular [.expression] rfl (by simp) rfl
    case h_13 kind =>
      obtain ⟨⟨text, nameSpan, args⟩, called, rfl⟩ := Option.map_eq_some_iff.mp read
      exact sourced_call regular kind called
    case h_14 =>
      obtain rfl := Option.some.inj read
      exact sourced_list regular
    case h_15 kind =>
      obtain rfl := Option.some.inj read
      exact sourced_map regular kind
    case h_16 =>
      obtain rfl := Option.some.inj read
      exact sourced_path regular
    case h_17 | h_18 | h_19 | h_20 | h_21 =>
      obtain rfl := Option.some.inj read
      exact Sourced.bare rfl rfl
    case h_22 => cases read

omit regular in
theorem sourced_receiver :
    ∃ sources, Sourced f limit t (.expr (.memberObject t.span (exprAt f budget t))) sources := by
  apply Sourced.single (o := (exprAt f budget t).map .expr) _ _ t.self_mem_nodes rfl
  · cases exprAt f budget t <;> rfl
  · intro part comes
    obtain ⟨x, read, rfl⟩ := Option.map_eq_some_iff.mp comes
    exact .expr read

omit regular in
theorem sourced_field {x : Expr} (read : fieldOf f (exprAt f budget) t = some x) :
    ∃ sources, Sourced f limit t (.expr x) sources := by
  unfold fieldOf at read
  split at read
  · rw [← Option.some.inj read]
    apply Sourced.single (o := some (.expr (.memberVariable t.span (t.text f)))) rfl _ t.self_mem_nodes rfl
    intro part comes
    rw [← Option.some.inj comes]
    exact .fieldName t
  · obtain ⟨⟨text, nameSpan, args⟩, called, rfl⟩ := Option.map_eq_some_iff.mp read
    apply Sourced.single (o := some (.expr (.memberFunction t.span text nameSpan args))) rfl _ t.self_mem_nodes rfl
    intro part comes
    rw [← Option.some.inj comes]
    exact .fieldCall called
  · cases read

theorem sourced_place {x : Expr} (read : placeOf (exprAt f budget) t = some x) :
    ∃ sources, Sourced f limit t (.expr x) sources := by
  unfold placeOf at read
  split at read
  · rw [← Option.some.inj read]
    exact sourced_exprIn budget regular [.start, .stop] rfl (by simp) rfl
  · exact sourced_expr regular read

theorem sourced_entry {x : Expr} (read : entryOf (exprAt f budget) t = some x) :
    ∃ sources, Sourced f limit t (.expr x) sources := by
  obtain rfl := ofArity_eq_some read
  exact sourced_exprIn budget regular [.key, .value] rfl (by simp) rfl

end

end SecurityRules.Build
