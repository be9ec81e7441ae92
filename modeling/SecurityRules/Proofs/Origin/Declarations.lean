import SecurityRules.Proofs.Origin.Expressions

/-!
# The parts of declarations

One theorem for each sort of declaration, and from them the step lemma: whatever is made of a tree has parts that are
made of trees inside it, which lie apart from each other.
-/

namespace SecurityRules.Build

open ParseTree (Regular Apart)

variable {f : SourceFile} {limit : Nat} {t : ParseTree}

/-- A statement is never empty. -/
theorem filled_of_isStatement (regular : Regular f t) (isStatement : t.kind.isStatement = true) :
    t.isEmpty = false := by
  rw [Bool.eq_false_iff]
  intro isEmpty
  rcases regular.shaped.filled isEmpty with ⟨_, other⟩ | isHollow
  · rw [isStatement] at other
    cases other
  · unfold NodeKind.isStatement at isStatement
    split at isStatement
    case h_5 => cases isStatement
    all_goals
      rename_i kind
      rw [kind] at isHollow
      cases isHollow

/-- Children of different kinds. -/
theorem ne_of_kind {a b : ParseTree} {k k' : NodeKind} (memberA : a ∈ t.children.filter (·.kind == k))
    (memberB : b ∈ t.children.filter (·.kind == k')) (differ : k ≠ k') : a ≠ b := by
  rintro rfl
  have kind := beq_iff_eq.mp (List.mem_filter.mp memberA).2
  have kind' := beq_iff_eq.mp (List.mem_filter.mp memberB).2
  exact differ (kind.symm.trans kind')

/-- Children in different roles. -/
theorem ne_of_role {a b : ParseTree} {r r' : Role} (memberA : a ∈ t.childrenIn r)
    (memberB : t.child? r' = some b) (differ : r ≠ r') : a ≠ b := by
  rintro rfl
  have role := beq_iff_eq.mp (List.mem_filter.mp memberA).2
  exact differ (Option.some.inj (role.symm.trans (role_of_child? memberB).2))

/-- At most one part from the first child in a role. -/
theorem drawn_child? {role : Role} {g : ParseTree → Option Element}
    (each : ∀ a ∈ t.children, a.role = some role → ∀ part, g a = some part → DrawnFrom f limit a part) :
    Drawn f limit (t.child? role).toList ((t.child? role).bind g).toList := by
  cases found : t.child? role with
  | none => exact Drawn.nil
  | some a =>
    cases read : g a with
    | none =>
      simp only [Option.bind_some, read]
      exact Drawn.nil
    | some part =>
      simp only [Option.bind_some, read]
      obtain ⟨child, here⟩ := role_of_child? found
      exact Drawn.one (each a child here part read)

theorem child?_subset (role : Role) : (t.child? role).toList ⊆ t.children := by
  intro a member
  exact (role_of_child? (Option.mem_toList.mp member)).1

section

variable (regular : Regular f t)
include regular

theorem sourced_let {d : LetDefinition} (read : letDefinition? f limit t = some d) :
    ∃ sources, Sourced f limit t (.letDefinition d) sources := by
  obtain ⟨name, found, rfl⟩ := Option.map_eq_some_iff.mp read
  obtain ⟨named, present⟩ := presentChild?_eq_some found
  apply sourced_roles regular
    [(.name, fun a => if isPresent a then some (.declaredName ⟨a.span, a.text f⟩) else none),
      (.value, fun a => (exprAt f limit a).map .expr)]
  · show _ :: ((statementExpr f limit t .value).map Element.expr).toList = _
    have value : (statementExpr f limit t .value).map Element.expr =
        (t.child? .value).bind fun a => (exprAt f limit a).map .expr := Option.map_bind
    rw [value]
    simp only [List.filterMap_cons, List.filterMap_nil, named, Option.bind_some, present, ↓reduceIte]
    cases (t.child? .value).bind _ <;> rfl
  · simp
  · rfl
  · intro slot member a child role part comes
    simp only [List.mem_cons, List.not_mem_nil, or_false] at member
    rcases member with rfl | rfl
    · exact drawnFrom_child regular child role rfl comes (.declaredName a)
    · obtain ⟨x, read, rfl⟩ := Option.map_eq_some_iff.mp comes
      exact drawnFrom_expr (regular.of_child child) read

theorem sourced_functionBody {b : FunctionBody} (read : (functionBody f limit t).1 = some b) :
    ∃ sources, Sourced f limit t (.functionBody b) sources := by
  unfold functionBody at read
  split at read
  case isFalse => cases read
  obtain rfl := Option.some.inj read
  have definitions : Drawn f limit (t.children.filter (·.kind == .variableDef))
      (((t.children.filter (·.kind == .variableDef)).filterMap (letDefinition? f limit)).map .letDefinition) := by
    rw [List.map_filterMap]
    apply Drawn.filterMap regular List.filter_sublist
    intro a member part comes
    obtain ⟨d, read, rfl⟩ := Option.map_eq_some_iff.mp comes
    obtain ⟨child, kind⟩ := List.mem_filter.mp member
    exact ⟨a, a.self_mem_nodes, .letDefinition read, filled_of_isStatement (regular.of_child child)
      (by rw [beq_iff_eq.mp kind]; rfl)⟩
  have result : Drawn f limit (t.children.filter (·.kind == .returnStatement))
      ((((t.children.filter (·.kind == .returnStatement)).getLast?).bind
        (statementExpr f limit · .value)).map .expr).toList := by
    cases last : (t.children.filter (·.kind == .returnStatement)).getLast? with
    | none => exact Drawn.nil
    | some a =>
      have member := List.mem_of_getLast? last
      have regularA := regular.of_child (List.mem_filter.mp member).1
      simp only [Option.bind_some]
      cases read : statementExpr f limit a .value with
      | none => exact Drawn.nil
      | some x =>
        obtain ⟨u, found, nested⟩ := Option.bind_eq_some_iff.mp read
        have child := (role_of_child? found).1
        refine Drawn.mono (Drawn.one ?_) (by simpa using List.mem_filter.mp member)
        exact ⟨u, ParseTree.mem_nodes_of_mem_children child, .expr nested,
          filled_of_exprAt (regularA.of_child child) nested⟩
  have drawn := definitions.append regular List.filter_sublist.subset List.filter_sublist.subset
    (fun a memberA b memberB => ne_of_kind memberA memberB NodeKind.noConfusion) result
  exact Drawn.sourced (e := .functionBody ⟨t.span, _, _⟩) drawn
    (List.append_subset.mpr ⟨List.filter_sublist.subset, List.filter_sublist.subset⟩) t.self_mem_nodes rfl

omit regular in
/-- The definition of a function in a tree, with its body taken apart. -/
theorem function?_eq_some {x : FunctionDecl} (read : (function? f limit t).1 = some x) :
    ∃ name, presentChild? t .name = some name ∧
      x = ⟨t.span, name.text f, name.span, (t.childrenIn .param).filterMap (parameter? f),
        (t.child? .body).bind fun body => (functionBody f limit body).1⟩ := by
  unfold function? at read
  split at read
  case h_2 => cases read
  rename_i name found
  refine ⟨name, found, ?_⟩
  cases body : t.child? .body with
  | none =>
    simp only [body] at read
    exact (Option.some.inj read).symm
  | some b =>
    simp only [body] at read
    exact (Option.some.inj read).symm

/-- A parameter is not empty, for only its name is taken. -/
theorem drawnFrom_parameter {d : DeclaredName} (read : parameter? f t = some d) :
    DrawnFrom f limit t (.declaredName d) := by
  obtain ⟨name, head, rfl⟩ := Option.map_eq_some_iff.mp read
  obtain ⟨head, present⟩ := Option.filter_eq_some_iff.mp head
  have child := List.mem_of_mem_head? head
  exact ⟨name, ParseTree.mem_nodes_of_mem_children child, .declaredName name,
    filled_of_isPresent (regular.of_child child) present (regular.shaped.firm.first name head)⟩

/-- The body of a function comes behind the parameters, so it may be empty. -/
theorem sourced_function {x : FunctionDecl} (read : (function? f limit t).1 = some x) :
    ∃ sources, Sourced f limit t (.function x) sources := by
  obtain ⟨name, _, rfl⟩ := function?_eq_some read
  have params : Drawn f limit (t.childrenIn .param)
      (((t.childrenIn .param).filterMap (parameter? f)).map .declaredName) := by
    rw [List.map_filterMap]
    apply Drawn.filterMap regular List.filter_sublist
    intro a member part comes
    obtain ⟨d, read, rfl⟩ := Option.map_eq_some_iff.mp comes
    exact drawnFrom_parameter (regular.of_child (List.mem_filter.mp member).1) read
  cases body : (t.child? .body).bind fun body => (functionBody f limit body).1 with
  | none =>
    rw [← List.append_nil (List.map _ _)] at params
    exact Drawn.sourced (e := .function ⟨t.span, _, _, _, none⟩) params List.filter_sublist.subset t.self_mem_nodes rfl
  | some b =>
    obtain ⟨a, found, read⟩ := Option.bind_eq_some_iff.mp body
    exact params.sourced_concat regular List.filter_sublist.subset (role_of_child? found).1
      (fun c member => ne_of_role member found (by decide)) (.functionBody read) (by rfl) rfl

theorem sourced_rule : ∃ sources, Sourced f limit t (.rule (rule f limit t)) sources := by
  have methods : Drawn f limit ((t.childrenIn .method).filter isPresent)
      ((((t.childrenIn .method).filter isPresent).map fun m => (⟨m.span, m.text f⟩ : Method)).map .method) := by
    rw [List.map_map, ← List.filterMap_eq_map]
    apply Drawn.filterMap regular (List.filter_sublist.trans List.filter_sublist)
    intro a member part comes
    obtain ⟨inRole, present⟩ := List.mem_filter.mp member
    obtain ⟨child, role⟩ := List.mem_filter.mp inRole
    rw [← Option.some.inj comes]
    exact ⟨a, a.self_mem_nodes, .method a, filled_child regular child present (by rw [beq_iff_eq.mp role]; rfl)⟩
  have condition : Drawn f limit (t.child? .condition).toList
      ((statementExpr f limit t .condition).map Element.expr).toList := by
    rw [statementExpr, exprIn, Option.map_bind]
    apply drawn_child?
    intro a child _ part comes
    obtain ⟨x, read, rfl⟩ := Option.map_eq_some_iff.mp comes
    exact drawnFrom_expr (regular.of_child child) read
  have children : (t.childrenIn .method).filter isPresent ⊆ t.children :=
    (List.filter_sublist.trans List.filter_sublist).subset
  have drawn := methods.append regular children (child?_subset .condition) (fun a memberA b memberB =>
    ne_of_role (List.mem_filter.mp memberA).1 (Option.mem_toList.mp memberB) (by decide)) condition
  exact Drawn.sourced (e := .rule (rule f limit t)) drawn
    (List.append_subset.mpr ⟨children, child?_subset .condition⟩) t.self_mem_nodes rfl

/-! ## Matches -/

theorem sourced_matchPath : ∃ sources, Sourced f limit t (.matchPath (matchPath f t)) sources := by
  have children : ((t.childrenIn .segment).filter isPresent).Sublist t.children :=
    List.filter_sublist.trans List.filter_sublist
  have drawn : Drawn f limit ((t.childrenIn .segment).filter isPresent)
      ((((t.childrenIn .segment).filter isPresent).filterMap (pathPart? f)).map .pathPart) := by
    rw [List.map_filterMap]
    apply Drawn.filterMap regular children
    intro a member part comes
    obtain ⟨p, read, rfl⟩ := Option.map_eq_some_iff.mp comes
    refine ⟨a, a.self_mem_nodes, .pathPart read,
      filled_of_isPresent (regular.of_child (children.subset member)) (List.mem_filter.mp member).2 ?_⟩
    unfold pathPart? at read
    split at read
    case h_4 => cases read
    all_goals
      rename_i kind
      rw [kind]
      rfl
  exact Drawn.sourced (e := .matchPath (matchPath f t)) drawn children.subset t.self_mem_nodes rfl

/-- A match with an empty path has no body, so its body may be empty but its path then is not. -/
theorem sourced_block (kind : t.kind = .matchDef) :
    ∃ sources, Sourced f limit t (.matchBlock (block f limit t)) sources := by
  have whole : (Element.matchBlock (block f limit t)).children =
      (((t.child? .path).map (matchPath f)).map Element.matchPath).toList ++
        (((t.child? .body).bind fun body => (matchBody f limit body).1).map Element.matchBody).toList := rfl
  cases body : (t.child? .body).bind fun body => (matchBody f limit body).1 with
  | none =>
    rw [body] at whole
    cases path : t.child? .path with
    | none =>
      rw [path] at whole
      exact Sourced.bare whole rfl
    | some a =>
      rw [path] at whole
      apply Sourced.single (o := some (.matchPath (matchPath f a))) whole _
        (ParseTree.mem_nodes_of_mem_children (role_of_child? path).1) rfl
      intro part comes
      rw [← Option.some.inj comes]
      exact .matchPath a
  | some b =>
    rw [body] at whole
    obtain ⟨c, foundC, read⟩ := Option.bind_eq_some_iff.mp body
    have child := (role_of_child? foundC).1
    cases path : t.child? .path with
    | none =>
      rw [path] at whole
      apply Sourced.single (o := some (.matchBody b)) whole _ (ParseTree.mem_nodes_of_mem_children child) rfl
      intro part comes
      rw [← Option.some.inj comes]
      exact .matchBody read
    | some a =>
      rw [path] at whole
      have filled : a.isEmpty = false := by
        rw [Bool.eq_false_iff]
        intro isEmpty
        rw [matchBody_eq, regular.shaped.pathless kind a path isEmpty c foundC] at read
        cases read
      have drawn : Drawn f limit [a] [.matchPath (matchPath f a)] :=
        .one ⟨a, a.self_mem_nodes, .matchPath a, filled⟩
      obtain ⟨childA, roleA⟩ := role_of_child? path
      refine drawn.sourced_concat regular (by simpa using childA) child ?_ (.matchBody read) whole rfl
      rintro d member rfl
      have roleD := (role_of_child? foundC).2
      rw [List.mem_singleton.mp member, roleA] at roleD
      cases roleD

/-- The items of one kind in a body. -/
theorem drawn_items {kind : NodeKind} {partOf : ParseTree → Option Element} (isStatement : kind.isStatement = true)
    (only : ∀ a part, partOf a = some part → a.kind = kind ∧ Makes f limit a part) :
    Drawn f limit (t.children.filter (·.kind == kind)) (t.children.filterMap partOf) := by
  have same : t.children.filterMap partOf = (t.children.filter (·.kind == kind)).filterMap partOf := by
    rw [List.filterMap_filter]
    apply List.filterMap_congr
    intro a _
    split
    · rfl
    · rename_i other
      rw [beq_iff_eq] at other
      rw [Option.eq_none_iff_forall_ne_some]
      intro part comes
      exact other (only a part comes).1
  rw [same]
  apply Drawn.filterMap regular List.filter_sublist
  intro a member part comes
  obtain ⟨isKind, made⟩ := only a part comes
  refine ⟨a, a.self_mem_nodes, made, filled_of_isStatement (regular.of_child (List.mem_filter.mp member).1) ?_⟩
  rw [isKind]
  exact isStatement

/-- The items of a body stand in three rows. -/
theorem sourced_matchBody {b : MatchBody} (read : (matchBody f limit t).1 = some b) :
    ∃ sources, Sourced f limit t (.matchBody b) sources := by
  rw [matchBody_eq] at read
  split at read
  case isFalse => cases read
  obtain rfl := Option.some.inj read
  have functions : Drawn f limit (t.children.filter (·.kind == .functionDef))
      ((t.children.filterMap (functionIn f limit)).map .function) := by
    rw [List.map_filterMap]
    apply drawn_items regular rfl
    intro a part comes
    obtain ⟨x, found, rfl⟩ := Option.map_eq_some_iff.mp comes
    unfold functionIn at found
    split at found
    · rename_i kind
      exact ⟨kind, .function found⟩
    · cases found
  have rules : Drawn f limit (t.children.filter (·.kind == .ruleDef))
      ((t.children.filterMap (ruleIn f limit)).map .rule) := by
    rw [List.map_filterMap]
    apply drawn_items regular rfl
    intro a part comes
    obtain ⟨x, found, rfl⟩ := Option.map_eq_some_iff.mp comes
    unfold ruleIn at found
    split at found
    · rename_i kind
      rw [← Option.some.inj found]
      exact ⟨kind, .rule a⟩
    · cases found
  have blocks : Drawn f limit (t.children.filter (·.kind == .matchDef))
      ((t.children.filterMap (blockIn f limit)).map .matchBlock) := by
    rw [List.map_filterMap]
    apply drawn_items regular rfl
    intro a part comes
    obtain ⟨x, found, rfl⟩ := Option.map_eq_some_iff.mp comes
    unfold blockIn at found
    split at found
    · rename_i kind
      rw [← Option.some.inj found]
      exact ⟨kind, .block kind⟩
    · cases found
  have subset (kind : NodeKind) : t.children.filter (·.kind == kind) ⊆ t.children := List.filter_sublist.subset
  have two := functions.append regular (subset _) (subset _)
    (fun a memberA b memberB => ne_of_kind memberA memberB NodeKind.noConfusion) rules
  have three := two.append regular (List.append_subset.mpr ⟨subset _, subset _⟩) (subset _) (fun a memberA b memberB => by
    rcases List.mem_append.mp memberA with memberA | memberA
    · exact ne_of_kind memberA memberB NodeKind.noConfusion
    · exact ne_of_kind memberA memberB NodeKind.noConfusion) blocks
  exact Drawn.sourced (e := .matchBody (.mk t.span _ _ _)) three
    (List.append_subset.mpr ⟨List.append_subset.mpr ⟨subset _, subset _⟩, subset _⟩) t.self_mem_nodes rfl

omit regular in
theorem service_eq_ok {s : ParseTree} (found : service t = .ok s) :
    s ∈ t.significant ∧ s.kind = .serviceDef ∧ s.isMissing = false := by
  have check : ∀ {u : ParseTree}, (if u.kind == .serviceDef && !u.isMissing then Except.ok u else .error u) =
      (.ok s : Except ParseTree ParseTree) → u = s ∧ s.kind = .serviceDef ∧ s.isMissing = false := by
    intro u found
    split at found
    · rename_i isService
      obtain rfl := Except.ok.inj found
      simpa using isService
    · cases found
  unfold service at found
  dsimp only at found
  split at found
  · cases found
  · rename_i first rest members
    rw [members]
    split at found
    · split at found
      · cases found
      · obtain ⟨rfl, isService⟩ := check found
        exact ⟨by simp, isService⟩
    · obtain ⟨rfl, isService⟩ := check found
      exact ⟨by simp, isService⟩

omit regular in
/-- The body of a document is made of a tree below it, or holds nothing. -/
theorem exists_body (f : SourceFile) (limit : Nat) (root : ParseTree) :
    ∃ u, Makes f limit u (.matchBody (build f root limit).tree.body) ∧
      ((∃ c ∈ root.children, u ∈ c.nodes) ∨
        u = root ∧ (build f root limit).tree.body = .mk root.span [] [] []) := by
  unfold build
  split
  · exact ⟨root, .noBody root, Or.inr ⟨rfl, rfl⟩⟩
  · rename_i s found
    have child := (List.mem_filter.mp (service_eq_ok found).1).1
    dsimp only
    split
    · rename_i body inRole
      cases read : (matchBody f limit body).1 with
      | none => exact ⟨s, .noBody s, Or.inl ⟨s, child, s.self_mem_nodes⟩⟩
      | some b =>
        exact ⟨body, .matchBody read,
          Or.inl ⟨s, child, ParseTree.mem_nodes_of_mem_children (role_of_child? inRole).1⟩⟩
    · exact ⟨s, .noBody s, Or.inl ⟨s, child, s.self_mem_nodes⟩⟩

omit regular in
theorem sourced_document {u : ParseTree} (made : Makes f limit u (.matchBody (build f t limit).tree.body))
    (inside : u ∈ t.nodes) : Sourced f limit t (.tree (build f t limit).tree) [u] where
  made := .cons made .nil
  inside := by
    intro v member
    rw [List.mem_singleton.mp member]
    exact inside
  apart := List.pairwise_singleton _ _
  called := not_called rfl

/-! ## Whatever is made -/

/-- The parts of what is made of a tree are made of trees inside it that lie apart. -/
theorem Makes.sourced {e : Element} (made : Makes f limit t e) : ∃ sources, Sourced f limit t e sources := by
  cases made with
  | expr read => exact sourced_expr regular read
  | receiver budget => exact sourced_receiver
  | field read => exact sourced_field read
  | fieldName => exact Sourced.bare rfl rfl
  | fieldCall read => exact sourced_fieldCall regular read
  | place read => exact sourced_place regular read
  | entry read => exact sourced_entry regular read
  | segment => exact Sourced.bare rfl rfl
  | typeName => exact Sourced.bare rfl rfl
  | declaredName => exact Sourced.bare rfl rfl
  | method => exact Sourced.bare rfl rfl
  | pathPart => exact Sourced.bare rfl rfl
  | matchPath => exact sourced_matchPath regular
  | letDefinition read => exact sourced_let regular read
  | functionBody read => exact sourced_functionBody regular read
  | function read => exact sourced_function regular read
  | rule => exact sourced_rule regular
  | block kind => exact sourced_block regular kind
  | matchBody read => exact sourced_matchBody regular read
  | noBody => exact Sourced.bare rfl rfl
  | document =>
    obtain ⟨u, made, inside⟩ := exists_body f limit t
    refine ⟨[u], sourced_document made ?_⟩
    rcases inside with ⟨c, child, node⟩ | ⟨rfl, _⟩
    · exact ParseTree.mem_nodes.mpr (Or.inr ⟨c, child, node⟩)
    · exact u.self_mem_nodes

end

end SecurityRules.Build
