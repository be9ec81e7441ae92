import SecurityRules.Proofs.Trivia.Steps

/-!
# Grouped operators

The operands of an operator bind more tightly than the operator does. A draft gathers trees in which that is so, and
gathers no tokens twice.
-/

namespace SecurityRules

open SecurityRules.Parser (Tier)

/-- The tier of the operators that make trees of a kind. -/
def NodeKind.tier? : NodeKind → Option Tier
  | .disjunction => some .disjunction
  | .conjunction => some .conjunction
  | .relation | .contains | .typeComparison => some .relation
  | .addition => some .addition
  | .multiplication => some .multiplication
  | _ => none

/-- How tightly a tree of a kind holds together: a conditional expression the least, operations by their tier, prefix
operators more than those, and anything else the most. -/
def NodeKind.binding : NodeKind → Nat
  | .ternary => 0
  | .unary => 6
  | kind => (kind.tier?.map Tier.rank).getD 7

/-- Whether trees of a kind have an operand that may bind too loosely. -/
def NodeKind.isOperation : NodeKind → Bool
  | .unary | .member | .indexing => true
  | kind => kind.tier?.isSome

namespace ParseTree

/-- The tree is a left operand of operators of a tier: no conditional expression, and as an operation of a looser tier
only a type comparison, in front of the operators that are tighter than it. -/
structure IsLeftOf (tier : Tier) (t : ParseTree) : Prop where
  noCondition : t.kind ≠ .ternary
  tight : ∀ own, t.kind.tier? = some own →
    (tier.rank ≤ own.rank ↔ ¬(t.kind = .typeComparison ∧ Tier.relation.rank < tier.rank))

/-- The tree is a right operand of operators of a tier: no conditional expression, and as an operation one of a tighter
tier. -/
structure IsRightOf (tier : Tier) (t : ParseTree) : Prop where
  noCondition : t.kind ≠ .ternary
  tight : ∀ own, t.kind.tier? = some own → tier.rank < own.rank

/-- The operands of a tree bind as tightly as they have to. -/
structure Grouped (n : ParseTree) : Prop where
  left : ∀ tier, n.kind.tier? = some tier → ∃ t, n.childrenIn .left = [t] ∧ t.IsLeftOf tier
  right : ∀ tier, n.kind.tier? = some tier → ∃ t, n.childrenIn .right = [t] ∧ t.IsRightOf tier
  operand : n.kind = .unary →
    ∃ t, n.childrenIn .operand = [t] ∧ t.kind ≠ .ternary ∧ t.kind.tier? = none
  object : n.kind = .member ∨ n.kind = .indexing →
    ∃ t, n.childrenIn .object = [t] ∧ t.kind ≠ .ternary ∧ t.kind.tier? = none ∧ t.kind ≠ .unary

/-- A tree of a kind that is no operation. -/
theorem Grouped.of_plain {n : ParseTree} (plain : n.kind.isOperation = false) : n.Grouped where
  left := fun tier known => by
    unfold NodeKind.isOperation at plain
    split at plain <;> simp_all
  right := fun tier known => by
    unfold NodeKind.isOperation at plain
    split at plain <;> simp_all
  operand := fun kind => by
    rw [kind] at plain
    cases plain
  object := fun kind => by
    obtain kind | kind := kind <;> (rw [kind] at plain; cases plain)

/-- An access whose object is neither an operation nor a conditional expression. -/
theorem Grouped.of_object {n t : ParseTree} (access : n.kind = .member ∨ n.kind = .indexing)
    (object : n.childrenIn .object = [t]) (noCondition : t.kind ≠ .ternary) (noTier : t.kind.tier? = none)
    (noPrefix : t.kind ≠ .unary) : n.Grouped where
  left := fun tier known => by obtain kind | kind := access <;> (rw [kind] at known; cases known)
  right := fun tier known => by obtain kind | kind := access <;> (rw [kind] at known; cases known)
  operand := fun kind => by obtain other | other := access <;> (rw [kind] at other; cases other)
  object := fun _ => ⟨t, object, noCondition, noTier, noPrefix⟩

/-- A prefix operator in front of an operand that is no infix operation. -/
theorem Grouped.of_operand {n t : ParseTree} (unary : n.kind = .unary) (operand : n.childrenIn .operand = [t])
    (noCondition : t.kind ≠ .ternary) (noTier : t.kind.tier? = none) : n.Grouped where
  left := fun tier known => by rw [unary] at known; cases known
  right := fun tier known => by rw [unary] at known; cases known
  operand := fun _ => ⟨t, operand, noCondition, noTier⟩
  object := fun access => by rw [unary] at access; obtain kind | kind := access <;> cases kind

/-- An infix operator between operands of its tier. -/
theorem Grouped.of_tier? {n left right : ParseTree} {tier : Tier} (known : n.kind.tier? = some tier)
    (leftChild : n.childrenIn .left = [left]) (isLeft : left.IsLeftOf tier)
    (rightChild : n.childrenIn .right = [right]) (isRight : right.IsRightOf tier) : n.Grouped where
  left := fun other same => ⟨left, leftChild, Option.some.inj (known.symm.trans same) ▸ isLeft⟩
  right := fun other same => ⟨right, rightChild, Option.some.inj (known.symm.trans same) ▸ isRight⟩
  operand := fun kind => by rw [kind] at known; cases known
  object := fun access => by obtain kind | kind := access <;> (rw [kind] at known; cases known)

/-- All trees in a tree are grouped. -/
def AllGrouped (t : ParseTree) : Prop := ∀ n ∈ t.nodes, n.Grouped

theorem allGrouped_iff {t : ParseTree} : t.AllGrouped ↔ t.Grouped ∧ ∀ c ∈ t.children, c.AllGrouped := by
  constructor
  · intro all
    exact ⟨all t (self_mem_nodes t), fun c member n inside => all n (mem_nodes.mpr (Or.inr ⟨c, member, inside⟩))⟩
  · rintro ⟨self, below⟩ n inside
    rcases mem_nodes.mp inside with rfl | ⟨c, member, inside⟩
    · exact self
    · exact below c member n inside

theorem Grouped.inRole {n : ParseTree} (grouped : n.Grouped) (r : Option Role) : (n.inRole r).Grouped := by
  obtain ⟨left, right, operand, object⟩ := grouped
  constructor <;> simpa only [kind_inRole, childrenIn, children_inRole]

theorem AllGrouped.inRole {t : ParseTree} (all : t.AllGrouped) (r : Option Role) : (t.inRole r).AllGrouped := by
  obtain ⟨self, below⟩ := allGrouped_iff.mp all
  exact allGrouped_iff.mpr ⟨self.inRole r, by simpa using below⟩

theorem allGrouped_leaf {t : ParseTree} (plain : t.kind.isOperation = false) (childless : t.children = []) :
    t.AllGrouped := by
  refine allGrouped_iff.mpr ⟨.of_plain plain, fun c member => ?_⟩
  rw [childless] at member
  cases member

end ParseTree

namespace Parser

open ParseTree (AllGrouped)

variable {f : SourceFile} {n : Nat} {kind : NodeKind} {s : State} {d : Draft} {role : Option Role}

theorem IsLoose.allGrouped {c : ParseTree} (loose : IsLoose c) : c.AllGrouped :=
  ParseTree.allGrouped_leaf (by rw [loose.kind]; rfl) loose.children

theorem isOperation_leafKind (k : TokenKind) : (leafKind k).isOperation = false := by
  cases k <;> rfl

/-- A grouped tree, with a state behind it that has at most so many tokens ahead. -/
structure Groups (f : SourceFile) (n : Nat) (r : ParseTree × State) : Prop where
  grouped : r.1.AllGrouped
  state : r.2.Of f
  behind : r.2.rest.length ≤ n

/-- A production whose trees are grouped. -/
def Grouping (p : Production) : Prop := ∀ f s, s.Of f → Groups f s.rest.length (p s)

/-- A production of grouped trees that no operator and no access can split. -/
def Closed (p : Production) : Prop := ∀ f s, s.Of f → Groups f s.rest.length (p s) ∧ (p s).1.kind.binding = 7

theorem Closed.grouping {p : Production} (closed : Closed p) : Grouping p := fun f s of => (closed f s of).1

/-- A draft of a tree of a kind whose children are grouped. -/
structure Gathers (f : SourceFile) (kind : NodeKind) (n : Nat) (d : Draft) : Prop where
  kind : d.tree.kind = kind
  children : ∀ c ∈ d.tree.children, c.AllGrouped
  state : d.state.Of f
  behind : d.state.rest.length ≤ n

theorem length_rest_advance (s : State) : s.advance.rest.length = s.rest.length - 1 := by
  rw [State.advance]
  split
  · rename_i ended
    rw [ended]
    rfl
  · rename_i t rest ahead
    rw [ahead]
    rfl

theorem Groups.mono {m : Nat} {r : ParseTree × State} (groups : Groups f m r) (less : m ≤ n) : Groups f n r :=
  ⟨groups.grouped, groups.state, Nat.le_trans groups.behind less⟩

/-! ## Leaves -/

theorem groups_leafOf (of : s.Of f) {leaf : NodeKind} (plain : leaf.isOperation = false) :
    Groups f (s.rest.length - 1) (leafOf leaf s) :=
  ⟨ParseTree.allGrouped_leaf plain rfl, of.advance, Nat.le_of_eq (length_rest_advance s)⟩

theorem grouping_leafOf {leaf : NodeKind} (plain : leaf.isOperation = false) : Grouping (leafOf leaf) :=
  fun _ _ of => (groups_leafOf of plain).mono (Nat.sub_le ..)

theorem closed_leafOf {leaf : NodeKind} (plain : leaf.isOperation = false) (closed : leaf.binding = 7) :
    Closed (leafOf leaf) :=
  fun f s of => ⟨grouping_leafOf plain f s of, closed⟩

theorem groups_placeholder (of : s.Of f) {leaf : NodeKind} (plain : leaf.isOperation = false) :
    Groups f s.rest.length (s.placeholder leaf, s) :=
  ⟨ParseTree.allGrouped_leaf plain rfl, of, Nat.le_refl _⟩

/-! ## Steps of a draft -/

/-- A child in a role is attached to those that are there; comments have no role. -/
theorem childrenIn_attach (of : d.state.Of f) (role : Option Role) (c : ParseTree) (wanted : Role) :
    (d.attach role c).tree.childrenIn wanted =
      d.tree.childrenIn wanted ++ if role = some wanted then [c.inRole role] else [] := by
  obtain ⟨placed, children, waiting, -⟩ := (attached_attach d role c).children
  have none : placed.filter (·.role == some wanted) = [] := by
    rw [List.filter_eq_nil_iff]
    intro u member
    rw [(of.pending u (waiting u member)).role]
    exact Bool.false_ne_true
  rw [ParseTree.childrenIn, children, List.filter_append, List.filter_append, none, List.append_nil]
  congr 1
  split
  · rename_i same
    exact List.filter_cons_of_pos (by simpa using same)
  · rename_i other
    exact List.filter_cons_of_neg (by simpa using other)

theorem gathers_opened (kind : NodeKind) (of : s.Of f) : Gathers f kind s.rest.length (Draft.opened kind s) :=
  ⟨rfl, fun _ member => absurd member List.not_mem_nil, of, Nat.le_refl _⟩

theorem gathers_attach {t : ParseTree} {r : ParseTree × State} (kindEq : t.kind = kind)
    (children : ∀ c ∈ t.children, c.AllGrouped) (groups : Groups f n r) (role : Option Role) :
    Gathers f kind n ((⟨t, r.2⟩ : Draft).attach role r.1) := by
  have attached := attached_attach ⟨t, r.2⟩ role r.1
  refine ⟨attached.kind.trans kindEq, fun c member => ?_, attached.state_of groups.state, ?_⟩
  · obtain ⟨placed, shape, waiting, -⟩ := attached.children
    rw [shape] at member
    obtain member | last := List.mem_append.mp member
    · obtain old | comment := List.mem_append.mp member
      · exact children c old
      · exact (groups.state.pending c (waiting c comment)).allGrouped
    · rw [List.mem_singleton.mp last]
      exact groups.grouped.inRole role
  · rw [attached.rest]
    exact groups.behind

namespace Gathers

variable (gathers : Gathers f kind n d)
include gathers

theorem attach (role : Option Role) {c : ParseTree} (grouped : c.AllGrouped) :
    Gathers f kind n (d.attach role c) :=
  gathers_attach (r := (c, d.state)) gathers.kind gathers.children ⟨grouped, gathers.state, gathers.behind⟩ role

theorem place {p : Production} (grouping : Grouping p) (role : Option Role) : Gathers f kind n (d.place role p) :=
  gathers_attach gathers.kind gathers.children ((grouping f _ gathers.state).mono gathers.behind) role

theorem takeAs (role : Option Role) {leaf : NodeKind} (plain : leaf.isOperation = false) :
    Gathers f kind n (d.takeAs role leaf) :=
  gathers.place (grouping_leafOf plain) role

theorem take (role : Option Role) : Gathers f kind n (d.take role) := gathers.takeAs role (isOperation_leafKind _)

theorem lacking (role : Option Role) {leaf : NodeKind} (plain : leaf.isOperation = false) :
    Gathers f kind n (d.lacking role leaf) :=
  gathers.attach role (ParseTree.allGrouped_leaf plain rfl)

theorem takeName (role : Option Role) : Gathers f kind n (d.takeName role) := by
  rw [Draft.takeName]
  split
  · exact gathers.takeAs role rfl
  · exact gathers.lacking role rfl

theorem ofKind (other : NodeKind) : Gathers f other n (d.ofKind other) := by
  refine ⟨ParseTree.kind_ofKind _ _, ?_, gathers.state, gathers.behind⟩
  rw [Draft.ofKind, ParseTree.children_ofKind]
  exact gathers.children

theorem loop {turn : Draft → Turn Draft}
    (step : ∀ d, Gathers f kind n d → Gathers f kind n (turn d).value) : Gathers f kind n (d.loop turn) :=
  iterate_keeps gathers step

/-- The finished tree of a draft, if it is grouped itself. -/
theorem groups (self : d.tree.Grouped) : Groups f n (d.tree, d.state) :=
  ⟨ParseTree.allGrouped_iff.mpr ⟨self, gathers.children⟩, gathers.state, gathers.behind⟩

theorem plain (plain : kind.isOperation = false) : Groups f n (d.tree, d.state) :=
  gathers.groups (.of_plain (by rw [gathers.kind]; exact plain))

/-! ### Children in a role -/

variable {wanted : Role}

theorem childrenIn_place {p : Production} (grouping : Grouping p) (role : Option Role) :
    (d.place role p).tree.childrenIn wanted =
      d.tree.childrenIn wanted ++ if role = some wanted then [(p d.state).1.inRole role] else [] :=
  childrenIn_attach (d := ⟨d.tree, (p d.state).2⟩) (grouping f _ gathers.state).state role _ wanted

theorem childrenIn_take (role : Option Role) (other : role ≠ some wanted) :
    (d.take role).tree.childrenIn wanted = d.tree.childrenIn wanted := by
  rw [Draft.take, Draft.takeAs, gathers.childrenIn_place (grouping_leafOf (isOperation_leafKind _)), if_neg other,
    List.append_nil]

end Gathers

/-- Taking a token leaves one less ahead. -/
theorem Gathers.take_less (gathers : Gathers f kind (n + 1) d) (role : Option Role) : Gathers f kind n (d.take role) := by
  refine gathers_attach gathers.kind gathers.children ((groups_leafOf gathers.state (isOperation_leafKind _)).mono ?_) role
  have behind := gathers.behind
  omega

/-- Trees of a kind that is no operation are grouped if their parts are. -/
theorem grouping_branch {fill : Draft → Draft} (plain : kind.isOperation = false)
    (fills : ∀ f n d, Gathers f kind n d → Gathers f kind n (fill d)) : Grouping (branch kind fill) :=
  fun f _ of => (fills f _ _ (gathers_opened kind of)).plain plain

theorem closed_branch {fill : Draft → Draft} (plain : kind.isOperation = false) (closed : kind.binding = 7)
    (fills : ∀ f n d, Gathers f kind n d → Gathers f kind n (fill d)) : Closed (branch kind fill) := by
  refine fun f s of => ⟨grouping_branch plain fills f s of, ?_⟩
  rw [← closed]
  exact congrArg _ (fills f _ _ (gathers_opened kind of)).kind

/-! ## Recovery -/

theorem closed_stray : Closed stray :=
  closed_branch rfl rfl fun f n d gathers => by
    split
    · exact gathers
    · exact gathers.take none

theorem Gathers.expect (gathers : Gathers f kind n d) (wanted : TokenKind) : Gathers f kind n (d.expect wanted) := by
  rw [Draft.expect]
  split
  · exact gathers.take none
  · split
    · exact (gathers.place closed_stray.grouping none).take none
    · exact gathers.lacking none rfl

theorem Gathers.childrenIn_expect (gathers : Gathers f kind n d) (k : TokenKind) {wanted : Role} :
    (d.expect k).tree.childrenIn wanted = d.tree.childrenIn wanted := by
  rw [Draft.expect]
  split
  · exact gathers.childrenIn_take none (by simp)
  · split
    · rw [(gathers.place closed_stray.grouping none).childrenIn_take none (by simp),
        gathers.childrenIn_place closed_stray.grouping, if_neg (by simp), List.append_nil]
    · rw [Draft.lacking, childrenIn_attach gathers.state, if_neg (by simp), List.append_nil]

theorem Gathers.optionalSemicolon (gathers : Gathers f kind n d) : Gathers f kind n d.optionalSemicolon := by
  rw [Draft.optionalSemicolon]
  split
  · exact gathers.take none
  · exact gathers

/-- A comma behind an item, with which a list goes on. -/
theorem Gathers.comma (gathers : Gathers f kind n d) :
    Gathers f kind n (if d.isAt .comma then Turn.again d.take else .done d).value := by
  split
  · exact gathers.take none
  · exact gathers

/-- What is gathered token by token is an error tree. -/
theorem closed_gathered {turn : Nested → Turn Nested}
    (step : ∀ f m (n : Nested), Gathers f .error m n.draft → Gathers f .error m (turn n).value.draft) :
    Closed fun s => (iterate (·.draft.state) turn ⟨0, Draft.opened .error s⟩).toError := by
  intro f s of
  have gathered : Gathers f .error s.rest.length
      (iterate (fun n : Nested => n.draft.state) turn ⟨0, Draft.opened .error s⟩).draft :=
    iterate_keeps (P := fun n : Nested => Gathers f .error s.rest.length n.draft) (gathers_opened .error of) (step _ _)
  dsimp only
  rw [Nested.toError]
  split
  · exact ⟨⟨ParseTree.allGrouped_leaf rfl rfl, gathered.state, gathered.behind⟩, rfl⟩
  · refine ⟨gathered.plain rfl, ?_⟩
    rw [gathered.kind]
    rfl

theorem grouping_skipUntil (stop : TokenKind → Bool) : Grouping (skipUntil stop) := by
  refine (closed_gathered fun f m n gathers => ?_).grouping
  obtain same | ⟨-, taken⟩ := draft_skipTurn stop n
  · rw [same]
    exact gathers
  · rw [taken]
    exact gathers.take none

theorem closed_collapse : Closed collapse := by
  refine closed_gathered fun f m n gathers => ?_
  rw [collapseTurn]
  dsimp only
  split
  · exact gathers
  · split
    · exact gathers
    · exact gathers.take none

/-! ## Segments of paths -/

theorem of_passSegment (of : s.Of f) : s.passSegment.Of f ∧ s.passSegment.rest.length ≤ s.rest.length := by
  rw [State.passSegment]
  have keeps : ∀ v : State, v.Of f ∧ v.rest.length ≤ s.rest.length →
      v.advance.Of f ∧ v.advance.rest.length ≤ s.rest.length := by
    rintro v ⟨of, less⟩
    exact ⟨of.advance, by rw [length_rest_advance]; omega⟩
  refine iterate_keeps (P := fun v : State => v.Of f ∧ v.rest.length ≤ s.rest.length)
    (keeps s ⟨of, Nat.le_refl _⟩) fun v here => ?_
  split
  · exact keeps v here
  · exact here

theorem grouping_segment {leaf : NodeKind} (plain : leaf.isOperation = false) : Grouping (segment leaf) :=
  fun _ _ of =>
    ⟨ParseTree.allGrouped_leaf plain rfl, (of_passSegment of).1, (of_passSegment of).2⟩

theorem Gathers.slashTurn (gathers : Gathers f kind n d) : Gathers f kind n (slashTurn d).value := by
  rw [Parser.slashTurn]
  split <;> exact gathers

/-- One segment of a path. -/
theorem Gathers.slashedPart {opening : TokenKind} {bracketed : Production} {leaf : NodeKind}
    (gathers : Gathers f kind n d) (grouping : Grouping bracketed) (plain : leaf.isOperation = false) :
    Gathers f kind n (slashedPart opening bracketed leaf d).value := by
  rw [Parser.slashedPart]
  split
  · exact (gathers.place grouping _).slashTurn
  · split
    · exact (gathers.place (grouping_segment plain) _).slashTurn
    · exact gathers.lacking _ plain

end Parser

end SecurityRules
