import SecurityRules.Proofs.Nesting.Operators
import SecurityRules.Proofs.Precedence.Steps

/-!
# Grouped expressions

Every production of expressions makes grouped trees. The loop over the operators of a tier leaves no operator of that
tier or a tighter one ahead. So the next operator is not tighter than the tree in front of it, unless that is a type
comparison, whose type takes no operators.
-/

namespace SecurityRules.Parser

open ParseTree (AllGrouped)

variable {f : SourceFile} {n : Nat} {kind : NodeKind} {s : State} {d : Draft}

/-! ## How tightly trees and operators bind -/

/-- How tightly the operator binds that stands next; zero if none does. -/
def State.nextRank (s : State) : Nat := ((infixOperator? s.peek.kind).map fun found => found.1.rank).getD 0

theorem rank_pos (tier : Tier) : 0 < tier.rank := by
  cases tier <;> decide

theorem rank_le (tier : Tier) : tier.rank ≤ 5 := by
  cases tier <;> decide

theorem rank_lt_of_ne {tier other : Tier} (different : other ≠ tier) (least : tier.rank ≤ other.rank) :
    tier.rank < other.rank := by
  cases tier <;> cases other <;> first | exact absurd rfl different | exact absurd least (by decide) | decide

theorem nextRank_le (s : State) : s.nextRank ≤ 5 := by
  rw [State.nextRank]
  cases infixOperator? s.peek.kind with
  | none => exact Nat.zero_le _
  | some found => exact rank_le found.1

theorem nextRank_attach (d : Draft) (role : Option Role) (c : ParseTree) :
    (d.attach role c).state.nextRank = d.state.nextRank := by
  rw [State.nextRank, State.nextRank, Draft.peek_attach]

theorem infixOperator?_tier {k : TokenKind} {tier : Tier} (known : infixOperator? k = some (tier, kind)) :
    kind.tier? = some tier := by
  unfold infixOperator? at known
  split at known <;> cases known <;> rfl

theorem binding_of_tier? {tier : Tier} (known : kind.tier? = some tier) : kind.binding = tier.rank := by
  unfold NodeKind.binding
  split
  · cases known
  · cases known
  · rw [known]
    rfl

theorem ne_ternary_of_binding (bound : 0 < kind.binding) : kind ≠ .ternary := by
  rintro rfl
  exact absurd bound (Nat.lt_irrefl 0)

theorem tier?_of_binding (bound : 6 ≤ kind.binding) : kind.tier? = none := by
  cases known : kind.tier? with
  | none => rfl
  | some tier =>
    have tight := rank_le tier
    rw [binding_of_tier? known] at bound
    omega

theorem ne_unary_of_binding (closed : kind.binding = 7) : kind ≠ .unary := by
  rintro rfl
  exact absurd closed (by decide)

/-- A production of grouped trees that bind at least so tightly, which takes all operators that do. -/
def Joining (least : Nat) (p : Production) : Prop :=
  ∀ f s, s.Of f → Groups f s.rest.length (p s) ∧ least ≤ (p s).1.kind.binding ∧ (p s).2.nextRank < least

theorem Joining.grouping {least : Nat} {p : Production} (joining : Joining least p) : Grouping p :=
  fun f s of => (joining f s of).1

theorem Closed.joining {p : Production} (closed : Closed p) : Joining 6 p := by
  intro f s of
  obtain ⟨groups, binding⟩ := closed f s of
  exact ⟨groups, by omega, Nat.lt_succ_of_le (nextRank_le _)⟩

/-- A tree that has been read becomes the first child of another one. -/
theorem gathers_wrapped {t : ParseTree} (groups : Groups f n (t, s)) (kind : NodeKind) (role : Option Role) :
    Gathers f kind n ((Draft.opened kind s).attach role t) :=
  gathers_attach (t := (Draft.opened kind s).tree) (r := (t, s)) rfl (fun _ member => absurd member List.not_mem_nil)
    groups role

theorem childrenIn_wrapped (of : s.Of f) (kind : NodeKind) (role : Role) (t : ParseTree) (wanted : Role) :
    ((Draft.opened kind s).attach (some role) t).tree.childrenIn wanted =
      if role = wanted then [t.inRole (some role)] else [] := by
  rw [childrenIn_attach (d := Draft.opened kind s) of]
  simp only [Option.some.injEq]
  rfl

/-! ## Lists, calls and other trees in brackets -/

theorem Gathers.items {closing : TokenKind} {item : Draft → Draft} (gathers : Gathers f kind n d)
    (step : ∀ d, Gathers f kind n d → Gathers f kind n (item d)) : Gathers f kind n (d.items closing item) := by
  refine Gathers.expect (gathers.loop fun d gathers => ?_) closing
  rw [itemTurn]
  split
  · exact gathers
  · exact (step d gathers).comma

section

variable {expression : Production} (grouping : Grouping expression)
include grouping

theorem grouping_argumentList : Grouping (argumentList expression) :=
  grouping_branch rfl fun _ _ _ gathers => (gathers.take none).items fun _ gathers => gathers.place grouping none

theorem closed_functionCall : Closed (functionCall expression) :=
  closed_branch rfl rfl fun _ _ _ gathers =>
    (gathers.takeAs (some .name) rfl).place (grouping_argumentList grouping) (some .arguments)

theorem closed_parenthesized : Closed (parenthesized expression) :=
  closed_branch rfl rfl fun _ _ _ gathers =>
    ((gathers.take none).place grouping (some .expression)).expect .rightParen

theorem closed_list : Closed (list expression) :=
  closed_branch rfl rfl fun _ _ _ gathers => (gathers.take none).items fun _ gathers => gathers.place grouping _

theorem grouping_mapEntry : Grouping (mapEntry expression) :=
  grouping_branch rfl fun _ _ _ gathers =>
    ((gathers.place grouping (some .key)).expect .colon).place grouping (some .value)

theorem closed_map : Closed (map expression) :=
  closed_branch rfl rfl fun _ _ _ gathers =>
    (gathers.take none).items fun _ gathers => gathers.place (grouping_mapEntry grouping) _

theorem grouping_interpolation : Grouping (interpolation expression) :=
  grouping_branch rfl fun _ _ _ gathers =>
    (((gathers.take none).expect .leftParen).place grouping (some .expression)).expect .rightParen

theorem closed_path : Closed (path expression) :=
  closed_branch rfl rfl fun _ _ _ gathers => gathers.loop fun _ gathers =>
    (gathers.take none).slashedPart (grouping_interpolation grouping) rfl

/-! ## Accesses -/

theorem closed_primary : Closed (primary expression) := by
  intro f s of
  rw [primary]
  split
  · split
    · exact closed_functionCall grouping f s of
    · exact closed_leafOf rfl rfl f s of
  · exact closed_leafOf rfl rfl f s of
  · exact closed_leafOf rfl rfl f s of
  · exact closed_leafOf rfl rfl f s of
  · exact closed_leafOf rfl rfl f s of
  · exact closed_leafOf rfl rfl f s of
  · exact closed_parenthesized grouping f s of
  · exact closed_list grouping f s of
  · exact closed_map grouping f s of
  · exact closed_path grouping f s of
  · split
    · exact ⟨groups_placeholder of rfl, rfl⟩
    · exact closed_stray f s of

theorem grouping_memberField : Grouping (memberField expression) := by
  intro f s of
  rw [memberField]
  split
  · split
    · exact (closed_functionCall grouping).grouping f s of
    · exact grouping_leafOf rfl f s of
  · exact groups_placeholder of rfl

theorem Gathers.rangeTail (gathers : Gathers f kind n d) : Gathers f kind n (d.rangeTail expression) := by
  rw [Draft.rangeTail]
  split
  · exact gathers.take none
  · exact (gathers.take none).place grouping _

theorem grouping_index : Grouping (index expression) := by
  intro f s of
  rw [index_eq]
  split
  · exact ((gathers_opened .range of).rangeTail grouping).plain rfl
  · have first := grouping f s of
    split
    · exact ((gathers_wrapped first .range (some .start)).rangeTail grouping).plain rfl
    · exact first

/-- An access takes the tree in front of it as its object. -/
theorem closed_postfixTurn (groups : Groups f n (d.tree, d.state)) (closed : d.tree.kind.binding = 7) :
    Groups f n ((postfixTurn expression d).value.tree, (postfixTurn expression d).value.state) ∧
      (postfixTurn expression d).value.tree.kind.binding = 7 := by
  have wraps {access : NodeKind} {more : Draft} (isAccess : access = .member ∨ access = .indexing)
      (gathers : Gathers f access n more) (object : more.tree.childrenIn .object = [d.tree.inRole (some .object)]) :
      Groups f n (more.tree, more.state) ∧ more.tree.kind.binding = 7 := by
    refine ⟨gathers.groups (.of_object (gathers.kind ▸ isAccess) object ?_ ?_ ?_), ?_⟩
    · rw [ParseTree.kind_inRole]
      exact ne_ternary_of_binding (by omega)
    · rw [ParseTree.kind_inRole]
      exact tier?_of_binding (by omega)
    · rw [ParseTree.kind_inRole]
      exact ne_unary_of_binding closed
    · rw [gathers.kind]
      obtain rfl | rfl := isAccess <;> rfl
  rw [postfixTurn]
  split
  · have wrapped := gathers_wrapped groups .member (some .object)
    have taken := wrapped.take none
    have placed := taken.place (grouping_memberField grouping) (some .field)
    have result := wraps (Or.inl rfl) placed (by
      rw [taken.childrenIn_place (grouping_memberField grouping), if_neg (by decide),
        wrapped.childrenIn_take none (by simp), childrenIn_wrapped groups.state, if_pos rfl, List.append_nil])
    exact result
  · split
    · have wrapped := gathers_wrapped groups .indexing (some .object)
      have taken := wrapped.take none
      have placed := taken.place (grouping_index grouping) (some .index)
      have result := wraps (Or.inr rfl) (placed.expect .rightBracket) (by
        rw [placed.childrenIn_expect, taken.childrenIn_place (grouping_index grouping), if_neg (by decide),
          wrapped.childrenIn_take none (by simp), childrenIn_wrapped groups.state, if_pos rfl, List.append_nil])
      exact result
    · exact ⟨groups, closed⟩

theorem closed_postfixed : Closed (postfixed expression) := by
  intro f s of
  have first := closed_primary grouping f s of
  exact iterate_keeps
    (P := fun d : Draft => Groups f s.rest.length (d.tree, d.state) ∧ d.tree.kind.binding = 7) first
    fun d here => closed_postfixTurn grouping here.1 here.2

end

/-! ## Infix operators -/

theorem closed_typeOperand : Closed typeOperand := by
  intro f s of
  rw [typeOperand]
  split
  · exact closed_leafOf rfl rfl f s of
  · exact ⟨groups_placeholder of rfl, rfl⟩

/-- Operands joined so far: they bind tightly enough, and the next operator is not tighter than they are, unless they
end in the name of a type. -/
structure Chained (f : SourceFile) (least : Nat) (n : Nat) (d : Draft) : Prop where
  groups : Groups f n (d.tree, d.state)
  tight : least ≤ d.tree.kind.binding
  next : d.tree.kind = .typeComparison ∨ d.state.nextRank ≤ d.tree.kind.binding

variable {least : Nat} {found : Tier}

/-- What is joined so far is a left operand of the operator that comes next. -/
theorem Chained.isLeftOf (chained : Chained f least n d) (positive : 0 < least)
    (known : infixOperator? d.state.peek.kind = some (found, kind)) : d.tree.IsLeftOf found where
  noCondition := ne_ternary_of_binding (Nat.lt_of_lt_of_le positive chained.tight)
  tight := by
    intro own tier
    have nextRank : d.state.nextRank = found.rank := by
      rw [State.nextRank, known]
      rfl
    by_cases comparison : d.tree.kind = .typeComparison
    · rw [comparison] at tier
      cases tier
      simp only [comparison, true_and, Nat.not_lt]
    · have next := chained.next.resolve_left comparison
      rw [nextRank, binding_of_tier? tier] at next
      simp only [next, comparison, false_and, not_false_eq_true]

theorem Chained.joined {operand : Tier → Production} (chained : Chained f least (n + 1) d) (positive : 0 < least)
    (known : infixOperator? d.state.peek.kind = some (found, kind)) (less : least ≤ found.rank)
    (joining : Joining (found.rank + 1) (operand found)) :
    Chained f least n (joinedOf (operand found) kind d) := by
  have tier := infixOperator?_tier known
  have wrapped := gathers_wrapped chained.groups kind (some .left)
  have taken := wrapped.take_less (some .operator)
  have left : (((Draft.opened kind d.state).attach (some .left) d.tree).take (some .operator)).tree.childrenIn .left =
      [d.tree.inRole (some .left)] := by
    rw [wrapped.childrenIn_take _ (by decide), childrenIn_wrapped chained.groups.state, if_pos rfl]
  have right : (((Draft.opened kind d.state).attach (some .left) d.tree).take (some .operator)).tree.childrenIn .right =
      [] := by
    rw [wrapped.childrenIn_take _ (by decide), childrenIn_wrapped chained.groups.state, if_neg (by decide)]
  rw [joinedOf]
  generalize ((Draft.opened kind d.state).attach (some .left) d.tree).take (some .operator) = m at taken left right
  have isLeft : (d.tree.inRole (some .left)).IsLeftOf found := by
    obtain ⟨noCondition, tight⟩ := chained.isLeftOf positive known
    exact ⟨by simpa using noCondition, by simpa using tight⟩
  have grouped {p : Production} (grouping : Grouping p) (bound : found.rank < (p m.state).1.kind.binding) :
      Groups f n ((m.place (some .right) p).tree, (m.place (some .right) p).state) := by
    have all := taken.place grouping (some .right)
    have leftChild : (m.place (some .right) p).tree.childrenIn .left = [d.tree.inRole (some .left)] := by
      rw [taken.childrenIn_place grouping, left, if_neg (by decide), List.append_nil]
    have rightChild : (m.place (some .right) p).tree.childrenIn .right = [(p m.state).1.inRole (some .right)] := by
      rw [taken.childrenIn_place grouping, right, if_pos rfl, List.nil_append]
    refine all.groups (.of_tier? (all.kind ▸ tier) leftChild isLeft rightChild ⟨?_, ?_⟩)
    · rw [ParseTree.kind_inRole]
      exact ne_ternary_of_binding (by omega)
    · rw [ParseTree.kind_inRole]
      intro own known
      rw [← binding_of_tier? known]
      exact bound
  have kindOf (p : Production) : (m.place (some .right) p).tree.kind = kind := by
    rw [Draft.kind_place, taken.kind]
  rw [rightOf]
  split
  · rename_i comparison
    obtain ⟨-, closed⟩ := closed_typeOperand f m.state taken.state
    have tight := rank_le found
    refine ⟨grouped closed_typeOperand.grouping (by omega), ?_, Or.inl ((kindOf _).trans comparison)⟩
    rw [kindOf, binding_of_tier? tier]
    exact less
  · obtain ⟨-, bound, behind⟩ := joining f m.state taken.state
    refine ⟨grouped joining.grouping bound, ?_, Or.inr ?_⟩
    · rw [kindOf, binding_of_tier? tier]
      exact less
    · rw [kindOf, binding_of_tier? tier, Draft.place_eq, nextRank_attach]
      exact Nat.le_of_lt_succ behind

theorem Chained.mono {m : Nat} (chained : Chained f least m d) (less : m ≤ n) : Chained f least n d :=
  ⟨chained.groups.mono less, chained.tight, chained.next⟩

/-- The operators of a tier and those that are tighter are all taken. -/
theorem joining_infixed {operand : Tier → Production} {tier : Tier}
    (joining : ∀ t, tier.rank ≤ t.rank → Joining (t.rank + 1) (operand t)) : Joining tier.rank (infixed operand tier) := by
  intro f s of
  obtain ⟨groups, bound, behind⟩ := joining tier (Nat.le_refl _) f s of
  have first : Chained f tier.rank s.rest.length ⟨(operand tier s).1, (operand tier s).2⟩ :=
    ⟨groups, Nat.le_of_succ_le bound, Or.inr (by dsimp only; omega)⟩
  refine iterate_progress (P := Chained f tier.rank s.rest.length)
    (Q := fun d => Groups f s.rest.length (d.tree, d.state) ∧ tier.rank ≤ d.tree.kind.binding ∧
      d.state.nextRank < tier.rank) first (fun d next chained turn => ?_) fun d last chained turn => ?_
  · rw [infixTurn_eq] at turn
    split at turn
    · rename_i found kind known
      split at turn
      · rename_i less
        cases turn
        obtain ⟨t, rest, ahead⟩ : ∃ t rest, d.state.rest = t :: rest := by
          refine List.exists_cons_of_ne_nil (State.rest_ne_nil fun ended => ?_)
          rw [ended] at known
          cases known
        have here : Chained f tier.rank (rest.length + 1) d :=
          ⟨⟨chained.groups.grouped, chained.groups.state, Nat.le_of_eq (by rw [ahead]; rfl)⟩, chained.tight, chained.next⟩
        have joined := here.joined (rank_pos tier) known less (joining found less)
        have behind := chained.groups.behind
        have shorter := joined.groups.behind
        dsimp only at behind shorter
        rw [ahead, List.length_cons] at behind ⊢
        exact ⟨joined.mono (by omega), by omega⟩
      · cases turn
    · cases turn
  · rw [infixTurn_eq] at turn
    split at turn
    · rename_i found kind known
      split at turn
      · cases turn
      · rename_i less
        cases turn
        refine ⟨chained.groups, chained.tight, ?_⟩
        rw [State.nextRank, known]
        exact Nat.lt_of_not_le less
    · rename_i none
      cases turn
      refine ⟨chained.groups, chained.tight, ?_⟩
      rw [State.nextRank, none]
      exact rank_pos tier

/-- Operands of the tiers from a rank on, and what these tiers join. -/
structure Settled (rank : Nat) (o : Operands) : Prop where
  beside : ∀ t, rank ≤ t.rank → Joining (t.rank + 1) (o.beside t)
  joined : Joining rank o.joined

theorem Settled.loosen {o : Operands} (tier : Tier) (settled : Settled (tier.rank + 1) o) :
    Settled tier.rank (o.loosen tier) := by
  have beside : ∀ t, tier.rank ≤ t.rank → Joining (t.rank + 1) ((o.loosen tier).beside t) := by
    intro t least
    rw [Operands.loosen]
    dsimp only
    split
    · rename_i same
      exact same ▸ settled.joined
    · rename_i different
      exact settled.beside t (rank_lt_of_ne different least)
  exact ⟨beside, joining_infixed beside⟩

theorem joining_binary {unary : Production} (joining : Joining 6 unary) : Joining 1 (binary unary) := by
  have first : Settled 6 { beside := fun _ => unary, joined := unary } :=
    ⟨fun t least => absurd (rank_le t) (by omega), joining⟩
  have products : Settled 5 _ := first.loosen .multiplication
  have sums : Settled 4 _ := products.loosen .addition
  have relations : Settled 3 _ := sums.loosen .relation
  have conjunctions : Settled 2 _ := relations.loosen .conjunction
  exact (conjunctions.loosen .disjunction).joined

/-! ## Expressions -/

theorem grouping_ternary {unary expression : Production} (joining : Joining 6 unary) (grouping : Grouping expression) :
    Grouping (ternary unary expression) := by
  intro f s of
  have first := (joining_binary joining).grouping f s of
  rw [ternary]
  dsimp only
  split
  · exact (((((gathers_wrapped first .ternary (some .condition)).take none).place grouping _).expect .colon).place
      grouping _).plain rfl
  · exact first

theorem joining_unary {operand : Production} (joining : Joining 6 operand) : Joining 6 (unary operand) := by
  intro f s of
  have opened := gathers_opened .unary of
  have taken := opened.take (some .operator)
  have all := taken.place joining.grouping (some .operand)
  obtain ⟨-, bound, behind⟩ := joining f _ taken.state
  have grouped := all.groups (.of_operand (t := (operand _).1.inRole (some .operand)) all.kind
    (by rw [taken.childrenIn_place joining.grouping, opened.childrenIn_take _ (by decide), if_pos rfl]; rfl)
    (by rw [ParseTree.kind_inRole]; exact ne_ternary_of_binding (by omega))
    (by rw [ParseTree.kind_inRole]; exact tier?_of_binding bound))
  refine ⟨grouped, ?_, Nat.lt_succ_of_le (nextRank_le _)⟩
  have kind : (unary operand s).1.kind = .unary := all.kind
  rw [kind]
  decide

/-- Expressions and operands are grouped whatever nesting is still allowed. -/
theorem grouping_expressionAt (budget : Nat) : Grouping (expressionAt budget) ∧ Joining 6 (unaryAt budget) := by
  induction budget with
  | zero =>
    refine ⟨fun f s of => closed_collapse.grouping f s of, fun f s of => ?_⟩
    rw [unaryAt]
    split
    · exact closed_collapse.joining f s of
    · exact (closed_postfixed closed_collapse.grouping).joining f s of
  | succ budget ih =>
    have nested := grouping_ternary ih.2 ih.1
    refine ⟨fun f s of => ?_, fun f s of => ?_⟩
    · rw [expressionAt]
      exact nested f s of
    · rw [unaryAt]
      split
      · exact joining_unary ih.2 f s of
      · exact (closed_postfixed nested).joining f s of

end SecurityRules.Parser
