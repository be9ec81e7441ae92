import SecurityRules.Proofs.Grammar.Steps
import SecurityRules.Proofs.Mirror.Document

/-!
# The depth that is counted

The parser with a counter reads what the parser with a budget reads, and shows behind every production the depth that it
has shown in front of it. A limit that is met leaves an error in the tree. So the same tree is read under a higher
limit if there is none in it.
-/

namespace SecurityRules.Parser

/-- The state with the counter set. -/
def State.atDepth (depth : Int) (s : State) : State := { s with depth }

/-- No production but those that count looks at the counter. -/
def Unseen.depth (depth : Int) : Unseen where
  on := State.atDepth depth
  rest := fun _ => rfl
  lastStop := fun _ => rfl
  pending := fun _ => rfl
  size := fun _ => rfl
  extent := fun _ _ _ => rfl
  keeping := fun _ _ => rfl
  advance := fun s => by
    obtain ⟨file, rest, comments, pending, lastStop, depth⟩ := s
    cases rest <;> rfl

variable {strict : Prop} {limit levels budget : Nat} {depth : Int}

/-- A production that is entered mirrors what the one does that is read inside. -/
theorem mirrors_entered {inside beyond p : Production}
    (within : depth + 1 ≤ limit → Mirrors (.depth (depth + 1)) strict inside p)
    (past : limit < depth + 1 → Mirrors (.depth (depth + 1)) strict beyond p) :
    Mirrors (.depth depth) strict (entered limit inside beyond) p := by
  intro s fine
  have enter : ((Unseen.depth depth).on s).enter = (Unseen.depth (depth + 1)).on s := rfl
  have leave : ((Unseen.depth (depth + 1)).on (p s).2).leave = (Unseen.depth depth).on (p s).2 := by
    show State.atDepth (depth + 1 - 1) (p s).2 = State.atDepth depth (p s).2
    rw [Int.add_sub_cancel]
  have counter : ((Unseen.depth (depth + 1)).on s).depth = depth + 1 := rfl
  rw [entered]
  dsimp only
  rw [enter, counter]
  split
  · rename_i deeper
    rw [within deeper s fine, leave]
  · rename_i deepest
    rw [past (Int.not_le.mp deepest) s fine, leave]

/-! ## Budgets -/

/-- A counter at some depth, with a limit on it and so many levels followed, can do with a budget. Where errors are
minded, more may be left than the budget. -/
structure Affords (strict : Prop) (limit levels : Nat) (depth : Int) (budget : Nat) : Prop where
  followed : budget ≤ levels
  within : 0 < budget → depth + budget ≤ limit
  spent : ¬strict → budget = levels ∨ limit ≤ depth + budget

theorem Affords.nested (affords : Affords strict limit (levels + 1) depth (budget + 1)) :
    depth + 1 ≤ limit ∧ Affords strict limit levels (depth + 1) budget := by
  obtain ⟨followed, within, spent⟩ := affords
  have within := within (Nat.succ_pos _)
  refine ⟨by omega, by omega, fun _ => by omega, fun lax => ?_⟩
  have := spent lax
  omega

/-- Where levels are left and the budget is none, errors are minded. -/
theorem Affords.minded (affords : Affords strict limit (levels + 1) depth 0) (deeper : depth + 1 ≤ limit) : strict := by
  by_contra lax
  have := affords.spent lax
  omega

/-- What the limit allows for and the levels let be followed. -/
theorem affords_all (limit levels : Nat) (depth : Int) :
    Affords strict limit levels depth (min levels (limit - depth).toNat) := by
  refine ⟨Nat.min_le_left _ _, fun some => ?_, fun _ => ?_⟩ <;> omega

theorem affords_less {lower higher : Nat} (less : lower ≤ higher) : Affords True higher higher 0 lower :=
  ⟨less, fun _ => by omega, fun lax => absurd trivial lax⟩

/-! ## Expressions -/

theorem not_isFineIf {t : ParseTree} (kind : t.kind = .error) (asked : strict) : ¬t.IsFineIf strict := by
  intro fine
  have self := fine asked t (ParseTree.self_mem_nodes t)
  rw [ParseTree.isError, kind] at self
  cases self

/-- Beyond a budget that is used up, an error is read. -/
theorem Affords.collapses (affords : Affords strict limit (levels + 1) depth 0) (inside : Production) :
    Mirrors (.depth depth) strict (entered limit inside collapse) collapse :=
  mirrors_entered (fun deeper => .of_errors fun s => not_isFineIf (kind_collapse s) (affords.minded deeper))
    fun _ => .collapse

/-- The induction is on the levels that are followed; the counter rises with each of them and falls behind it. -/
theorem mirrors_counted (affords : Affords strict limit levels depth budget) :
    Mirrors (.depth depth) strict (countedExpression limit levels) (expressionAt budget) ∧
      Mirrors (.depth depth) strict (countedUnary limit levels) (unaryAt budget) := by
  induction levels generalizing depth budget with
  | zero =>
    obtain rfl : budget = 0 := Nat.le_zero.mp affords.followed
    have collapsed : Mirrors (.depth depth) strict (entered limit collapse collapse) collapse :=
      mirrors_entered (fun _ => .collapse) fun _ => .collapse
    rw [funext expressionAt.eq_1, funext unaryAt.eq_1, countedExpression, countedUnary]
    exact ⟨collapsed, .ite (Unseen.depth depth).isAtUnary collapsed (.postfixed collapsed)⟩
  | succ levels ih =>
    rw [countedExpression, countedUnary]
    cases budget with
    | zero =>
      rw [funext expressionAt.eq_1, funext unaryAt.eq_1]
      exact ⟨affords.collapses _,
        .ite (Unseen.depth depth).isAtUnary (affords.collapses _) (.postfixed (affords.collapses _))⟩
    | succ budget =>
      obtain ⟨deeper, nested⟩ := affords.nested
      obtain ⟨expression, operand⟩ := ih nested
      have whole : Mirrors (.depth depth) strict
          (entered limit (ternary (countedUnary limit levels) (countedExpression limit levels)) collapse)
          (ternary (unaryAt budget) (expressionAt budget)) :=
        mirrors_entered (fun _ => .ternary operand expression) fun past => absurd deeper (Int.not_le.mpr past)
      have prefixed : Mirrors (.depth depth) strict (entered limit (unary (countedUnary limit levels)) collapse)
          (unary (unaryAt budget)) :=
        mirrors_entered (fun _ => .unary operand) fun past => absurd deeper (Int.not_le.mpr past)
      rw [funext (expressionAt.eq_2 · budget), funext (unaryAt.eq_2 · budget)]
      exact ⟨whole, .ite (Unseen.depth depth).isAtUnary prefixed (.postfixed whole)⟩

/-! ## Bodies -/

theorem error_closedBody (asked : strict) (s : State) : ¬(closedBody s).1.IsFineIf strict := by
  intro fine
  have fine : ((⟨_, (skipUntil (fun _ => true) s).2⟩ : Draft).attach none (skipUntil (fun _ => true) s).1).tree.IsFineIf
      strict := fine
  exact not_isFineIf (kind_skipUntil _ s) asked (isFineIf_of_attach fine).2

theorem mirrors_countedBody (affords : Affords strict limit levels depth budget) :
    Mirrors (.depth depth) strict (countedBody limit levels) (matchBodyAt budget) := by
  induction levels generalizing depth budget with
  | zero =>
    obtain rfl : budget = 0 := Nat.le_zero.mp affords.followed
    rw [matchBodyAt_zero, countedBody]
    exact .ite (c := (·.isAt .leftBrace)) ((Unseen.depth depth).isAt · _)
      (mirrors_entered (fun _ => mirrors_closedBody) fun _ => mirrors_closedBody) mirrors_bodiless
  | succ levels ih =>
    rw [countedBody]
    cases budget with
    | zero =>
      rw [matchBodyAt_zero]
      exact .ite (c := (·.isAt .leftBrace)) ((Unseen.depth depth).isAt · _)
        (mirrors_entered (fun deeper => .of_errors (error_closedBody (affords.minded deeper)))
          fun _ => mirrors_closedBody) mirrors_bodiless
    | succ budget =>
      obtain ⟨deeper, nested⟩ := affords.nested
      rw [matchBodyAt_succ_eq]
      exact .ite (c := (·.isAt .leftBrace)) ((Unseen.depth depth).isAt · _)
        (mirrors_entered (fun _ => mirrors_openBody (ih nested) (mirrors_counted nested).1)
          fun past => absurd deeper (Int.not_le.mpr past)) mirrors_bodiless

/-! ## The counter -/

/-- Every production of the parser with a counter mirrors one that does not look at the counter. -/
theorem mirrors_read (kind : Nonterminal) (limit levels : Nat) (depth : Int) :
    ∃ p, Mirrors (.depth depth) False (kind.read limit levels) p := by
  have affords : Affords False limit levels depth _ := affords_all limit levels depth
  obtain ⟨expression, operand⟩ := mirrors_counted affords
  have body := mirrors_countedBody affords
  cases kind with
  | rulesVersion => exact ⟨_, .rulesVersion⟩
  | service => exact ⟨_, body.serviceOf⟩
  | serviceName => exact ⟨_, .serviceName⟩
  | matchDef => exact ⟨_, body.matchDef⟩
  | matchPath => exact ⟨_, .matchPath⟩
  | captureSegment => exact ⟨_, .captureSegment⟩
  | segment kind => exact ⟨_, .segment kind⟩
  | matchBody => exact ⟨_, body⟩
  | functionDef => exact ⟨_, expression.functionDef⟩
  | functionBody => exact ⟨_, expression.functionBody⟩
  | variableDef => exact ⟨_, expression.variableDef⟩
  | returnStatement => exact ⟨_, expression.returnStatement⟩
  | ruleDef => exact ⟨_, expression.ruleDef⟩
  | expression => exact ⟨_, expression⟩
  | ternary => exact ⟨_, .ternary operand expression⟩
  | unary => exact ⟨_, operand⟩
  | postfixed => exact ⟨_, expression.postfixed⟩
  | primary => exact ⟨_, expression.primary⟩
  | memberField => exact ⟨_, expression.memberField⟩
  | index => exact ⟨_, expression.index⟩
  | joined tiers => exact ⟨_, operand.joined tiers⟩
  | functionCall => exact ⟨_, expression.functionCall⟩
  | argumentList => exact ⟨_, expression.argumentList⟩
  | parenthesized => exact ⟨_, expression.parenthesized⟩
  | list => exact ⟨_, expression.list⟩
  | map => exact ⟨_, expression.map⟩
  | mapEntry => exact ⟨_, expression.mapEntry⟩
  | path => exact ⟨_, expression.path⟩
  | interpolation => exact ⟨_, expression.interpolation⟩
  | leaf kind => exact ⟨_, .leafOf kind⟩
  | stray => exact ⟨_, .stray⟩
  | skipUntil stop => exact ⟨_, .skipUntil stop⟩
  | collapse => exact ⟨_, .collapse⟩

/-- Whatever is entered while a production reads is left again. -/
theorem depth_read (kind : Nonterminal) (limit levels : Nat) (s : State) :
    (kind.read limit levels s).2.depth = s.depth := by
  obtain ⟨p, mirrors⟩ := mirrors_read kind limit levels s.depth
  have read : kind.read limit levels s = ((p s).1, (p s).2.atDepth s.depth) := mirrors s False.elim
  rw [read]
  rfl

/-! ## Documents -/

variable (f : SourceFile)

/-- The items that the parser with a counter reads, where those that are read with a budget hold no error. -/
theorem documentItems_counted (affords : Affords strict limit limit 0 budget)
    (fine : (documentItems (serviceOf (matchBodyAt budget)) f).tree.IsFineIf strict) :
    documentItems (serviceOf (countedBody limit limit)) f =
      (documentItems (serviceOf (matchBodyAt budget)) f).under (.depth 0) :=
  documentItems_mirrored (mirrors_countedBody affords).serviceOf rfl fine

/-- The parser with a counter reads the same tree as the one with a budget, and counts back to where it has begun. -/
theorem parseCounted_eq (maxDepth : Int) : parseCounted f maxDepth = (parse f maxDepth, 0) := by
  have affords : Affords False (depthLimit maxDepth) (depthLimit maxDepth) 0 (depthLimit maxDepth) :=
    ⟨Nat.le_refl _, fun _ => by omega, fun _ => Or.inl rfl⟩
  have items := documentItems_counted f affords False.elim
  rw [parseCounted, items, closeRoot_under]
  rfl

theorem isFineIf_items {maxDepth : Int} (fine : ∀ n ∈ (parse f maxDepth).nodes, n.isError = false) :
    (items f maxDepth).tree.IsFineIf strict := by
  obtain ⟨grown, ended⟩ := grown_items f maxDepth
  rw [parse_eq] at fine
  refine ParseTree.isFineIf_iff.mpr ⟨fun _ => ?_, fun c member _ n inside => fine n ?_⟩
  · rw [ParseTree.isError, grown.kind]
    rfl
  · rw [ParseTree.mem_nodes, children_closeRoot grown ended]
    exact Or.inr ⟨c, by simp [member], inside⟩

/-- Where a tree holds no error, it is the same under every higher limit. Under any limit, the depth is back where it has
been behind every production, and so it is in the end. -/
theorem parse_of_deeper {d d' : Int} (positive : 1 ≤ d) (deeper : d ≤ d')
    (clean : ∀ n ∈ (parse f d).nodes, n.isError = false) :
    parse f d' = parse f d ∧ ∀ maxDepth, parseCounted f maxDepth = (parse f maxDepth, 0) ∧
      ∀ (kind : Nonterminal) (levels : Nat) (s : State),
        (kind.read (depthLimit maxDepth) levels s).2.depth = s.depth := by
  refine ⟨?_, fun maxDepth => ⟨parseCounted_eq f maxDepth, fun kind => depth_read kind _⟩⟩
  have less : depthLimit d ≤ depthLimit d' := by
    rw [depthLimit, depthLimit, if_neg (by omega), if_neg (by omega)]
    omega
  have items := documentItems_counted f (affords_less less) (isFineIf_items f clean)
  have counted := congrArg Prod.fst (parseCounted_eq f d')
  rw [parseCounted, items, closeRoot_under] at counted
  exact counted.symm

/-- Nothing is in the parentheses, which is no error. -/
def sampleHollow : SourceFile := SourceFile.ofBytes [] (Bytes.ofString "service a \x7b allow read: if (); \x7d") true

theorem parse_of_deeper_sampleHollow :
    (∀ n ∈ (parse sampleHollow 3).nodes, n.isError = false) ∧ parse sampleHollow 256 = parse sampleHollow 3 := by
  have clean : ∀ n ∈ (parse sampleHollow 3).nodes, n.isError = false := by decide +kernel
  exact ⟨clean, (parse_of_deeper sampleHollow (by decide) (by decide) clean).1⟩

end SecurityRules.Parser
