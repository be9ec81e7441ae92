import SecurityRules.Proofs.Grammar.Expressions

/-!
# Operators follow the grammar

Operators of all ranks are flat in the grammar. The parser reads them rank by rank; a run of tighter
operators is the longest one, so the ways to group a text agree on what it takes.
-/

namespace SecurityRules.Parser

open Grammar

variable {most : Nat} {ok : List Lexeme → Prop} {s : State} {d : Draft} {expression : Production}

/-- A production that reads operands joined by operators of at least some rank. -/
def Joins (most : Nat) (p : Production) (rank : Nat) : Prop :=
  ∀ s, FollowsAt most (joinedFrom rank) (Free (oneOf (joinedEnds rank))) s (p s)

theorem free_append {kinds others : List TokenKind} {ts : List Lexeme} :
    Free (oneOf (kinds ++ others)) ts ↔ Free (oneOf kinds) ts ∧ Free (oneOf others) ts := by
  simp only [Free, oneOf, List.contains_eq_mem, decide_eq_false_iff_not, List.mem_append, not_or]
  exact ⟨fun free => ⟨fun t head => (free t head).1, fun t head => (free t head).2⟩,
    fun free t head => ⟨free.1 t head, free.2 t head⟩⟩

theorem operatorsFrom_apart (rank : Nat) (t : Lexeme) (fits : oneOf (operatorsFrom rank) t = true) :
    oneOf operandEnds t = false := by
  rw [oneOf, List.contains_iff_mem, operatorsFrom, List.mem_filter] at fits
  have known := fits.1
  rw [oneOf]
  revert known
  cases t.kind <;> decide

theorem endOfInput_joinedEnds {rank : Nat} : TokenKind.endOfInput ∉ joinedEnds rank := by
  intro member
  rcases List.mem_append.mp member with operand | operator
  · exact absurd operand (by decide)
  · exact absurd (List.mem_filter.mp operator).1 (by decide)

/-- What stands in front of more operators takes the longest run of tighter ones. -/
theorem split_joined {rank higher : Nat} {ts us : List Lexeme} (positive : 0 < rank) (less : rank ≤ higher)
    (free : Free (oneOf (joinedEnds rank)) us)
    (derived : Derives rules (.symbol .operand ++ .many (itemFrom rank)) ts us) :
    ∃ ws, Free (oneOf (joinedEnds higher)) ws ∧ Derives rules (joinedFrom higher) ts ws ∧
      Derives rules (.many (itemFrom rank)) ws us := by
  obtain ⟨freeOperand, freeOperators⟩ := free_append.mp free
  obtain ⟨vs, operand, items⟩ := derives_seq.mp derived
  obtain ⟨ws, ended, run, behind⟩ := split_items positive less freeOperators items
  refine ⟨ws, free_append.mpr ⟨?_, ended⟩, .seq operand run, behind⟩
  exact freeOperand.of_opens behind (Opens.many (starts_itemFrom rank)) (operatorsFrom_apart rank)

theorem infixOperator?_some {kind : TokenKind} {tier : Tier} {tree : NodeKind}
    (found : infixOperator? kind = some (tier, tree)) : operatorRank kind = tier.rank ∧ tree ≠ .error ∧
      kind ≠ .endOfInput ∧ (tree = .typeComparison → kind = .kwIs) ∧
        (tree ≠ .typeComparison → ∀ t : Lexeme, t.kind = kind → isInfix t = true) := by
  refine ⟨by rw [operatorRank, found], ?_, ?_, ?_, ?_⟩
  · rintro rfl
    revert found
    cases kind <;> simp [infixOperator?]
  · rintro rfl
    cases found
  · rintro rfl
    revert found
    cases kind <;> simp [infixOperator?]
  · intro other t same
    rw [isInfix, same, found]
    simpa using other

/-- An operator that takes an expression, and the operands behind it as far as they bind more tightly. -/
theorem Heads.infix {rank higher : Nat} {ts : List Lexeme} (positive : 0 < rank) (less : rank ≤ higher)
    (going : headKind ts ∈ operatorsFrom rank) (other : headKind ts ≠ .kwIs) :
    Heads (itemFrom rank) (.word isInfix ++ joinedFrom higher) (Free (oneOf (joinedEnds rank)))
      (Free (oneOf (joinedEnds higher))) ts where
  items := by
    intro us derived
    obtain ⟨ws, operator, joined⟩ := derives_seq.mp derived
    obtain ⟨vs, operand, items⟩ := derives_seq.mp joined
    refine .more (derives_itemFrom.mpr ⟨.left (.seq operator operand), ?_⟩) (items_le positive less items)
    obtain ⟨t, rfl, _⟩ := derives_word.mp operator
    exact ⟨t, rfl, List.contains_iff_mem.mpr going⟩
  split := by
    intro rest derived free
    rcases derives_many.mp derived with rfl | ⟨vs, first, behind⟩
    · exact absurd (List.mem_append_right _ going) (free.headKind_not_mem endOfInput_joinedEnds)
    · rcases derives_or.mp (derives_itemFrom.mp first).1 with chosen | chosen
      · obtain ⟨ws, operator, operand⟩ := derives_seq.mp chosen
        obtain ⟨us, ended, joined, others⟩ := split_joined positive less free (.seq operand behind)
        refine ⟨us, ended, ?_, .seq operator joined, others⟩
        obtain ⟨t, rfl, _⟩ := derives_word.mp operator
        exact Nat.lt_succ_of_le joined.length_le
      · obtain ⟨ws, operator, _⟩ := derives_seq.mp chosen
        obtain ⟨t, rfl, kind⟩ := derives_token.mp operator
        exact absurd kind other

/-- A comparison with the name of a type, which takes no operators. -/
theorem Heads.comparison {rank : Nat} {ts : List Lexeme} (going : headKind ts ∈ operatorsFrom rank)
    (isComparison : headKind ts = .kwIs) :
    Heads (itemFrom rank) (.token .kwIs ++ .token .identifier) (Free (oneOf (joinedEnds rank)))
      anything ts where
  items := by
    intro us derived
    refine .more (derives_itemFrom.mpr ⟨.right derived, ?_⟩) .none
    obtain ⟨ws, operator, _⟩ := derives_seq.mp derived
    obtain ⟨t, rfl, _⟩ := derives_token.mp operator
    exact ⟨t, rfl, List.contains_iff_mem.mpr going⟩
  split := by
    intro rest derived free
    rcases derives_many.mp derived with rfl | ⟨vs, first, behind⟩
    · exact absurd (List.mem_append_right _ going) (free.headKind_not_mem endOfInput_joinedEnds)
    · rcases derives_or.mp (derives_itemFrom.mp first).1 with chosen | chosen
      · obtain ⟨ws, operator, _⟩ := derives_seq.mp chosen
        obtain ⟨t, rfl, fits⟩ := derives_word.mp operator
        have isComparison : t.kind = .kwIs := isComparison
        rw [isInfix, isComparison] at fits
        exact absurd fits Bool.false_ne_true
      · refine ⟨vs, trivial, ?_, chosen, behind⟩
        have starts : Starts rules (oneOf [.kwIs]) (.token .kwIs ++ .token .identifier) := Starts.token.seq
        exact (starts _ _ chosen).1

/-- An infix operator and its right operand. -/
def operandTurn (operand : Tier → Production) (found : Tier) (kind : NodeKind) (n : Draft) : Draft :=
  let n := n.take (some .operator)
  if kind = .typeComparison then
    if n.isAt .identifier then n.takeAs (some .right) .typeName else n.lacking (some .right) .typeName
  else n.place (some .right) (operand found)

/-- A comparison reads its operator and the name of a type. -/
theorem Follows.comparisonTurn {operand : Tier → Production} {tier : Tier} (isType : d.isAt .kwIs = true) :
    Follows most (.token .kwIs ++ .token .identifier) ok d (operandTurn operand tier .typeComparison d) := by
  have taken : Follows most (.token .kwIs) anything d (d.take (some .operator)) :=
    Follows.takeToken _ isType TokenKind.noConfusion
  rw [operandTurn, if_pos rfl]
  refine taken.bind ?_ free_anything
  generalize d.take (some .operator) = m
  split
  · rename_i found
    exact Follows.takeTokenAs _ found TokenKind.noConfusion NodeKind.noConfusion
  · rename_i absent
    exact Follows.dirty (dirty_lacking _ _ _) fun rest derived _ => absent (isAt_of_token derived)

/-- Any other operator is read with the operands that its right side takes. -/
theorem Follows.operandTurn {operand : Tier → Production} {tier : Tier} {kind : NodeKind} {t : Lexeme}
    {us : List Lexeme} (reads : Joins most (operand tier) (tier.rank + 1)) (other : kind ≠ .typeComparison)
    (ahead : d.words = t :: us) (fits : isInfix t = true) :
    Follows most (.word isInfix ++ joinedFrom (tier.rank + 1)) (Free (oneOf (joinedEnds (tier.rank + 1)))) d
      (operandTurn operand tier kind d) := by
  have taken : Follows most (.word isInfix) anything d (d.take (some .operator)) := Follows.take _ ahead fits
  rw [Parser.operandTurn, if_neg other]
  exact taken.bind (Follows.place (reads _)) free_anything

/-- A turn in front of an operator of at least some rank reads that operator and what it takes. -/
theorem Follows.infixTurn {operand : Tier → Production} {tier : Tier} (positive : 0 < tier.rank)
    (operands : ∀ t, tier.rank ≤ t.rank → Joins most (operand t) (t.rank + 1))
    (going : headKind d.words ∈ operatorsFrom tier.rank) :
    ∃ next χ inner, infixTurn operand tier d = .again next ∧ Follows most χ inner d next ∧
      Heads (itemFrom tier.rank) χ (Free (oneOf (joinedEnds tier.rank))) inner d.words := by
  have least := (mem_operatorsFrom positive).mp going
  rw [Parser.infixTurn, State.peek_kind]
  cases found : infixOperator? (headKind d.state.words) with
  | none =>
    rw [operatorRank, found] at least
    exact absurd (Nat.lt_of_lt_of_le positive least) (Nat.lt_irrefl 0)
  | some operator =>
    obtain ⟨higher, kind⟩ := operator
    obtain ⟨rank, proper, known, comparison, infixes⟩ := infixOperator?_some found
    have less : tier.rank ≤ higher.rank := rank ▸ least
    dsimp only
    rw [if_pos less]
    by_cases isComparison : kind = .typeComparison
    · subst isComparison
      have isType : headKind d.words = .kwIs := comparison rfl
      refine ⟨_, _, _, rfl, Follows.enclose .typeComparison (some .left)
        (Parser.operandTurn operand higher .typeComparison) (fun n same => Follows.comparisonTurn ?_) proper,
        Heads.comparison going isType⟩
      rw [Draft.isAt_eq, Draft.words, same, beq_iff_eq]
      exact isType
    · obtain ⟨t, us, words, isOperator⟩ := headKind_eq (rfl : headKind d.state.words = _) known
      have ahead : ∀ n : Draft, n.state = d.state → n.words = t :: us := by
        intro n same
        rw [Draft.words, same]
        exact words
      refine ⟨_, _, _, rfl, Follows.enclose kind (some .left) (Parser.operandTurn operand higher kind)
        (fun n same => Follows.operandTurn (operands higher less) isComparison (ahead n same)
          (infixes isComparison t isOperator))
        proper, Heads.infix positive (Nat.le_succ_of_le less) going fun isType => ?_⟩
      have isType : headKind d.state.words = .kwIs := isType
      rw [isType] at found
      cases found
      exact isComparison rfl

/-- In front of anything else there are no more turns. -/
theorem infixTurn_stops {operand : Tier → Production} {tier : Tier} (positive : 0 < tier.rank)
    (stopped : ¬ headKind d.words ∈ operatorsFrom tier.rank) : infixTurn operand tier d = .done d := by
  rw [infixTurn, State.peek_kind]
  cases found : infixOperator? (headKind d.state.words) with
  | none => rfl
  | some operator =>
    obtain ⟨higher, kind⟩ := operator
    dsimp only
    rw [if_neg]
    intro less
    apply stopped
    rw [mem_operatorsFrom positive, operatorRank, found]
    exact less

/-- Operands joined by the operators of a rank, given what stands beside the operators of that rank and of
the tighter ones. -/
theorem Joins.infixed {operand : Tier → Production} {tier : Tier}
    (operands : ∀ t, tier.rank ≤ t.rank → Joins most (operand t) (t.rank + 1)) :
    Joins most (infixed operand tier) tier.rank := by
  have positive : 0 < tier.rank := by cases tier <;> decide
  intro s
  have first := operands tier (Nat.le_refl _) s
  rw [Parser.infixed]
  generalize operand tier s = r at first ⊢
  obtain ⟨tree, v⟩ := r
  have items : Follows most (.many (itemFrom tier.rank)) (Free (oneOf (joinedEnds tier.rank))) ⟨tree, v⟩
      ((Draft.mk tree v).loop (infixTurn operand tier)) :=
    Follows.repeated (headKind · ∈ operatorsFrom tier.rank) (fun _ => Follows.infixTurn positive operands)
      (fun _ => infixTurn_stops positive) fun ts us => (starts_itemFrom _).headKind_mem
  refine first.compose items ?_ ?_
  · intro joined vs others
    obtain ⟨ws, operand, run⟩ := derives_seq.mp joined
    exact .seq operand ((items_le positive (Nat.le_succ _) run).many_append others)
  · intro short rest derived free
    obtain ⟨us, ended, joined, others⟩ := split_joined positive (Nat.le_succ _) free derived
    exact ⟨us, ended, joined, fun _ => ⟨Nat.le_trans joined.length_le short, others⟩⟩

/-- Operands of which those beside an operator of at least some rank are joined by tighter operators only. -/
structure Operands.Ranked (most : Nat) (o : Operands) (rank : Nat) : Prop where
  beside : ∀ t, rank ≤ t.rank → Joins most (o.beside t) (t.rank + 1)
  joined : Joins most o.joined rank

theorem Operands.Ranked.loosen {o : Operands} {tier : Tier} (ranked : o.Ranked most (tier.rank + 1)) :
    (o.loosen tier).Ranked most tier.rank := by
  have beside : ∀ t, tier.rank ≤ t.rank → Joins most ((o.loosen tier).beside t) (t.rank + 1) := by
    intro t least
    by_cases same : t = tier
    · subst same
      have joined : (o.loosen t).beside t = o.joined := if_pos rfl
      rw [joined]
      exact ranked.joined
    · have kept : (o.loosen tier).beside t = o.beside t := if_neg same
      rw [kept]
      have tighter : tier.rank ≠ t.rank := fun rank => same (by revert rank; cases t <;> cases tier <;> decide)
      exact ranked.beside t (Nat.lt_of_le_of_ne least tighter)
  exact ⟨beside, Joins.infixed beside⟩

/-- A production that reads operands. -/
def Operates (most : Nat) (operand : Production) : Prop :=
  ∀ s, FollowsAt most (.symbol .operand) (Free (oneOf operandEnds)) s (operand s)

/-- No operator binds more tightly than multiplication. -/
theorem Operates.joins {operand : Production} (operates : Operates most operand) :
    Joins most operand 6 := by
  intro s
  refine ((operates s).mono (Nat.le_refl _) fun rest free => (free_append.mp free).1).congr fun rest => ?_
  constructor
  · intro derived
    obtain ⟨us, operand, items⟩ := derives_seq.mp derived
    rcases derives_many.mp items with rfl | ⟨vs, first, _⟩
    · exact operand
    · exact absurd ((starts_itemFrom 6).headKind_mem first) List.not_mem_nil
  · exact fun operand => .seq operand .none

theorem Follows.binary {operand : Production} (operates : Operates most operand) :
    FollowsAt most (.symbol .joined) (Free (oneOf (joinedEnds 1))) s (binary operand s) := by
  have start : Operands.Ranked most { beside := fun _ => operand, joined := operand } 6 := by
    refine ⟨fun t least => absurd least ?_, operates.joins⟩
    cases t <;> decide
  have multiplied : (Operands.loosen _ .multiplication).Ranked most 5 := Operands.Ranked.loosen start
  have added : (Operands.loosen _ .addition).Ranked most 4 := Operands.Ranked.loosen multiplied
  have related : (Operands.loosen _ .relation).Ranked most 3 := Operands.Ranked.loosen added
  have conjoined : (Operands.loosen _ .conjunction).Ranked most 2 := Operands.Ranked.loosen related
  have ranked : (Operands.loosen _ .disjunction).Ranked most 1 := Operands.Ranked.loosen conjoined
  have joined := ranked.joined s
  rw [joinedFrom_one] at joined
  exact Follows.symbol joined

theorem headKind_of_isAtUnary (found : s.isAtUnary = true) : headKind s.words ∈ [TokenKind.bang, .minus] := by
  simpa [State.isAtUnary, State.isAtAny, State.peek_kind] using found

theorem Follows.unary {operand : Production} (operates : Operates most operand)
    (found : s.isAtUnary = true) : FollowsAt (most + 1) (.symbol .operand) (Free (oneOf operandEnds)) s
      (unary operand s) := by
  have kinds := headKind_of_isAtUnary found
  have apart : ∀ kind ∈ [TokenKind.bang, .minus], kind ≠ .endOfInput ∧ primaryStarts.contains kind = false := by
    decide
  refine Follows.symbol (Follows.leftOf ?_ starts_accessed (apart _ kinds).2)
  · refine Follows.branch ?_ (NodeKind.noConfusion : NodeKind.unary ≠ .error)
    obtain ⟨t, us, words, same⟩ := headKind_eq (rfl : headKind s.words = _) (apart _ kinds).1
    have taken : Follows (most + 1) (.word (oneOf [.bang, .minus])) anything (Draft.opened .unary s)
        ((Draft.opened .unary s).take (some .operator)) :=
      Follows.take _ words (List.contains_iff_mem.mpr (by rw [same]; exact kinds))
    exact taken.bind_shorter (Follows.place (operates _)) Starts.word free_anything

theorem Follows.ternary {operand : Production} (operates : Operates (most + 1) operand)
    (expressive : Expressive most expression) : FollowsAt (most + 1) (.symbol .expression)
      (Free (oneOf expressionEnds)) s (ternary operand expression s) := by
  have first : FollowsAt (most + 1) (.symbol .joined) (Free (oneOf (joinedEnds 1))) s
      (Parser.binary operand s) := Follows.binary operates
  rw [Parser.ternary]
  generalize Parser.binary operand s = r at first ⊢
  obtain ⟨tree, v⟩ := r
  have starts : Starts rules (oneOf [.question])
      (.token .question ++ .symbol .expression ++ .token .colon ++ .symbol .expression) :=
    Starts.token.seq.seq.seq
  have behind : ∀ us vs, Derives rules (.maybe (.token .question ++ .symbol .expression ++ .token .colon ++
      .symbol .expression)) us vs → Free (oneOf expressionEnds) vs → Free (oneOf (joinedEnds 1)) us := by
    intro us vs derived free
    exact (free_append.mp free).1.of_opens derived (Opens.maybe starts) (oneOf_apart (by decide))
  refine Follows.symbol (Follows.bind_shorter first ?_ starts_joined behind)
  dsimp only
  split
  · rename_i found
    refine Follows.maybe_left ?_ fun free => ?_
    · refine Follows.enclose .ternary (some .condition)
        (fun d => ((d.take.place (some .consequence) expression).expect .colon).place (some .alternative)
          expression) (fun n same => ?_) NodeKind.noConfusion
      have question : Follows most (.token .question) anything n n.take :=
        Follows.takeToken none ((congrArg (·.isAt .question) same).trans found) TokenKind.noConfusion
      have consequence := question.bind (Follows.nested expressive (some .consequence)) free_anything
      exact (consequence.bind (Follows.expect TokenKind.noConfusion) (free_token (by decide))).bind
        (Follows.nested expressive (some .alternative)) free_anything
    · have kind : headKind v.words = .question := beq_iff_eq.mp ((State.isAt_eq v .question).symm.trans found)
      have free := free.headKind_not_mem (by decide)
      have kind : headKind (Draft.mk tree v).words = .question := kind
      rw [kind] at free
      exact free (by decide)
  · rename_i absent
    rw [State.isAt_eq] at absent
    exact Follows.maybe_none (underivable starts (by simpa using absent))

/-! ## Nesting -/

/-- Without an operator in front of it, an operand is an expression with accesses behind it. -/
theorem Follows.accessed (expressive : Expressive most expression) (absent : ¬ s.isAtUnary = true) :
    FollowsAt (most + 1) (.symbol .operand) (Free (oneOf operandEnds)) s
      (Parser.postfixed expression s) := by
  have starts : Starts rules (oneOf [.bang, .minus]) (.word (oneOf [.bang, .minus]) ++ .symbol .operand) :=
    Starts.word.seq
  refine Follows.symbol (Follows.rightOf (Follows.postfixed expressive) starts ?_)
  show ([TokenKind.bang, .minus].contains (headKind s.words)) = false
  simpa [State.isAtUnary, State.isAtAny, State.peek_kind] using absent

/-- No expression is that short. -/
theorem expressive_collapse : Expressive 0 collapse := by
  intro s
  refine Follows.exhausted (dirty_of_hasError (hasError_collapse s)) fun rest derived _ => ?_
  exact Nat.lt_of_le_of_lt (Nat.zero_le _) (starts_expression _ _ derived).1

/-- An operator and its operand take two tokens. -/
theorem exhausted_collapse (found : s.isAtUnary = true) :
    FollowsAt 1 (.symbol .operand) ok s (collapse s) := by
  refine Follows.exhausted (dirty_of_hasError (hasError_collapse s)) fun rest derived _ => ?_
  have kinds := headKind_of_isAtUnary found
  rcases derives_or.mp (derives_symbol.mp derived) with chosen | chosen
  · obtain ⟨us, operator, operand⟩ := derives_seq.mp chosen
    obtain ⟨t, split, _⟩ := derives_word.mp operator
    have longer := (starts_operand _ _ operand).1
    rw [split, List.length_cons]
    omega
  · have apart : ∀ kind ∈ [TokenKind.bang, .minus], kind ∉ primaryStarts := by decide
    exact absurd (starts_accessed.headKind_mem chosen) (apart _ kinds)

mutual

theorem expressive_expressionAt : (budget : Nat) → Expressive budget (expressionAt budget)
  | 0 => by
    intro s
    rw [expressionAt]
    exact expressive_collapse s
  | budget + 1 => by
    intro s
    rw [expressionAt]
    exact Follows.ternary (operates_unaryAt budget) (expressive_expressionAt budget)

theorem operates_unaryAt : (budget : Nat) → Operates (budget + 1) (unaryAt budget)
  | 0 => by
    intro s
    rw [unaryAt]
    split
    · rename_i found
      exact exhausted_collapse found
    · rename_i absent
      exact Follows.accessed expressive_collapse absent
  | budget + 1 => by
    intro s
    rw [unaryAt]
    split
    · rename_i found
      exact Follows.unary (operates_unaryAt budget) found
    · rename_i absent
      refine Follows.accessed (fun v => ?_) absent
      exact Follows.ternary (operates_unaryAt budget) (expressive_expressionAt budget)

end

end SecurityRules.Parser
