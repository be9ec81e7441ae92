import SecurityRules.Proofs.Grammar.Steps

/-!
# Expressions follow the grammar

For each production of expressions, the rule it follows. The nesting allowed covers every text with no more
tokens than that.
-/

namespace SecurityRules.Grammar

open SecurityRules.Parser (headKind)

/-! ## First tokens -/

theorem Starts.token {kind : TokenKind} : Starts rules (oneOf [kind]) (.token kind) := by
  refine Starts.word.mono ?_
  intro t fits
  simpa [oneOf] using fits

theorem Starts.or_append {kinds others : List TokenKind} {φ ψ : Phrase Symbol}
    (left : Starts rules (oneOf kinds) φ) (right : Starts rules (oneOf others) ψ) :
    Starts rules (oneOf (kinds ++ others)) (φ ||| ψ) := by
  refine Starts.or (left.mono ?_) (right.mono ?_)
  · intro t fits
    rw [oneOf, List.contains_eq_mem, decide_eq_true_eq] at fits ⊢
    exact List.mem_append_left _ fits
  · intro t fits
    rw [oneOf, List.contains_eq_mem, decide_eq_true_eq] at fits ⊢
    exact List.mem_append_right _ fits

theorem Starts.headKind_mem {kinds : List TokenKind} {φ : Phrase Symbol} {ts us : List Lexeme}
    (starts : Starts rules (oneOf kinds) φ) (derived : Derives rules φ ts us) : headKind ts ∈ kinds := by
  obtain ⟨_, t, head, fits⟩ := starts ts us derived
  cases ts with
  | nil => cases head
  | cons u rest =>
    obtain rfl := Option.some.inj head
    exact List.contains_iff_mem.mp fits

theorem Free.headKind_not_mem {kinds : List TokenKind} {ts : List Lexeme} (free : Free (oneOf kinds) ts)
    (known : TokenKind.endOfInput ∉ kinds) : headKind ts ∉ kinds := by
  cases ts with
  | nil => exact known
  | cons t rest =>
    intro member
    exact Bool.false_ne_true ((free t rfl).symm.trans (List.contains_iff_mem.mpr member))

theorem underivable {kinds : List TokenKind} {φ : Phrase Symbol} {ts : List Lexeme}
    (starts : Starts rules (oneOf kinds) φ) (other : kinds.contains (headKind ts) = false)
    (rest : List Lexeme) (derived : Derives rules φ ts rest) : False := by
  have found := List.contains_iff_mem.mpr (starts.headKind_mem derived)
  exact Bool.false_ne_true (other.symm.trans found)

/-- The tokens that primary expressions start with. -/
def primaryStarts : List TokenKind :=
  [TokenKind.identifier] ++ [TokenKind.number, .string, .kwTrue, .kwFalse, .kwNull] ++ [TokenKind.leftParen] ++
    [TokenKind.leftBracket] ++ [TokenKind.leftBrace] ++ [TokenKind.slash]

theorem starts_name : Starts rules (oneOf [.identifier])
    (.token .identifier ++ .maybe (.symbol .arguments)) :=
  Starts.token.seq

theorem starts_literal : Starts rules (oneOf [.number, .string, .kwTrue, .kwFalse, .kwNull])
    (.word (oneOf [.number, .string, .kwTrue, .kwFalse, .kwNull])) :=
  Starts.word

theorem starts_parenthesized : Starts rules (oneOf [.leftParen])
    (.token .leftParen ++ .symbol .expression ++ .token .rightParen) :=
  Starts.token.seq.seq

theorem starts_list : Starts rules (oneOf [.leftBracket]) (.symbol .list) :=
  Starts.symbol Starts.token.seq.seq

theorem starts_map : Starts rules (oneOf [.leftBrace]) (.symbol .map) :=
  Starts.symbol Starts.token.seq.seq

theorem starts_path : Starts rules (oneOf [.slash]) (.symbol .path) :=
  Starts.symbol Starts.token.seq.seq.seq

theorem starts_arguments : Starts rules (oneOf [.leftParen]) (.symbol .arguments) :=
  Starts.symbol Starts.token.seq.seq

theorem starts_primary : Starts rules (oneOf primaryStarts) (.symbol .primary) :=
  Starts.symbol (((((starts_name.or_append starts_literal).or_append starts_parenthesized).or_append
    starts_list).or_append starts_map).or_append starts_path)

theorem starts_accessed : Starts rules (oneOf primaryStarts) (.symbol .accessed) :=
  Starts.symbol starts_primary.seq

/-- The tokens that expressions start with. -/
def expressionStarts : List TokenKind := [TokenKind.bang, .minus] ++ primaryStarts

theorem starts_operand : Starts rules (oneOf expressionStarts) (.symbol .operand) :=
  Starts.symbol (Starts.or_append Starts.word.seq starts_accessed)

theorem starts_joined : Starts rules (oneOf expressionStarts) (.symbol .joined) :=
  Starts.symbol starts_operand.seq

theorem starts_expression : Starts rules (oneOf expressionStarts) (.symbol .expression) :=
  Starts.symbol starts_joined.seq

theorem starts_entry : Starts rules (oneOf expressionStarts) (.symbol .entry) :=
  Starts.symbol starts_expression.seq.seq

/-! ## Operators tier by tier -/

/-- How tightly a token binds its operands; tokens that are no infix operators have rank 0. -/
def operatorRank (kind : TokenKind) : Nat :=
  match Parser.infixOperator? kind with
  | some (tier, _) => tier.rank
  | none => 0

/-- The infix operators of at least some rank. -/
def operatorsFrom (rank : Nat) : List TokenKind :=
  [.orOr, .andAnd, .equalEqual, .bangEqual, .less, .lessEqual, .greater, .greaterEqual, .kwIn, .kwIs, .plus,
    .minus, .star, .slash, .percent].filter fun kind => rank ≤ operatorRank kind

theorem mem_operatorsFrom {rank : Nat} {kind : TokenKind} (positive : 0 < rank) :
    kind ∈ operatorsFrom rank ↔ rank ≤ operatorRank kind := by
  rw [operatorsFrom, List.mem_filter, decide_eq_true_eq, and_iff_right_iff_imp]
  intro least
  have known : 0 < operatorRank kind := Nat.lt_of_lt_of_le positive least
  revert known
  cases kind <;> decide

/-- An operator of at least some rank and its right operand. -/
def itemFrom (rank : Nat) : Phrase Symbol :=
  .word (fun t => isInfix t && oneOf (operatorsFrom rank) t) ++ .symbol .operand |||
    .word (fun t => t.kind == .kwIs && oneOf (operatorsFrom rank) t) ++ .token .identifier

/-- Operands joined by operators of at least some rank. -/
def joinedFrom (rank : Nat) : Phrase Symbol := .symbol .operand ++ .many (itemFrom rank)

theorem joinedFrom_one : joinedFrom 1 = rules .joined := by
  have infixes : (fun t => isInfix t && oneOf (operatorsFrom 1) t) = isInfix := by
    funext ⟨kind, text, glued⟩
    cases kind <;> rfl
  have comparison : (fun t : Lexeme => t.kind == .kwIs && oneOf (operatorsFrom 1) t) =
      fun t => t.kind == .kwIs := by
    funext ⟨kind, text, glued⟩
    cases kind <;> rfl
  rw [joinedFrom, itemFrom, infixes, comparison]
  rfl

theorem derives_guarded {sort guard : Lexeme → Bool} {ψ : Phrase Symbol} {ts us : List Lexeme} :
    Derives rules (.word (fun t => sort t && guard t) ++ ψ) ts us ↔
      Derives rules (.word sort ++ ψ) ts us ∧ ∃ t ∈ ts.head?, guard t = true := by
  rw [derives_seq, derives_seq]
  constructor
  · rintro ⟨ws, first, second⟩
    obtain ⟨t, rfl, fits⟩ := derives_word.mp first
    obtain ⟨found, guarded⟩ := Bool.and_eq_true_iff.mp fits
    exact ⟨⟨ws, .word found, second⟩, t, rfl, guarded⟩
  · rintro ⟨⟨ws, first, second⟩, u, head, guarded⟩
    obtain ⟨t, rfl, fits⟩ := derives_word.mp first
    obtain rfl := Option.some.inj head
    exact ⟨ws, .word (Bool.and_eq_true_iff.mpr ⟨fits, guarded⟩), second⟩

/-- The rank of its operator is all that an item of some rank is asked for. -/
theorem derives_itemFrom {rank : Nat} {ts us : List Lexeme} : Derives rules (itemFrom rank) ts us ↔
    Derives rules (.word isInfix ++ .symbol .operand ||| .token .kwIs ++ .token .identifier) ts us ∧
      ∃ t ∈ ts.head?, oneOf (operatorsFrom rank) t = true := by
  rw [itemFrom, derives_or, derives_or, derives_guarded, derives_guarded, or_and_right]
  rfl

theorem starts_itemFrom (rank : Nat) : Starts rules (oneOf (operatorsFrom rank)) (itemFrom rank) := by
  refine Starts.or (Starts.word.seq.mono ?_) (Starts.word.seq.mono ?_)
  · intro t fits
    exact (Bool.and_eq_true_iff.mp fits).2
  · intro t fits
    exact (Bool.and_eq_true_iff.mp fits).2

theorem oneOf_operatorsFrom {rank : Nat} {t : Lexeme} (positive : 0 < rank) :
    oneOf (operatorsFrom rank) t = true ↔ rank ≤ operatorRank t.kind := by
  rw [oneOf, List.contains_eq_mem, decide_eq_true_eq, mem_operatorsFrom positive]

theorem operatorsFrom_le {rank higher : Nat} (positive : 0 < rank) (less : rank ≤ higher) (t : Lexeme)
    (fits : oneOf (operatorsFrom higher) t = true) : oneOf (operatorsFrom rank) t = true := by
  rw [oneOf_operatorsFrom (Nat.lt_of_lt_of_le positive less)] at fits
  exact (oneOf_operatorsFrom positive).mpr (Nat.le_trans less fits)

/-- Items of a rank are items of the ranks below. -/
theorem items_le {rank higher : Nat} {ts us : List Lexeme} (positive : 0 < rank) (less : rank ≤ higher)
    (derived : Derives rules (.many (itemFrom higher)) ts us) :
    Derives rules (.many (itemFrom rank)) ts us := by
  refine derived.many_induct (P := fun ts => Derives rules (.many (itemFrom rank)) ts us) .none ?_
  intro _ _ first _ others
  obtain ⟨item, t, head, fits⟩ := derives_itemFrom.mp first
  exact .more (derives_itemFrom.mpr ⟨item, t, head, operatorsFrom_le positive less t fits⟩) others

/-- The longest run of tighter operators in front of a list of items. -/
theorem split_items {rank higher : Nat} {ts us : List Lexeme} (positive : 0 < rank) (less : rank ≤ higher)
    (free : Free (oneOf (operatorsFrom rank)) us) (derived : Derives rules (.many (itemFrom rank)) ts us) :
    ∃ ws, Free (oneOf (operatorsFrom higher)) ws ∧ Derives rules (.many (itemFrom higher)) ts ws ∧
      Derives rules (.many (itemFrom rank)) ws us := by
  refine derived.many_induct (P := fun ts => ∃ ws, Free (oneOf (operatorsFrom higher)) ws ∧
    Derives rules (.many (itemFrom higher)) ts ws ∧ Derives rules (.many (itemFrom rank)) ws us) ?_ ?_
  · exact ⟨us, free.mono (operatorsFrom_le positive less), .none, .none⟩
  · rintro xs ys first others ⟨ws, ended, run, behind⟩
    obtain ⟨item, t, head, _⟩ := derives_itemFrom.mp first
    by_cases tight : oneOf (operatorsFrom higher) t = true
    · exact ⟨ws, ended, .more (derives_itemFrom.mpr ⟨item, t, head, tight⟩) run, behind⟩
    · refine ⟨xs, ?_, .none, .more first others⟩
      intro u headU
      obtain rfl := Option.some.inj (head.symm.trans headU)
      exact Bool.eq_false_iff.mpr tight

end SecurityRules.Grammar

namespace SecurityRules.Parser

open Grammar

variable {most : Nat} {ok : List Lexeme → Prop} {s : State} {d : Draft} {expression : Production}

/-! ## Path segments -/

/-- A run of lexemes of a sort, up to one that is not. -/
theorem derives_run {sort : Lexeme → Bool} {ts us : List Lexeme} :
    Derives rules (.many (.word sort) ++ .stop sort) ts us ↔ us = ts.dropWhile sort := by
  rw [derives_seq]
  constructor
  · rintro ⟨ws, run, ended⟩
    obtain ⟨rfl, free⟩ := derives_stop.mp ended
    refine run.many_induct (P := fun ts => ws = ts.dropWhile sort) ?_ ?_
    · cases ws with
      | nil => rfl
      | cons t rest => rw [List.dropWhile_cons_of_neg (by simpa using free t rfl)]
    · intro xs ys item _ same
      obtain ⟨t, rfl, fits⟩ := derives_word.mp item
      rw [List.dropWhile_cons_of_pos fits]
      exact same
  · rintro rfl
    induction ts with
    | nil => exact ⟨[], .none, derives_stop.mpr ⟨rfl, fun t head => by cases head⟩⟩
    | cons t rest ih =>
      by_cases fits : sort t = true
      · obtain ⟨ws, run, ended⟩ := ih
        rw [List.dropWhile_cons_of_pos fits]
        exact ⟨ws, .more (.word fits) run, ended⟩
      · rw [List.dropWhile_cons_of_neg fits]
        refine ⟨_, .none, derives_stop.mpr ⟨rfl, fun u head => ?_⟩⟩
        rw [← Option.some.inj head]
        simpa using fits

/-- Whether the text goes on with a token of the segment. -/
theorem gluedSegment_iff {s : State} : (isSegmentToken s.peek.kind && s.isAdjacent) = true ↔
    ∃ t ∈ s.words.head?, isGluedSegment t = true := by
  rw [State.peek_kind]
  cases words : s.words with
  | nil => simp [headKind, isSegmentToken, TokenKind.isKeyword, TokenKind.keywords]
  | cons t us =>
    rw [State.isAdjacent_eq words]
    simp [headKind, isGluedSegment]

theorem words_passSegment (s : State) : s.passSegment.words = s.words.tail.dropWhile isGluedSegment ∧
    (s.Tidy → s.passSegment.Tidy) := by
  rw [← State.words_advance]
  have tidy : s.Tidy → s.advance.Tidy := State.Tidy.advance
  rw [State.passSegment]
  generalize s.advance = v at tidy ⊢
  have goes : ∀ v : State, (isSegmentToken v.peek.kind && v.isAdjacent) = true →
      ∃ t us, v.words = t :: us ∧ isGluedSegment t = true ∧ v.advance.words = us := by
    intro v going
    obtain ⟨t, head, fits⟩ := gluedSegment_iff.mp going
    obtain ⟨us, words⟩ := List.head?_eq_some_iff.mp head
    refine ⟨t, us, words, fits, ?_⟩
    rw [State.words_advance, words]
    rfl
  fun_induction iterate id (fun s : State =>
    if isSegmentToken s.peek.kind && s.isAdjacent then Turn.again s.advance else .done s) v with
  | case1 v next found =>
    split at found
    · cases found
    · rename_i stopped
      rw [← Turn.done.inj found]
      refine ⟨?_, tidy⟩
      cases words : v.words with
      | nil => rfl
      | cons t us =>
        rw [List.dropWhile_cons_of_neg]
        exact fun glued => stopped (gluedSegment_iff.mpr ⟨t, by rw [words]; rfl, glued⟩)
  | case2 v next found shorter ih =>
    split at found
    · rename_i going
      obtain rfl := Turn.again.inj found
      obtain ⟨t, us, words, fits, behind⟩ := goes v going
      obtain ⟨same, tidy'⟩ := ih fun tidyS => (tidy tidyS).advance
      refine ⟨?_, tidy'⟩
      rw [words, List.dropWhile_cons_of_pos fits, same, behind]
    · cases found
  | case3 v next found longer =>
    split at found
    · rename_i going
      obtain rfl := Turn.again.inj found
      obtain ⟨t, us, words, fits, behind⟩ := goes v going
      have shorter : v.advance.words.length < v.words.length := by
        rw [words, behind]
        exact Nat.lt_succ_self _
      rw [State.length_words, State.length_words] at shorter
      exact absurd shorter longer
    · cases found

theorem Follows.segment {leaf : NodeKind} (found : isSegmentToken s.peek.kind = true)
    (other : leaf ≠ .error) : FollowsAt most (.symbol .segment) ok s (segment leaf s) := by
  have derives : ∀ rest, Derives rules (.symbol .segment) s.words rest ↔ rest = s.passSegment.words := by
    intro rest
    rw [(words_passSegment s).1, derives_symbol]
    show Derives rules (.word (isSegmentToken ·.kind) ++ .many (.word isGluedSegment) ++
      .stop isGluedSegment) s.words rest ↔ _
    cases words : s.words with
    | nil =>
      rw [State.peek_kind, words] at found
      exact absurd found Bool.false_ne_true
    | cons t us =>
      rw [List.tail_cons, ← derives_run, derives_seq, derives_seq]
      constructor
      · rintro ⟨ws, run, ended⟩
        obtain ⟨xs, first, run⟩ := derives_seq.mp run
        obtain ⟨u, split, _⟩ := derives_word.mp first
        obtain ⟨_, rfl⟩ := List.cons.inj split
        exact ⟨ws, run, ended⟩
      · rintro ⟨ws, run, ended⟩
        rw [State.peek_kind, words] at found
        exact ⟨ws, derives_seq.mpr ⟨us, .word found, run⟩, ended⟩
  have tidy := (words_passSegment s).2
  refine ⟨fun _ => rfl, fun tidyS _ => ⟨tidy tidyS, ?_⟩, fun _ _ _ rest derived _ => ⟨?_, ?_⟩⟩
  · exact (derives _).mpr rfl
  · rw [Draft.isClean, hasError_eq_any]
    simp [Parser.segment, State.leaf, ParseTree.childless, ParseTree.isFlagged, ParseTree.isError,
      ParseTree.kind, ParseTree.isMissing, ParseTree.children, other]
  · exact ((derives rest).mp derived).symm

/-! ## Items between commas -/

/-- A loop over items between commas that halts at tokens of some kinds. -/
theorem Follows.separated {kinds : List TokenKind} {φ : Phrase Symbol} {inner : List Lexeme → Prop}
    {turn : Draft → Turn Draft} (halts : TokenKind → Bool) (item : Draft → Draft)
    (turns : ∀ v : Draft, turn v = if halts (headKind v.words) then .done v
      else if (item v).isAt .comma then .again (item v).take else .done (item v))
    (starts : Starts rules (oneOf kinds) φ) (going : kinds.all (!halts ·) = true)
    (follows : ∀ v : Draft, halts (headKind v.words) = false → Follows most φ inner v (item v))
    (fits : ∀ us, headKind us = .comma ∨ ok us → inner us)
    (ended : ∀ us, ok us → halts (headKind us) = true ∧ headKind us ≠ .comma)
    (open' : halts (headKind d.words) = false) : Follows most (.commaList φ) ok d (d.loop turn) := by
  refine Follows.commaLoop (fun ts => halts (headKind ts) = false) item ?_ ?_ ?_ ?_ fits open'
  · intro v goes
    refine ⟨follows v goes, ?_⟩
    rw [turns, goes, if_neg Bool.false_ne_true]
  · intro v stopped
    rw [turns, if_pos (Bool.not_eq_false _ ▸ stopped)]
  · intro ts us derived
    have found := List.all_eq_true.mp going _ (starts.headKind_mem derived)
    exact (Bool.not_eq_true' _).mp found
  · intro us good
    obtain ⟨halted, other⟩ := ended us good
    exact ⟨fun open' => Bool.false_ne_true (open'.symm.trans halted), other⟩

/-- Such a loop that may halt at once. -/
theorem Follows.maybeSeparated {kinds : List TokenKind} {φ : Phrase Symbol} {inner : List Lexeme → Prop}
    {turn : Draft → Turn Draft} (halts : TokenKind → Bool) (item : Draft → Draft)
    (turns : ∀ v : Draft, turn v = if halts (headKind v.words) then .done v
      else if (item v).isAt .comma then .again (item v).take else .done (item v))
    (starts : Starts rules (oneOf kinds) φ) (going : kinds.all (!halts ·) = true)
    (follows : ∀ v : Draft, halts (headKind v.words) = false → Follows most φ inner v (item v))
    (fits : ∀ us, headKind us = .comma ∨ ok us → inner us)
    (ended : ∀ us, ok us → halts (headKind us) = true ∧ headKind us ≠ .comma) :
    Follows most (.maybe (.commaList φ)) ok d (d.loop turn) := by
  cases open' : halts (headKind d.words) with
  | true =>
    have stays : d.loop turn = d := by rw [Draft.loop, iterate, turns, if_pos open']
    rw [stays]
    refine Follows.maybe_none fun rest derived => ?_
    obtain ⟨us, head, _⟩ := derives_commaList.mp derived
    have found := List.all_eq_true.mp going _ (starts.headKind_mem head)
    exact Bool.false_ne_true (((Bool.not_eq_true' _).mp found).symm.trans open')
  | false =>
    refine (Follows.separated halts item turns starts going follows fits ended open').maybe_left fun good => ?_
    exact Bool.false_ne_true (open'.symm.trans (ended _ good).1)

/-- Items in brackets: the list ends in front of the closing bracket. -/
theorem Follows.items {kinds : List TokenKind} {φ : Phrase Symbol} {inner : List Lexeme → Prop}
    {closing : TokenKind} {item : Draft → Draft} (known : closing ≠ .endOfInput ∧ closing ≠ .comma)
    (starts : Starts rules (oneOf kinds) φ)
    (going : kinds.all (fun k => !(k == closing || isBodySync k)) = true)
    (follows : ∀ d : Draft, Follows most φ inner d (item d))
    (fits : ∀ us, headKind us = .comma ∨ headKind us = closing → inner us) :
    Follows most (.maybe (.commaList φ) ++ .token closing) ok d (d.items closing item) := by
  have list : Follows most (.maybe (.commaList φ)) (headKind · = closing) d
      (d.loop (itemTurn closing item)) := by
    refine Follows.maybeSeparated (fun k => k == closing || isBodySync k) item (fun v => ?_) starts
      going (fun v _ => follows v) fits fun us ended => ?_
    · rw [itemTurn, Draft.isAt_eq, State.peek_kind]
    · rw [ended]
      exact ⟨Bool.or_eq_true_iff.mpr (Or.inl (beq_self_eq_true _)), known.2⟩
  refine Follows.bind list (Follows.expect known.1) ?_
  intro us vs derived _
  obtain ⟨t, rfl, kind⟩ := derives_token.mp derived
  exact kind

/-! ## What may follow an expression -/

/-- A name in front of a parenthesis is the name of a call. -/
def callEnds : List TokenKind := [.leftParen]

/-- The tokens that go on an operand. -/
def operandEnds : List TokenKind := [.leftParen, .dot, .leftBracket]

/-- The tokens that go on operands joined by the operators of some ranks. -/
def joinedEnds (rank : Nat) : List TokenKind := operandEnds ++ operatorsFrom rank

/-- The tokens that go on an expression. -/
def expressionEnds : List TokenKind := joinedEnds 1 ++ [TokenKind.question]

/-- A production that reads expressions of at most so many tokens. -/
def Expressive (most : Nat) (expression : Production) : Prop :=
  ∀ s, FollowsAt most (.symbol .expression) (Free (oneOf expressionEnds)) s (expression s)

theorem Free.of_headKind {kinds : List TokenKind} {ts : List Lexeme}
    (other : kinds.contains (headKind ts) = false) : Free (oneOf kinds) ts := by
  intro t head
  cases ts with
  | nil => cases head
  | cons u rest =>
    obtain rfl := Option.some.inj head
    exact other

theorem free_token {kinds : List TokenKind} {kind : TokenKind} (other : kinds.contains kind = false)
    (us vs : List Lexeme) (derived : Derives rules (.token kind) us vs) (_good : ok vs) :
    Free (oneOf kinds) us := by
  obtain ⟨t, rfl, same⟩ := derives_token.mp derived
  refine Free.of_headKind ?_
  rw [← same] at other
  exact other

theorem free_anything {φ : Phrase Symbol} (us vs : List Lexeme) (_derived : Derives rules φ us vs)
    (_good : ok vs) : anything us := trivial

/-! ## Expressions in brackets -/

/-- The expression in a role, in front of a token that cannot go it on. -/
theorem Follows.nested (expressive : Expressive most expression) (role : Option Role) :
    Follows most (.symbol .expression) (Free (oneOf expressionEnds)) d (d.place role expression) :=
  Follows.place (expressive d.state)

/-- A bracket, items between commas, and the closing bracket. -/
theorem Follows.bracketed {kinds : List TokenKind} {φ : Phrase Symbol} {inner : List Lexeme → Prop}
    {opening closing : TokenKind} {item : Draft → Draft} (found : d.isAt opening = true)
    (known : opening ≠ .endOfInput ∧ closing ≠ .endOfInput ∧ closing ≠ .comma)
    (starts : Starts rules (oneOf kinds) φ)
    (going : kinds.all (fun k => !(k == closing || isBodySync k)) = true)
    (follows : ∀ d : Draft, Follows most φ inner d (item d))
    (fits : ∀ us, headKind us = .comma ∨ headKind us = closing → inner us) :
    Follows (most + 1) (.token opening ++ .maybe (.commaList φ) ++ .token closing) ok d
      (d.take.items closing item) := by
  have first : Follows (most + 1) (.token opening) anything d d.take := Follows.takeToken none found known.1
  exact (first.bind_shorter (Follows.items known.2 starts going follows fits) Starts.token free_anything).assoc

theorem free_separator {kinds : List TokenKind} {closing : TokenKind}
    (comma : kinds.contains .comma = false) (other : kinds.contains closing = false) (us : List Lexeme)
    (ended : headKind us = .comma ∨ headKind us = closing) : Free (oneOf kinds) us := by
  refine Free.of_headKind ?_
  rcases ended with kind | kind
  · rw [kind]
    exact comma
  · rw [kind]
    exact other

theorem Follows.arguments (expressive : Expressive most expression) (found : s.isAt .leftParen = true) :
    FollowsAt (most + 1) (.symbol .arguments) ok s (argumentList expression s) := by
  refine Follows.symbol (Follows.branch ?_ (NodeKind.noConfusion : NodeKind.argumentList ≠ .error))
  exact Follows.bracketed found ⟨TokenKind.noConfusion, TokenKind.noConfusion, TokenKind.noConfusion⟩
    starts_expression (by decide) (fun d => Follows.nested expressive none)
    (free_separator (by decide) (by decide))

theorem Follows.list (expressive : Expressive most expression) (found : s.isAt .leftBracket = true) :
    FollowsAt (most + 1) (.symbol .list) ok s (list expression s) := by
  refine Follows.symbol (Follows.branch ?_ (NodeKind.noConfusion : NodeKind.list ≠ .error))
  exact Follows.bracketed found ⟨TokenKind.noConfusion, TokenKind.noConfusion, TokenKind.noConfusion⟩
    starts_expression (by decide) (fun d => Follows.nested expressive _)
    (free_separator (by decide) (by decide))

theorem Follows.entry (expressive : Expressive most expression) :
    FollowsAt most (.symbol .entry) (Free (oneOf expressionEnds)) s (mapEntry expression s) := by
  refine Follows.symbol (Follows.branch ?_ (NodeKind.noConfusion : NodeKind.mapEntry ≠ .error))
  refine Follows.bind ?_ (Follows.nested expressive _) free_anything
  refine Follows.bind (Follows.nested expressive _) (Follows.expect TokenKind.noConfusion) ?_
  exact free_token (by decide)

theorem Follows.map (expressive : Expressive most expression) (found : s.isAt .leftBrace = true) :
    FollowsAt (most + 1) (.symbol .map) ok s (map expression s) := by
  refine Follows.symbol (Follows.branch ?_ (NodeKind.noConfusion : NodeKind.map ≠ .error))
  exact Follows.bracketed found ⟨TokenKind.noConfusion, TokenKind.noConfusion, TokenKind.noConfusion⟩
    starts_entry (by decide) (fun d => Follows.place (Follows.entry expressive))
    (free_separator (by decide) (by decide))

theorem Follows.parenthesized (expressive : Expressive most expression) (found : s.isAt .leftParen = true) :
    FollowsAt (most + 1) (.token .leftParen ++ .symbol .expression ++ .token .rightParen) ok s
      (parenthesized expression s) := by
  refine Follows.branch ?_ (NodeKind.noConfusion : NodeKind.parenthesized ≠ .error)
  have inside : Follows (most + 1) (.token .leftParen ++ .symbol .expression)
      (Free (oneOf expressionEnds)) (Draft.opened .parenthesized s)
      ((Draft.opened .parenthesized s).take.place (some .expression) expression) :=
    Follows.bind_shorter (Follows.takeToken none found TokenKind.noConfusion)
      (Follows.nested expressive _) Starts.token free_anything
  exact inside.bind (Follows.expect TokenKind.noConfusion) (free_token (by decide))

theorem Follows.interpolation (expressive : Expressive most expression) (found : s.isAt .dollar = true) :
    FollowsAt (most + 1) (.symbol .interpolation) ok s (interpolation expression s) := by
  refine Follows.symbol (Follows.branch ?_ (NodeKind.noConfusion : NodeKind.interpolation ≠ .error))
  have dollar : Follows (most + 1) (.token .dollar) anything (Draft.opened .interpolation s)
      (Draft.opened .interpolation s).take := Follows.takeToken none found TokenKind.noConfusion
  have opening : Follows (most + 1) (.token .dollar ++ .token .leftParen) anything
      (Draft.opened .interpolation s) ((Draft.opened .interpolation s).take.expect .leftParen) :=
    dollar.bind (Follows.expect TokenKind.noConfusion) free_anything
  have inside : Follows (most + 1) (.token .dollar ++ .token .leftParen ++ .symbol .expression)
      (Free (oneOf expressionEnds)) (Draft.opened .interpolation s)
      (((Draft.opened .interpolation s).take.expect .leftParen).place (some .expression) expression) :=
    opening.bind_shorter (Follows.nested expressive _) Starts.token.seq free_anything
  exact inside.bind (Follows.expect TokenKind.noConfusion) (free_token (by decide))

/-! ## Paths -/

theorem starts_interpolation : Starts rules (oneOf [.dollar]) (.symbol .interpolation) :=
  Starts.symbol Starts.token.seq.seq.seq

theorem underivable_segment {ts : List Lexeme} (other : isSegmentToken (headKind ts) = false)
    (rest : List Lexeme) (derived : Derives rules (.symbol .segment) ts rest) : False := by
  have starts : Starts rules (fun t => isSegmentToken t.kind) (.symbol .segment) :=
    Starts.symbol Starts.word.seq.seq
  obtain ⟨_, t, head, fits⟩ := starts ts rest derived
  cases ts with
  | nil => cases head
  | cons u us =>
    obtain rfl := Option.some.inj head
    exact Bool.false_ne_true (other.symm.trans fits)

theorem Follows.slashedPart {opening : TokenKind} {bracketed : Production} {leaf : NodeKind} {name : Symbol}
    (other : isSegmentToken opening = false ∧ leaf ≠ .error)
    (starts : Starts rules (oneOf [opening]) (.symbol name))
    (inside : d.isAt opening = true → FollowsAt most (.symbol name) anything d.state (bracketed d.state)) :
    ∃ next, Follows most (.symbol name ||| .symbol .segment) anything d next ∧
      (slashedPart opening bracketed leaf d = slashTurn next ∨
        slashedPart opening bracketed leaf d = .done next ∧ next.isClean = false) := by
  rw [Parser.slashedPart]
  by_cases found : d.isAt opening = true
  · rw [if_pos found]
    refine ⟨_, Follows.left (Follows.place (inside found)) fun rest derived _ => ?_, Or.inl rfl⟩
    rw [Draft.isAt_eq, beq_iff_eq] at found
    exact underivable_segment (by rw [found]; exact other.1) rest derived
  · rw [if_neg found]
    have noBracket : ∀ rest, Derives rules (.symbol name) d.words rest → False := by
      refine underivable starts ?_
      rw [Draft.isAt_eq, beq_iff_eq] at found
      simpa using found
    by_cases segment : isSegmentToken d.state.peek.kind = true
    · rw [if_pos segment]
      exact ⟨_, Follows.right (Follows.place (Follows.segment segment other.2))
        fun rest derived _ => noBracket rest derived, Or.inl rfl⟩
    · rw [if_neg segment]
      refine ⟨_, Follows.dirty (dirty_lacking _ _ _) fun rest derived _ => ?_,
        Or.inr ⟨rfl, dirty_lacking _ _ _⟩⟩
      rcases derives_or.mp derived with chosen | chosen
      · exact noBracket rest chosen
      · rw [State.peek_kind] at segment
        exact underivable_segment (by simpa using segment) rest chosen

theorem Follows.path (expressive : Expressive most expression) (found : s.isAt .slash = true) :
    FollowsAt (most + 1) (.symbol .path) ok s (path expression s) := by
  have parts : Follows (most + 1) (slashed (.symbol .interpolation ||| .symbol .segment)) ok
      (Draft.opened .path s) ((Draft.opened .path s).loop (pathTurn expression)) := by
    refine Follows.slashLoop (fun v atSlash => ?_) found
    have slash : Follows (most + 1) (.token .slash) anything v v.take :=
      Follows.takeToken none atSlash TokenKind.noConfusion
    rw [pathTurn_eq]
    obtain ⟨next, follows, turns⟩ := Follows.slashedPart (d := v.take)
      ⟨rfl, (NodeKind.noConfusion : NodeKind.pathSegment ≠ .error)⟩ starts_interpolation
      (Follows.interpolation expressive)
    exact ⟨next, slash.bind follows free_anything, turns⟩
  exact Follows.symbol (Follows.branch parts NodeKind.noConfusion)

/-! ## Primary expressions -/

/-- A name, and its arguments if a parenthesis follows. -/
theorem Follows.name {sort : Lexeme → Bool} {leaf : NodeKind} {t : Lexeme} {us : List Lexeme}
    (expressive : Expressive most expression) (ahead : s.words = t :: us) (fits : sort t = true)
    (other : leaf ≠ .error) : FollowsAt (most + 1) (.word sort ++ .maybe (.symbol .arguments))
      (Free (oneOf callEnds)) s
      (if s.peekSecond.kind == .leftParen then functionCall expression s else Parser.leafOf leaf s) := by
  have second : s.peekSecond.kind = headKind us := by
    rw [State.peekSecond_kind, ahead]
    rfl
  rw [second]
  by_cases paren : (headKind us == .leftParen) = true
  · rw [if_pos paren]
    refine Follows.branch ?_ (NodeKind.noConfusion : NodeKind.functionCall ≠ .error)
    have first : Follows (most + 1) (.word sort) anything (Draft.opened .functionCall s)
        ((Draft.opened .functionCall s).takeAs (some .name) .identifier) :=
      Follows.takeAs _ ahead fits NodeKind.noConfusion
    have words := words_takeAs (Draft.opened .functionCall s) (some .name) .identifier
    have ahead' : (Draft.opened .functionCall s).words = t :: us := ahead
    rw [ahead', List.tail_cons] at words
    refine first.bind (Follows.maybe_left (Follows.place (Follows.arguments expressive ?_)) ?_) free_anything
    · show Draft.isAt _ _ = true
      rw [Draft.isAt_eq, words]
      exact paren
    · intro free
      obtain ⟨u, vs, split, kind⟩ := headKind_eq (beq_iff_eq.mp paren) TokenKind.noConfusion
      rw [words, split] at free
      have := free u rfl
      rw [oneOf, kind] at this
      exact Bool.false_ne_true this.symm
  · rw [if_neg paren]
    have words : s.advance.words = us := by
      rw [State.words_advance, ahead]
      rfl
    refine (Follows.leafOf ahead fits other).bind (Follows.maybe_none ?_) free_anything
    refine underivable starts_arguments ?_
    show ([TokenKind.leftParen].contains (headKind s.advance.words)) = false
    rw [words]
    simpa using paren

theorem dirty_of_hasError {d : Draft} (wrong : d.tree.hasError = true) : d.isClean = false := by
  rw [Draft.isClean, wrong]
  rfl

theorem Follows.leftOf {kinds : List TokenKind} {φ ψ : Phrase Symbol} {d' : Draft}
    (follows : Follows most φ ok d d') (starts : Starts rules (oneOf kinds) ψ)
    (other : kinds.contains (headKind d.words) = false) : Follows most (φ ||| ψ) ok d d' :=
  Follows.left follows fun rest derived _ => underivable starts other rest derived

theorem Follows.rightOf {kinds : List TokenKind} {φ ψ : Phrase Symbol} {d' : Draft}
    (follows : Follows most ψ ok d d') (starts : Starts rules (oneOf kinds) φ)
    (other : kinds.contains (headKind d.words) = false) : Follows most (φ ||| ψ) ok d d' :=
  Follows.right follows fun rest derived _ => underivable starts other rest derived

theorem Follows.literal {leaf : NodeKind} {kinds : List TokenKind} (found : s.peek.kind ∈ kinds)
    (known : TokenKind.endOfInput ∉ kinds) (other : leaf ≠ .error) :
    FollowsAt most (.word (oneOf kinds)) ok s (Parser.leafOf leaf s) := by
  rw [State.peek_kind] at found
  cases words : s.words with
  | nil =>
    rw [words] at found
    exact absurd found known
  | cons t us =>
    rw [words] at found
    exact Follows.leafOf words (List.contains_iff_mem.mpr found) other

theorem Follows.primary (expressive : Expressive most expression) :
    FollowsAt (most + 1) (.symbol .primary) (Free (oneOf callEnds)) s (primary expression s) := by
  refine Follows.symbol ?_
  have ahead : ∀ {kind : TokenKind}, s.peek.kind = kind →
      headKind (Draft.opened .sourceFile s).words = kind :=
    fun found => (State.peek_kind s).symm.trans found
  have literal : ∀ {leaf : NodeKind}, leaf ≠ .error →
      s.peek.kind ∈ [TokenKind.number, .string, .kwTrue, .kwFalse, .kwNull] →
      FollowsAt (most + 1) (rules .primary) (Free (oneOf callEnds)) s (Parser.leafOf leaf s) := by
    intro leaf other found
    have apart : ∀ kind ∈ [TokenKind.identifier, .leftParen, .leftBracket, .leftBrace, .slash],
        [kind].contains (headKind (Draft.opened .sourceFile s).words) = false := by
      rw [ahead rfl]
      revert found
      cases s.peek.kind <;> decide
    refine Follows.leftOf ?_ starts_path (apart _ (by decide))
    refine Follows.leftOf ?_ starts_map (apart _ (by decide))
    refine Follows.leftOf ?_ starts_list (apart _ (by decide))
    refine Follows.leftOf ?_ starts_parenthesized (apart _ (by decide))
    exact Follows.rightOf (Follows.literal found (by decide) other) starts_name (apart _ (by decide))
  rw [Parser.primary]
  split
  · rename_i found
    obtain ⟨t, us, words, kind⟩ := headKind_eq (ahead found) TokenKind.noConfusion
    refine Follows.leftOf ?_ starts_path (by rw [ahead found]; rfl)
    refine Follows.leftOf ?_ starts_map (by rw [ahead found]; rfl)
    refine Follows.leftOf ?_ starts_list (by rw [ahead found]; rfl)
    refine Follows.leftOf ?_ starts_parenthesized (by rw [ahead found]; rfl)
    refine Follows.leftOf ?_ starts_literal (by rw [ahead found]; rfl)
    exact Follows.name expressive words (beq_iff_eq.mpr kind) NodeKind.noConfusion
  · rename_i found
    exact literal (NodeKind.noConfusion : NodeKind.number ≠ .error) (by rw [found]; decide)
  · rename_i found
    exact literal (NodeKind.noConfusion : NodeKind.string ≠ .error) (by rw [found]; decide)
  · rename_i found
    exact literal (NodeKind.noConfusion : NodeKind.boolean ≠ .error) (by rw [found]; decide)
  · rename_i found
    exact literal (NodeKind.noConfusion : NodeKind.boolean ≠ .error) (by rw [found]; decide)
  · rename_i found
    exact literal (NodeKind.noConfusion : NodeKind.null ≠ .error) (by rw [found]; decide)
  · rename_i found
    refine Follows.leftOf ?_ starts_path (by rw [ahead found]; rfl)
    refine Follows.leftOf ?_ starts_map (by rw [ahead found]; rfl)
    refine Follows.leftOf ?_ starts_list (by rw [ahead found]; rfl)
    refine Follows.rightOf ?_ (starts_name.or_append starts_literal) (by rw [ahead found]; rfl)
    exact Follows.parenthesized expressive (beq_iff_eq.mpr found)
  · rename_i found
    refine Follows.leftOf ?_ starts_path (by rw [ahead found]; rfl)
    refine Follows.leftOf ?_ starts_map (by rw [ahead found]; rfl)
    refine Follows.rightOf ?_ ((starts_name.or_append starts_literal).or_append starts_parenthesized)
      (by rw [ahead found]; rfl)
    exact Follows.list expressive (beq_iff_eq.mpr found)
  · rename_i found
    refine Follows.leftOf ?_ starts_path (by rw [ahead found]; rfl)
    refine Follows.rightOf ?_ (((starts_name.or_append starts_literal).or_append
      starts_parenthesized).or_append starts_list) (by rw [ahead found]; rfl)
    exact Follows.map expressive (beq_iff_eq.mpr found)
  · rename_i found
    refine Follows.rightOf ?_ ((((starts_name.or_append starts_literal).or_append
      starts_parenthesized).or_append starts_list).or_append starts_map) (by rw [ahead found]; rfl)
    exact Follows.path expressive (beq_iff_eq.mpr found)
  · refine Follows.dirty (dirty_of_hasError ?_) ?_
    · split
      · exact hasError_placeholder _ _
      · exact hasError_stray _
    · intro rest derived _
      refine underivable starts_primary ?_ rest (derives_symbol.mpr derived)
      rw [ahead rfl]
      rw [List.contains_eq_mem, decide_eq_false_iff_not]
      simp_all [primaryStarts]

/-! ## Accesses -/

theorem Follows.field (expressive : Expressive most expression) :
    FollowsAt (most + 1) (.symbol .field) (Free (oneOf callEnds)) s (memberField expression s) := by
  refine Follows.symbol ?_
  have named : (s.isAt .identifier || s.peek.kind.isKeyword) =
      (headKind s.words == .identifier || (headKind s.words).isKeyword) := by
    rw [State.isAt_eq, State.peek_kind]
  rw [memberField, named]
  cases words : s.words with
  | nil =>
    refine Follows.dirty (dirty_of_hasError (hasError_placeholder _ _)) fun rest derived _ => ?_
    obtain ⟨us, first, _⟩ := derives_seq.mp derived
    obtain ⟨t, split, _⟩ := derives_word.mp first
    exact List.cons_ne_nil _ _ (split.symm.trans words)
  | cons t us =>
    split
    · rename_i found
      exact Follows.name expressive words found NodeKind.noConfusion
    · rename_i absent
      refine Follows.dirty (dirty_of_hasError (hasError_placeholder _ _)) fun rest derived _ => ?_
      obtain ⟨vs, first, _⟩ := derives_seq.mp derived
      obtain ⟨u, split, fits⟩ := derives_word.mp first
      obtain ⟨rfl, _⟩ := List.cons.inj (words.symm.trans split)
      exact absent fits

/-- An index is a range without a start, or an expression and perhaps the rest of a range. -/
theorem derives_index {ts us : List Lexeme} (other : headKind ts ≠ .colon) :
    Derives rules (.symbol .index) ts us ↔ Derives rules (.symbol .expression ++
      .maybe (.token .colon ++ .maybe (.symbol .expression))) ts us := by
  have whole : Derives rules (.symbol .index) ts us ↔ Derives rules (.symbol .expression) ts us ∨
      Derives rules (.maybe (.symbol .expression) ++ .token .colon ++ .maybe (.symbol .expression)) ts us :=
    derives_symbol.trans derives_or
  rw [whole]
  constructor
  · rintro (derived | derived)
    · exact .seq derived (derives_maybe.mpr (Or.inr rfl))
    · obtain ⟨ws, range, last⟩ := derives_seq.mp derived
      obtain ⟨vs, first, colon⟩ := derives_seq.mp range
      rcases derives_maybe.mp first with first | rfl
      · exact .seq first (derives_maybe.mpr (Or.inl (.seq colon last)))
      · obtain ⟨t, rfl, kind⟩ := derives_token.mp colon
        exact absurd kind other
  · intro derived
    obtain ⟨vs, first, tail⟩ := derives_seq.mp derived
    rcases derives_maybe.mp tail with tail | rfl
    · obtain ⟨ws, colon, last⟩ := derives_seq.mp tail
      exact Or.inr (.seq (.seq (derives_maybe.mpr (Or.inl first)) colon) last)
    · exact Or.inl first

theorem Follows.rangeTail (expressive : Expressive most expression) (found : d.isAt .colon = true) :
    Follows most (.token .colon ++ .maybe (.symbol .expression)) (headKind · = .rightBracket) d
      (d.rangeTail expression) := by
  have colon : Follows most (.token .colon) anything d d.take :=
    Follows.takeToken none found TokenKind.noConfusion
  refine colon.bind ?_ free_anything
  rw [Draft.rangeTail]
  generalize d.take = v
  split
  · rename_i ended
    refine Follows.maybe_none (underivable starts_expression ?_)
    have kind : headKind v.words = .rightBracket ∨ headKind v.words = .endOfInput := by
      simpa [Draft.isAtAny, State.isAtAny, State.peek_kind] using ended
    rcases kind with kind | kind <;> rw [kind] <;> rfl
  · rename_i ended
    refine Follows.maybe_left ((Follows.nested expressive _).mono (Nat.le_refl _) fun rest kind => ?_) ?_
    · exact Free.of_headKind (by rw [kind]; rfl)
    · intro kind
      apply ended
      simp [Draft.isAtAny, State.isAtAny, State.peek_kind, kind]

theorem Follows.index (expressive : Expressive most expression) :
    FollowsAt most (.symbol .index) (headKind · = .rightBracket) s (index expression s) := by
  rw [Parser.index]
  split
  · rename_i found
    have kind : headKind s.words = .colon := beq_iff_eq.mp ((State.isAt_eq s .colon).symm.trans found)
    refine Follows.symbol (Follows.rightOf ?_ starts_expression ?_)
    · refine Follows.branch (Follows.assoc ?_) (NodeKind.noConfusion : NodeKind.range ≠ .error)
      refine Follows.congr (Follows.rangeTail expressive found) fun rest => ?_
      constructor
      · intro derived
        obtain ⟨us, first, last⟩ := derives_seq.mp derived
        rcases derives_maybe.mp first with first | rfl
        · have kind : headKind (Draft.opened .range s).words = .colon := kind
          exact absurd first (underivable starts_expression (by rw [kind]; rfl) us)
        · exact last
      · intro derived
        exact .seq (derives_maybe.mpr (Or.inr rfl)) derived
    · show expressionStarts.contains (headKind s.words) = false
      rw [kind]
      rfl
  · rename_i absent
    have other : headKind s.words ≠ .colon := by
      intro kind
      exact absent ((State.isAt_eq s .colon).trans (beq_iff_eq.mpr kind))
    have first : FollowsAt most (.symbol .expression) (Free (oneOf expressionEnds)) s (expression s) :=
      expressive s
    generalize expression s = r at first ⊢
    obtain ⟨tree, v⟩ := r
    refine Follows.congr ?_ fun rest => derives_index other
    have starts : Starts rules (oneOf [.colon]) (.token .colon ++ .maybe (.symbol .expression)) :=
      Starts.token.seq
    refine Follows.bind first ?_ fun us vs derived kind => ?_
    · dsimp only
      split
      · rename_i found
        refine Follows.maybe_left ?_ fun kind => ?_
        · refine Follows.enclose .range (some .start) (·.rangeTail expression) ?_ NodeKind.noConfusion
          intro n same
          exact Follows.rangeTail expressive ((congrArg (·.isAt .colon) same).trans found)
        · have found : headKind v.words = .colon := beq_iff_eq.mp ((State.isAt_eq v .colon).symm.trans found)
          exact TokenKind.noConfusion (found.symm.trans kind)
      · rename_i absent
        refine Follows.maybe_none (underivable starts ?_)
        rw [State.isAt_eq] at absent
        simpa using absent
    · refine Free.of_headKind ?_
      rcases derives_maybe.mp derived with tail | rfl
      · obtain ⟨ws, colon, _⟩ := derives_seq.mp tail
        obtain ⟨t, rfl, kind⟩ := derives_token.mp colon
        rw [headKind, kind]
        rfl
      · rw [kind]
        rfl

/-- What stands behind an operand: a member access or an index in brackets. -/
def access : Phrase Symbol :=
  .token .dot ++ .symbol .field ||| .token .leftBracket ++ .symbol .index ++ .token .rightBracket

theorem starts_access : Starts rules (oneOf ([TokenKind.dot] ++ [TokenKind.leftBracket])) access :=
  Starts.or_append Starts.token.seq Starts.token.seq.seq

/-- A member access: a dot and a name, which may have arguments. -/
theorem Follows.memberAccess (expressive : Expressive most expression) (found : d.isAt .dot = true) :
    Follows (most + 1) access (Free (oneOf callEnds)) d (d.take.place (some .field) (memberField expression)) := by
  have taken : Follows (most + 1) (.token .dot) anything d d.take := Follows.takeToken none found TokenKind.noConfusion
  have both : Follows (most + 1) (.token .dot ++ .symbol .field) (Free (oneOf callEnds)) d
      (d.take.place (some .field) (memberField expression)) :=
    taken.bind (Follows.place (Follows.field expressive)) free_anything
  have kind : headKind d.words = .dot := beq_iff_eq.mp ((Draft.isAt_eq d .dot).symm.trans found)
  exact both.leftOf (Starts.token.seq.seq : Starts rules (oneOf [.leftBracket]) _) (by rw [kind]; rfl)

/-- An index in brackets. -/
theorem Follows.indexAccess (expressive : Expressive most expression) (found : d.isAt .leftBracket = true) :
    Follows (most + 1) access (Free (oneOf callEnds)) d
      ((d.take.place (some .index) (Parser.index expression)).expect .rightBracket) := by
  have taken : Follows (most + 1) (.token .leftBracket) anything d d.take :=
    Follows.takeToken none found TokenKind.noConfusion
  have inside : Follows (most + 1) (.token .leftBracket ++ .symbol .index)
      (headKind · = .rightBracket) d (d.take.place (some .index) (Parser.index expression)) :=
    taken.bind_shorter (Follows.place (Follows.index expressive)) Starts.token free_anything
  have whole : Follows (most + 1) (.token .leftBracket ++ .symbol .index ++ .token .rightBracket)
      (Free (oneOf callEnds)) d
      ((d.take.place (some .index) (Parser.index expression)).expect .rightBracket) := by
    refine inside.bind (Follows.expect TokenKind.noConfusion) fun us vs derived _ => ?_
    obtain ⟨t, rfl, kind⟩ := derives_token.mp derived
    exact kind
  have kind : headKind d.words = .leftBracket := beq_iff_eq.mp ((Draft.isAt_eq d .leftBracket).symm.trans found)
  exact whole.rightOf (Starts.token.seq : Starts rules (oneOf [.dot]) _) (by rw [kind]; rfl)

/-- A turn in front of a dot or a bracket reads one access. -/
theorem Follows.postfixTurn (expressive : Expressive most expression)
    (going : headKind d.words ∈ [TokenKind.dot] ++ [TokenKind.leftBracket]) :
    ∃ next, postfixTurn expression d = .again next ∧
      Follows (most + 1) access (Free (oneOf callEnds)) d next := by
  rw [Parser.postfixTurn]
  by_cases dot : d.isAt .dot = true
  · rw [if_pos dot]
    exact ⟨_, rfl, Follows.enclose .member (some .object)
      (fun n => n.take.place (some .field) (memberField expression))
      (fun n same => Follows.memberAccess expressive ((congrArg (·.isAt .dot) same).trans dot)) NodeKind.noConfusion⟩
  · have bracket : d.isAt .leftBracket = true := by
      rw [Draft.isAt_eq, beq_iff_eq] at dot ⊢
      exact List.mem_singleton.mp ((List.mem_cons.mp going).resolve_left dot)
    rw [if_neg dot, if_pos bracket]
    exact ⟨_, rfl, Follows.enclose .indexing (some .object)
      (fun n => (n.take.place (some .index) (Parser.index expression)).expect .rightBracket)
      (fun n same => Follows.indexAccess expressive ((congrArg (·.isAt .leftBracket) same).trans bracket))
      NodeKind.noConfusion⟩

theorem Follows.postfixed (expressive : Expressive most expression) :
    FollowsAt (most + 1) (.symbol .accessed) (Free (oneOf operandEnds)) s (postfixed expression s) := by
  refine Follows.symbol ?_
  have first : FollowsAt (most + 1) (.symbol .primary) (Free (oneOf callEnds)) s
      (Parser.primary expression s) := Follows.primary expressive
  rw [Parser.postfixed]
  generalize Parser.primary expression s = r at first ⊢
  obtain ⟨tree, v⟩ := r
  have behind : ∀ us vs, Derives rules (.many access) us vs → Free (oneOf operandEnds) vs →
      Free (oneOf callEnds) us := by
    intro us vs derived free
    refine Free.of_opens (free.mono ?_) derived (Opens.many starts_access) (oneOf_apart (by decide))
    intro t fits
    rw [oneOf, List.contains_iff_mem] at fits ⊢
    exact List.mem_append_left _ fits
  refine Follows.bind (ψ := .many access) first ?_ behind
  refine Follows.loop (headKind · ∈ [TokenKind.dot] ++ [TokenKind.leftBracket]) (Free (oneOf callEnds))
    (fun v => Follows.postfixTurn expressive) ?_ starts_access (fun ts us => starts_access.headKind_mem) ?_ behind
  · intro v stopped
    have dot : headKind v.words ≠ .dot := fun kind => stopped (by rw [kind]; decide)
    have bracket : headKind v.words ≠ .leftBracket := fun kind => stopped (by rw [kind]; decide)
    rw [Parser.postfixTurn, Draft.isAt_eq, Draft.isAt_eq, if_neg (by simpa using dot),
      if_neg (by simpa using bracket)]
  · intro vs free member
    exact free.headKind_not_mem (by decide) (List.mem_cons_of_mem _ member)

end SecurityRules.Parser
