import SecurityRules.Proofs.Grammar.Declarations
import SecurityRules.Proofs.Nesting.Cuts

/-!
# Blocks in braces

At the limit the parser skips a match body without reading it: up to the brace that closes the first one. In what
the grammar derives, braces are balanced, so that is where the body ends.
-/

namespace SecurityRules.Parser

open Grammar

/-- The number of open braces behind a token. -/
def braceDepth (depth : Nat) : TokenKind → Nat
  | .leftBrace => depth + 1
  | .rightBrace => depth - 1
  | _ => depth

section

variable {α β : Type}

/-- What stands behind the brace that closes the last open one. -/
def pastBlock (kind : α → TokenKind) : Nat → List α → List α
  | 0, ts => ts
  | _, [] => []
  | depth + 1, t :: rest => pastBlock kind (braceDepth (depth + 1) (kind t)) rest

theorem pastBlock_zero (kind : α → TokenKind) (ts : List α) : pastBlock kind 0 ts = ts := by rw [pastBlock]

theorem pastBlock_nil (kind : α → TokenKind) (depth : Nat) : pastBlock kind depth [] = [] := by
  cases depth <;> rfl

theorem pastBlock_succ (kind : α → TokenKind) (depth : Nat) (t : α) (rest : List α) :
    pastBlock kind (depth + 1) (t :: rest) = pastBlock kind (braceDepth (depth + 1) (kind t)) rest := by rw [pastBlock]

theorem pastBlock_suffix (kind : α → TokenKind) (depth : Nat) (ts : List α) : pastBlock kind depth ts <:+ ts := by
  induction ts generalizing depth with
  | nil => simp [pastBlock_nil]
  | cons t rest ih =>
    cases depth with
    | zero => simp [pastBlock_zero]
    | succ depth =>
      rw [pastBlock_succ]
      exact (ih _).trans (List.suffix_cons t rest)

/-- Only the kinds of the tokens matter. -/
theorem map_pastBlock (kind : β → TokenKind) (g : α → β) (depth : Nat) (ts : List α) :
    (pastBlock (fun t => kind (g t)) depth ts).map g = pastBlock kind depth (ts.map g) := by
  induction ts generalizing depth with
  | nil => rw [pastBlock_nil, List.map_nil, pastBlock_nil]
  | cons t rest ih =>
    cases depth with
    | zero => rw [pastBlock_zero, pastBlock_zero]
    | succ depth => rw [pastBlock_succ, ih, List.map_cons, pastBlock_succ]

end

/-! ## Skipping a block -/

variable {f : SourceFile} {s : State}

/-- A turn of a skip inside braces. -/
theorem skipTurn_inside {stop : TokenKind → Bool} {n : Nested} (going : n.draft.isAt .endOfInput = false)
    (inside : n.depth ≠ 0) :
    skipTurn stop n = .again ⟨braceDepth n.depth n.draft.state.peek.kind, n.draft.take⟩ := by
  rw [skipTurn]
  dsimp only
  rw [if_neg (by rw [going]; exact Bool.false_ne_true), if_neg (by simp [inside]), if_neg]
  · rfl
  · cases n.draft.state.peek.kind <;> simp [inside]

/-- A skip to whatever comes next takes one block if it starts at one. -/
theorem rest_skipBlock (place : State.At f s) (found : s.isAt .leftBrace = true) :
    (skipUntil (fun _ => true) s).2.rest = pastBlock Token.kind 1 (s.rest.drop 1) := by
  have ahead := State.rest_of_isAt found TokenKind.noConfusion
  have first : skipTurn (fun _ => true) ⟨0, Draft.opened .error s⟩ = .again ⟨1, (Draft.opened .error s).take⟩ := by
    have kind : (Draft.opened .error s).state.peek.kind = .leftBrace := State.kind_of_isAt found
    have going : (Draft.opened .error s).isAt .endOfInput = false := by
      rw [Draft.isAt, State.isAt, kind]
      rfl
    have bare : (Draft.opened .error s).isBare = true := rfl
    rw [skipTurn]
    simp only [going, bare, kind]
    rfl
  have taken := (Growing.opened place (NodeKind.noConfusion : NodeKind.error ≠ .comment)).take_keeps none ahead
  rw [skipUntil, state_toError, iterate.eq_def, first]
  dsimp only
  rw [if_pos (Draft.take_shorter ahead none)]
  refine (rest_iterate (pastBlock Token.kind) (P := fun n => Grown f .error s s.lastStop n.draft) ?_ taken).trans ?_
  · intro n grown
    have filled : n.draft.isBare = false := by simpa [Draft.isBare] using grown.grown
    cases depth : n.depth with
    | zero =>
      left
      refine ⟨?_, pastBlock_zero _ _⟩
      rw [skipTurn]
      dsimp only
      split
      · rfl
      · rw [if_pos (by rw [depth, filled]; rfl)]
    | succ k =>
      cases ahead : n.draft.state.rest with
      | nil =>
        left
        refine ⟨?_, pastBlock_nil _ _⟩
        rw [skipTurn]
        dsimp only
        rw [if_pos (Draft.isAt_end ahead)]
      | cons t rest =>
        have nonempty : n.draft.state.rest ≠ [] := by
          rw [ahead]
          exact List.cons_ne_nil t rest
        right
        refine ⟨_, skipTurn_inside (Draft.not_isAt_end grown.reading.place nonempty) (by omega),
          List.cons_ne_nil t rest, Growing.take_keeps (.grown grown) none nonempty, ?_⟩
        rw [pastBlock_succ, State.peek_of_rest ahead, depth]
        rfl
  · rw [Draft.rest_take]
    rfl

/-! ## Balanced braces -/

/-- What a phrase derives changes the number of open braces from `depth` to `depth'`, and closes none that is open in
front of it. -/
inductive Braced : Phrase Symbol → Nat → Nat → Prop
  | word {sort : Lexeme → Bool} {depth : Nat}
    (other : ∀ t, sort t = true → t.kind ≠ .leftBrace ∧ t.kind ≠ .rightBrace) : Braced (.word sort) depth depth
  | opening {depth : Nat} : Braced (.token .leftBrace) depth (depth + 1)
  | closing {depth : Nat} : Braced (.token .rightBrace) (depth + 1) depth
  | empty {depth : Nat} : Braced .empty depth depth
  | seq {φ ψ : Phrase Symbol} {a b c : Nat} (first : Braced φ a b) (second : Braced ψ b c) : Braced (.seq φ ψ) a c
  | alt {φ ψ : Phrase Symbol} {a b : Nat} (left : Braced φ a b) (right : Braced ψ a b) : Braced (.alt φ ψ) a b
  | many {φ : Phrase Symbol} {depth : Nat} (item : Braced φ depth depth) : Braced (.many φ) depth depth
  | stop {sort : Lexeme → Bool} {depth : Nat} : Braced (.stop sort) depth depth
  | symbol {name : Symbol} {depth : Nat} : Braced (.symbol name) depth depth

namespace Braced

theorem token {kind : TokenKind} {depth : Nat} (other : kind ≠ .leftBrace ∧ kind ≠ .rightBrace) :
    Braced (.token kind) depth depth := by
  refine .word fun t fits => ?_
  rw [beq_iff_eq.mp fits]
  exact other

theorem oneOf {kinds : List TokenKind} {depth : Nat}
    (other : kinds.all (fun k => k != .leftBrace && k != .rightBrace) = true) :
    Braced (.word (Grammar.oneOf kinds)) depth depth := by
  refine .word fun t fits => ?_
  have := List.all_eq_true.mp other t.kind (List.contains_iff_mem.mp fits)
  simpa using this

theorem maybe {φ : Phrase Symbol} {depth : Nat} (item : Braced φ depth depth) : Braced (.maybe φ) depth depth :=
  .alt item .empty

theorem commaList {φ : Phrase Symbol} {depth : Nat} (item : Braced φ depth depth) :
    Braced (.commaList φ) depth depth := by
  have comma : Braced (.token .comma) depth depth := token ⟨TokenKind.noConfusion, TokenKind.noConfusion⟩
  exact .seq (.seq item (.many (.seq comma item))) (.maybe comma)

theorem words (kinds : TokenKind → Bool) {sort : Lexeme → Bool} {depth : Nat}
    (among : ∀ t, sort t = true → kinds t.kind = true)
    (other : kinds .leftBrace = false ∧ kinds .rightBrace = false) : Braced (.word sort) depth depth := by
  refine .word fun t fits => ⟨fun kind => ?_, fun kind => ?_⟩
  · exact Bool.false_ne_true (other.1.symm.trans (kind ▸ among t fits))
  · exact Bool.false_ne_true (other.2.symm.trans (kind ▸ among t fits))

theorem gluedSlash {depth : Nat} : Braced (.word isGluedSlash) depth depth :=
  words (· == .slash) (fun _ fits => (Bool.and_eq_true_iff.mp fits).1) ⟨rfl, rfl⟩

theorem gluedSegment {depth : Nat} : Braced (.word isGluedSegment) depth depth :=
  words isSegmentToken (fun _ fits => (Bool.and_eq_true_iff.mp fits).1) ⟨rfl, rfl⟩

theorem operation {depth : Nat} : Braced (.word isOperation) depth depth :=
  words (· == .identifier) (fun _ fits => (Bool.and_eq_true_iff.mp fits).1) ⟨rfl, rfl⟩

theorem isInfix {depth : Nat} : Braced (.word isInfix) depth depth :=
  words (fun k => (infixOperator? k).isSome)
    (fun t fits => by
      unfold Grammar.isInfix at fits
      split at fits
      · rename_i known
        rw [known]
        rfl
      · cases fits) ⟨rfl, rfl⟩

/-- Every rule of the grammar is balanced. -/
theorem rule (name : Symbol) : Braced (rules name) 0 0 := by
  cases name
  all_goals
    dsimp only [rules]
    repeat first
      | exact .opening
      | exact .closing
      | exact .symbol
      | exact .stop
      | exact token (by decide)
      | exact oneOf (by decide)
      | exact gluedSlash
      | exact gluedSegment
      | exact operation
      | exact isInfix
      | exact words isSegmentToken (fun _ fits => fits) ⟨rfl, rfl⟩
      | exact words (· == .dot) (fun _ fits => (Bool.and_eq_true_iff.mp fits).1) ⟨rfl, rfl⟩
      | exact words (fun k => k == .identifier || k.isKeyword) (fun _ fits => fits) ⟨rfl, rfl⟩
      | refine maybe ?_
      | refine commaList ?_
      | refine .many ?_
      | apply Braced.seq
      | apply Braced.alt

end Braced

/-- What the grammar derives leaves the braces in front of it open and closes its own. -/
theorem pastBlock_of_derives {φ : Phrase Symbol} {ts us : List Lexeme} (derived : Derives rules φ ts us) {a b : Nat}
    (braced : Braced φ a b) (depth : Nat) :
    pastBlock Lexeme.kind (depth + a + 1) ts = pastBlock Lexeme.kind (depth + b + 1) us := by
  induction derived generalizing a b depth with
  | @word sort t rest fits =>
    cases braced with
    | word other =>
      obtain ⟨opening, closing⟩ := other t fits
      rw [pastBlock_succ]
      congr 1
      unfold braceDepth
      split <;> simp_all
    | opening =>
      rw [pastBlock_succ, beq_iff_eq.mp fits]
      rfl
    | closing =>
      rw [pastBlock_succ, beq_iff_eq.mp fits]
      rfl
  | empty =>
    cases braced
    rfl
  | seq _ _ first second =>
    cases braced with
    | seq left right => rw [first left, second right]
  | left _ ih =>
    cases braced with
    | alt chosen _ => exact ih chosen depth
  | right _ ih =>
    cases braced with
    | alt _ chosen => exact ih chosen depth
  | none =>
    cases braced
    rfl
  | more _ _ first others =>
    cases braced with
    | many item => rw [first item, others (.many item)]
  | stop =>
    cases braced
    rfl
  | @symbol name _ _ _ ih =>
    cases braced
    exact ih (Braced.rule name) (depth + a)

/-- A body ends where its first brace is closed. -/
theorem words_of_body {ts us : List Lexeme} (derived : Derives rules (.symbol .body) ts us) :
    us = pastBlock Lexeme.kind 1 ts.tail := by
  obtain ⟨vs, inner, closing⟩ := derives_seq.mp (derives_symbol.mp derived)
  obtain ⟨ws, opening, items⟩ := derives_seq.mp inner
  obtain ⟨t, rfl, _⟩ := derives_token.mp opening
  obtain ⟨u, rfl, kind⟩ := derives_token.mp closing
  have balanced := pastBlock_of_derives items (a := 0) (.many (.alt (.alt .symbol .symbol) .symbol)) 0
  rw [List.tail_cons]
  refine Eq.symm (balanced.trans ?_)
  rw [pastBlock_succ, kind]
  exact pastBlock_zero _ _

theorem map_kind_lexemes (stop : Nat) (ts : List Token) : (lexemes stop ts).map Lexeme.kind = ts.map Token.kind := by
  induction ts generalizing stop with
  | nil => rfl
  | cons t rest ih => rw [lexemes, List.map_cons, List.map_cons, ih]

/-- Reading leaves the last ones of the tokens ahead. -/
theorem Reading.rest_suffix {t : ParseTree} {s' : State} (reading : Reading f s t s') : s'.rest <:+ s.rest := by
  have low := reading.low
  have forward := reading.forward
  have stop := reading.stop
  have narrowed : s'.rest = s.rest.filter fun u => decide (s'.lastStop ≤ u.start) := by
    rw [reading.place.rest, reading.origin.rest, List.filter_filter]
    apply List.filter_congr
    intro u _
    rw [Bool.eq_iff_iff]
    simp only [Bool.and_eq_true, decide_eq_true_eq]
    constructor
    · rintro ⟨significant, later⟩
      exact ⟨later, significant, by omega⟩
    · rintro ⟨later, significant, _⟩
      exact ⟨significant, later⟩
  have sorted : s.rest.Pairwise fun a b => a.start < b.start := by
    rw [reading.origin.rest]
    exact (f.laid_tokens.filter _).start_lt
  rw [narrowed, ← Sorted.dropWhile_eq_filter Token.start _ sorted]
  exact List.dropWhile_suffix _

/-- A match body without errors ends with the brace that closes its first one. -/
theorem rest_matchBody {budget : Nat} (place : State.At f s) (tidy : s.Tidy)
    (clean : (matchBodyAt budget s).1.hasError = false) : s.isAt .leftBrace = true ∧
      (matchBodyAt budget s).2.rest = pastBlock Token.kind 1 (s.rest.drop 1) := by
  have reading := ((reads_matchBodyAt budget).1 s place).reading
  obtain ⟨_, derived⟩ := (follows_matchBodyAt budget anything s).sound tidy (by rw [Draft.isClean, clean]; rfl)
  have behind : (matchBodyAt budget s).2.words = pastBlock Lexeme.kind 1 s.words.tail := words_of_body derived
  have kinds : s.words.tail.map Lexeme.kind = (s.rest.drop 1).map Token.kind := by
    rw [State.words, List.map_tail, map_kind_lexemes, List.drop_one, List.map_tail]
  have length : (matchBodyAt budget s).2.rest.length = (pastBlock Token.kind 1 (s.rest.drop 1)).length := by
    have words := congrArg (List.map Lexeme.kind) behind
    have tokens := map_pastBlock (fun k : TokenKind => k) Token.kind 1 (s.rest.drop 1)
    have lexemes := map_pastBlock (fun k : TokenKind => k) Lexeme.kind 1 s.words.tail
    rw [lexemes, kinds, ← tokens] at words
    simpa [State.length_words] using congrArg List.length words
  have suffix := ((pastBlock_suffix Token.kind 1 (s.rest.drop 1)).trans (List.drop_suffix 1 s.rest))
  refine ⟨?_, (List.suffix_of_suffix_length_le reading.rest_suffix suffix (Nat.le_of_eq length)).eq_of_length length⟩
  have opens := List.mem_singleton.mp (starts_body.headKind_mem derived)
  rw [State.isAt_eq]
  exact beq_iff_eq.mpr opens

end SecurityRules.Parser
