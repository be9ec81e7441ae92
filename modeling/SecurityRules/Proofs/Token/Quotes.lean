import SecurityRules.Proofs.Token.Splitting
import SecurityRules.Rules.Expr

/-!
# Strings between quotes

The lexer passes over a backslash and the byte behind it without a look at that byte; the value of a string is read by
looking at it. Both find escapes at the same places, so every value can be written between quotes and read back.
-/

namespace SecurityRules

namespace Literal

/-- How a byte of a string is written between two quotes. -/
def escapeByte (quote b : UInt8) : Bytes :=
  if b == 0x5C then [0x5C, 0x5C] else if b == quote then [0x5C, quote] else if b == 0x0A then [0x5C, 0x6E] else [b]

/-- A string as it is written between two quotes: backslashes, quotes of that sort and line feeds are escaped. -/
def written (quote : UInt8) (s : Bytes) : Bytes := quote :: s.flatMap (escapeByte quote) ++ [quote]

variable {quote : UInt8} (isQuote : quote = 0x22 ∨ quote = 0x27)
include isQuote

/-- A byte is written as an escape that stands for it, or as it is. -/
theorem escapeByte_cases (b : UInt8) : (∃ c, escapeByte quote b = [0x5C, c] ∧ unescapeByte c = b) ∨
    escapeByte quote b = [b] ∧ b ≠ 0x5C ∧ b ≠ quote ∧ b ≠ 0x0A := by
  unfold escapeByte
  split
  · rename_i backslash
    rw [beq_iff_eq.mp backslash]
    exact .inl ⟨0x5C, rfl, rfl⟩
  rename_i noBackslash
  split
  · rename_i same
    rw [beq_iff_eq.mp same]
    refine .inl ⟨quote, rfl, ?_⟩
    rcases isQuote with rfl | rfl <;> rfl
  rename_i noQuote
  split
  · rename_i feed
    rw [beq_iff_eq.mp feed]
    exact .inl ⟨0x6E, rfl, rfl⟩
  · rename_i noFeed
    exact .inr ⟨rfl, by simpa using noBackslash, by simpa using noQuote, by simpa using noFeed⟩

/-- The lexer passes over what stands for a byte. -/
theorem stringTail_escapeByte (b : UInt8) (s : Bytes) : Lexer.stringTail quote (escapeByte quote b ++ s) =
    ((escapeByte quote b).length + (Lexer.stringTail quote s).1, (Lexer.stringTail quote s).2) := by
  rcases escapeByte_cases isQuote b with ⟨c, escape, -⟩ | ⟨plain, noBackslash, noQuote, noFeed⟩
  · have backslash : ((0x5C : UInt8) == quote) = false := by rcases isQuote with rfl | rfl <;> rfl
    rw [escape, List.cons_append, Lexer.stringTail_cons, backslash]
    rfl
  · rw [plain, List.singleton_append, Lexer.stringTail_cons, beq_false_of_ne noQuote, beq_false_of_ne noBackslash,
      beq_false_of_ne noFeed]
    rfl

/-- What stands for a byte is read as that byte. -/
theorem unescape_escapeByte (b : UInt8) (s : Bytes) : unescape (escapeByte quote b ++ s) = b :: unescape s := by
  rcases escapeByte_cases isQuote b with ⟨c, escape, value⟩ | ⟨plain, noBackslash, -, -⟩
  · rw [escape, List.cons_append, List.singleton_append, unescape, if_pos (beq_self_eq_true _), value]
  · rw [plain, List.singleton_append]
    cases s with
    | nil => rfl
    | cons c s => rw [unescape, if_neg (by simpa using noBackslash)]

theorem stringTail_written (s rest : Bytes) : Lexer.stringTail quote (s.flatMap (escapeByte quote) ++ quote :: rest) =
    ((s.flatMap (escapeByte quote)).length + 1, true) := by
  induction s with
  | nil =>
    rw [List.flatMap_nil, List.nil_append, Lexer.stringTail_cons, if_pos (beq_self_eq_true quote)]
    rfl
  | cons b s ih =>
    rw [List.flatMap_cons, List.append_assoc, stringTail_escapeByte isQuote, ih, List.length_append, Nat.add_assoc]

theorem unescape_written (s : Bytes) : unescape (s.flatMap (escapeByte quote)) = s := by
  induction s with
  | nil => rfl
  | cons b s ih => rw [List.flatMap_cons, unescape_escapeByte isQuote, ih]

theorem unquote_written (s : Bytes) : unquote (written quote s) = s := by
  have long : ¬ (written quote s).length < 2 := by simp [written]
  rw [unquote, if_neg long, written, List.cons_append, List.drop_one, List.tail_cons, List.dropLast_concat,
    unescape_written isQuote]

theorem measure_written (s rest : Bytes) : Lexer.measure quote (s.flatMap (escapeByte quote) ++ quote :: rest) =
    (.string, (s.flatMap (escapeByte quote)).length + 1) := by
  have tail := stringTail_written isQuote s rest
  generalize s.flatMap (escapeByte quote) ++ quote :: rest = behind at tail ⊢
  -- A quote starts neither a comment nor a name nor a number.
  have string : Lexer.measure quote behind = (if (Lexer.stringTail quote behind).2 then .string else .invalid,
      (Lexer.stringTail quote behind).1) := by
    rcases isQuote with rfl | rfl <;> rfl
  rw [string, tail]
  rfl

/-- Every string can be written between quotes: whatever follows, the lexer reads exactly what has been written as one
string, and the value of that is the string. -/
theorem written_read (s rest : Bytes) :
    (Lexer.tokens (written quote s ++ rest)).head? =
        some ⟨.string, 0, (written quote s).length, written quote s⟩ ∧
      unquote (written quote s) = s := by
  refine ⟨?_, unquote_written isQuote s⟩
  have dark : Lexer.isBlank quote = false := by rcases isQuote with rfl | rfl <;> rfl
  have whole : written quote s ++ rest = quote :: (s.flatMap (escapeByte quote) ++ quote :: rest) := by
    simp [written]
  have taken : (s.flatMap (escapeByte quote) ++ quote :: rest).take ((s.flatMap (escapeByte quote)).length + 1) =
      s.flatMap (escapeByte quote) ++ [quote] := by
    simp [List.take_append, List.take_of_length_le]
  rw [Lexer.tokens, Lexer.Cursor.start, whole, Lexer.tokensFrom_cons dark, List.head?_cons, Lexer.tokenAt,
    measure_written isQuote, taken, Nat.zero_add]
  rfl

omit isQuote

/-- Backslashes next to quotes and a line feed, an accent, and a byte that belongs to no character. -/
def sampleValue : Bytes := Bytes.ofString "\\\\'\\\n\"é" ++ [0xC3]

theorem written_read_sampleValue : ((0x27 : UInt8) = 0x22 ∨ (0x27 : UInt8) = 0x27) ∧
    (Lexer.tokens (written 0x27 sampleValue ++ [0x27, 0x5C])).head? =
        some ⟨.string, 0, (written 0x27 sampleValue).length, written 0x27 sampleValue⟩ ∧
      unquote (written 0x27 sampleValue) = sampleValue :=
  ⟨.inr rfl, written_read (.inr rfl) sampleValue [0x27, 0x5C]⟩

example : written 0x27 sampleValue = Bytes.ofString "'\\\\\\\\\\'\\\\\\n\"é" ++ [0xC3] ++ Bytes.ofString "'" := by
  decide +kernel

end Literal

end SecurityRules
