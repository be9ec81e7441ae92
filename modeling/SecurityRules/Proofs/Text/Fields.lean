import Mathlib.Data.List.Basic
import SecurityRules.Number.Signed
import SecurityRules.Proofs.Text.Boundary
import SecurityRules.Text.Quoted

/-!
# Fields of a text

Text is cut at the first separator that stands in it. White space around a field is cut off; of ASCII text that is byte
by byte, since it is one character a byte. A number in decimal is a run of digits that reads as the number.
-/

namespace SecurityRules

namespace Bytes

/-! ## Cuts -/

variable {b : UInt8} {s left right : Bytes}

theorem cut?_eq_none_iff : cut? b s = none ↔ b ∉ s := by
  induction s with
  | nil => simp [cut?]
  | cons a rest ih =>
    rw [cut?, List.mem_cons, not_or]
    split
    · rename_i same
      simp [same]
    · rename_i other
      rw [Option.map_eq_none_iff, ih]
      exact (and_iff_right (Ne.symm other)).symm

theorem cut?_of_notMem (outside : b ∉ left) (right : Bytes) : cut? b (left ++ b :: right) = some (left, right) := by
  induction left with
  | nil => exact if_pos rfl
  | cons a rest ih =>
    rw [List.mem_cons, not_or] at outside
    rw [List.cons_append, cut?, if_neg (Ne.symm outside.1), ih outside.2]
    rfl

/-- Nothing but the separator is dropped. -/
theorem eq_of_cut? (cut : cut? b s = some (left, right)) : s = left ++ b :: right ∧ b ∉ left := by
  induction s generalizing left with
  | nil => cases cut
  | cons a rest ih =>
    rw [cut?] at cut
    split at cut
    · rename_i same
      cases cut
      exact ⟨by rw [same, List.nil_append], List.not_mem_nil⟩
    · rename_i other
      obtain ⟨⟨front, behind⟩, found, same⟩ := Option.map_eq_some_iff.mp cut
      cases same
      obtain ⟨whole, outside⟩ := ih found
      exact ⟨by rw [List.cons_append, ← whole], List.not_mem_cons_of_ne_of_not_mem (Ne.symm other) outside⟩

theorem cut?_append (cut : cut? b s = some (left, right)) (more : Bytes) :
    cut? b (s ++ more) = some (left, right ++ more) := by
  obtain ⟨rfl, outside⟩ := eq_of_cut? cut
  rw [List.append_assoc, List.cons_append]
  exact cut?_of_notMem outside _

/-- A text without separators, or the part in front of the first one and what follows it. -/
theorem cut?_cases (b : UInt8) (s : Bytes) : (b ∉ s ∧ cut? b s = none) ∨
    ∃ left right, s = left ++ b :: right ∧ b ∉ left ∧ cut? b s = some (left, right) := by
  cases cut : cut? b s with
  | none => exact .inl ⟨cut?_eq_none_iff.mp cut, rfl⟩
  | some pieces =>
    obtain ⟨whole, outside⟩ := eq_of_cut? cut
    exact .inr ⟨pieces.1, pieces.2, whole, outside, rfl⟩

/-! ## Decimal numbers -/

/-- The digits of a number are its decimal digits, each one byte. -/
theorem decimal_eq (n : Nat) : decimal n = (Nat.toDigits 10 n).map (·.val.toUInt8) := by
  have single : ∀ c ∈ Nat.toDigits 10 n, String.utf8EncodeChar c = [c.val.toUInt8] := by
    intro c member
    have digit := Nat.isDigit_of_mem_toDigits (by decide) (by decide) member
    apply String.utf8EncodeChar_eq_singleton
    simp only [Char.isDigit, Bool.and_eq_true, decide_eq_true_eq] at digit
    rw [Char.utf8Size, if_pos]
    exact UInt32.le_trans digit.2 (by decide)
  rw [decimal, ofString, Nat.toString_eq_repr, Nat.repr_eq_ofList_toDigits, String.toUTF8, String.toByteArray_ofList,
    List.utf8Encode, List.toList_data_toByteArray, List.flatMap_congr single]
  exact List.map_eq_flatMap.symm

theorem decimal_ne_nil (n : Nat) : decimal n ≠ [] := by
  rw [decimal_eq, Ne, List.map_eq_nil_iff]
  exact Nat.toDigits_ne_nil

/-- A decimal digit as a byte. -/
theorem digit_byte {c : Char} (digit : c.isDigit = true) :
    isDigit c.val.toUInt8 = true ∧ (c.val.toUInt8 - 0x30).toNat = c.toNat - '0'.toNat := by
  simp only [Char.isDigit, Bool.and_eq_true, decide_eq_true_eq] at digit
  have low : 48 ≤ c.val.toNat := digit.1
  have high : c.val.toNat ≤ 57 := digit.2
  have byte : c.val.toUInt8.toNat = c.val.toNat := by
    rw [UInt32.toNat_toUInt8]
    exact Nat.mod_eq_of_lt (by omega)
  have least : (0x30 : UInt8) ≤ c.val.toUInt8 := UInt8.le_iff_toNat_le.mpr (by rw [byte]; exact low)
  have most : c.val.toUInt8 ≤ (0x39 : UInt8) := UInt8.le_iff_toNat_le.mpr (by rw [byte]; exact high)
  refine ⟨Bool.and_eq_true_iff.mpr ⟨decide_eq_true least, decide_eq_true most⟩, ?_⟩
  rw [UInt8.toNat_sub_of_le _ _ least, byte]
  rfl

theorem all_isDigit_decimal (n : Nat) : (decimal n).all isDigit = true := by
  rw [decimal_eq, List.all_map, List.all_eq_true]
  exact fun c member => (digit_byte (Nat.isDigit_of_mem_toDigits (by decide) (by decide) member)).1

theorem isDigit_of_mem_decimal {n : Nat} {b : UInt8} (member : b ∈ decimal n) : isDigit b = true :=
  List.all_eq_true.mp (all_isDigit_decimal n) b member

/-- Digits read as the number that they were made of. -/
theorem digits?_decimal (n : Nat) : digits? (decimal n) = some n := by
  have filled : (decimal n).isEmpty = false := List.isEmpty_eq_false_iff.mpr (decimal_ne_nil n)
  rw [digits?, filled, all_isDigit_decimal]
  simp only [Bool.not_true, Bool.or_self, Bool.false_eq_true, ↓reduceIte, Option.some.injEq]
  have step : ∀ (cs : List Char) (m : Nat), (∀ c ∈ cs, c.isDigit = true) →
      (cs.map (·.val.toUInt8)).foldl (fun m b => m * 10 + (b - 0x30).toNat) m = Nat.ofDigitChars 10 cs m := by
    intro cs
    induction cs with
    | nil => exact fun _ _ => rfl
    | cons c cs ih =>
      intro m digits
      rw [List.map_cons, List.foldl_cons, ih _ fun d member => digits d (List.mem_cons_of_mem _ member),
        (digit_byte (digits c (List.mem_cons_self ..))).2, Nat.ofDigitChars_cons, Nat.mul_comm m]
  rw [decimal_eq, step _ 0 fun c => Nat.isDigit_of_mem_toDigits (by decide) (by decide)]
  exact Nat.ofDigitChars_toDigits (by decide) (by decide)

end Bytes

/-- A number that fits into 64 bits is read back with its sign. -/
theorem Number.signed?_decimal {n : Nat} (fits : (n : Int) ≤ maxSigned) : signed? (Bytes.decimal n) = some (n : Int) := by
  have read := Bytes.digits?_decimal n
  have small : isSigned64 n = true := by
    refine Bool.and_eq_true_iff.mpr ⟨decide_eq_true ?_, decide_eq_true fits⟩
    exact Int.le_trans (by decide) (Int.natCast_nonneg n)
  rw [signed?.eq_def]
  dsimp only
  split
  · rename_i digits shape
    exact absurd (Bytes.isDigit_of_mem_decimal (shape ▸ List.mem_cons_self ..)) (by decide)
  · rename_i digits shape
    exact absurd (Bytes.isDigit_of_mem_decimal (shape ▸ List.mem_cons_self ..)) (by decide)
  · rw [read]
    simp [Option.filter, small]

/-! ## Text of single bytes -/

theorem Bytes.isAscii_of_isDigit (b : UInt8) (digit : isDigit b = true) : Utf8.isAscii b = true := by
  simp only [isDigit, Bool.and_eq_true, decide_eq_true_eq] at digit
  exact decide_eq_true (UInt8.lt_of_le_of_lt digit.2 (by decide))

namespace Text

theorem isBlank_of_isDigit {b : UInt8} (digit : Bytes.isDigit b = true) : isBlank b.toNat = false := by
  simp only [Bytes.isDigit, Bool.and_eq_true, decide_eq_true_eq] at digit
  have low : 48 ≤ b.toNat := UInt8.le_iff_toNat_le.mp digit.1
  have high : b.toNat ≤ 57 := UInt8.le_iff_toNat_le.mp digit.2
  simp only [isBlank, Bool.or_eq_false_iff, Bool.and_eq_false_iff, decide_eq_false_iff_not, beq_eq_false_iff_ne]
  omega

theorem characters_of_isAscii {s : Bytes} (ascii : ∀ b ∈ s, Utf8.isAscii b = true) :
    characters s = s.map fun b => ([b], ⟨b.toNat, 1⟩) := by
  induction s with
  | nil => rw [characters, List.map_nil]
  | cons b rest ih =>
    rw [characters, Utf8.decodeFrom_of_isAscii (ascii b (List.mem_cons_self ..)), List.map_cons,
      ← ih fun c member => ascii c (List.mem_cons_of_mem _ member)]
    rfl

theorem mem_of_mem_characters {s : Bytes} {c : Bytes × Utf8.Decoded} {b : UInt8} (member : c ∈ characters s)
    (inside : b ∈ c.1) : b ∈ s := by
  induction s using characters.induct with
  | case1 => simp [characters] at member
  | case2 first rest _ ih =>
    rw [characters, List.mem_cons] at member
    rcases member with rfl | later
    · rcases List.mem_cons.mp inside with rfl | inside
      · exact List.mem_cons_self ..
      · exact List.mem_cons_of_mem _ (List.mem_of_mem_take inside)
    · exact List.mem_cons_of_mem _ (List.mem_of_mem_drop (ih later))

/-- Nothing comes in where white space is cut off. -/
theorem mem_of_mem_trimBlanks {s : Bytes} {b : UInt8} (member : b ∈ trimBlanks s) : b ∈ s := by
  rw [trimBlanks, List.mem_flatMap] at member
  obtain ⟨c, member, inside⟩ := member
  have kept := (List.dropWhile_suffix _).mem (List.mem_reverse.mp member)
  exact mem_of_mem_characters ((List.dropWhile_suffix _).mem (List.mem_reverse.mp kept)) inside

/-- White space in front of text that has none at its ends is cut off. -/
theorem trimBlanks_of_isAscii {blanks s : Bytes} (ascii : ∀ b ∈ blanks ++ s, Utf8.isAscii b = true)
    (blank : ∀ b ∈ blanks, isBlank b.toNat = true) (solid : ∀ b ∈ s, isBlank b.toNat = false) :
    trimBlanks (blanks ++ s) = s := by
  have front : (((blanks ++ s).map fun b => (([b], ⟨b.toNat, 1⟩) : Bytes × Utf8.Decoded)).dropWhile
      fun c => isBlank c.2.code) = s.map fun b => ([b], ⟨b.toNat, 1⟩) := by
    rw [List.map_append, List.dropWhile_append_of_pos]
    · cases s with
      | nil => rfl
      | cons b rest => exact List.dropWhile_cons_of_neg (by simp [solid b (List.mem_cons_self ..)])
    · simpa using blank
  have back : ((s.map fun b => (([b], ⟨b.toNat, 1⟩) : Bytes × Utf8.Decoded)).reverse.dropWhile
      fun c => isBlank c.2.code) = (s.map fun b => ([b], ⟨b.toNat, 1⟩)).reverse := by
    rw [← List.map_reverse]
    cases turned : s.reverse with
    | nil => rfl
    | cons b rest =>
      have last : b ∈ s := List.mem_reverse.mp (turned ▸ List.mem_cons_self ..)
      exact List.dropWhile_cons_of_neg (by simp [solid b last])
  rw [trimBlanks, characters_of_isAscii ascii, front, back, List.reverse_reverse, List.flatMap_map]
  exact List.flatMap_singleton' s

theorem trimBlanks_decimal {blanks : Bytes} (ascii : ∀ b ∈ blanks, Utf8.isAscii b = true)
    (blank : ∀ b ∈ blanks, isBlank b.toNat = true) (n : Nat) :
    trimBlanks (blanks ++ Bytes.decimal n) = Bytes.decimal n := by
  refine trimBlanks_of_isAscii (fun b member => ?_) blank fun b digit =>
    isBlank_of_isDigit (Bytes.isDigit_of_mem_decimal digit)
  obtain before | digit := List.mem_append.mp member
  · exact ascii b before
  · exact Bytes.isAscii_of_isDigit b (Bytes.isDigit_of_mem_decimal digit)

end Text

end SecurityRules
