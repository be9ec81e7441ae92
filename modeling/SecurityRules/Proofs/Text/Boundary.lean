import Mathlib.Data.List.Basic
import SecurityRules.SourceFile

/-!
# Boundaries of characters and well-formed text

An offset of a text is a boundary if decoding from the start comes to it. At a boundary a text can be cut without a
change to its characters. Bytes below 0x80 are characters of their own, wherever they stand.

A text is well-formed if decoding finds no byte in it that belongs to no character. Such texts can be put together and
cut at boundaries, and the bytes at boundaries are exactly those that continue no character.
-/

namespace SecurityRules

namespace Utf8

/-- Whether a byte is a character of its own. -/
def isAscii (b : UInt8) : Bool := b < 0x80

/-- What holds of the bytes with the numbers below 256 holds of every byte. -/
theorem forall_byte {P : UInt8 → Prop} (all : ∀ n : Fin 256, P (UInt8.ofFin n)) (b : UInt8) : P b := all b.toFin

/-- Bytes that continue a character lie below all that start one of several bytes. -/
theorem range_of_isContinuation : ∀ b : UInt8, isContinuation b = true → isAscii b = false ∧ b < 0xC2 :=
  forall_byte (by decide +kernel)

variable {b : UInt8} {rest : Bytes}

theorem isContinuation_of_isAscii (ascii : isAscii b = true) : isContinuation b = false := by
  refine Bool.eq_false_iff.mpr fun continues => ?_
  rw [(range_of_isContinuation b continues).1] at ascii
  cases ascii

theorem isContinuation_iff : ∀ b : UInt8, isContinuation b = true ↔ 0x80 ≤ b ∧ b ≤ 0xBF :=
  forall_byte (by decide +kernel)

theorem isContinuation_of_isSecond {c : UInt8} (second : isSecond b c = true) : isContinuation c = true := by
  have range : 0x80 ≤ (secondRange b).1 ∧ (secondRange b).2 ≤ 0xBF := by
    unfold secondRange
    repeat' split
    all_goals decide
  simp only [isSecond, Bool.and_eq_true, decide_eq_true_eq] at second
  exact (isContinuation_iff c).mpr ⟨UInt8.le_trans range.1 second.1, UInt8.le_trans second.2 range.2⟩

theorem size_pos (b : UInt8) (rest : Bytes) : 0 < (decodeFrom b rest).size := by
  rw [decodeFrom.eq_def]
  unfold malformed
  repeat' split
  all_goals exact Nat.succ_pos _

theorem decodeFrom_of_isAscii (ascii : isAscii b = true) : decodeFrom b rest = ⟨b.toNat, 1⟩ := by
  rw [decodeFrom.eq_def, if_pos (by simpa [isAscii] using ascii)]

/-- The bytes of a character behind its first one are there, and they continue it. -/
theorem tail_continues (b : UInt8) (rest : Bytes) : (decodeFrom b rest).size - 1 ≤ rest.length ∧
    ∀ c ∈ rest.take ((decodeFrom b rest).size - 1), isContinuation c = true := by
  have second : ∀ c : UInt8, ¬(!isSecond b c) = true → isContinuation c = true := by
    intro c found
    rw [Bool.not_eq_true', Bool.not_eq_false] at found
    exact isContinuation_of_isSecond found
  have later : ∀ c : UInt8, ¬(!isContinuation c) = true → isContinuation c = true := by
    intro c found
    rwa [Bool.not_eq_true', Bool.not_eq_false] at found
  fun_cases decodeFrom b rest
  case case5 c rest found _ =>
    exact ⟨Nat.le_add_left .., List.forall_mem_cons.mpr ⟨second c found, nofun⟩⟩
  case case8 c found _ d rest next _ =>
    refine ⟨Nat.le_add_left .., List.forall_mem_cons.mpr ⟨second c found, ?_⟩⟩
    exact List.forall_mem_cons.mpr ⟨later d next, nofun⟩
  case case11 c found _ d next _ e rest last =>
    refine ⟨Nat.le_add_left .., List.forall_mem_cons.mpr ⟨second c found, ?_⟩⟩
    exact List.forall_mem_cons.mpr ⟨later d next, List.forall_mem_cons.mpr ⟨later e last, nofun⟩⟩
  -- Everywhere else the character is its first byte alone.
  all_goals exact ⟨Nat.zero_le _, nofun⟩

/-- None of the bytes of a character behind its first one is a character of its own. -/
theorem tail_of_character (b : UInt8) (rest : Bytes) :
    ∀ c ∈ rest.take ((decodeFrom b rest).size - 1), isAscii c = false :=
  fun c member => (range_of_isContinuation c ((tail_continues b rest).2 c member)).1

/-- Decoding one character looks at the bytes of that character only. -/
theorem decodeFrom_take (b : UInt8) (rest : Bytes) (k : Nat) (long : (decodeFrom b rest).size - 1 ≤ k) :
    decodeFrom b (rest.take k) = decodeFrom b rest := by
  by_cases low : b < 0x80
  · rw [decodeFrom.eq_def, decodeFrom.eq_def, if_pos low, if_pos low]
  by_cases lead : (b < 0xC2 || 0xF4 < b) = true
  · rw [decodeFrom.eq_def, decodeFrom.eq_def, if_neg low, if_neg low, if_pos lead, if_pos lead]
  -- Where decoding stops, the bytes that are cut off have not been looked at.
  have skipped : (b < 0xC2 || 0xF4 < b) = false := Bool.eq_false_iff.mpr lead
  rcases rest with _ | ⟨c, rest⟩
  · rw [List.take_nil]
  by_cases second : isSecond b c = true
  swap
  · cases k <;> simp [decodeFrom, low, skipped, second]
  by_cases two : b < 0xE0
  · cases k <;> simp [decodeFrom, low, skipped, second, two] at long ⊢
  rcases rest with _ | ⟨d, rest⟩
  · cases k <;> simp [decodeFrom, low, skipped, second, two]
  by_cases third : isContinuation d = true
  swap
  · rcases k with _ | _ | k <;> simp [decodeFrom, low, skipped, second, two, third]
  by_cases three : b < 0xF0
  · rcases k with _ | _ | k <;> simp [decodeFrom, low, skipped, second, two, third, three] at long ⊢
  rcases rest with _ | ⟨e, rest⟩
  · rcases k with _ | _ | k <;> simp [decodeFrom, low, skipped, second, two, third, three]
  by_cases fourth : isContinuation e = true
  · rcases k with _ | _ | _ | k <;> simp [decodeFrom, low, skipped, second, two, third, three, fourth] at long ⊢
  · rcases k with _ | _ | _ | k <;> simp [decodeFrom, low, skipped, second, two, third, three, fourth]

/-- Decoding a text from its start comes to an offset. -/
inductive Boundary : Bytes → Nat → Prop
  | zero (s : Bytes) : Boundary s 0
  | next {b : UInt8} {rest : Bytes} {n : Nat} (behind : Boundary (rest.drop ((decodeFrom b rest).size - 1)) n) :
    Boundary (b :: rest) ((decodeFrom b rest).size + n)

theorem decodeAll_cons (b : UInt8) (rest : Bytes) :
    decodeAll (b :: rest) = decodeFrom b rest :: decodeAll (rest.drop ((decodeFrom b rest).size - 1)) := by
  rw [decodeAll]

/-- What holds of a text as soon as it holds of what follows its first character holds of every text. -/
theorem induct {motive : Bytes → Prop} (nil : motive [])
    (cons : ∀ b rest, motive (rest.drop ((decodeFrom b rest).size - 1)) → motive (b :: rest)) : ∀ s, motive s
  | [] => nil
  | b :: rest => cons b rest (induct nil cons _)
termination_by s => s.length
decreasing_by simp only [List.length_drop, List.length_cons]; omega

namespace Boundary

variable {s : Bytes} {n m k : Nat}

theorem le_length (here : Boundary s n) : n ≤ s.length := by
  induction here with
  | zero s => exact Nat.zero_le _
  | @next b rest n _ ih =>
    have tail := (tail_continues b rest).1
    have positive := size_pos b rest
    rw [List.length_drop] at ih
    rw [List.length_cons]
    omega

theorem drop_size (b : UInt8) (rest : Bytes) :
    (b :: rest).drop (decodeFrom b rest).size = rest.drop ((decodeFrom b rest).size - 1) := by
  have positive := size_pos b rest
  obtain ⟨size, same⟩ := Nat.exists_eq_add_of_lt positive
  rw [same]
  simp

/-- One character on. -/
theorem first (b : UInt8) (rest : Bytes) : Boundary (b :: rest) (decodeFrom b rest).size :=
  .next (.zero _)

/-- A boundary behind a boundary. -/
theorem trans (here : Boundary s n) (behind : Boundary (s.drop n) m) : Boundary s (n + m) := by
  induction here with
  | zero s => simpa using behind
  | @next b rest n _ ih =>
    rw [← List.drop_drop, drop_size] at behind
    rw [Nat.add_assoc]
    exact .next (ih behind)

/-- Of two boundaries the farther one is a boundary of what lies behind the nearer one. -/
theorem drop (here : Boundary s n) (there : Boundary s (n + m)) : Boundary (s.drop n) m := by
  induction here with
  | zero s => simpa using there
  | @next b rest n _ ih =>
    rw [← List.drop_drop, drop_size]
    apply ih
    have positive := size_pos b rest
    cases farther : (decodeFrom b rest).size + n + m with
    | zero => omega
    | succ total =>
      rw [farther] at there
      generalize whole : b :: rest = text at there
      generalize far : total + 1 = place at there
      cases there with
      | zero => omega
      | @next c more k behind =>
        obtain ⟨rfl, rfl⟩ := List.cons.inj whole
        have same : n + m = k := by omega
        rw [same]
        exact behind

/-- A boundary stays one if the text is cut behind it. -/
theorem take (here : Boundary s n) (inside : n ≤ k) : Boundary (s.take k) n := by
  induction here generalizing k with
  | zero s => exact .zero _
  | @next b rest n _ ih =>
    have positive := size_pos b rest
    obtain ⟨k, rfl⟩ : ∃ j, k = j + 1 := ⟨k - 1, by omega⟩
    rw [List.take_succ_cons]
    have same := decodeFrom_take b rest k (by omega)
    rw [← same]
    refine .next ?_
    rw [same, List.drop_take]
    exact ih (by omega)

/-- The end of a text is a boundary. -/
theorem length (s : Bytes) : Boundary s s.length := by
  induction s using induct with
  | nil => exact .zero _
  | cons b rest ih =>
    have tail := (tail_continues b rest).1
    have positive := size_pos b rest
    have total : (b :: rest).length =
        (decodeFrom b rest).size + (rest.drop ((decodeFrom b rest).size - 1)).length := by
      rw [List.length_cons, List.length_drop]
      omega
    rw [total]
    exact .next ih

/-- A byte that continues no character stands at a boundary. -/
theorem of_starts {b : UInt8} (found : s[n]? = some b) (starts : isContinuation b = false) : Boundary s n := by
  induction s using induct generalizing n with
  | nil => simp at found
  | cons c rest ih =>
    cases n with
    | zero => exact .zero _
    | succ n =>
      rw [List.getElem?_cons_succ] at found
      have positive := size_pos c rest
      by_cases inside : n < (decodeFrom c rest).size - 1
      · have member : b ∈ rest.take ((decodeFrom c rest).size - 1) := by
          rw [List.mem_iff_getElem?]
          exact ⟨n, by rw [List.getElem?_take_of_lt inside, found]⟩
        rw [(tail_continues c rest).2 b member] at starts
        cases starts
      · have split : n + 1 = (decodeFrom c rest).size + (n - ((decodeFrom c rest).size - 1)) := by omega
        rw [split]
        refine .next (ih ?_)
        rw [List.getElem?_drop, Nat.add_sub_cancel' (Nat.le_of_not_lt inside)]
        exact found

/-- A byte that is a character of its own stands at a boundary. -/
theorem of_isAscii {b : UInt8} (found : s[n]? = some b) (ascii : isAscii b = true) : Boundary s n :=
  of_starts found (isContinuation_of_isAscii ascii)

/-- Behind a byte that is a character of its own there is a boundary. -/
theorem behind_isAscii {b : UInt8} (found : s[n]? = some b) (ascii : isAscii b = true) : Boundary s (n + 1) := by
  refine (of_isAscii found ascii).trans ?_
  obtain ⟨inside, found⟩ := List.getElem?_eq_some_iff.mp found
  rw [List.drop_eq_getElem_cons inside, found]
  have one := first b (s.drop (n + 1))
  rw [decodeFrom_of_isAscii ascii] at one
  exact one

/-- Behind bytes that are all characters of their own there is a boundary. -/
theorem of_forall (inside : n ≤ s.length) (ascii : ∀ b ∈ s.take n, isAscii b = true) : Boundary s n := by
  cases n with
  | zero => exact .zero _
  | succ n =>
    have found : s[n]? = some s[n] := List.getElem?_eq_getElem inside
    refine behind_isAscii found (ascii _ ?_)
    rw [List.mem_iff_getElem?]
    exact ⟨n, by rw [List.getElem?_take_of_lt (Nat.lt_succ_self n), found]⟩

/-- At a boundary the characters of a text are those in front of it and those behind it. -/
theorem decodeAll_append (here : Boundary s n) : decodeAll s = decodeAll (s.take n) ++ decodeAll (s.drop n) := by
  induction here with
  | zero s => rw [List.take_zero, List.drop_zero, decodeAll, List.nil_append]
  | @next b rest n _ ih =>
    have positive := size_pos b rest
    have cut : (b :: rest).take ((decodeFrom b rest).size + n) =
        b :: rest.take ((decodeFrom b rest).size - 1 + n) := by
      rw [← List.take_succ_cons]
      congr 1
      omega
    have same := decodeFrom_take b rest ((decodeFrom b rest).size - 1 + n) (by omega)
    rw [cut, decodeAll_cons, decodeAll_cons, same, List.cons_append, List.drop_take, ← List.drop_drop, drop_size,
      Nat.add_sub_cancel_left, ih]

end Boundary

/-! ## Well-formed text -/

/-- Whether every byte of a text belongs to a character. -/
def IsValid (s : Bytes) : Prop := ∀ d ∈ decodeAll s, isMalformed d = false

instance (s : Bytes) : Decidable (IsValid s) := inferInstanceAs (Decidable (∀ d ∈ decodeAll s, isMalformed d = false))

variable {s t : Bytes} {n m : Nat}

theorem isValid_cons : IsValid (b :: rest) ↔
    isMalformed (decodeFrom b rest) = false ∧ IsValid (rest.drop ((decodeFrom b rest).size - 1)) := by
  simp [IsValid, decodeAll_cons]

/-! ### The bytes of a character -/

/-- What follows a well-formed character does not matter for it. -/
theorem decodeFrom_append_of_valid (valid : isMalformed (decodeFrom b rest) = false) (t : Bytes) :
    decodeFrom b (rest ++ t) = decodeFrom b rest := by
  by_cases low : b < 0x80
  · rw [decodeFrom.eq_def, decodeFrom.eq_def, if_pos low, if_pos low]
  by_cases lead : (b < 0xC2 || 0xF4 < b) = true
  · rw [decodeFrom.eq_def, decodeFrom.eq_def, if_neg low, if_neg low, if_pos lead, if_pos lead]
  -- Where a byte is missing the character is malformed, so all bytes that decoding looks at are there.
  have skipped : (b < 0xC2 || 0xF4 < b) = false := Bool.eq_false_iff.mpr lead
  have ill : isMalformed malformed = true := rfl
  rcases rest with _ | ⟨c, rest⟩
  · simp [decodeFrom, low, skipped, ill] at valid
  by_cases second : isSecond b c = true
  swap
  · simp [decodeFrom, low, skipped, second]
  by_cases two : b < 0xE0
  · simp [decodeFrom, low, skipped, second, two]
  rcases rest with _ | ⟨d, rest⟩
  · simp [decodeFrom, low, skipped, second, two, ill] at valid
  by_cases third : isContinuation d = true
  swap
  · simp [decodeFrom, low, skipped, second, two, third]
  by_cases three : b < 0xF0
  · simp [decodeFrom, low, skipped, second, two, third, three]
  rcases rest with _ | ⟨e, rest⟩
  · simp [decodeFrom, low, skipped, second, two, third, three, ill] at valid
  · simp [decodeFrom, low, skipped, second, two, third, three]

/-- A character that is cut is malformed. -/
theorem decodeFrom_take_cases (b : UInt8) (rest : Bytes) (k : Nat) :
    decodeFrom b (rest.take k) = decodeFrom b rest ∨ decodeFrom b (rest.take k) = malformed := by
  cases ill : isMalformed (decodeFrom b (rest.take k)) with
  | false =>
    have whole := decodeFrom_append_of_valid ill (rest.drop k)
    rw [List.take_append_drop] at whole
    exact .inl whole.symm
  | true =>
    obtain ⟨code, size⟩ := Bool.and_eq_true_iff.mp ill
    exact .inr (Decoded.mk.injEq .. |>.mpr ⟨beq_iff_eq.mp code, beq_iff_eq.mp size⟩)

/-- What starts with a byte that continues no character does not matter for the characters in front of it. -/
theorem decodeFrom_append_of_starts (starts : ∀ c ∈ t.head?, isContinuation c = false) :
    decodeFrom b (rest ++ t) = decodeFrom b rest := by
  have inside : (decodeFrom b (rest ++ t)).size - 1 ≤ rest.length := by
    by_contra beyond
    obtain ⟨long, continues⟩ := tail_continues b (rest ++ t)
    cases t with
    | nil =>
      rw [List.append_nil] at beyond long
      exact beyond long
    | cons c t =>
      have member : c ∈ (rest ++ c :: t).take ((decodeFrom b (rest ++ c :: t)).size - 1) := by
        rw [List.mem_take_iff_getElem]
        exact ⟨rest.length, by simp; omega, by simp⟩
      have outside := starts c rfl
      rw [continues c member] at outside
      cases outside
  have whole := decodeFrom_take b (rest ++ t) rest.length inside
  rw [List.take_left] at whole
  exact whole.symm

/-- A byte that only continues a character is malformed where a character is due. -/
theorem isContinuation_of_valid (valid : isMalformed (decodeFrom b rest) = false) : isContinuation b = false := by
  refine Bool.eq_false_iff.mpr fun continues => ?_
  obtain ⟨ascii, low⟩ := range_of_isContinuation b continues
  have high : ¬b < 0x80 := by simpa [isAscii] using ascii
  rw [decodeFrom.eq_def, if_neg high, if_pos (by simp [low])] at valid
  exact absurd valid (by decide)

/-! ### Texts put together and cut -/

/-- A boundary stays one if the text goes on, provided that the text is well-formed or what follows starts a
character. -/
theorem Boundary.append (here : Boundary s n) (fits : IsValid s ∨ ∀ c ∈ t.head?, isContinuation c = false) :
    Boundary (s ++ t) n := by
  induction here with
  | zero s => exact .zero _
  | @next b rest n _ ih =>
    have same : decodeFrom b (rest ++ t) = decodeFrom b rest := by
      rcases fits with valid | starts
      · exact decodeFrom_append_of_valid (isValid_cons.mp valid).1 t
      · exact decodeFrom_append_of_starts starts
    have behind := ih (fits.imp_left fun valid => (isValid_cons.mp valid).2)
    rw [← List.drop_append_of_le_length (tail_continues b rest).1, ← same] at behind
    rw [← same]
    exact .next behind

theorem decodeAll_append (fits : IsValid s ∨ ∀ c ∈ t.head?, isContinuation c = false) :
    decodeAll (s ++ t) = decodeAll s ++ decodeAll t := by
  simpa using ((Boundary.length s).append fits).decodeAll_append

theorem isValid_append_of_boundary (here : Boundary s n) : IsValid s ↔ IsValid (s.take n) ∧ IsValid (s.drop n) := by
  simp only [IsValid, here.decodeAll_append, List.mem_append, or_imp, forall_and]

namespace IsValid

theorem take (valid : IsValid s) (here : Boundary s n) : IsValid (s.take n) :=
  ((isValid_append_of_boundary here).mp valid).1

theorem drop (valid : IsValid s) (here : Boundary s n) : IsValid (s.drop n) :=
  ((isValid_append_of_boundary here).mp valid).2

theorem append (first : IsValid s) (second : IsValid t) : IsValid (s ++ t) := by
  intro d member
  rw [decodeAll_append (.inl first), List.mem_append] at member
  exact member.elim (first d) (second d)

/-- A well-formed text starts with a byte that continues no character. -/
theorem starts (valid : IsValid s) : ∀ c ∈ s.head?, isContinuation c = false := by
  intro c head
  cases s with
  | nil => cases head
  | cons b rest =>
    obtain rfl := Option.some.inj head
    exact isContinuation_of_valid (isValid_cons.mp valid).1

/-- Of a well-formed text the boundaries are the places of bytes that continue no character. -/
theorem boundary_iff (valid : IsValid s) (found : s[n]? = some b) : Boundary s n ↔ isContinuation b = false := by
  refine ⟨fun here => (valid.drop here).starts b ?_, fun starts => .of_starts found starts⟩
  rw [List.head?_drop]
  exact found

end IsValid

/-! ## UTF-16 units -/

theorem units_pos (code : Nat) : 0 < units code := by
  unfold units
  split
  · exact Nat.succ_pos _
  · exact Nat.succ_pos _

/-- A character takes no more units than bytes: one byte alone spells no character beyond the first plane. -/
theorem units_le_size (b : UInt8) (rest : Bytes) : units (decodeFrom b rest).code ≤ (decodeFrom b rest).size := by
  have most : ∀ code, units code ≤ 2 := by
    intro code
    unfold units
    split
    · exact Nat.le_refl _
    · exact Nat.le_succ _
  have plain : ∀ code, code ≤ 0xFFFF → units code ≤ 1 := by
    intro code low
    have single : units code = 1 := if_neg (Nat.not_lt.mpr low)
    exact Nat.le_of_eq single
  have byte := b.toNat_lt
  rw [decodeFrom.eq_def]
  unfold malformed
  repeat' split
  all_goals first
    | exact plain _ (by simp only [replacementCode]; omega)
    | exact Nat.le_trans (most _) (by simp)

end Utf8

open Utf8 (Boundary)

/-! ## Units of parts of a text -/

namespace SourceFile

theorem unitsOf_cons (b : UInt8) (rest : Bytes) : unitsOf (b :: rest) =
    Utf8.units (Utf8.decodeFrom b rest).code + unitsOf (rest.drop ((Utf8.decodeFrom b rest).size - 1)) := by
  rw [unitsOf, Utf8.decodeAll_cons, List.map_cons, List.sum_cons]
  rfl

/-- The units in front of a boundary and those behind it are all units. -/
theorem unitsOf_append {s : Bytes} {n : Nat} (here : Boundary s n) :
    unitsOf s = unitsOf (s.take n) + unitsOf (s.drop n) := by
  rw [unitsOf, here.decodeAll_append, List.map_append, List.sum_append]
  rfl

theorem unitsOf_pos {s : Bytes} (filled : s ≠ []) : 0 < unitsOf s := by
  cases s with
  | nil => exact absurd rfl filled
  | cons b rest =>
    rw [unitsOf_cons]
    exact Nat.add_pos_left (Utf8.units_pos _) _

theorem unitsOf_le_length (s : Bytes) : unitsOf s ≤ s.length := by
  induction s using Utf8.induct with
  | nil =>
    rw [unitsOf, Utf8.decodeAll]
    exact Nat.le_refl _
  | cons b rest ih =>
    have tail := (Utf8.tail_continues b rest).1
    have one := Utf8.units_le_size b rest
    rw [List.length_drop] at ih
    rw [unitsOf_cons, List.length_cons]
    omega

variable {f : SourceFile} {a b c : Nat}

theorem length_bytesBetween (inside : b ≤ f.size) : (f.bytesBetween a b).length = b - a := by
  rw [bytesBetween, List.length_take, List.length_drop]
  exact Nat.min_eq_left (Nat.sub_le_sub_right inside a)

theorem bytesBetween_self (f : SourceFile) (n : Nat) : f.bytesBetween n n = [] := by
  rw [bytesBetween, Nat.sub_self, List.take_zero]

theorem bytesBetween_append (f : SourceFile) (first : a ≤ b) (second : b ≤ c) :
    f.bytesBetween a b ++ f.bytesBetween b c = f.bytesBetween a c := by
  obtain ⟨m, rfl⟩ := Nat.exists_eq_add_of_le first
  obtain ⟨n, rfl⟩ := Nat.exists_eq_add_of_le second
  rw [bytesBetween, bytesBetween, bytesBetween, Nat.add_sub_cancel_left,
    Nat.add_sub_cancel_left, Nat.add_assoc, Nat.add_sub_cancel_left, ← List.drop_drop, ← List.take_add]

/-- A character boundary between two offsets cuts the units between them. -/
theorem unitsOf_bytesBetween (first : a ≤ b) (second : b ≤ c) (start : Boundary f.content a)
    (middle : Boundary f.content b) :
    unitsOf (f.bytesBetween a c) = unitsOf (f.bytesBetween a b) + unitsOf (f.bytesBetween b c) := by
  have here : Boundary (f.bytesBetween a c) (b - a) :=
    (start.drop (by rw [Nat.add_sub_cancel' first]; exact middle)).take (Nat.sub_le_sub_right second a)
  rw [unitsOf_append here, bytesBetween, bytesBetween, bytesBetween, List.take_take, List.drop_take, List.drop_drop,
    Nat.min_eq_left (Nat.sub_le_sub_right second a), Nat.add_sub_cancel' first, Nat.sub_sub_sub_cancel_right first]

end SourceFile

end SecurityRules
