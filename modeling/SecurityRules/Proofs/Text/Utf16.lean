import SecurityRules.Proofs.SourceFile.Positions
import SecurityRules.Proofs.Text.Boundary

/-!
# Text in UTF-16

Editors see a text as UTF-16 units: one for each character up to U+FFFF, a pair of surrogates for each other one. The
units of a text that is cut at a boundary are those of its parts, a line feed is the unit of the byte of the same number
and of nothing else, and a place between two units lies at a boundary or inside a pair.
-/

namespace SecurityRules.Utf16

open Utf8 (Boundary IsValid decodeFrom decodeAll isContinuation isSecond secondRange payload malformed)
open SourceFile (unitsOf)

/-- The units of a code point. -/
def ofCode (code : Nat) : List UInt16 :=
  if 0xFFFF < code then
    [UInt16.ofNat (0xD800 + (code - 0x10000) / 0x400), UInt16.ofNat (0xDC00 + (code - 0x10000) % 0x400)]
  else [UInt16.ofNat code]

/-- The units of a text. -/
def ofBytes (s : Bytes) : List UInt16 := (decodeAll s).flatMap fun d => ofCode d.code

/-- Whether a unit is the first one of a pair. -/
def isHigh (u : UInt16) : Bool := 0xD800 ≤ u && u < 0xDC00

/-- Whether a unit is the second one of a pair. -/
def isLow (u : UInt16) : Bool := 0xDC00 ≤ u && u < 0xE000

/-- Whether a place in a text lies between the two units of a pair. -/
def splitsPair (units : List UInt16) (n : Nat) : Bool :=
  (units.take n).getLast?.any isHigh && (units.drop n).head?.any isLow

variable {s t : Bytes} {b : UInt8} {rest : Bytes} {n : Nat}

/-! ## Units of a character -/

/-- What the first two bytes of a character say about its code point, so that none is written with more bytes than it
needs and none lies beyond the last one. -/
theorem range_of_isSecond {c : UInt8} (second : isSecond b c = true) (low : 0xE0 ≤ b.toNat) (high : b.toNat ≤ 0xF4) :
    (b.toNat < 0xF0 → 32 ≤ b.toNat % 16 * 64 + payload c) ∧
      (0xF0 ≤ b.toNat → 16 ≤ b.toNat % 8 * 64 + payload c ∧ b.toNat % 8 * 64 + payload c < 0x110) := by
  unfold isSecond secondRange at second
  unfold payload
  repeat' split at second
  all_goals
    simp [UInt8.le_iff_toNat_le, ← UInt8.toNat_inj] at *
    omega

/-- A byte below 0x80 is a code point of its own, all other characters are code points from there on. -/
theorem code_decodeFrom (b : UInt8) (rest : Bytes) :
    b.toNat < 0x80 ∧ (decodeFrom b rest).code = b.toNat ∨
      0x80 ≤ b.toNat ∧ 0x80 ≤ (decodeFrom b rest).code ∧ (decodeFrom b rest).code < 0x110000 := by
  have ill : 0x80 ≤ malformed.code ∧ malformed.code < 0x110000 := by decide
  have small (c : UInt8) : payload c < 64 := Nat.mod_lt _ (by decide)
  have isLead {b : UInt8} (lead : ¬(b < 0xC2 || 0xF4 < b) = true) : 0xC2 ≤ b.toNat ∧ b.toNat ≤ 0xF4 := by
    simpa [UInt8.lt_iff_toNat_lt] using lead
  have isAbove {b c : UInt8} (above : ¬b < c) : c.toNat ≤ b.toNat := by simpa [UInt8.lt_iff_toNat_lt] using above
  have isBelow {b c : UInt8} (below : b < c) : b.toNat < c.toNat := UInt8.lt_iff_toNat_lt.mp below
  fun_cases decodeFrom b rest
  case case1 ascii => exact .inl ⟨isBelow ascii, rfl⟩
  case case5 high lead c rest second two =>
    have range := isLead lead
    have two : b.toNat < 0xE0 := isBelow two
    have := small c
    refine .inr ⟨isAbove high, ?_⟩
    dsimp only
    omega
  case case8 high lead c second two d rest third three =>
    have two : 0xE0 ≤ b.toNat := isAbove two
    have range := (range_of_isSecond (by simpa using second) two (isLead lead).2).1 (isBelow three)
    have := small c
    have := small d
    refine .inr ⟨isAbove high, ?_⟩
    dsimp only
    omega
  case case11 high lead c second two d third three e rest fourth =>
    have two : 0xE0 ≤ b.toNat := isAbove two
    have range := (range_of_isSecond (by simpa using second) two (isLead lead).2).2 (isAbove three)
    have := small d
    have := small e
    refine .inr ⟨isAbove high, ?_⟩
    dsimp only
    omega
  -- Everywhere else a byte that belongs to no character is replaced.
  all_goals exact .inr ⟨isAbove ‹¬b < 0x80›, ill⟩

theorem length_ofCode (code : Nat) : (ofCode code).length = Utf8.units code := by
  unfold ofCode Utf8.units
  split <;> rfl

/-- Two units of one character are a pair. -/
theorem ofCode_pair {code : Nat} (beyond : 0xFFFF < code) (known : code < 0x110000) :
    ∃ high low, ofCode code = [high, low] ∧ isHigh high = true ∧ isLow low = true := by
  refine ⟨_, _, if_pos beyond, ?_, ?_⟩
  · have fits : (0xD800 + (code - 0x10000) / 0x400) % 65536 = 0xD800 + (code - 0x10000) / 0x400 := by omega
    simp [isHigh, UInt16.le_iff_toNat_le, UInt16.lt_iff_toNat_lt, fits]
    omega
  · have fits : (0xDC00 + (code - 0x10000) % 0x400) % 65536 = 0xDC00 + (code - 0x10000) % 0x400 := by omega
    simp [isLow, UInt16.le_iff_toNat_le, UInt16.lt_iff_toNat_lt, fits]
    omega

theorem feed_of_mem_ofCode (member : 0x0A ∈ ofCode (decodeFrom b rest).code) : b = 0x0A := by
  have range := code_decodeFrom b rest
  by_cases beyond : 0xFFFF < (decodeFrom b rest).code
  · obtain ⟨high, low, units, first, second⟩ := ofCode_pair beyond (by omega)
    rw [units, List.mem_pair] at member
    rcases member with rfl | rfl
    · exact absurd first (by decide)
    · exact absurd second (by decide)
  · have same : (0x0A : UInt16) = UInt16.ofNat (decodeFrom b rest).code := by simpa [ofCode, beyond] using member
    rw [← UInt16.toNat_inj] at same
    rw [← UInt8.toNat_inj]
    simp at same ⊢
    omega

/-! ## Units of a text -/

theorem ofBytes_nil : ofBytes [] = [] := by simp [ofBytes, decodeAll]

theorem ofBytes_cons (b : UInt8) (rest : Bytes) :
    ofBytes (b :: rest) = ofCode (decodeFrom b rest).code ++ ofBytes (rest.drop ((decodeFrom b rest).size - 1)) := by
  rw [ofBytes, Utf8.decodeAll_cons, List.flatMap_cons]
  rfl

theorem length_ofBytes (s : Bytes) : (ofBytes s).length = unitsOf s := by
  simp [ofBytes, unitsOf, List.length_flatMap, length_ofCode]

theorem ofBytes_append (fits : IsValid s ∨ ∀ c ∈ t.head?, isContinuation c = false) :
    ofBytes (s ++ t) = ofBytes s ++ ofBytes t := by
  simp [ofBytes, Utf8.decodeAll_append fits]

/-- The units of a text are those in front of a boundary and those behind it. -/
theorem ofBytes_of_boundary (here : Boundary s n) : ofBytes s = ofBytes (s.take n) ++ ofBytes (s.drop n) := by
  rw [ofBytes, here.decodeAll_append, List.flatMap_append]
  rfl

theorem take_ofBytes (here : Boundary s n) : (ofBytes s).take (unitsOf (s.take n)) = ofBytes (s.take n) := by
  rw [ofBytes_of_boundary here, ← length_ofBytes, List.take_left]

theorem drop_ofBytes (here : Boundary s n) : (ofBytes s).drop (unitsOf (s.take n)) = ofBytes (s.drop n) := by
  rw [ofBytes_of_boundary here, ← length_ofBytes, List.drop_left]

/-- Without line feeds in a text there are none in its units. -/
theorem feed_notMem_ofBytes (plain : 0x0A ∉ s) : (0x0A : UInt16) ∉ ofBytes s := by
  induction s using Utf8.induct with
  | nil => simp [ofBytes_nil]
  | cons b rest ih =>
    rw [ofBytes_cons, List.mem_append, not_or]
    refine ⟨fun member => ?_, ih fun member => plain (List.mem_cons_of_mem b (List.mem_of_mem_drop member))⟩
    rw [feed_of_mem_ofCode member] at plain
    exact plain (List.mem_cons_self ..)

/-- A line feed is a unit of its own. -/
theorem ofBytes_feed (left right : Bytes) :
    ofBytes (left ++ 0x0A :: right) = ofBytes left ++ 0x0A :: ofBytes right := by
  have ascii : Utf8.isAscii 0x0A = true := rfl
  rw [ofBytes_append (.inr ?_), ofBytes_cons, Utf8.decodeFrom_of_isAscii ascii]
  · rfl
  · intro c head
    rw [← Option.some.inj head]
    rfl

/-! ## Places between units -/

theorem splitsPair_append {units : List UInt16} (front : List UInt16) (splits : splitsPair units n = true) :
    splitsPair (front ++ units) (front.length + n) = true := by
  rw [splitsPair, Bool.and_eq_true] at splits ⊢
  obtain ⟨first, second⟩ := splits
  rw [List.take_length_add_append, List.drop_length_add_append]
  refine ⟨?_, second⟩
  cases last : (units.take n).getLast? with
  | none =>
    rw [last] at first
    cases first
  | some high =>
    rw [last] at first
    rw [List.getLast?_append, last]
    exact first

/-- Every place between units that is not inside a pair is at a boundary. -/
theorem exists_boundary (inside : n ≤ (ofBytes s).length) (whole : splitsPair (ofBytes s) n = false) :
    ∃ k, Boundary s k ∧ unitsOf (s.take k) = n := by
  induction s using Utf8.induct generalizing n with
  | nil =>
    rw [ofBytes_nil] at inside
    exact ⟨0, .zero _, by simp [SourceFile.unitsOf_nil, Nat.le_zero.mp inside]⟩
  | cons b rest ih =>
    by_cases zero : n = 0
    · exact ⟨0, .zero _, by simp [SourceFile.unitsOf_nil, zero]⟩
    have length := length_ofCode (decodeFrom b rest).code
    rw [ofBytes_cons] at inside whole
    by_cases reached : Utf8.units (decodeFrom b rest).code ≤ n
    · obtain ⟨more, rfl⟩ := Nat.exists_eq_add_of_le reached
      rw [← length] at whole
      obtain ⟨k, here, units⟩ := ih (n := more)
        (by rw [List.length_append] at inside; omega)
        (Bool.eq_false_iff.mpr fun splits => Bool.eq_false_iff.mp whole (splitsPair_append _ splits))
      refine ⟨_, .next here, ?_⟩
      rw [SourceFile.unitsOf_take_next, units]
    · -- Of the units of one character only two have a place between them.
      exfalso
      have range := code_decodeFrom b rest
      have beyond : 0xFFFF < (decodeFrom b rest).code := by
        by_contra single
        rw [Utf8.units, if_neg single] at reached
        omega
      obtain ⟨high, low, units, first, second⟩ := ofCode_pair beyond (by omega)
      have two : Utf8.units (decodeFrom b rest).code = 2 := by rw [← length, units]; rfl
      obtain rfl : n = 1 := by omega
      simp [units, splitsPair, first, second] at whole

end SecurityRules.Utf16
