import Mathlib.Order.MinMax
import SecurityRules.Proofs.Text.Utf16

/-!
# Columns behind the end of a row

The column of a point may be any word. It is added to the start of its row within a word, and only the sum is compared
with the end of the row.

As long as the sum fits, every column at or behind the end of a row stands for that end: the offset is the end, the
units in front of it are those of the whole row, and no character stands there. Each column of a row fits, and on the
first row, which starts at zero, each word does.

A sum that does not fit wraps around. A column is less than a whole turn, so what is left of the sum is less than the
start of the row: the offset lies in front of the row, no units are counted, and there is a character, be it of another
row. So each of the answers tells whether the sum fits, and a column behind the end is clamped exactly then.
-/

namespace SecurityRules.SourceFile

variable {f : SourceFile} {p : Point}

/-! ## Columns that fit -/

theorem columnFits_of_firstRow (first : p.row = 0) : f.ColumnFits p := by
  have start : (f.lineBounds p.row).1 = 0 := by
    rw [first, IsRead.lineBounds_eq (Nat.zero_le _)]
    rfl
  rw [ColumnFits, start, Nat.zero_add]
  exact p.column.toNat_lt

theorem IsRead.columnFits_of_hasPoint (read : f.IsRead) (here : f.HasPoint p) : f.ColumnFits p := by
  obtain ⟨forward, bounded⟩ := read.lineBounds_le p.row
  have column := here.column
  rw [line, length_bytesBetween bounded] at column
  exact read.columnFits_of_le (by omega)

/-- A sum that wraps around is less than the start of the row. -/
theorem IsRead.start_le_columnOffset_iff (read : f.IsRead) :
    (f.lineBounds p.row).1 ≤ f.columnOffset p ↔ f.ColumnFits p := by
  constructor
  · intro behind
    obtain ⟨forward, bounded⟩ := read.lineBounds_le p.row
    have small := read.small.size
    have column := p.column.toNat_lt
    rw [read.columnOffset_eq_mod] at behind
    unfold ColumnFits
    omega
  · intro fits
    rw [read.columnOffset_eq fits]
    exact Nat.le_add_right _ _

/-! ## What stands at a column -/

/-- Only a sum that does not reach the end of the row gives a character, be it one of another row. -/
theorem IsRead.characterSize_eq_zero_iff (read : f.IsRead) :
    f.characterSize p = 0 ↔ (f.lineBounds p.row).2 ≤ f.columnOffset p := by
  have length := length_bytesBetween (a := f.columnOffset p) (read.lineBounds_le p.row).2
  unfold characterSize
  cases found : f.bytesBetween (f.columnOffset p) (f.lineBounds p.row).2 with
  | nil =>
    rw [found, List.length_nil] at length
    exact iff_of_true rfl (Nat.le_of_sub_eq_zero length.symm)
  | cons b rest =>
    rw [found, List.length_cons] at length
    exact iff_of_false (Nat.ne_of_gt (Utf8.size_pos b rest)) (by omega)

/-- In front of the end of a row there are the units of the row. -/
theorem utf16Column_of_stop (ends : f.offset p = (f.lineBounds p.row).2) :
    f.utf16Column p = (Utf16.ofBytes (f.line p.row)).length := by
  rw [utf16Column, ends, Utf16.length_ofBytes, line]

theorem utf16Column_of_le_start (before : f.offset p ≤ (f.lineBounds p.row).1) : f.utf16Column p = 0 := by
  rw [utf16Column, bytesBetween, Nat.sub_eq_zero_of_le before, List.take_zero, unitsOf_nil]

/-! ## Clamping -/

namespace IsRead

theorem start_le_offset_iff (read : f.IsRead) : (f.lineBounds p.row).1 ≤ f.offset p ↔ f.ColumnFits p := by
  rw [SourceFile.offset, Nat.le_min, and_iff_left (read.lineBounds_le p.row).1, read.start_le_columnOffset_iff]

section

variable (read : f.IsRead) (behind : (f.lineBounds p.row).2 - (f.lineBounds p.row).1 ≤ p.column.toNat)
include read behind

/-- A column behind the end of its row leads there or in front of the row. -/
theorem stop_le_columnOffset_iff : (f.lineBounds p.row).2 ≤ f.columnOffset p ↔ f.ColumnFits p := by
  have forward := (read.lineBounds_le p.row).1
  constructor
  · intro reached
    exact read.start_le_columnOffset_iff.mp (Nat.le_trans forward reached)
  · intro fits
    rw [read.columnOffset_eq fits]
    omega

theorem offset_eq_stop_iff : f.offset p = (f.lineBounds p.row).2 ↔ f.ColumnFits p := by
  rw [SourceFile.offset, min_eq_right_iff, read.stop_le_columnOffset_iff behind]

theorem utf16Column_eq_length_iff :
    f.utf16Column p = (Utf16.ofBytes (f.line p.row)).length ↔ f.ColumnFits p ∨ f.line p.row = [] := by
  by_cases fits : f.ColumnFits p
  · exact iff_of_true (utf16Column_of_stop ((read.offset_eq_stop_iff behind).mpr fits)) (.inl fits)
  · have before : f.offset p ≤ (f.lineBounds p.row).1 :=
      Nat.le_of_not_le fun reached => fits (read.start_le_offset_iff.mp reached)
    rw [utf16Column_of_le_start before, or_iff_right fits, eq_comm, Utf16.length_ofBytes, unitsOf_eq_zero_iff]

end

end IsRead

/-- An offset lies on the row of its point exactly if the column fits, which each column on the first row and each
column of a row does. A column at or behind the end of the row gives the end of the row, all units of the row and no
character exactly if it fits. -/
theorem clamped_iff_columnFits (path text : Bytes) (isVirtual : Bool)
    (small : (ofBytes path text isVirtual).size < 2 ^ 32) (p : Point) :
    let f := ofBytes path text isVirtual
    let start := (f.lineBounds p.row).1
    let stop := (f.lineBounds p.row).2
    (p.row = 0 ∨ f.HasPoint p → f.ColumnFits p) ∧ f.offset p ≤ stop ∧ (start ≤ f.offset p ↔ f.ColumnFits p) ∧
      (stop - start ≤ p.column.toNat →
        (f.offset p = stop ↔ f.ColumnFits p) ∧
        (f.utf16Column p = (Utf16.ofBytes (f.line p.row)).length ↔ f.ColumnFits p ∨ f.line p.row = []) ∧
        (f.characterSize p = 0 ↔ f.ColumnFits p)) := by
  intro f start stop
  have read : f.IsRead := isRead_ofBytes small
  refine ⟨?_, f.offset_le_stop p, read.start_le_offset_iff, fun behind => ⟨?_, ?_, ?_⟩⟩
  · rintro (first | here)
    · exact columnFits_of_firstRow first
    · exact read.columnFits_of_hasPoint here
  · exact read.offset_eq_stop_iff behind
  · exact read.utf16Column_eq_length_iff behind
  · rw [read.characterSize_eq_zero_iff, read.stop_le_columnOffset_iff behind]

/-- Two rows. The second one starts at the fourth byte with a character of two units. -/
def sampleLowerRow : Bytes := Bytes.ofString "é\n😀x"

/-- The greatest column that fits on the second row is clamped to its end. -/
theorem clamped_greatestColumn :
    let f := ofBytes [] sampleLowerRow false
    let p : Point := ⟨1, 4294967292⟩
    f.size < 2 ^ 32 ∧ f.lineBounds 1 = (3, 8) ∧ 8 - 3 ≤ p.column.toNat ∧ f.ColumnFits p ∧ 3 ≤ f.offset p ∧
      f.offset p = 8 ∧ f.utf16Column p = (Utf16.ofBytes (f.line 1)).length ∧ f.characterSize p = 0 := by
  intro f p
  have small : f.size < 2 ^ 32 := by decide +kernel
  have bounds : f.lineBounds p.row = (3, 8) := by decide +kernel
  have fits : f.ColumnFits p := by
    rw [ColumnFits, bounds]
    decide
  obtain ⟨-, -, low, clamped⟩ := clamped_iff_columnFits [] sampleLowerRow false small p
  have behind : 8 - 3 ≤ p.column.toNat := by decide
  obtain ⟨ends, units, character⟩ := clamped (by rw [bounds]; exact behind)
  rw [bounds] at low ends
  exact ⟨small, bounds, behind, fits, low.mpr fits, ends.mpr fits, units.mpr (.inl fits), character.mpr fits⟩

/-- The greatest column of all wraps around on the second row and leads to the line feed in front of it. -/
theorem not_clamped_wrappedColumn :
    let f := ofBytes [] sampleLowerRow false
    let p : Point := ⟨1, 4294967295⟩
    f.lineBounds 1 = (3, 8) ∧ 8 - 3 ≤ p.column.toNat ∧ f.offset p = 2 ∧ f.utf16Column p = 0 ∧
      (Utf16.ofBytes (f.line 1)).length = 3 ∧ f.characterSize p = 1 := by
  decide +kernel

end SecurityRules.SourceFile
