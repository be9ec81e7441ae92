import SecurityRules.Position
import SecurityRules.Proofs.Text.Fields
import SecurityRules.Report.Pretty

/-!
# Positions that are shown and typed

A report counts the characters of the part of a row in front of a point, and the command line goes as many characters
forward on the whole row. Both come to the same byte wherever decoding the row comes to it, whatever the bytes of the
row are: malformed ones are characters of their own on both sides.
-/

namespace SecurityRules

open Utf8 (Boundary)

/-! ## Characters and their bytes -/

namespace Utf8

/-- The characters of a text take all of its bytes. -/
theorem sum_size_decodeAll (s : Bytes) : ((decodeAll s).map (·.size)).sum = s.length := by
  induction s using induct with
  | nil =>
    rw [decodeAll]
    rfl
  | cons b rest ih =>
    have tail := (tail_continues b rest).1
    have positive := size_pos b rest
    rw [decodeAll_cons, List.map_cons, List.sum_cons, ih, List.length_drop, List.length_cons]
    omega

theorem count_le_length (s : Bytes) : count s ≤ s.length := by
  induction s using induct with
  | nil =>
    rw [count, decodeAll]
    exact Nat.le_refl _
  | cons b rest ih =>
    rw [count, List.length_drop] at ih
    rw [count, decodeAll_cons, List.length_cons, List.length_cons]
    omega

end Utf8

namespace Position

variable {file : SourceFile} {s : Bytes} {line column n : Nat}

/-- Up to a boundary, the characters in front of it take the bytes in front of it. -/
theorem bytesOfCharacters_count (here : Boundary s n) : bytesOfCharacters (Utf8.count (s.take n)) s = n := by
  rw [bytesOfCharacters, here.decodeAll_append, Utf8.count, List.take_left, Utf8.sum_size_decodeAll, List.length_take,
    Nat.min_eq_left here.le_length]

/-! ## Numbers of lines and columns -/

theorem ordinal?_decimal (low : 1 ≤ n) (fits : (n : Int) ≤ Number.maxSigned) : ordinal? (Bytes.decimal n) = some n := by
  have trimmed : Text.trimBlanks (Bytes.decimal n) = Bytes.decimal n := @Text.trimBlanks_decimal [] nofun nofun n
  have positive : 1 ≤ (n : Int) := Int.ofNat_le.mpr low
  rw [ordinal?, trimmed, Number.signed?_decimal fits]
  dsimp only
  rw [if_pos positive, Int.toNat_natCast]

/-- The colon between line and column is the first one of the text. -/
theorem cut?_decimal (line : Nat) (rest : Bytes) :
    Bytes.cut? 0x3A (Bytes.decimal line ++ ":" ++ rest) = some (Bytes.decimal line, rest) := by
  have outside : (0x3A : UInt8) ∉ Bytes.decimal line := fun member =>
    absurd (Bytes.isDigit_of_mem_decimal member) (by decide)
  rw [List.append_assoc]
  exact Bytes.cut?_of_notMem outside rest

/-- A line of the file and a column are read as the point behind that many characters less one. -/
theorem parse_decimal (first : 1 ≤ line) (known : line ≤ file.lineCount) (low : 1 ≤ column)
    (lineFits : (line : Int) ≤ Number.maxSigned) (columnFits : (column : Int) ≤ Number.maxSigned) :
    parse file (Bytes.decimal line ++ ":" ++ Bytes.decimal column) = .ok ⟨UInt32.ofNat (line - 1),
      UInt32.ofNat (bytesOfCharacters (column - 1) (file.line (UInt32.ofNat (line - 1))))⟩ := by
  rw [parse, cut?_decimal]
  dsimp only
  rw [ordinal?_decimal first lineFits, ordinal?_decimal low columnFits]
  dsimp only
  rw [if_neg (Nat.not_lt.mpr known)]

end Position

namespace Report

/-- A point that decoding its row comes to is read back from the line and the column that are shown for it. -/
theorem parse_displayPosition (file : SourceFile) (p : Point) (known : p.row.toNat < file.lineCount)
    (here : Boundary (file.line p.row) p.column.toNat) :
    Position.parse file (Bytes.decimal (displayPosition file p).1 ++ ":" ++
      Bytes.decimal (displayPosition file p).2) = .ok p := by
  have row := p.row.toNat_lt
  have column := p.column.toNat_lt
  have characters : Utf8.count ((file.line p.row).take p.column.toNat) ≤ p.column.toNat :=
    Nat.le_trans (Utf8.count_le_length _) (List.length_take_le _ _)
  have limit : Number.maxSigned = 2 ^ 63 - 1 := by decide
  rw [displayPosition, Position.parse_decimal (Nat.le_add_left 1 _) known (Nat.le_add_left 1 _) (by omega) (by omega),
    Nat.add_sub_cancel, Nat.add_sub_cancel, UInt32.ofNat_toNat, Position.bytesOfCharacters_count here,
    UInt32.ofNat_toNat]

/-- The end of a row is read back behind a malformed byte and a character of three bytes. -/
theorem parse_displayPosition_mixedRow :
    let file := SourceFile.inMemory "a.rules" [0x61, 0x0A, 0xFF, 0xE4, 0xB8, 0xAD]
    displayPosition file ⟨1, 4⟩ = (2, 3) ∧ Position.parse file "2:3" = .ok ⟨1, 4⟩ := by
  intro file
  have row : file.line 1 = [0xFF, 0xE4, 0xB8, 0xAD] := by decide +kernel
  have shown : displayPosition file ⟨1, 4⟩ = (2, 3) := by decide +kernel
  have here : Boundary (file.line 1) 4 := by
    rw [row]
    exact .length _
  have read := parse_displayPosition file ⟨1, 4⟩ (by decide +kernel) here
  rw [shown] at read
  exact ⟨shown, read⟩

end Report

end SecurityRules
