import Mathlib.Data.Nat.Basic
import Mathlib.Order.Bounds.Defs
import Mathlib.Order.Monotone.Defs
import SecurityRules.Proofs.Lookup.Points
import SecurityRules.Proofs.Text.Boundary

/-!
# Rows, points and columns

A row reaches from behind one line feed to the next. Rows start and end between characters, since line feeds are
characters of their own.

The points of a file are those on its rows, the ends of the rows included. They stand for the offsets of the file, one
for each, in the same order: a row is found by the line breaks in front of an offset, and the rows cover the file
without meeting each other. The column of a point is added to the start of its row as a word, and a sum that stays in
the file fits into one.

Decoding a row from its start gives the boundaries of its characters. Between them the units in front of a boundary grow
strictly, since a character is decoded by its own bytes, whether the row goes on behind it or is cut there. So the
greatest boundary that some number of units reaches is found by taking characters as long as they fit.
-/

namespace SecurityRules

open Utf8 (Boundary)

namespace SourceFile

theorem getElem?_of_mem_lineBreaksFrom {offset : Nat} {text : Bytes} {n : Nat}
    (member : n ∈ lineBreaksFrom offset text) : offset ≤ n ∧ text[n - offset]? = some 0x0A := by
  induction text generalizing offset with
  | nil => cases member
  | cons b rest ih =>
    rw [lineBreaksFrom] at member
    have later (member : n ∈ lineBreaksFrom (offset + 1) rest) :
        offset ≤ n ∧ (b :: rest)[n - offset]? = some 0x0A := by
      obtain ⟨behind, feed⟩ := ih member
      refine ⟨Nat.le_of_succ_le behind, ?_⟩
      rw [show n - offset = n - (offset + 1) + 1 by omega, List.getElem?_cons_succ]
      exact feed
    split at member
    · rename_i feed
      rcases List.mem_cons.mp member with rfl | member
      · exact ⟨Nat.le_refl _, by rw [Nat.sub_self, List.getElem?_cons_zero, beq_iff_eq.mp feed]⟩
      · exact later member
    · exact later member

theorem mem_lineBreaksFrom (offset : Nat) {text : Bytes} {n : Nat} (feed : text[n]? = some 0x0A) :
    offset + n ∈ lineBreaksFrom offset text := by
  induction text generalizing offset n with
  | nil => cases feed
  | cons b rest ih =>
    rw [lineBreaksFrom]
    cases n with
    | zero =>
      cases feed
      rw [if_pos (beq_self_eq_true _)]
      exact List.mem_cons_self
    | succ n =>
      rw [List.getElem?_cons_succ] at feed
      have member := ih (offset + 1) feed
      rw [Nat.add_assoc, Nat.add_comm 1] at member
      split
      · exact List.mem_cons_of_mem _ member
      · exact member

theorem pairwise_lineBreaksFrom (offset : Nat) (text : Bytes) : (lineBreaksFrom offset text).Pairwise (· < ·) := by
  induction text generalizing offset with
  | nil => exact List.Pairwise.nil
  | cons b rest ih =>
    rw [lineBreaksFrom]
    split
    · refine List.pairwise_cons.mpr ⟨fun n member => ?_, ih _⟩
      exact (getElem?_of_mem_lineBreaksFrom member).1
    · exact ih _

/-- A small file whose line breaks are ascending offsets of line feeds. -/
structure IsRead (f : SourceFile) : Prop where
  small : f.IsSmall
  feeds : ∀ n ∈ f.lineBreaks, f.content[n]? = some 0x0A
  ascending : f.lineBreaks.Pairwise (· < ·)

theorem isRead_ofBytes {path text : Bytes} {isVirtual : Bool}
    (small : (ofBytes path text isVirtual).size < 2 ^ 32) : (ofBytes path text isVirtual).IsRead where
  small := isSmall_ofBytes small
  feeds := fun _ member => (getElem?_of_mem_lineBreaksFrom member).2
  ascending := pairwise_lineBreaksFrom 0 _

/-- The end of a row, in front of its line feed. -/
def rowStop (f : SourceFile) (row : Nat) : Nat := f.lineBreaks[row]?.getD f.size

/-- Whether the column of a point can be added to the start of its row within a word. -/
def ColumnFits (f : SourceFile) (p : Point) : Prop := (f.lineBounds p.row).1 + p.column.toNat < 2 ^ 32

theorem offset_le_stop (f : SourceFile) (p : Point) : f.offset p ≤ (f.lineBounds p.row).2 := Nat.min_le_right _ _

section

variable {f : SourceFile} {row a : Nat}

namespace IsRead

theorem lt_size (read : f.IsRead) {n : Nat} (member : n ∈ f.lineBreaks) : n < f.size :=
  (List.getElem?_eq_some_iff.mp (read.feeds n member)).1

theorem toNat_row (read : f.IsRead) (known : row ≤ f.lineBreaks.length) : (UInt32.ofNat row).toNat = row :=
  UInt32.toNat_ofNat_of_lt (Nat.lt_of_le_of_lt (Nat.le_trans known read.small.lines) read.small.size)

theorem toNat_offset (read : f.IsRead) (inside : a ≤ f.size) : (UInt32.ofNat a).toNat = a :=
  UInt32.toNat_ofNat_of_lt (Nat.lt_of_le_of_lt inside read.small.size)

theorem lineBounds_eq {word : UInt32} (known : word.toNat ≤ f.lineBreaks.length) :
    f.lineBounds word = (f.rowStart word.toNat, f.rowStop word.toNat) := by
  rw [lineBounds, if_neg (Nat.not_lt.mpr known), rowStop]

theorem rowStop_le_size (read : f.IsRead) : f.rowStop row ≤ f.size := by
  unfold rowStop
  cases found : f.lineBreaks[row]? with
  | none => exact Nat.le_refl _
  | some n => exact Nat.le_of_lt (read.lt_size (List.mem_of_getElem? found))

/-- A row starts behind the line feed of the row before it. -/
theorem rowStart_succ (known : row < f.lineBreaks.length) : f.rowStart (row + 1) = f.rowStop row + 1 := by
  rw [rowStart, rowStop, List.getElem?_eq_getElem known]
  rfl

/-- The last row ends with the file. -/
theorem rowStop_last (last : f.lineBreaks.length ≤ row) : f.rowStop row = f.size := by
  rw [rowStop, List.getElem?_eq_none last]
  rfl

theorem rowStart_le_rowStop (read : f.IsRead) (known : row ≤ f.lineBreaks.length) :
    f.rowStart row ≤ f.rowStop row := by
  cases row with
  | zero => exact Nat.zero_le _
  | succ row =>
    rw [rowStart_succ known]
    have before := List.getElem?_eq_getElem known
    rw [rowStop, rowStop, before]
    cases found : f.lineBreaks[row + 1]? with
    | none => exact read.lt_size (List.getElem_mem known)
    | some n =>
      obtain ⟨inside, rfl⟩ := List.getElem?_eq_some_iff.mp found
      exact List.pairwise_iff_getElem.mp read.ascending row (row + 1) known inside (Nat.lt_succ_self row)

theorem rowStop_lt_rowStart (read : f.IsRead) {later : Nat} (less : row < later)
    (known : later ≤ f.lineBreaks.length) : f.rowStop row < f.rowStart later := by
  induction later with
  | zero => exact absurd less (Nat.not_lt_zero _)
  | succ later ih =>
    rw [rowStart_succ known]
    rcases Nat.lt_or_eq_of_le (Nat.le_of_lt_succ less) with before | rfl
    · have reached := ih before (Nat.le_of_succ_le known)
      have forward := read.rowStart_le_rowStop (Nat.le_of_succ_le known)
      omega
    · exact Nat.lt_succ_self _

theorem boundary_rowStop (read : f.IsRead) : Boundary f.content (f.rowStop row) := by
  unfold rowStop
  cases found : f.lineBreaks[row]? with
  | none => exact .length f.content
  | some n => exact .of_isAscii (read.feeds n (List.mem_of_getElem? found)) rfl

theorem boundary_rowStart (read : f.IsRead) : Boundary f.content (f.rowStart row) := by
  unfold rowStart
  split
  · exact .zero _
  · rename_i row
    cases found : f.lineBreaks[row]? with
    | none => exact .length f.content
    | some n => exact .behind_isAscii (read.feeds n (List.mem_of_getElem? found)) rfl

/-- A row that is not the last one ends with a line feed. -/
theorem bytesBetween_rowStop (read : f.IsRead) (known : row < f.lineBreaks.length) :
    f.bytesBetween (f.rowStop row) (f.rowStop row + 1) = [0x0A] := by
  obtain ⟨inside, feed⟩ := List.getElem?_eq_some_iff.mp (read.feeds _ (List.getElem_mem known))
  rw [rowStop, List.getElem?_eq_getElem known, Option.getD_some, bytesBetween, Nat.add_sub_cancel_left,
    List.drop_eq_getElem_cons inside, feed]
  rfl

/-- The bounds of a row lie in the file, also those of a row that does not exist. -/
theorem lineBounds_le (read : f.IsRead) (row : UInt32) :
    (f.lineBounds row).1 ≤ (f.lineBounds row).2 ∧ (f.lineBounds row).2 ≤ f.size := by
  by_cases known : row.toNat ≤ f.lineBreaks.length
  · rw [lineBounds_eq known]
    exact ⟨read.rowStart_le_rowStop known, read.rowStop_le_size⟩
  · rw [lineBounds, if_pos (Nat.lt_of_not_le known)]
    exact ⟨Nat.le_refl _, Nat.le_refl _⟩

/-- Row start and column added as words are the sum taken modulo the number of words. -/
theorem columnOffset_eq_mod (read : f.IsRead) (p : Point) :
    f.columnOffset p = ((f.lineBounds p.row).1 + p.column.toNat) % 2 ^ 32 := by
  obtain ⟨forward, bounded⟩ := read.lineBounds_le p.row
  rw [columnOffset, UInt32.toNat_add, read.toNat_offset (Nat.le_trans forward bounded)]

theorem columnOffset_eq (read : f.IsRead) {p : Point} (fits : f.ColumnFits p) :
    f.columnOffset p = (f.lineBounds p.row).1 + p.column.toNat := by
  rw [read.columnOffset_eq_mod, Nat.mod_eq_of_lt fits]

/-- A column that fits counts from the start of the row, and no farther than to its end. -/
theorem offset_of_columnFits (read : f.IsRead) {p : Point} (fits : f.ColumnFits p) :
    f.offset p = min ((f.lineBounds p.row).1 + p.column.toNat) (f.lineBounds p.row).2 := by
  rw [SourceFile.offset, read.columnOffset_eq fits]

/-- A column that does not lead beyond the file fits. -/
theorem columnFits_of_le (read : f.IsRead) {p : Point} (inside : (f.lineBounds p.row).1 + p.column.toNat ≤ f.size) :
    f.ColumnFits p := Nat.lt_of_le_of_lt inside read.small.size

/-- The offset of a point of a row, where no sum of words wraps around. -/
theorem offset_eq (read : f.IsRead) {p : Point} (known : p.row.toNat ≤ f.lineBreaks.length)
    (place : f.rowStart p.row.toNat + p.column.toNat = a) (inside : a ≤ f.rowStop p.row.toNat) : f.offset p = a := by
  have bounds := lineBounds_eq known
  have fits : f.ColumnFits p := read.columnFits_of_le (by
    rw [bounds, place]
    exact Nat.le_trans inside read.rowStop_le_size)
  rw [read.offset_of_columnFits fits, bounds, place, Nat.min_eq_left inside]

/-- The UTF-16 column of a point of a row counts the units from the start of the row to the point. -/
theorem utf16Column_eq (read : f.IsRead) {p : Point} (known : p.row.toNat ≤ f.lineBreaks.length)
    (place : f.rowStart p.row.toNat + p.column.toNat = a) (inside : a ≤ f.rowStop p.row.toNat) :
    f.utf16Column p = unitsOf (f.bytesBetween (f.rowStart p.row.toNat) a) := by
  rw [utf16Column, read.offset_eq known place inside, lineBounds_eq known]

/-- The units between two boundaries of a row fit into a word. -/
theorem toNat_units (read : f.IsRead) {b : Nat} (inside : b ≤ f.size) :
    (UInt32.ofNat (unitsOf (f.bytesBetween a b))).toNat = unitsOf (f.bytesBetween a b) := by
  refine read.toNat_offset (Nat.le_trans (unitsOf_le_length _) ?_)
  rw [length_bytesBetween inside]
  exact Nat.le_trans (Nat.sub_le _ _) inside

end IsRead

/-! ## Rows of offsets -/

theorem rowOf_le (f : SourceFile) (a : Nat) : f.rowOf a ≤ f.lineBreaks.length := List.findIdx_le_length

/-- An offset lies in front of the end of its row. -/
theorem le_rowStop_rowOf (inside : a ≤ f.size) : a ≤ f.rowStop (f.rowOf a) := by
  rw [rowStop]
  cases found : f.lineBreaks[f.rowOf a]? with
  | none => exact inside
  | some n =>
    obtain ⟨known, rfl⟩ := List.getElem?_eq_some_iff.mp found
    exact of_decide_eq_true (List.findIdx_getElem (w := known))

/-- No line feed stands between an offset and the start of its row. -/
theorem ne_feed_of_row (read : f.IsRead) (breaks : f.lineBreaks = lineBreaksFrom 0 f.content) {n : Nat}
    (inside : a ≤ f.size) (low : f.rowStart (f.rowOf a) ≤ n) (high : n < a) : f.content[n]? ≠ some 0x0A := by
  intro feed
  have member := mem_lineBreaksFrom 0 feed
  rw [← breaks, Nat.zero_add] at member
  obtain ⟨place, known, rfl⟩ := List.getElem_of_mem member
  have stop : f.rowStop place = f.lineBreaks[place] := by rw [rowStop, List.getElem?_eq_getElem known, Option.getD_some]
  rcases Nat.lt_trichotomy place (f.rowOf a) with before | same | behind
  · have := read.rowStop_lt_rowStart before (f.rowOf_le a)
    omega
  · have := le_rowStop_rowOf inside
    rw [← same] at this
    omega
  · have reached := le_rowStop_rowOf inside
    have start := read.rowStop_lt_rowStart behind (Nat.le_of_lt known)
    have forward := read.rowStart_le_rowStop (Nat.le_of_lt known)
    omega

end

/-! ## Offsets and points -/

section

variable {f : SourceFile} {row a b : Nat}

/-- A point on a row of the file, at most at the end of that row. -/
structure HasPoint (f : SourceFile) (p : Point) : Prop where
  row : p.row.toNat < f.lineCount
  column : p.column.toNat ≤ (f.line p.row).length

/-- The line breaks of a text are the offsets of its line feeds. -/
theorem mem_lineBreaksFrom_zero {text : Bytes} {n : Nat} : n ∈ lineBreaksFrom 0 text ↔ text[n]? = some 0x0A := by
  constructor
  · intro member
    exact (getElem?_of_mem_lineBreaksFrom member).2
  · intro feed
    have member := mem_lineBreaksFrom 0 feed
    rwa [Nat.zero_add] at member

/-- Only one row reaches from its start over an offset to its end. -/
theorem IsRead.rowOf_eq (read : f.IsRead) (known : row ≤ f.lineBreaks.length) (low : f.rowStart row ≤ a)
    (high : a ≤ f.rowStop row) : f.rowOf a = row := by
  have start := rowStart_rowOf_le (f := f) (a := a)
  have stop := le_rowStop_rowOf (Nat.le_trans high read.rowStop_le_size)
  rcases Nat.lt_trichotomy (f.rowOf a) row with before | same | behind
  · have := read.rowStop_lt_rowStart before known
    omega
  · exact same
  · have := read.rowStop_lt_rowStart behind (f.rowOf_le a)
    omega

theorem IsRead.length_line (read : f.IsRead) {word : UInt32} (known : word.toNat ≤ f.lineBreaks.length) :
    (f.line word).length = f.rowStop word.toNat - f.rowStart word.toNat := by
  rw [line, lineBounds_eq known, length_bytesBetween read.rowStop_le_size]

/-- There is no line feed in a row. -/
theorem IsRead.ne_feed_of_mem_row (read : f.IsRead) (breaks : f.lineBreaks = lineBreaksFrom 0 f.content)
    (known : row ≤ f.lineBreaks.length) (low : f.rowStart row ≤ a) (high : b ≤ f.rowStop row) :
    ∀ c ∈ f.bytesBetween a b, c ≠ 0x0A := by
  rintro c member rfl
  obtain ⟨n, less, found⟩ := List.getElem_of_mem member
  have found := found ▸ List.getElem?_eq_getElem less
  rw [length_bytesBetween (Nat.le_trans high read.rowStop_le_size)] at less
  rw [bytesBetween, List.getElem?_take_of_lt less, List.getElem?_drop] at found
  have same : f.rowOf (f.rowStop row) = row := read.rowOf_eq known (read.rowStart_le_rowStop known) (Nat.le_refl _)
  have start : f.rowStart (f.rowOf (f.rowStop row)) ≤ a + n := by
    rw [same]
    omega
  exact ne_feed_of_row read breaks read.rowStop_le_size start (by omega) found

/-- Where a point of the file lies. -/
theorem IsRead.offset_of_hasPoint (read : f.IsRead) {p : Point} (here : f.HasPoint p) :
    f.offset p = f.rowStart p.row.toNat + p.column.toNat ∧ f.offset p ≤ f.rowStop p.row.toNat := by
  have known : p.row.toNat ≤ f.lineBreaks.length := Nat.le_of_lt_succ here.row
  have forward := read.rowStart_le_rowStop known
  have column := here.column
  rw [read.length_line known] at column
  have place := read.offset_eq known rfl (show f.rowStart p.row.toNat + p.column.toNat ≤ _ by omega)
  exact ⟨place, by omega⟩

theorem IsRead.hasPoint_pointAt (read : f.IsRead) (inside : a ≤ f.size) : f.HasPoint (f.pointAt a) := by
  obtain ⟨row, column⟩ := pointAt_eq read.small inside
  have known := f.rowOf_le a
  refine ⟨?_, ?_⟩
  · rw [row]
    exact Nat.lt_succ_of_le known
  · rw [column, read.length_line (row ▸ known), row]
    exact Nat.sub_le_sub_right (le_rowStop_rowOf inside) _

theorem IsRead.offset_pointAt (read : f.IsRead) (inside : a ≤ f.size) : f.offset (f.pointAt a) = a := by
  obtain ⟨row, column⟩ := pointAt_eq read.small inside
  have start := rowStart_rowOf_le (f := f) (a := a)
  refine read.offset_eq (row ▸ f.rowOf_le a) ?_ (row ▸ le_rowStop_rowOf inside)
  rw [row, column, Nat.add_sub_cancel' start]

theorem IsRead.pointAt_offset (read : f.IsRead) {p : Point} (here : f.HasPoint p) : f.pointAt (f.offset p) = p := by
  have known : p.row.toNat ≤ f.lineBreaks.length := Nat.le_of_lt_succ here.row
  obtain ⟨place, stop⟩ := read.offset_of_hasPoint here
  obtain ⟨row, column⟩ := pointAt_eq read.small (Nat.le_trans stop read.rowStop_le_size)
  have same : f.rowOf (f.offset p) = p.row.toNat := read.rowOf_eq known (by omega) stop
  rw [same] at row column
  rw [place, Nat.add_sub_cancel_left, ← place] at column
  exact congrArg₂ Point.mk (UInt32.toNat_inj.mp row) (UInt32.toNat_inj.mp column)

/-- Offsets and points of a file belong to each other one by one and stand in the same order. The line breaks, by which
rows are found, are the offsets of the line feeds. -/
theorem offsets_points_bijection (path text : Bytes) (isVirtual : Bool)
    (small : (ofBytes path text isVirtual).size < 2 ^ 32) :
    let f := ofBytes path text isVirtual
    (f.lineBreaks.Pairwise (· < ·) ∧ ∀ n, n ∈ f.lineBreaks ↔ f.content[n]? = some 0x0A) ∧
      (∀ o ≤ f.size, f.HasPoint (f.pointAt o) ∧ f.offset (f.pointAt o) = o) ∧
      (∀ p, f.HasPoint p → f.offset p ≤ f.size ∧ f.pointAt (f.offset p) = p) ∧
      ∀ a b, a < b → b ≤ f.size → (f.pointAt a).before (f.pointAt b) = true := by
  intro f
  have read : f.IsRead := isRead_ofBytes small
  refine ⟨⟨read.ascending, fun n => mem_lineBreaksFrom_zero⟩, fun o inside => ?_, fun p here => ?_,
    fun a b less inside => ?_⟩
  · exact ⟨read.hasPoint_pointAt inside, read.offset_pointAt inside⟩
  · have stop := (read.offset_of_hasPoint here).2
    exact ⟨Nat.le_trans stop read.rowStop_le_size, read.pointAt_offset here⟩
  · exact Point.before_iff.mpr (rank_pointAt_lt read.small less inside)

/-- Two empty rows, CR LF between two words, and a line feed at the end. -/
def sampleGaps : Bytes := "\n\nlet\r\nif\n"

theorem offsets_points_bijection_sampleGaps :
    let f := ofBytes [] sampleGaps false
    f.size < 2 ^ 32 ∧ f.lineBreaks.Pairwise (· < ·) ∧ f.offset (f.pointAt 5) = 5 ∧
      f.HasPoint ⟨4, 0⟩ ∧ f.pointAt (f.offset ⟨4, 0⟩) = ⟨4, 0⟩ ∧ (f.pointAt 5).before (f.pointAt 6) = true := by
  intro f
  have small : f.size < 2 ^ 32 := by decide +kernel
  obtain ⟨⟨ascending, -⟩, offsets, points, order⟩ := offsets_points_bijection [] sampleGaps false small
  have last : f.HasPoint ⟨4, 0⟩ := ⟨by decide +kernel, Nat.zero_le _⟩
  exact ⟨small, ascending, (offsets 5 (by decide +kernel)).2, last, (points _ last).2,
    order 5 6 (Nat.lt_succ_self 5) (by decide +kernel)⟩

end

variable {s : Bytes} {n m : Nat}

/-! ## Units of a text -/

theorem unitsOf_nil : unitsOf [] = 0 := by
  rw [unitsOf, Utf8.decodeAll]
  rfl

theorem unitsOf_eq_zero_iff : unitsOf s = 0 ↔ s = [] := by
  constructor
  · intro none
    by_contra filled
    exact Nat.ne_of_gt (unitsOf_pos filled) none
  · rintro rfl
    exact unitsOf_nil

/-- The units of a beginning that holds a whole first character. -/
theorem unitsOf_take_next (b : UInt8) (rest : Bytes) (n : Nat) :
    unitsOf ((b :: rest).take ((Utf8.decodeFrom b rest).size + n)) = Utf8.units (Utf8.decodeFrom b rest).code +
      unitsOf ((rest.drop ((Utf8.decodeFrom b rest).size - 1)).take n) := by
  have positive := Utf8.size_pos b rest
  have cut : (b :: rest).take ((Utf8.decodeFrom b rest).size + n) =
      b :: rest.take ((Utf8.decodeFrom b rest).size - 1 + n) := by
    rw [← List.take_succ_cons]
    congr 1
    omega
  rw [cut, unitsOf_cons, Utf8.decodeFrom_take b rest _ (by omega), List.drop_take, Nat.add_sub_cancel_left]

/-- Behind a boundary there are more units than in front of it. -/
theorem unitsOf_take_lt (here : Boundary s n) (less : n < m) (inside : m ≤ s.length) :
    unitsOf (s.take n) < unitsOf (s.take m) := by
  have split := unitsOf_append (here.take (Nat.le_of_lt less))
  rw [List.take_take, Nat.min_eq_left (Nat.le_of_lt less)] at split
  have behind : 0 < unitsOf ((s.take m).drop n) := by
    apply unitsOf_pos
    rw [← List.length_pos_iff, List.length_drop, List.length_take_of_le inside]
    exact Nat.sub_pos_of_lt less
  omega

/-! ## Bytes of units -/

/-- The bytes taken by the longest run of whole characters that fits into a number of units. -/
def bytesOfUnits (units : Nat) : List Utf8.Decoded → Nat
  | [] => 0
  | d :: rest =>
    if Utf8.units d.code ≤ units then d.size + bytesOfUnits (units - Utf8.units d.code) rest else 0

/-- Counting up to a column in machine words takes the characters that fit into what is left, if the count of all of them
is a machine word. -/
theorem bytesBefore_eq {units seen : UInt32} {ds : List Utf8.Decoded} (inside : seen ≤ units)
    (fits : seen.toNat + (ds.map fun d => Utf8.units d.code).sum < 2 ^ 32) :
    bytesBefore units seen ds = bytesOfUnits (units.toNat - seen.toNat) ds := by
  induction ds generalizing seen with
  | nil => rfl
  | cons d rest ih =>
    rw [List.map_cons, List.sum_cons] at fits
    rw [UInt32.le_iff_toNat_le] at inside
    have positive := Utf8.units_pos d.code
    have need : (seen + if 0xFFFF < d.code then 2 else 1).toNat = seen.toNat + Utf8.units d.code := by
      have word : (if 0xFFFF < d.code then 2 else 1 : UInt32).toNat = Utf8.units d.code := by
        rw [Utf8.units]
        split <;> rfl
      rw [UInt32.toNat_add, word]
      exact Nat.mod_eq_of_lt (by omega)
    rw [bytesBefore, bytesOfUnits]
    dsimp only
    generalize (seen + if 0xFFFF < d.code then 2 else 1) = next at need ⊢
    simp only [UInt32.lt_iff_toNat_lt, need]
    by_cases before : seen.toNat < units.toNat
    · rw [if_pos before]
      by_cases beyond : units.toNat < seen.toNat + Utf8.units d.code
      · rw [if_pos beyond, if_neg (by omega)]
      · rw [if_neg beyond, if_pos (by omega), ih (UInt32.le_iff_toNat_le.mpr (by omega)) (by omega), need, Nat.sub_add_eq]
    · rw [if_neg before, if_neg (by omega)]

/-- The bytes of the characters that fit end between characters, and their units fit. -/
theorem boundary_bytesOfUnits (m : Nat) (s : Bytes) :
    Boundary s (bytesOfUnits m (Utf8.decodeAll s)) ∧ unitsOf (s.take (bytesOfUnits m (Utf8.decodeAll s))) ≤ m := by
  have stay (s : Bytes) (m : Nat) : Boundary s 0 ∧ unitsOf (s.take 0) ≤ m := by
    rw [List.take_zero, unitsOf_nil]
    exact ⟨.zero s, Nat.zero_le m⟩
  induction s using Utf8.induct generalizing m with
  | nil =>
    rw [Utf8.decodeAll, bytesOfUnits]
    exact stay [] m
  | cons b rest ih =>
    rw [Utf8.decodeAll_cons, bytesOfUnits]
    split
    · rename_i fits
      obtain ⟨behind, units⟩ := ih (m - Utf8.units (Utf8.decodeFrom b rest).code)
      refine ⟨.next behind, ?_⟩
      rw [unitsOf_take_next]
      omega
    · exact stay (b :: rest) m

/-- No boundary whose units fit lies behind them. -/
theorem le_bytesOfUnits (here : Boundary s n) (fits : unitsOf (s.take n) ≤ m) :
    n ≤ bytesOfUnits m (Utf8.decodeAll s) := by
  induction here generalizing m with
  | zero s => exact Nat.zero_le _
  | @next b rest n behind ih =>
    rw [unitsOf_take_next] at fits
    rw [Utf8.decodeAll_cons, bytesOfUnits, if_pos (by omega)]
    exact Nat.add_le_add_left (ih (by omega)) _

/-- At a boundary the units of what lies in front of it give back the boundary. -/
theorem bytesOfUnits_unitsOf (here : Boundary s n) :
    bytesOfUnits (unitsOf (s.take n)) (Utf8.decodeAll s) = n := by
  obtain ⟨found, fits⟩ := boundary_bytesOfUnits (unitsOf (s.take n)) s
  refine Nat.le_antisymm ?_ (le_bytesOfUnits here (Nat.le_refl _))
  by_contra behind
  exact absurd (unitsOf_take_lt here (Nat.lt_of_not_le behind) found.le_length) (Nat.not_lt.mpr fits)

/-- Fewer units do not reach the boundary. -/
theorem bytesOfUnits_lt (here : Boundary s n) (fewer : m < unitsOf (s.take n)) :
    bytesOfUnits m (Utf8.decodeAll s) < n := by
  obtain ⟨found, fits⟩ := boundary_bytesOfUnits m s
  by_contra reached
  rcases Nat.lt_or_eq_of_le (Nat.le_of_not_lt reached) with less | same
  · have := unitsOf_take_lt here less found.le_length
    omega
  · rw [← same] at fits
    omega

/-! ## Columns of a row -/

variable {f : SourceFile}

/-- The byte column of a row is the last boundary that some number of units reaches. -/
theorem IsRead.byteColumn_eq (read : f.IsRead) (row units : UInt32) :
    f.byteColumn row units = bytesOfUnits units.toNat (Utf8.decodeAll (f.line row)) := by
  have bounded := (read.lineBounds_le row).2
  have small : f.size < 2 ^ 32 := read.small.size
  have length : (f.line row).length ≤ f.size := by
    rw [line, length_bytesBetween bounded]
    omega
  have counted := unitsOf_le_length (f.line row)
  rw [unitsOf] at counted
  rw [byteColumn, bytesBefore_eq (UInt32.zero_le) (by rw [UInt32.toNat_zero]; omega)]
  rfl

/-- A column of a row fits into a word and is not moved when it is added to the start of the row. -/
theorem IsRead.offset_column (read : f.IsRead) {row : UInt32} (inside : n ≤ (f.line row).length) :
    f.offset ⟨row, .ofNat n⟩ = (f.lineBounds row).1 + n := by
  obtain ⟨forward, bounded⟩ := read.lineBounds_le row
  rw [line, length_bytesBetween bounded] at inside
  have column : (UInt32.ofNat n).toNat = n := read.toNat_offset (by omega)
  have fits : f.ColumnFits ⟨row, .ofNat n⟩ := read.columnFits_of_le (by dsimp only; omega)
  rw [read.offset_of_columnFits fits]
  dsimp only
  rw [column, Nat.min_eq_left (by omega)]

/-- The UTF-16 column of a byte column counts the units of the row in front of it. -/
theorem IsRead.utf16Column_column (read : f.IsRead) {row : UInt32} (inside : n ≤ (f.line row).length) :
    f.utf16Column ⟨row, .ofNat n⟩ = unitsOf ((f.line row).take n) := by
  have bounded := (read.lineBounds_le row).2
  rw [utf16Column, read.offset_column inside]
  rw [line, length_bytesBetween bounded] at inside
  rw [line, bytesBetween, bytesBetween, Nat.add_sub_cancel_left, List.take_take, Nat.min_eq_left inside]

/-- UTF-16 columns of a file fit into words. -/
theorem IsRead.toNat_utf16Column (read : f.IsRead) (p : Point) :
    (UInt32.ofNat (f.utf16Column p)).toNat = f.utf16Column p :=
  read.toNat_units (Nat.le_trans (f.offset_le_stop p) (read.lineBounds_le p.row).2)

/-- On the boundaries of the characters of a row the two kinds of columns are inverse to each other and grow together,
and any number of units gives the last boundary that it reaches. -/
theorem columns_inverse (path text : Bytes) (isVirtual : Bool)
    (small : (ofBytes path text isVirtual).size < 2 ^ 32) (row : UInt32) :
    let f := ofBytes path text isVirtual
    let units (column : Nat) : Nat := f.utf16Column ⟨row, .ofNat column⟩
    (∀ c, Boundary (f.line row) c → f.byteColumn row (.ofNat (units c)) = c) ∧
      StrictMonoOn units {c | Boundary (f.line row) c} ∧
      ∀ u : UInt32, IsGreatest {c | Boundary (f.line row) c ∧ units c ≤ u.toNat} (f.byteColumn row u) := by
  intro f units
  have read : f.IsRead := isRead_ofBytes small
  have counted {c : Nat} (here : Boundary (f.line row) c) : units c = unitsOf ((f.line row).take c) :=
    read.utf16Column_column here.le_length
  refine ⟨fun c here => ?_, fun c here d there less => ?_, fun u => ⟨?_, fun c member => ?_⟩⟩
  · rw [read.byteColumn_eq, read.toNat_utf16Column]
    exact (congrArg (bytesOfUnits · _) (counted here)).trans (bytesOfUnits_unitsOf here)
  · rw [counted here, counted there]
    exact unitsOf_take_lt here less there.le_length
  · rw [read.byteColumn_eq]
    obtain ⟨here, fits⟩ := boundary_bytesOfUnits u.toNat (f.line row)
    exact ⟨here, (counted here).trans_le fits⟩
  · rw [read.byteColumn_eq]
    obtain ⟨here, fits⟩ := member
    exact le_bytesOfUnits here ((counted here).symm.trans_le fits)

/-- A row that starts with a byte that continues no character, in front of a character of two units. -/
def sampleColumns : Bytes := Bytes.ofString "if\n" ++ [0x80] ++ Bytes.ofString "😀a"

theorem columns_inverse_sampleColumns :
    let f := ofBytes [] sampleColumns false
    f.size < 2 ^ 32 ∧ Boundary (f.line 1) 5 ∧ f.byteColumn 1 (.ofNat (f.utf16Column ⟨1, .ofNat 5⟩)) = 5 ∧
      IsGreatest {c | Boundary (f.line 1) c ∧ f.utf16Column ⟨1, .ofNat c⟩ ≤ 2} (f.byteColumn 1 2) := by
  intro f
  have small : f.size < 2 ^ 32 := by decide +kernel
  have behind : Boundary (f.line 1) 5 := .of_isAscii (b := 0x61) (by decide +kernel) rfl
  obtain ⟨inverse, -, greatest⟩ := columns_inverse [] sampleColumns false small 1
  exact ⟨small, behind, inverse 5 behind, greatest 2⟩

end SourceFile

end SecurityRules
