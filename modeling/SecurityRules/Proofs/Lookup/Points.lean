import Mathlib.Data.List.Basic
import SecurityRules.SourceFile

/-!
# Points and offsets

A span contains the points between its ends in document order. In a file whose offsets fit into 32 bits, points
stand in the order of the offsets they belong to.
-/

namespace SecurityRules

/-- The place of a point in document order. -/
def Point.rank (p : Point) : Nat := p.row.toNat * 2 ^ 32 + p.column.toNat

theorem Point.before_iff {p q : Point} : p.before q = true ↔ p.rank < q.rank := by
  have := p.column.toNat_lt
  have := q.column.toNat_lt
  simp only [before, rank, Bool.or_eq_true, Bool.and_eq_true, decide_eq_true_eq, beq_iff_eq,
    UInt32.lt_iff_toNat_lt, ← UInt32.toNat_inj]
  omega

theorem Span.contains_iff {s : Span} {p : Point} :
    s.contains p = true ↔ s.start.rank ≤ p.rank ∧ p.rank ≤ s.stop.rank := by
  simp only [contains, Bool.and_eq_true, Bool.not_eq_true', ← Bool.not_eq_true, Point.before_iff]
  omega

theorem Span.containsSpan_iff {s t : Span} : s.containsSpan t = true ↔
    (s.start.rank ≤ t.start.rank ∧ t.start.rank ≤ s.stop.rank) ∧
      s.start.rank ≤ t.stop.rank ∧ t.stop.rank ≤ s.stop.rank := by
  rw [containsSpan, Bool.and_eq_true, contains_iff, contains_iff]

namespace SourceFile

/-- A file whose rows and columns can be counted in 32 bits; no other file is ever read. -/
structure IsSmall (f : SourceFile) : Prop where
  size : f.size < 2 ^ 32
  lines : f.lineBreaks.length ≤ f.size

theorem length_lineBreaksFrom_le (offset : Nat) (text : Bytes) :
    (lineBreaksFrom offset text).length ≤ text.length := by
  induction text generalizing offset with
  | nil => simp [lineBreaksFrom]
  | cons b rest ih =>
    have shorter := ih (offset + 1)
    unfold lineBreaksFrom
    split
    · simp only [List.length_cons]
      omega
    · simp only [List.length_cons]
      omega

theorem isSmall_ofBytes {path text : Bytes} {isVirtual : Bool}
    (small : (ofBytes path text isVirtual).size < 2 ^ 32) : (ofBytes path text isVirtual).IsSmall where
  size := small
  lines := length_lineBreaksFrom_le 0 _

/-- The row of an offset: the number of line feeds in front of it. -/
def rowOf (f : SourceFile) (offset : Nat) : Nat := f.lineBreaks.findIdx (offset ≤ ·)

variable {f : SourceFile} {a b : Nat}

theorem rowOf_mono (le : a ≤ b) : f.rowOf a ≤ f.rowOf b := by
  unfold rowOf
  by_contra further
  have inside : f.lineBreaks.findIdx (b ≤ ·) < f.lineBreaks.length :=
    Nat.lt_of_lt_of_le (Nat.lt_of_not_le further) List.findIdx_le_length
  have reached : b ≤ f.lineBreaks[f.lineBreaks.findIdx (b ≤ ·)] := by
    simpa using List.findIdx_getElem (w := inside)
  have missed := List.not_of_lt_findIdx (Nat.lt_of_not_le further)
  simp only [decide_eq_false_iff_not] at missed
  omega

/-- A row starts in front of each offset in it. -/
theorem rowStart_rowOf_le : f.rowStart (f.rowOf a) ≤ a := by
  unfold rowStart
  split
  · exact Nat.zero_le a
  · rename_i row eq
    have before : row < f.rowOf a := by omega
    have known : row < f.lineBreaks.length := Nat.lt_of_lt_of_le before List.findIdx_le_length
    have missed := List.not_of_lt_findIdx before
    simp only [decide_eq_false_iff_not] at missed
    rw [List.getElem?_eq_getElem known]
    simp only [Option.map_some, Option.getD_some]
    omega

theorem pointAt_eq (small : f.IsSmall) (inside : a ≤ f.size) : (f.pointAt a).row.toNat = f.rowOf a ∧
    (f.pointAt a).column.toNat = a - f.rowStart (f.rowOf a) := by
  have low : f.rowOf a ≤ f.lineBreaks.length := List.findIdx_le_length
  have row : (UInt32.ofNat (f.rowOf a)).toNat = f.rowOf a := by
    have := small.size
    have := small.lines
    exact UInt32.toNat_ofNat_of_lt (show _ < 2 ^ 32 by omega)
  have bounds : (f.lineBounds (UInt32.ofNat (f.rowOf a))).1 = f.rowStart (f.rowOf a) := by
    rw [lineBounds, row, if_neg (by omega)]
  have point : f.pointAt a = ⟨UInt32.ofNat (f.rowOf a), UInt32.ofNat (a - f.rowStart (f.rowOf a))⟩ := by
    rw [← bounds, pointAt, Nat.min_eq_left inside]
    rfl
  rw [point]
  have := small.size
  exact ⟨row, UInt32.toNat_ofNat_of_lt (show _ < 2 ^ 32 by omega)⟩

/-- Points have the order of their offsets. -/
theorem rank_pointAt_lt (small : f.IsSmall) (less : a < b) (inside : b ≤ f.size) :
    (f.pointAt a).rank < (f.pointAt b).rank := by
  obtain ⟨rowA, columnA⟩ := pointAt_eq small (Nat.le_trans (Nat.le_of_lt less) inside)
  obtain ⟨rowB, columnB⟩ := pointAt_eq small inside
  have mono := rowOf_mono (f := f) (Nat.le_of_lt less)
  have low := (f.pointAt a).column.toNat_lt
  unfold Point.rank
  by_cases same : f.rowOf a = f.rowOf b
  · have start := rowStart_rowOf_le (f := f) (a := a)
    rw [rowA, rowB, columnA, columnB, ← same]
    omega
  · have further : (f.pointAt a).row.toNat + 1 ≤ (f.pointAt b).row.toNat := by omega
    have := Nat.mul_le_mul_right (2 ^ 32) further
    omega

theorem rank_pointAt_le (small : f.IsSmall) (le : a ≤ b) (inside : b ≤ f.size) :
    (f.pointAt a).rank ≤ (f.pointAt b).rank := by
  rcases Nat.lt_or_eq_of_le le with less | rfl
  · exact Nat.le_of_lt (rank_pointAt_lt small less inside)
  · exact Nat.le_refl _

theorem pointAt_inj (small : f.IsSmall) (insideA : a ≤ f.size) (insideB : b ≤ f.size)
    (same : f.pointAt a = f.pointAt b) : a = b := by
  rcases Nat.lt_trichotomy a b with less | equal | greater
  · have := rank_pointAt_lt small less insideB
    rw [same] at this
    exact absurd this (Nat.lt_irrefl _)
  · exact equal
  · have := rank_pointAt_lt small greater insideA
    rw [same] at this
    exact absurd this (Nat.lt_irrefl _)

end SourceFile

end SecurityRules
