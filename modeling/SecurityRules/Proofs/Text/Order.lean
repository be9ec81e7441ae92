import Mathlib.Data.List.Lex
import SecurityRules.Text.Bytes

/-!
# The order of texts

Texts are ordered byte by byte, a proper beginning first. This is the lexicographic order of the numbers of their bytes,
so any two texts can be compared, and two of which neither comes first are the same.
-/

namespace SecurityRules.Bytes

variable {s t u : Bytes}

/-- The numbers of the bytes of a text. -/
def numbers (s : Bytes) : List Nat := s.map UInt8.toNat

theorem numbers_inj : numbers s = numbers t ↔ s = t :=
  (List.map_injective_iff.mpr fun _ _ => UInt8.toNat_inj.mp).eq_iff

theorem before_iff : before s t = true ↔ numbers s < numbers t := by
  induction s generalizing t with
  | nil => cases t <;> simp [before, numbers]
  | cons a s ih =>
    cases t with
    | nil => simp [before, numbers]
    | cons b t =>
      rw [numbers, numbers, List.map_cons, List.map_cons, List.cons_lt_cons_iff, UInt8.toNat_inj]
      simp [before, ih, UInt8.lt_iff_toNat_lt, numbers]

theorem notAfter_iff : notAfter s t = true ↔ numbers s ≤ numbers t := by
  rw [notAfter, Bool.not_eq_true', ← Bool.not_eq_true, before_iff, not_lt]

theorem before_irrefl (s : Bytes) : before s s = false := by
  rw [← Bool.not_eq_true, before_iff]
  exact lt_irrefl _

theorem before_trans (first : before s t = true) (second : before t u = true) : before s u = true :=
  before_iff.mpr (lt_trans (before_iff.mp first) (before_iff.mp second))

theorem before_of_ne (other : s ≠ t) (later : before s t = false) : before t s = true := by
  rw [← Bool.not_eq_true, before_iff, not_lt] at later
  exact before_iff.mpr (lt_of_le_of_ne later fun same => other (numbers_inj.mp same).symm)

theorem notAfter_trans (s t u : Bytes) (first : notAfter s t = true) (second : notAfter t u = true) :
    notAfter s u = true :=
  notAfter_iff.mpr (le_trans (notAfter_iff.mp first) (notAfter_iff.mp second))

theorem notAfter_total (s t : Bytes) : (notAfter s t || notAfter t s) = true := by
  rw [Bool.or_eq_true, notAfter_iff, notAfter_iff]
  exact le_total _ _

end SecurityRules.Bytes
