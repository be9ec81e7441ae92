import SecurityRules.Proofs.Edit.Positions
import SecurityRules.Proofs.Highlight.Marks
import SecurityRules.Proofs.Lookup.Completeness

/-!
# Ranges made of closed spans

A closed span ends with the first byte of a character, and the range that an editor is told ends behind that character.
A character ends in front of the next one, so ranges have the order of the spans that they are made of.
-/

namespace SecurityRules

namespace Utf8

/-- Of two boundaries the nearer one has its whole character in front of the farther one. -/
theorem Boundary.next_le {s : Bytes} {n m : Nat} (here : Boundary s n) (there : Boundary s m) (less : n < m)
    {b : UInt8} {rest : Bytes} (behind : s.drop n = b :: rest) :
    n + (decodeFrom b rest).size ≤ m ∧ Boundary s (n + (decodeFrom b rest).size) := by
  obtain ⟨k, rfl⟩ := Nat.exists_eq_add_of_le (Nat.le_of_lt less)
  have between := here.drop there
  rw [behind] at between
  refine ⟨?_, here.trans (behind ▸ Boundary.first b rest)⟩
  generalize whole : b :: rest = text at between
  cases between with
  | zero => omega
  | @next c more j _ =>
    obtain ⟨rfl, rfl⟩ := List.cons.inj whole
    omega

end Utf8

open Utf8 (Boundary)

/-! ## Last characters -/

namespace Extent

/-- The last character of a part of a file that starts at a boundary starts at one. -/
theorem boundary_lastCharacter {f : SourceFile} {a b : Nat} (start : Boundary f.content a) :
    Boundary f.content (lastCharacter a (f.bytesBetween a b)) := by
  have split : lastCharacter a (f.bytesBetween a b) = a + lastCharacter 0 (f.bytesBetween a b) := by
    unfold lastCharacter
    omega
  rw [split]
  rcases Nat.eq_zero_or_pos (lastCharacter 0 (f.bytesBetween a b)) with zero | positive
  · rw [zero]
    exact start
  · obtain ⟨c, found, starts⟩ := exists_lastCharacter positive
    refine .of_starts (b := c) ?_ starts
    rw [SourceFile.bytesBetween, List.getElem?_take] at found
    split at found
    · rw [← List.getElem?_drop]
      exact found
    · cases found

end Extent

/-! ## Positions in order -/

theorem Point.ext_toNat {p q : Point} (row : p.row.toNat = q.row.toNat) (column : p.column.toNat = q.column.toNat) :
    p = q := by
  obtain ⟨_, _⟩ := p
  obtain ⟨_, _⟩ := q
  exact Point.mk.injEq .. |>.mpr ⟨UInt32.toNat_inj.mp row, UInt32.toNat_inj.mp column⟩

/-- Whether a position does not stand behind another one. -/
def EditorPosition.IsUpTo (p q : EditorPosition) : Prop :=
  p.line < q.line ∨ p.line = q.line ∧ p.character ≤ q.character

theorem EditorPosition.IsUpTo.antisymm {p q : EditorPosition} (first : p.IsUpTo q) (second : q.IsUpTo p) : p = q := by
  obtain ⟨line, character⟩ := p
  obtain ⟨line', character'⟩ := q
  simp only [IsUpTo, UInt32.lt_iff_toNat_lt, UInt32.le_iff_toNat_le, ← UInt32.toNat_inj] at first second
  rw [EditorPosition.mk.injEq, ← UInt32.toNat_inj, ← UInt32.toNat_inj]
  omega

/-- Whether a range lies in another one: it starts not before it and ends not behind it. -/
structure EditorRange.IsWithin (inner outer : EditorRange) : Prop where
  start : outer.start.IsUpTo inner.start
  stop : inner.stop.IsUpTo outer.stop

namespace SourceFile

variable {f : SourceFile} {a b c d o : Nat}

/-- The offset behind the character at an offset, at the end of a row the offset itself. -/
def behind (f : SourceFile) (o : Nat) : Nat := o + f.characterSize (f.pointAt o)

theorem rowOf_eq_of_le_rowStop (low : o ≤ a) (high : a ≤ f.rowStop (f.rowOf o)) :
    f.rowOf a = f.rowOf o := by
  refine Nat.le_antisymm ?_ (rowOf_mono low)
  by_contra further
  have missed := List.not_of_lt_findIdx (Nat.lt_of_not_le further)
  rw [rowStop, List.getElem?_eq_getElem (Nat.lt_of_lt_of_le (Nat.lt_of_not_le further) (f.rowOf_le a))] at high
  simp only [decide_eq_false_iff_not] at missed
  exact missed high

theorem characterSize_pointAt (read : f.IsRead) (inside : o ≤ f.size) :
    f.characterSize (f.pointAt o) =
      match f.bytesBetween o (f.rowStop (f.rowOf o)) with
      | [] => 0
      | b :: rest => (Utf8.decodeFrom b rest).size := by
  obtain ⟨row, column⟩ := pointAt_eq read.small inside
  have start := rowStart_rowOf_le (f := f) (a := o)
  have bounds := @IsRead.lineBounds_eq f (f.pointAt o).row (row.symm ▸ f.rowOf_le o)
  rw [row] at bounds
  have place : (f.lineBounds (f.pointAt o).row).1 + (f.pointAt o).column.toNat = o := by
    rw [bounds, column, Nat.add_sub_cancel' start]
  have offset : f.columnOffset (f.pointAt o) = o := by
    rw [read.columnOffset_eq (read.columnFits_of_le (place.trans_le inside)), place]
  show (match f.bytesBetween (f.columnOffset (f.pointAt o)) (f.lineBounds (f.pointAt o).row).2 with
    | [] => 0
    | b :: rest => (Utf8.decodeFrom b rest).size) = _
  rw [offset, bounds]

/-- The character at a boundary ends at a boundary of its row, and in front of every farther boundary. -/
theorem behind_spec (read : f.IsRead) (here : Boundary f.content o) :
    o ≤ f.behind o ∧ f.behind o ≤ f.rowStop (f.rowOf o) ∧ Boundary f.content (f.behind o) ∧
      ∀ m, o < m → Boundary f.content m → f.behind o ≤ m := by
  have reached := le_rowStop_rowOf here.le_length
  have stop : Boundary f.content (f.rowStop (f.rowOf o)) := read.boundary_rowStop
  rw [behind, characterSize_pointAt read here.le_length]
  rcases Nat.lt_or_eq_of_le reached with less | same
  · obtain ⟨b, rest, cut⟩ : ∃ b rest, f.content.drop o = b :: rest := by
      refine List.exists_cons_of_ne_nil ?_
      rw [Ne, List.drop_eq_nil_iff, Nat.not_le]
      exact Nat.lt_of_lt_of_le less stop.le_length
    obtain ⟨inside, next⟩ := here.next_le stop less cut
    obtain ⟨k, width⟩ : ∃ k, f.rowStop (f.rowOf o) - o = k + 1 := Nat.exists_eq_succ_of_ne_zero (by omega)
    have size := Utf8.decodeFrom_take b rest k (by omega)
    rw [bytesBetween, cut, width, List.take_succ_cons]
    dsimp only
    rw [size]
    exact ⟨Nat.le_add_right _ _, inside, next, fun m farther there => (here.next_le there farther cut).1⟩
  · rw [← same, bytesBetween, Nat.sub_self, List.take_zero]
    exact ⟨Nat.le_refl _, Nat.le_refl _, here, fun m farther _ => Nat.le_of_lt farther⟩

theorem behind_mono (read : f.IsRead) (first : Boundary f.content a) (second : Boundary f.content b) (le : a ≤ b) :
    f.behind a ≤ f.behind b := by
  rcases Nat.lt_or_eq_of_le le with less | rfl
  · exact Nat.le_trans ((behind_spec read first).2.2.2 b less second) (behind_spec read second).1
  · exact Nat.le_refl _

end SourceFile

namespace Server

open SourceFile

variable {f : SourceFile} {a b c d : Nat}

/-- The range of a closed span, in offsets. -/
theorem editorRange_pointAt (read : f.IsRead) (last : Boundary f.content b) :
    editorRange f ⟨f.pointAt a, f.pointAt b⟩ =
      ⟨editorPosition f (f.pointAt a), editorPosition f (f.pointAt (f.behind b))⟩ := by
  obtain ⟨low, high, there, _⟩ := behind_spec read last
  obtain ⟨row, column⟩ := pointAt_eq read.small last.le_length
  obtain ⟨row', column'⟩ := pointAt_eq read.small there.le_length
  have start := rowStart_rowOf_le (f := f) (a := b)
  have small := read.small.size
  have inside : f.behind b ≤ f.size := there.le_length
  rw [rowOf_eq_of_le_rowStop low high] at row' column'
  have size : (UInt32.ofNat (f.characterSize (f.pointAt b))).toNat = f.characterSize (f.pointAt b) := by
    refine read.toNat_offset ?_
    rw [behind] at inside
    omega
  have moved : (⟨(f.pointAt b).row, (f.pointAt b).column + .ofNat (f.characterSize (f.pointAt b))⟩ : Point) =
      f.pointAt (f.behind b) := by
    rw [behind] at inside
    refine Point.ext_toNat (row.trans row'.symm) ?_
    rw [column', UInt32.toNat_add, size, column, behind, Nat.mod_eq_of_lt (by omega)]
    omega
  rw [editorRange, moved]

/-- Positions have the order of the boundaries that they belong to. -/
theorem editorPosition_mono (read : f.IsRead) (first : Boundary f.content a) (second : Boundary f.content b)
    (le : a ≤ b) : (editorPosition f (f.pointAt a)).IsUpTo (editorPosition f (f.pointAt b)) := by
  obtain ⟨line, character⟩ := editorPosition_pointAt read first.le_length
  obtain ⟨line', character'⟩ := editorPosition_pointAt read second.le_length
  rcases Nat.lt_or_eq_of_le (rowOf_mono (f := f) le) with less | same
  · left
    rw [UInt32.lt_iff_toNat_lt, line, line']
    exact less
  · right
    have whole := f.unitsOf_bytesBetween rowStart_rowOf_le le read.boundary_rowStart first
    rw [← UInt32.toNat_inj, UInt32.le_iff_toNat_le, line, line', character, character', ← same, whole]
    exact ⟨rfl, Nat.le_add_right _ _⟩

theorem editorRange_forward (read : f.IsRead) (first : Boundary f.content a) (last : Boundary f.content b)
    (le : a ≤ b) :
    (editorRange f ⟨f.pointAt a, f.pointAt b⟩).start.IsUpTo (editorRange f ⟨f.pointAt a, f.pointAt b⟩).stop := by
  obtain ⟨low, _, there, _⟩ := behind_spec read last
  rw [editorRange_pointAt read last]
  exact editorPosition_mono read first there (Nat.le_trans le low)

/-- A closed span between the ends of another one has its range in that of the other one. -/
theorem editorRange_within (read : f.IsRead) (outerFirst : Boundary f.content a) (outerLast : Boundary f.content b)
    (innerFirst : Boundary f.content c) (innerLast : Boundary f.content d) (low : a ≤ c) (high : d ≤ b) :
    (editorRange f ⟨f.pointAt c, f.pointAt d⟩).IsWithin (editorRange f ⟨f.pointAt a, f.pointAt b⟩) := by
  rw [editorRange_pointAt read outerLast, editorRange_pointAt read innerLast]
  exact ⟨editorPosition_mono read outerFirst innerFirst low, editorPosition_mono read (behind_spec read innerLast).2.2.1
    (behind_spec read outerLast).2.2.1 (behind_mono read innerLast outerLast high)⟩

end Server

/-! ## Ends of trees -/

namespace ParseTree

variable {f : SourceFile} {t : ParseTree}

theorem lastPoint_extentOf {cs : List ParseTree} (grown : cs ≠ []) :
    ∃ c ∈ cs, (extentOf cs).lastPoint = c.extent.startPoint ∨ (extentOf cs).lastPoint = c.extent.lastPoint := by
  cases cs with
  | nil => exact absurd rfl grown
  | cons first rest =>
    induction rest using List.reverseRecOn with
    | nil =>
      refine ⟨first, List.mem_singleton_self _, ?_⟩
      rw [extentOf, List.foldl_nil, Extent.first]
      dsimp only
      split
      · exact Or.inl rfl
      · exact Or.inr rfl
    | append_singleton rest c ih =>
      rw [← List.cons_append, extentOf_concat (List.cons_ne_nil _ _), Extent.extend]
      dsimp only
      split
      · obtain ⟨d, member, place⟩ := ih (List.cons_ne_nil _ _)
        exact ⟨d, List.mem_append_left _ member, place⟩
      · exact ⟨c, List.mem_append_right _ (List.mem_singleton_self c), Or.inr rfl⟩

namespace Regular

/-- The last point of a tree is that of a boundary. -/
theorem lastPoint_eq (regular : Regular f t) :
    ∃ o, Boundary f.content o ∧ t.extent.lastPoint = f.pointAt o := by
  induction t using induct with
  | step t ih =>
    by_cases childless : t.children = []
    · have leaf := (regular.sound.leaf childless).1
      exact ⟨_, Extent.boundary_lastCharacter (b := t.stop) regular.edges.1.boundary, congrArg Extent.lastPoint leaf⟩
    · obtain ⟨c, child, place⟩ := lastPoint_extentOf childless
      rw [← regular.sound.whole childless] at place
      have regularC := regular.of_child child
      rcases place with place | place
      · obtain ⟨last, ends, _⟩ := regularC.ends
        exact ⟨c.start, regularC.edges.1.boundary, place.trans ends.startPoint⟩
      · obtain ⟨o, here, same⟩ := ih c child regularC
        exact ⟨o, here, place.trans same⟩

/-- Every tree ends with a whole character. -/
theorem boundary_last (small : f.IsSmall) (regular : Regular f t) {last : Nat} (ends : t.extent.Ends f last) :
    Boundary f.content last := by
  obtain ⟨o, here, same⟩ := regular.lastPoint_eq
  have forward := regular.sound.forward
  have bounded := regular.sound.bounded
  have high : last = t.start ∨ last < t.stop := ends.high
  rw [SourceFile.pointAt_inj small (by omega) here.le_length (ends.lastPoint.symm.trans same)]
  exact here

end Regular

end ParseTree

end SecurityRules
