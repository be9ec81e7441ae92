import Mathlib.Data.List.Forall2
import SecurityRules.Highlight
import SecurityRules.Proofs.SourceFile.Positions

/-!
# Parts and words of marks

A mark that reaches over line ends is replaced by a part on each row that it covers some bytes of. The parts are those
of the rows one by one, since behind the row in which the mark ends there is nothing left of it; together they have the
bytes of the mark without the line feeds.

Writing marks as differences and reading them back are inverse to each other: the five words of a mark and the mark
before it determine the mark, and every five words are those of one mark. Nothing is assumed about the order of the
marks, since both directions compute modulo 2³².
-/

namespace SecurityRules.Highlight

section

variable {f : SourceFile} {m : Mark} {a b row : Nat}

/-- Where a mark starts. -/
def Mark.start (m : Mark) : Point := ⟨m.row, m.column⟩

/-- The bytes that a mark stands over. -/
def Mark.bytes (f : SourceFile) (m : Mark) : Bytes :=
  f.bytesBetween (f.offset m.start) (f.offset m.start + m.length.toNat)

/-- A mark that starts on a row of the file, at most at its end, and ends within the content. -/
structure Mark.StandsIn (f : SourceFile) (m : Mark) : Prop where
  point : f.HasPoint m.start
  inside : f.offset m.start + m.length.toNat ≤ f.size

/-- Marks on single rows that stand for a mark: they look like it, stand behind each other over parts of it, and have
its bytes without the line feeds. -/
structure Mark.IsSplitInto (f : SourceFile) (m : Mark) (parts : List Mark) : Prop where
  alike : ∀ p ∈ parts, p.kind = m.kind ∧ p.modifiers = m.modifiers
  known : ∀ p ∈ parts, p.row.toNat < f.lineCount
  onRow : ∀ p ∈ parts, p.column.toNat + p.length.toNat ≤ (f.line p.row).length
  within : ∀ p ∈ parts, f.offset m.start ≤ f.offset p.start ∧
    f.offset p.start + p.length.toNat ≤ f.offset m.start + m.length.toNat
  bytes : parts.flatMap (Mark.bytes f) = (m.bytes f).filter (· != 0x0A)
  rising : parts.Pairwise fun p q => p.row < q.row
  filled : m.length ≠ 0 → ∀ p ∈ parts, p.length ≠ 0

/-! ## Marks on a single row -/

/-- A mark on a single row that stands over the bytes from `a` to `b`. -/
structure On (f : SourceFile) (m : Mark) (a b : Nat) : Prop where
  known : m.row.toNat ≤ f.lineBreaks.length
  place : f.rowStart m.row.toNat + m.column.toNat = a
  length : a + m.length.toNat = b
  inside : b ≤ f.rowStop m.row.toNat

namespace On

theorem offset (on : On f m a b) (read : f.IsRead) : f.offset m.start = a :=
  read.offset_eq on.known on.place (Nat.le_trans (Nat.le.intro on.length) on.inside)

theorem fits (on : On f m a b) (read : f.IsRead) : m.column.toNat + m.length.toNat ≤ (f.line m.row).length := by
  have place := on.place
  have length := on.length
  have inside := on.inside
  rw [read.length_line on.known]
  omega

theorem bytes (on : On f m a b) (read : f.IsRead) : m.bytes f = f.bytesBetween a b := by
  rw [Mark.bytes, on.offset read, on.length]

end On

/-- A mark that stands in a file and ends in front of the end of its row stands on this row. -/
theorem Mark.StandsIn.on (stands : m.StandsIn f) (read : f.IsRead)
    (ends : f.offset m.start + m.length.toNat ≤ f.rowStop m.row.toNat) :
    On f m (f.offset m.start) (f.offset m.start + m.length.toNat) where
  known := Nat.le_of_lt_succ stands.point.row
  place := (read.offset_of_hasPoint stands.point).1.symm
  length := rfl
  inside := ends

/-! ## The part of a mark on a row -/

/-- What is left on a row of a mark over the bytes from `a` to `b`. -/
def partOn (f : SourceFile) (m : Mark) (a b row : Nat) : Mark :=
  { m with
    row := .ofNat row
    column := .ofNat (max a (f.rowStart row) - f.rowStart row)
    length := .ofNat (min b (f.rowStop row) - max a (f.rowStart row)) }

/-- Whether some of the bytes from `a` to `b` lie on a row. -/
def Covers (f : SourceFile) (a b row : Nat) : Prop := max a (f.rowStart row) < min b (f.rowStop row)

instance : Decidable (Covers f a b row) := inferInstanceAs (Decidable (_ < _))

theorem on_partOn (read : f.IsRead) (known : row ≤ f.lineBreaks.length) (covers : Covers f a b row) :
    On f (partOn f m a b row) (max a (f.rowStart row)) (min b (f.rowStop row)) := by
  have bounded : f.rowStop row ≤ f.size := read.rowStop_le_size
  have word := read.toNat_row known
  unfold Covers at covers
  constructor
  · rw [partOn, word]
    exact known
  · rw [partOn, word, read.toNat_offset (by omega)]
    omega
  · rw [partOn, read.toNat_offset (by omega)]
    omega
  · rw [partOn, word]
    exact Nat.min_le_right _ _

theorem partOn_filled (read : f.IsRead) (covers : Covers f a b row) : (partOn f m a b row).length ≠ 0 := by
  have bounded : f.rowStop row ≤ f.size := read.rowStop_le_size
  unfold Covers at covers
  rw [Ne, ← UInt32.toNat_inj, partOn, read.toNat_offset (by omega)]
  exact Nat.sub_ne_zero_of_lt covers

/-- One row of the cut, in numbers without a bound: the words of the definition stand for them. -/
theorem partsFrom_succ (read : f.IsRead) (rows : Nat) (known : row ≤ f.lineBreaks.length) (start : a ≤ f.size)
    (stop : b ≤ f.size) : partsFrom f m (.ofNat a) (.ofNat b) (rows + 1) row =
      (if Covers f a b row then [partOn f m a b row] else []) ++
        if b ≤ f.rowStop row then [] else partsFrom f m (.ofNat a) (.ofNat b) rows (row + 1) := by
  have rowStart := read.rowStart_le_rowStop known
  have rowStop : f.rowStop row ≤ f.size := read.rowStop_le_size
  have bounds := @SourceFile.IsRead.lineBounds_eq f (.ofNat row) (by rw [read.toNat_row known]; exact known)
  rw [read.toNat_row known] at bounds
  have wordStart := read.toNat_offset (Nat.le_trans rowStart rowStop)
  have low : max (UInt32.ofNat a) (.ofNat (f.rowStart row)) = .ofNat (max a (f.rowStart row)) := by
    rw [← UInt32.toNat_inj, UInt32.toNat_max, read.toNat_offset start, wordStart, read.toNat_offset (by omega)]
  have high : min (UInt32.ofNat b) (.ofNat (f.rowStop row)) = .ofNat (min b (f.rowStop row)) := by
    rw [← UInt32.toNat_inj, UInt32.toNat_min, read.toNat_offset stop, read.toNat_offset rowStop,
      read.toNat_offset (by omega)]
  have ended : UInt32.ofNat b ≤ .ofNat (f.rowStop row) ↔ b ≤ f.rowStop row := by
    rw [UInt32.le_iff_toNat_le, read.toNat_offset stop, read.toNat_offset rowStop]
  have covers : UInt32.ofNat (max a (f.rowStart row)) < .ofNat (min b (f.rowStop row)) ↔ Covers f a b row := by
    rw [UInt32.lt_iff_toNat_lt, read.toNat_offset (by omega), read.toNat_offset (by omega), Covers]
  rw [partsFrom, bounds]
  dsimp only
  rw [low, high]
  simp only [covers, ended]
  split
  · rename_i covered
    unfold Covers at covered
    rw [partOn, UInt32.ofNat_sub (Nat.le_max_right ..), UInt32.ofNat_sub (Nat.le_of_lt covered)]
    rfl
  · rfl

/-- Each part is that of a row that the mark covers. -/
theorem exists_of_mem_partsFrom (read : f.IsRead) (start : a ≤ f.size) (stop : b ≤ f.size) {rows : Nat} {p : Mark}
    (left : row + rows = f.lineCount) (member : p ∈ partsFrom f m (.ofNat a) (.ofNat b) rows row) :
    ∃ r, row ≤ r ∧ r ≤ f.lineBreaks.length ∧ Covers f a b r ∧ p = partOn f m a b r := by
  induction rows generalizing row with
  | zero => cases member
  | succ rows ih =>
    have known : row ≤ f.lineBreaks.length := by
      rw [SourceFile.lineCount] at left
      omega
    rw [partsFrom_succ read rows known start stop, List.mem_append] at member
    rcases member with here | later
    · split at here
      · rename_i covers
        exact ⟨row, Nat.le_refl _, known, covers, List.mem_singleton.mp here⟩
      · cases here
    · split at later
      · cases later
      · obtain ⟨r, behind, found⟩ := ih (by omega) later
        exact ⟨r, Nat.le_of_succ_le behind, found⟩

/-- The parts stand on rows behind each other. -/
theorem rising_partsFrom (read : f.IsRead) (start : a ≤ f.size) (stop : b ≤ f.size) (rows : Nat)
    (left : row + rows = f.lineCount) :
    (partsFrom f m (.ofNat a) (.ofNat b) rows row).Pairwise fun p q => p.row < q.row := by
  induction rows generalizing row with
  | zero => exact .nil
  | succ rows ih =>
    have known : row ≤ f.lineBreaks.length := by
      rw [SourceFile.lineCount] at left
      omega
    have next := @ih (row + 1) (by omega)
    rw [partsFrom_succ read rows known start stop, List.pairwise_append]
    refine ⟨?_, ?_, fun p here q later => ?_⟩
    · split
      · exact List.pairwise_singleton ..
      · exact .nil
    · split
      · exact .nil
      · exact next
    · split at later
      · cases later
      · obtain ⟨r, behind, knownR, -, rfl⟩ := exists_of_mem_partsFrom read start stop (by omega) later
        split at here
        · obtain rfl := List.mem_singleton.mp here
          rw [UInt32.lt_iff_toNat_lt, partOn, partOn, read.toNat_row known, read.toNat_row knownR]
          exact behind
        · cases here

/-- The bytes of the part on a row. -/
theorem bytes_part (read : f.IsRead) (known : row ≤ f.lineBreaks.length) :
    (if Covers f a b row then [partOn f m a b row] else []).flatMap (Mark.bytes f) =
      f.bytesBetween (max a (f.rowStart row)) (min b (f.rowStop row)) := by
  split
  · rename_i covers
    rw [List.flatMap_singleton, (on_partOn read known covers).bytes read]
  · rename_i missed
    rw [List.flatMap_nil, SourceFile.bytesBetween, Nat.sub_eq_zero_of_le (Nat.le_of_not_lt missed), List.take_zero]

/-- The bytes of the parts are those of the mark from the row on, without the line feeds. -/
theorem bytes_partsFrom (read : f.IsRead) (breaks : f.lineBreaks = SourceFile.lineBreaksFrom 0 f.content)
    (forward : a ≤ b) (stop : b ≤ f.size) (rows : Nat) (left : row + rows = f.lineCount)
    (known : row ≤ f.lineBreaks.length) (reached : f.rowStart row ≤ b) :
    (partsFrom f m (.ofNat a) (.ofNat b) rows row).flatMap (Mark.bytes f) =
      (f.bytesBetween (max a (f.rowStart row)) b).filter (· != 0x0A) := by
  induction rows generalizing row with
  | zero =>
    rw [SourceFile.lineCount] at left
    omega
  | succ rows ih =>
    have rowStart := read.rowStart_le_rowStop known
    have plain : (f.bytesBetween (max a (f.rowStart row)) (min b (f.rowStop row))).filter (· != 0x0A) =
        f.bytesBetween (max a (f.rowStart row)) (min b (f.rowStop row)) :=
      List.filter_eq_self.mpr (by
        simpa using read.ne_feed_of_mem_row breaks known (Nat.le_max_right ..) (Nat.min_le_right ..))
    rw [partsFrom_succ read rows known (Nat.le_trans forward stop) stop, List.flatMap_append, bytes_part read known]
    by_cases ended : b ≤ f.rowStop row
    · rw [if_pos ended, List.flatMap_nil, List.append_nil, ← plain, Nat.min_eq_left ended]
    · have more : row < f.lineBreaks.length := by
        by_contra last
        rw [SourceFile.IsRead.rowStop_last (Nat.le_of_not_lt last)] at ended
        exact ended stop
      have next := SourceFile.IsRead.rowStart_succ more
      rw [if_neg ended, @ih (row + 1) (by omega) more (by omega), next, Nat.min_eq_right (Nat.le_of_not_le ended)]
      rw [Nat.min_eq_right (Nat.le_of_not_le ended)] at plain
      rcases Nat.lt_or_ge (f.rowStop row) a with behind | here
      · -- The mark starts on a later row.
        have nothing : f.bytesBetween (max a (f.rowStart row)) (f.rowStop row) = [] := by
          rw [SourceFile.bytesBetween, Nat.sub_eq_zero_of_le (by omega), List.take_zero]
        rw [nothing, List.nil_append, Nat.max_eq_left behind, Nat.max_eq_left (by omega)]
      · have split : f.bytesBetween (max a (f.rowStart row)) b =
            f.bytesBetween (max a (f.rowStart row)) (f.rowStop row) ++ 0x0A :: f.bytesBetween (f.rowStop row + 1) b := by
          rw [← f.bytesBetween_append (b := f.rowStop row) (by omega) (by omega),
            ← f.bytesBetween_append (a := f.rowStop row) (Nat.le_succ _) (Nat.lt_of_not_le ended),
            read.bytesBetween_rowStop more]
          rfl
        rw [split, List.filter_append, plain, Nat.max_eq_right (Nat.le_succ_of_le here)]
        rfl

/-! ## Whole marks -/

/-- A mark that ends on its row stays; any other is cut from its own row on. -/
theorem splitMark_eq (read : f.IsRead) (stands : m.StandsIn f) :
    splitMark f m =
      if f.offset m.start + m.length.toNat ≤ f.rowStop m.row.toNat then [m]
      else partsFrom f m (.ofNat (f.offset m.start)) (.ofNat (f.offset m.start + m.length.toNat))
        (f.lineCount - m.row.toNat) m.row.toNat := by
  have known : m.row.toNat ≤ f.lineBreaks.length := Nat.le_of_lt_succ stands.point.row
  have place := (read.offset_of_hasPoint stands.point).1
  have inside := stands.inside
  have start : UInt32.ofNat (f.rowStart m.row.toNat) + m.column = .ofNat (f.offset m.start) := by
    rw [place, UInt32.ofNat_add, UInt32.ofNat_toNat]
    rfl
  have stop : UInt32.ofNat (f.offset m.start) + m.length = .ofNat (f.offset m.start + m.length.toNat) := by
    rw [UInt32.ofNat_add, UInt32.ofNat_toNat]
  unfold splitMark
  rw [SourceFile.IsRead.lineBounds_eq known]
  dsimp only
  rw [start, stop]
  simp only [UInt32.le_iff_toNat_le, read.toNat_offset inside, read.toNat_offset read.rowStop_le_size]

/-- A mark on a single row stays as it is. -/
theorem splitMark_of_on (read : f.IsRead) (on : On f m a b) : splitMark f m = [m] := by
  have point : f.HasPoint m.start :=
    ⟨Nat.lt_succ_of_le on.known, Nat.le_trans (Nat.le_add_right ..) (on.fits read)⟩
  have inside : f.offset m.start + m.length.toNat ≤ f.rowStop m.row.toNat := by
    rw [on.offset read, on.length]
    exact on.inside
  rw [splitMark_eq read ⟨point, Nat.le_trans inside read.rowStop_le_size⟩, if_pos inside]

theorem On.isSplitInto (on : On f m a b) (read : f.IsRead)
    (breaks : f.lineBreaks = SourceFile.lineBreaksFrom 0 f.content) : m.IsSplitInto f [m] where
  alike := by simp
  known := fun p member => List.mem_singleton.mp member ▸ Nat.lt_succ_of_le on.known
  onRow := by simpa using on.fits read
  within := by simp
  bytes := by
    have low : f.rowStart m.row.toNat ≤ a := Nat.le.intro on.place
    have plain := read.ne_feed_of_mem_row breaks on.known low on.inside
    rw [List.flatMap_singleton, on.bytes read, List.filter_eq_self.mpr (by simpa using plain)]
  rising := List.pairwise_singleton ..
  filled := by simp

/-- The parts that a mark is replaced by. -/
theorem isSplitInto_splitMark (read : f.IsRead) (breaks : f.lineBreaks = SourceFile.lineBreaksFrom 0 f.content)
    (stands : m.StandsIn f) : m.IsSplitInto f (splitMark f m) := by
  have known : m.row.toNat ≤ f.lineBreaks.length := Nat.le_of_lt_succ stands.point.row
  obtain ⟨place, -⟩ := read.offset_of_hasPoint stands.point
  have stop := stands.inside
  have forward := Nat.le_add_right (f.offset m.start) m.length.toNat
  have start := Nat.le_trans forward stop
  have left : m.row.toNat + (f.lineCount - m.row.toNat) = f.lineCount := Nat.add_sub_cancel' (Nat.le_succ_of_le known)
  have low : f.rowStart m.row.toNat ≤ f.offset m.start := Nat.le.intro place.symm
  rw [splitMark_eq read stands]
  split
  · rename_i ends
    exact (stands.on read ends).isSplitInto read breaks
  · have parts {p : Mark} := @exists_of_mem_partsFrom f m _ _ _ read start stop _ p left
    constructor
    · intro p member
      obtain ⟨r, -, -, -, rfl⟩ := parts member
      exact ⟨rfl, rfl⟩
    · intro p member
      obtain ⟨r, -, knownR, covers, rfl⟩ := parts member
      exact Nat.lt_succ_of_le (on_partOn read knownR covers).known
    · intro p member
      obtain ⟨r, -, knownR, covers, rfl⟩ := parts member
      exact (on_partOn read knownR covers).fits read
    · intro p member
      obtain ⟨r, -, knownR, covers, rfl⟩ := parts member
      have on := on_partOn (m := m) read knownR covers
      rw [on.offset read, on.length]
      exact ⟨Nat.le_max_left .., Nat.min_le_left ..⟩
    · rw [bytes_partsFrom read breaks forward stop _ left known (Nat.le_trans low forward), Nat.max_eq_left low]
      rfl
    · exact rising_partsFrom read start stop _ left
    · intro _ p member
      obtain ⟨r, -, -, covers, rfl⟩ := parts member
      exact partOn_filled read covers

/-- A mark that fits into a row of the file stays. -/
theorem Mark.IsSplitInto.splitMark_part (read : f.IsRead) {parts : List Mark} (split : m.IsSplitInto f parts) {p : Mark}
    (member : p ∈ parts) : splitMark f p = [p] := by
  have known : p.row.toNat ≤ f.lineBreaks.length := Nat.le_of_lt_succ (split.known p member)
  have fits := split.onRow p member
  have forward := read.rowStart_le_rowStop known
  rw [read.length_line known] at fits
  exact splitMark_of_on read ⟨known, rfl, rfl, by omega⟩

/-- Cutting marks at line ends replaces each of them, in order, by its parts on the rows, with all its bytes but the
line feeds; the parts are not cut again. -/
theorem splitLines_parts (path text : Bytes) (isVirtual : Bool)
    (small : (SourceFile.ofBytes path text isVirtual).size < 2 ^ 32) (ms : List Mark) :
    let f := SourceFile.ofBytes path text isVirtual
    (∀ m ∈ ms, m.StandsIn f) →
      (∃ parts : List (List Mark), splitLines f ms = parts.flatten ∧ List.Forall₂ (Mark.IsSplitInto f) ms parts) ∧
        splitLines f (splitLines f ms) = splitLines f ms := by
  intro f stand
  have read : f.IsRead := SourceFile.isRead_ofBytes small
  have split (m : Mark) (member : m ∈ ms) : m.IsSplitInto f (splitMark f m) :=
    isSplitInto_splitMark read rfl (stand m member)
  refine ⟨⟨ms.map (splitMark f), List.flatMap_def .., ?_⟩, ?_⟩
  · rw [List.forall₂_map_right_iff, List.forall₂_same]
    exact split
  · rw [splitLines, splitLines, List.flatMap_assoc]
    refine List.flatMap_congr fun m member => ?_
    have stay : (splitMark f m).flatMap (splitMark f) = (splitMark f m).flatMap fun p => [p] :=
      List.flatMap_congr fun p part => (split m member).splitMark_part read part
    rw [stay, List.flatMap_singleton']

/-- A comment over an empty row, in front of a last row without line feed. -/
def sampleTall : Bytes := Bytes.ofString "if /*é\n\n*/ let"

theorem splitLines_parts_sampleTall :
    let f := SourceFile.ofBytes [] sampleTall true
    let m : Mark := ⟨0, 3, 8, Kind.comment.toWord, 0⟩
    f.size < 2 ^ 32 ∧ m.StandsIn f ∧ splitLines f [m] = [{ m with length := 4 }, ⟨2, 0, 2, m.kind, 0⟩] ∧
      splitLines f (splitLines f [m]) = splitLines f [m] := by
  intro f m
  have small : f.size < 2 ^ 32 := by decide +kernel
  have stands : m.StandsIn f := ⟨⟨by decide +kernel, by decide +kernel⟩, by decide +kernel⟩
  refine ⟨small, stands, by decide +kernel, (splitLines_parts [] sampleTall true small [m] ?_).2⟩
  simpa using stands

end

/-! ## The words of a mark -/

/-- The difference of two rows is zero on the same row only. The encoder compares the rows and the decoder looks at
their difference. -/
theorem difference_eq_zero {a b : UInt32} : a - b = 0 ↔ a = b := by
  constructor
  · intro zero
    rw [← UInt32.sub_add_cancel a b, zero, UInt32.zero_add]
  · rintro rfl
    exact UInt32.sub_self a

/-- The words of a mark are read as this mark. -/
theorem decodeFrom_encodeAfter (previous m : Mark) (rest : List UInt32) :
    decodeFrom previous (encodeAfter previous m ++ rest) = (decodeFrom m rest).map (m :: ·) := by
  have row : m.row - previous.row + previous.row = m.row := UInt32.sub_add_cancel ..
  have column : (if m.row - previous.row = 0
        then (if m.row = previous.row then m.column - previous.column else m.column) + previous.column
        else if m.row = previous.row then m.column - previous.column else m.column) = m.column := by
    by_cases sameRow : m.row = previous.row
    · rw [if_pos (difference_eq_zero.2 sameRow), if_pos sameRow, UInt32.sub_add_cancel]
    · rw [if_neg (mt difference_eq_zero.1 sameRow), if_neg sameRow]
  simp only [encodeAfter, List.cons_append, List.nil_append, decodeFrom, row, column]

/-- A mark that is read from five words has these words. -/
theorem encodeAfter_eq (previous : Mark) (row column length kind modifiers : UInt32) :
    encodeAfter previous
        { row := row + previous.row
          column := if row = 0 then column + previous.column else column
          length, kind, modifiers } = [row, column, length, kind, modifiers] := by
  have row_eq : row + previous.row - previous.row = row := UInt32.add_sub_cancel ..
  have sameRow : row + previous.row = previous.row ↔ row = 0 := by
    rw [← difference_eq_zero, row_eq]
  have column_eq : (if row + previous.row = previous.row
        then (if row = 0 then column + previous.column else column) - previous.column
        else if row = 0 then column + previous.column else column) = column := by
    by_cases zero : row = 0
    · rw [if_pos (sameRow.2 zero), if_pos zero, UInt32.add_sub_cancel]
    · rw [if_neg (mt sameRow.1 zero), if_neg zero]
  simp only [encodeAfter, row_eq, column_eq]

/-! ## The words of all marks -/

theorem decodeFrom_encodeFrom (previous : Mark) (ms : List Mark) :
    decodeFrom previous (encodeFrom previous ms) = some ms := by
  induction ms generalizing previous with
  | nil => rfl
  | cons m rest ih => rw [encodeFrom, decodeFrom_encodeAfter, ih, Option.map_some]

theorem encodeFrom_decodeFrom (previous : Mark) :
    ∀ {words : List UInt32} {ms : List Mark}, decodeFrom previous words = some ms → encodeFrom previous ms = words
  | [], ms, reads => by
    obtain rfl : [] = ms := Option.some.inj reads
    rfl
  | row :: column :: length :: kind :: modifiers :: rest, ms, reads => by
    obtain ⟨later, readsRest, rfl⟩ := Option.map_eq_some_iff.1 reads
    rw [encodeFrom, encodeAfter_eq, encodeFrom_decodeFrom _ readsRest]
    rfl

/-- Words are marks exactly when they come in fives. -/
theorem isSome_decodeFrom (previous : Mark) :
    ∀ words : List UInt32, (decodeFrom previous words).isSome ↔ 5 ∣ words.length
  | [] => by simp [decodeFrom]
  | [_] | [_, _] | [_, _, _] | [_, _, _, _] => by simp [decodeFrom]
  | row :: column :: length :: kind :: modifiers :: rest => by
    have fives : 5 ∣ rest.length + 5 ↔ 5 ∣ rest.length := Nat.dvd_add_left (Nat.dvd_refl 5)
    rw [decodeFrom, Option.isSome_map, isSome_decodeFrom _ rest]
    exact fives.symm

/-- Encoding and decoding are inverse to each other: marks are read back as they were, words that come in fives are
written back as they were, and all other words are refused with their number. -/
theorem encode_decode_bijection :
    (∀ ms : List Mark, decode (encode ms) = .ok ms) ∧
      ∀ words : List UInt32,
        (¬5 ∣ words.length → decode words = .error ⟨words.length⟩) ∧
          (5 ∣ words.length → ∃ ms, decode words = .ok ms ∧ encode ms = words) := by
  refine ⟨fun ms => ?_, fun words => ⟨fun odd => ?_, fun fives => ?_⟩⟩
  · rw [decode, encode, decodeFrom_encodeFrom]
  · rw [decode, Option.not_isSome_iff_eq_none.1 (mt (isSome_decodeFrom {} words).1 odd)]
  · obtain ⟨ms, reads⟩ := Option.isSome_iff_exists.1 ((isSome_decodeFrom {} words).2 fives)
    exact ⟨ms, by rw [decode, reads], encodeFrom_decodeFrom _ reads⟩

end SecurityRules.Highlight
