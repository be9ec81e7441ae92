import Mathlib.Data.List.TakeWhile
import SecurityRules.Proofs.Edit.Positions
import SecurityRules.Proofs.Outline.Ranges
import SecurityRules.Proofs.Text.Utf16

/-!
# Edits as an editor sees them

An editor replaces the units between two positions of its text. An edit does the same to the bytes: a position that
exists is found at the boundary with as many units in front of it, and any other position is moved to a boundary, so
that no edit cuts a character.
-/

namespace SecurityRules

open Utf8 (Boundary IsValid)
open SourceFile (unitsOf bytesOfUnits)

namespace EditorPosition

variable {p q : EditorPosition} {text : Bytes} {units line : List UInt16} {row : Nat}

/-! ## Positions in UTF-16 units -/

/-- Whether a position is one in a text of units: its line is there, its character is at most the end of the line, and
it does not stand inside a pair. -/
def IsIn (p : EditorPosition) (units : List UInt16) : Prop :=
  ∃ line ∈ (units.splitOn 0x0A)[p.line.toNat]?, p.character.toNat ≤ line.length ∧
    Utf16.splitsPair line p.character.toNat = false

instance (p : EditorPosition) (units : List UInt16) : Decidable (p.IsIn units) :=
  inferInstanceAs (Decidable (∃ line ∈ (units.splitOn 0x0A)[p.line.toNat]?, _))

/-- The number of units in front of a position: the lines before it with their line feeds, and its character. -/
def index (p : EditorPosition) (units : List UInt16) : Nat :=
  (((units.splitOn 0x0A).take p.line.toNat).map (·.length + 1)).sum + p.character.toNat

/-- A position that does not stand behind another one has no more units in front of it. -/
theorem index_le (upTo : p.IsUpTo q) (first : p.IsIn units) : p.index units ≤ q.index units := by
  obtain ⟨line, found, inside, -⟩ := first
  rw [Option.mem_def] at found
  unfold index
  rcases upTo with less | ⟨same, le⟩
  · rw [UInt32.lt_iff_toNat_lt] at less
    obtain ⟨more, far⟩ := Nat.exists_eq_add_of_lt less
    rw [far, Nat.add_right_comm, List.take_add, List.take_add_one, found]
    simp only [Option.toList_some, List.map_append, List.sum_append, List.map_cons, List.map_nil, List.sum_cons,
      List.sum_nil]
    omega
  · rw [UInt32.le_iff_toNat_le] at le
    rw [same]
    omega

/-! ## Positions in bytes -/

/-- A line starts at a boundary. -/
theorem boundary_of_fromLine? {rest : Bytes} (found : fromLine? row text = some rest) :
    ∃ n, Boundary text n ∧ rest = text.drop n := by
  induction row generalizing text with
  | zero =>
    rw [fromLine?] at found
    exact ⟨0, .zero _, (Option.some.inj found).symm⟩
  | succ row ih =>
    rw [SourceFile.fromLine?_succ] at found
    rcases Bytes.cut?_cases 0x0A text with ⟨-, uncut⟩ | ⟨left, right, rfl, -, cut⟩
    · rw [uncut] at found
      cases found
    · rw [cut] at found
      obtain ⟨n, here, rfl⟩ := ih found
      have first : Boundary (left ++ 0x0A :: right) (left.length + 1) := .behind_isAscii (b := 0x0A) (by simp) rfl
      have behind : (left ++ 0x0A :: right).drop (left.length + 1) = right := by simp
      refine ⟨left.length + 1 + n, first.trans (behind.symm ▸ here), ?_⟩
      rw [← List.drop_drop, behind]

/-- A boundary of the first line of a text is one of the text, with the same part of it in front. -/
theorem boundary_of_line {k : Nat} (here : Boundary (text.takeWhile (· != 0x0A)) k) :
    Boundary text k ∧ text.take k = (text.takeWhile (· != 0x0A)).take k := by
  have split := List.takeWhile_append_dropWhile (p := (· != 0x0A)) (l := text)
  have starts : ∀ c ∈ (text.dropWhile (· != 0x0A)).head?, Utf8.isContinuation c = false := by
    intro c head
    have feed := List.head?_dropWhile_not (· != (0x0A : UInt8)) text
    rw [Option.mem_def.mp head] at feed
    have feed : c = 0x0A := by simpa using feed
    rw [feed]
    rfl
  constructor
  · have whole := here.append (.inr starts)
    rwa [split] at whole
  · conv_lhs => rw [← split, List.take_append_of_le_length here.le_length]

theorem offset_of_fromLine? {n : Nat} (found : fromLine? p.line.toNat text = some (text.drop n))
    (inside : n ≤ text.length) :
    p.offset text = n + bytesOfUnits p.character.toNat (Utf8.decodeAll ((text.drop n).takeWhile (· != 0x0A))) := by
  rw [SourceFile.offset_of_line rfl found, List.length_drop, Nat.sub_sub_self inside]

/-- Every position is moved to a boundary. -/
theorem boundary_offset (p : EditorPosition) (text : Bytes) : Boundary text (p.offset text) := by
  cases found : fromLine? p.line.toNat text with
  | none =>
    rw [offset, found]
    exact .length text
  | some rest =>
    obtain ⟨n, here, rfl⟩ := boundary_of_fromLine? found
    rw [offset_of_fromLine? found here.le_length]
    exact here.trans (boundary_of_line (SourceFile.boundary_bytesOfUnits _ _).1).1

/-- A line of the units is that of the text, with the same units in front of it. -/
theorem fromLine?_of_splitOn (known : ((Utf16.ofBytes text).splitOn 0x0A)[row]? = some line) :
    ∃ rest, fromLine? row text = some rest ∧ Utf16.ofBytes (rest.takeWhile (· != 0x0A)) = line ∧
      unitsOf text = ((((Utf16.ofBytes text).splitOn 0x0A).take row).map (·.length + 1)).sum + unitsOf rest := by
  induction row generalizing text with
  | zero =>
    refine ⟨text, rfl, ?_, by simp⟩
    rcases Bytes.cut?_cases 0x0A text with ⟨plain, -⟩ | ⟨left, right, rfl, plain, -⟩
    · rw [List.splitOn_eq_singleton (Utf16.feed_notMem_ofBytes plain)] at known
      have whole : text.takeWhile (· != 0x0A) = text :=
        List.takeWhile_eq_self_iff.mpr fun b member => by simpa using ne_of_mem_of_not_mem member plain
      rw [whole]
      exact Option.some.inj known
    · rw [Utf16.ofBytes_feed, List.splitOn_append_cons_self_of_not_mem (Utf16.feed_notMem_ofBytes plain)] at known
      have front : (left ++ 0x0A :: right).takeWhile (· != 0x0A) = left := by
        rw [List.takeWhile_append_of_pos fun b member => by simpa using ne_of_mem_of_not_mem member plain]
        simp
      rw [front]
      exact Option.some.inj known
  | succ row ih =>
    rcases Bytes.cut?_cases 0x0A text with ⟨plain, -⟩ | ⟨left, right, rfl, plain, cut⟩
    · rw [List.splitOn_eq_singleton (Utf16.feed_notMem_ofBytes plain)] at known
      simp at known
    · have lines := List.splitOn_append_cons_self_of_not_mem (Utf16.feed_notMem_ofBytes plain) (Utf16.ofBytes right)
      rw [← Utf16.ofBytes_feed] at lines
      rw [lines, List.getElem?_cons_succ] at known
      obtain ⟨rest, found, same, units⟩ := ih known
      refine ⟨rest, ?_, same, ?_⟩
      · rw [SourceFile.fromLine?_succ, cut]
        exact found
      · rw [lines, List.take_succ_cons, List.map_cons, List.sum_cons, ← Utf16.length_ofBytes, Utf16.ofBytes_feed,
          List.length_append, List.length_cons, Utf16.length_ofBytes right, units]
        omega

/-- A position of the units is found where as many units are in front of it. -/
theorem unitsOf_take_offset (inside : p.IsIn (Utf16.ofBytes text)) :
    unitsOf (text.take (p.offset text)) = p.index (Utf16.ofBytes text) := by
  obtain ⟨line, known, inside, whole⟩ := inside
  obtain ⟨rest, found, rfl, units⟩ := fromLine?_of_splitOn known
  obtain ⟨n, here, rfl⟩ := boundary_of_fromLine? found
  obtain ⟨k, boundary, counted⟩ := Utf16.exists_boundary inside whole
  have place : p.offset text = n + k := by
    rw [offset_of_fromLine? found here.le_length, ← counted, SourceFile.bytesOfUnits_unitsOf boundary]
  have column := (boundary_of_line boundary).2
  have cut := SourceFile.unitsOf_append (here.take (Nat.le_add_right n k))
  rw [List.take_take, Nat.min_eq_left (Nat.le_add_right n k), List.drop_take, Nat.add_sub_cancel_left, column,
    counted] at cut
  have before := SourceFile.unitsOf_append here
  rw [place, cut, index]
  omega

theorem offset_le (upTo : p.IsUpTo q) (first : p.IsIn (Utf16.ofBytes text)) (second : q.IsIn (Utf16.ofBytes text)) :
    p.offset text ≤ q.offset text := by
  by_contra behind
  have fewer := SourceFile.unitsOf_take_lt (boundary_offset q text) (Nat.lt_of_not_le behind)
    (boundary_offset p text).le_length
  rw [unitsOf_take_offset first, unitsOf_take_offset second] at fewer
  exact absurd (index_le upTo first) (Nat.not_le.mpr fewer)

end EditorPosition

namespace Edit

/-- An edit puts its text in the place of whole characters. -/
theorem exists_splice (text : Bytes) (e : Edit) : ∃ i j, i ≤ j ∧ j ≤ text.length ∧ Boundary text i ∧ Boundary text j ∧
    apply text e = text.take i ++ e.text ++ text.drop j := by
  unfold apply
  split
  · exact ⟨0, text.length, Nat.zero_le _, Nat.le_refl _, .zero _, .length _, by simp⟩
  · rename_i range found
    have start := range.start.boundary_offset text
    have stop := range.stop.boundary_offset text
    have last : Boundary text (max (range.stop.offset text) (range.start.offset text)) := by
      rcases Nat.le_total (range.stop.offset text) (range.start.offset text) with le | le
      · rwa [Nat.max_eq_right le]
      · rwa [Nat.max_eq_left le]
    exact ⟨_, _, Nat.le_max_right _ _, last.le_length, start, last, rfl⟩

theorem isValid_apply {text : Bytes} {e : Edit} (valid : IsValid text) (inserted : IsValid e.text) :
    IsValid (apply text e) := by
  obtain ⟨i, j, -, -, first, last, spliced⟩ := exists_splice text e
  rw [spliced]
  exact ((valid.take first).append inserted).append (valid.drop last)

theorem isValid_applyAll {text : Bytes} {edits : List Edit} (valid : IsValid text)
    (inserted : ∀ e ∈ edits, IsValid e.text) : IsValid (applyAll text edits) := by
  induction edits generalizing text with
  | nil => exact valid
  | cons e rest ih =>
    exact ih (isValid_apply valid (inserted e (List.mem_cons_self ..)))
      fun later member => inserted later (List.mem_cons_of_mem e member)

/-- Between positions that exist the units of the text are replaced by those of the edit. -/
theorem ofBytes_apply {text inserted : Bytes} {start stop : EditorPosition} (valid : IsValid text)
    (first : start.IsIn (Utf16.ofBytes text)) (last : stop.IsIn (Utf16.ofBytes text)) (ordered : start.IsUpTo stop) :
    Utf16.ofBytes (apply text ⟨some ⟨start, stop⟩, inserted⟩) =
      (Utf16.ofBytes text).take (start.index (Utf16.ofBytes text)) ++ Utf16.ofBytes inserted ++
        (Utf16.ofBytes text).drop (stop.index (Utf16.ofBytes text)) := by
  have here := start.boundary_offset text
  have there := stop.boundary_offset text
  have shape : apply text ⟨some ⟨start, stop⟩, inserted⟩ =
      text.take (start.offset text) ++ inserted ++ text.drop (stop.offset text) := by
    simp only [apply, Nat.max_eq_left (EditorPosition.offset_le ordered first last)]
  rw [shape, List.append_assoc, Utf16.ofBytes_append (.inl (valid.take here)),
    Utf16.ofBytes_append (.inr (valid.drop there).starts), ← Utf16.take_ofBytes here, ← Utf16.drop_ofBytes there,
    EditorPosition.unitsOf_take_offset first, EditorPosition.unitsOf_take_offset last, List.append_assoc]

/-- A change between positions that exist replaces the units between them. Whatever positions changes name, each of them
puts its text in the place of whole characters, and a well-formed text stays one. -/
theorem applyAll_splices :
    (∀ (text inserted : Bytes) (start stop : EditorPosition), IsValid text →
      let units := Utf16.ofBytes text
      start.IsIn units → stop.IsIn units → start.IsUpTo stop →
        Utf16.ofBytes (applyAll text [⟨some ⟨start, stop⟩, inserted⟩]) =
          units.take (start.index units) ++ Utf16.ofBytes inserted ++ units.drop (stop.index units)) ∧
      (∀ (text : Bytes) (before : List Edit) (e : Edit),
        let now := applyAll text before
        ∃ i j, i ≤ j ∧ j ≤ now.length ∧ Boundary now i ∧ Boundary now j ∧
          applyAll text (before ++ [e]) = now.take i ++ e.text ++ now.drop j) ∧
      ∀ (text : Bytes) (edits : List Edit), IsValid text → (∀ e ∈ edits, IsValid e.text) →
        IsValid (applyAll text edits) := by
  refine ⟨fun text inserted start stop valid first last ordered => ofBytes_apply valid first last ordered,
    fun text before e => ?_, fun text edits valid inserted => isValid_applyAll valid inserted⟩
  intro now
  have step : applyAll text (before ++ [e]) = apply now e := by simp [now, applyAll]
  rw [step]
  exact exists_splice now e

/-- A line with a character of two units, and an empty line behind it. -/
def sampleSurrogates : Bytes := Bytes.ofString "a\n😀é\n"

theorem applyAll_splices_sampleSurrogates :
    let units := Utf16.ofBytes sampleSurrogates
    let inserted := Bytes.ofString "😀x"
    IsValid sampleSurrogates ∧ IsValid inserted ∧ EditorPosition.IsIn ⟨1, 2⟩ units ∧ EditorPosition.IsIn ⟨2, 0⟩ units ∧
      ¬EditorPosition.IsIn ⟨1, 1⟩ units ∧ EditorPosition.IsUpTo ⟨1, 2⟩ ⟨2, 0⟩ ∧
      Utf16.ofBytes (applyAll sampleSurrogates [⟨some ⟨⟨1, 2⟩, ⟨2, 0⟩⟩, inserted⟩]) =
        units.take 4 ++ Utf16.ofBytes inserted ++ units.drop 6 ∧
      IsValid (applyAll sampleSurrogates [⟨some ⟨⟨1, 1⟩, ⟨0, 9⟩⟩, inserted⟩]) := by
  intro units inserted
  have valid : IsValid sampleSurrogates := by decide +kernel
  have insertedValid : IsValid inserted := by decide +kernel
  have first : EditorPosition.IsIn ⟨1, 2⟩ units := by decide +kernel
  have last : EditorPosition.IsIn ⟨2, 0⟩ units := by decide +kernel
  have inside : ¬EditorPosition.IsIn ⟨1, 1⟩ units := by decide +kernel
  have ordered : EditorPosition.IsUpTo ⟨1, 2⟩ ⟨2, 0⟩ := .inl (by decide)
  have places : EditorPosition.index ⟨1, 2⟩ units = 4 ∧ EditorPosition.index ⟨2, 0⟩ units = 6 := by decide +kernel
  obtain ⟨splices, -, stays⟩ := applyAll_splices
  have spliced := splices sampleSurrogates inserted ⟨1, 2⟩ ⟨2, 0⟩ valid first last ordered
  rw [places.1, places.2] at spliced
  refine ⟨valid, insertedValid, first, last, inside, ordered, spliced, stays _ _ valid fun e member => ?_⟩
  rw [List.mem_singleton.mp member]
  exact insertedValid

end Edit

end SecurityRules
