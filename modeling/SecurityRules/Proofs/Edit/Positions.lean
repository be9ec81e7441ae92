import SecurityRules.Edit
import SecurityRules.Proofs.SourceFile.Positions
import SecurityRules.Proofs.Text.Fields
import SecurityRules.Proofs.Text.LineEnds
import SecurityRules.Server.Reply

/-!
# Positions of the file in the text of the editor

An editor keeps its text with the line ends and the byte order mark that it has, while positions are computed in the
file made of it. A position finds its character in the raw text again, except on the first row behind a byte order mark:
there the mark is counted as a unit.

The position of an edit is found by going through the lines of a text, that of a query by the line breaks of a file. In
the content of a file both come to the same offset: the lines of the text are the rows of the file, and where a line or
a column does not exist both stop at the end of what is there. In a row the one counts on as long as the next character
fits, the other, in machine words, as long as the column is not reached; each takes the longest run of characters whose
units fit.
-/

namespace SecurityRules

open Utf8 (Boundary)

namespace SourceFile

variable {s : Bytes} {n m : Nat}

/-! ## Lines -/

theorem lineBreaksFrom_of_cut (offset : Nat) {text left right : Bytes}
    (cut : Bytes.cut? 0x0A text = some (left, right)) :
    lineBreaksFrom offset text = (offset + left.length) :: lineBreaksFrom (offset + left.length + 1) right := by
  induction text generalizing left offset with
  | nil => cases cut
  | cons b rest ih =>
    rw [Bytes.cut?] at cut
    rw [lineBreaksFrom]
    split at cut
    · rename_i feed
      cases cut
      rw [if_pos (beq_iff_eq.mpr feed)]
      rfl
    · rename_i other
      obtain ⟨⟨front, behind⟩, found, same⟩ := Option.map_eq_some_iff.mp cut
      cases same
      rw [if_neg (fun feed => other (beq_iff_eq.mp feed)), ih (offset + 1) found, List.length_cons,
        Nat.add_assoc offset 1, Nat.add_comm 1]

theorem lineBreaksFrom_of_uncut (offset : Nat) {text : Bytes} (uncut : Bytes.cut? 0x0A text = none) :
    lineBreaksFrom offset text = [] := by
  induction text generalizing offset with
  | nil => rfl
  | cons b rest ih =>
    rw [Bytes.cut?] at uncut
    rw [lineBreaksFrom]
    split at uncut
    · cases uncut
    · rename_i other
      rw [if_neg (fun feed => other (beq_iff_eq.mp feed))]
      exact ih (offset + 1) (Option.map_eq_none_iff.mp uncut)

open EditorPosition (fromLine? afterLineFeed?)

theorem fromLine?_succ (row : Nat) (text : Bytes) :
    fromLine? (row + 1) text = (Bytes.cut? 0x0A text).bind fun pieces => fromLine? row pieces.2 := by
  rw [fromLine?, afterLineFeed?]
  cases Bytes.cut? 0x0A text <;> rfl

/-- The first line break of a file belongs to the first of the raw text. -/
theorem cut?_joinCrLf {left right : Bytes} (cut : Bytes.cut? 0x0A (joinCrLf s) = some (left, right)) :
    ∃ left', Bytes.cut? 0x0A s = some (left', s.drop (rawOffset s (left.length + 1))) := by
  induction s using lineEnd_induct generalizing left with
  | nil => cases cut
  | pair rest ih =>
    rw [joinCrLf_pair] at cut
    cases cut
    exact ⟨[0x0D], by simp [Bytes.cut?]⟩
  | single b rest single ih =>
    rw [joinCrLf_single single, Bytes.cut?] at cut
    rw [Bytes.cut?]
    split at cut
    · rename_i feed
      cases cut
      rw [if_pos feed, List.length_nil, rawOffset_single single, rawOffset_zero]
      exact ⟨[], rfl⟩
    · rename_i other
      obtain ⟨⟨front, behind⟩, found, same⟩ := Option.map_eq_some_iff.mp cut
      cases same
      obtain ⟨left', found'⟩ := ih found
      rw [if_neg other, found', List.length_cons, rawOffset_single single, Nat.add_comm 1 (rawOffset _ _),
        List.drop_succ_cons]
      exact ⟨b :: left', rfl⟩

/-- The raw text of a line starts at the offset that belongs to the one behind the line break before it. -/
theorem fromLine?_lineBreaks (offset : Nat) {row : Nat} (known : row ≤ (lineBreaksFrom offset (joinCrLf s)).length) :
    ∃ start, fromLine? row s = some (s.drop (rawOffset s start)) ∧ (row = 0 → start = 0) ∧
      ∀ before n, row = before + 1 → (lineBreaksFrom offset (joinCrLf s))[before]? = some n →
        offset + start = n + 1 := by
  induction row generalizing offset s with
  | zero =>
    refine ⟨0, ?_, fun _ => rfl, fun _ _ impossible => by cases impossible⟩
    rw [rawOffset_zero]
    rfl
  | succ row ih =>
    cases cut : Bytes.cut? 0x0A (joinCrLf s) with
    | none =>
      rw [lineBreaksFrom_of_uncut offset cut] at known
      cases known
    | some pieces =>
      obtain ⟨left, right⟩ := pieces
      obtain ⟨left', cut'⟩ := cut?_joinCrLf cut
      have breaks := lineBreaksFrom_of_cut offset cut
      have behind : joinCrLf (s.drop (rawOffset s (left.length + 1))) = right := by
        rw [joinCrLf_drop, (Bytes.eq_of_cut? cut).1, ← List.drop_drop, List.drop_left]
        rfl
      rw [breaks, List.length_cons, ← behind] at known
      obtain ⟨start, found, first, later⟩ := ih (offset + left.length + 1) (Nat.le_of_succ_le_succ known)
      refine ⟨left.length + 1 + start, ?_, fun impossible => (by cases impossible), ?_⟩
      · rw [fromLine?_succ, cut', Option.bind_some, found, List.drop_drop,
          rawOffset_add s (left.length + 1) start]
      · rintro before n same place
        obtain rfl := Nat.succ.inj same
        rw [breaks] at place
        cases row with
        | zero =>
          cases place
          rw [first rfl]
          omega
        | succ row =>
          rw [← behind] at place
          have := later row n rfl place
          omega

variable {f : SourceFile} {row : Nat}

/-- The raw text of a row starts at the offset that belongs to the start of the row. -/
theorem fromLine?_rowStart (content : f.content = joinCrLf s) (breaks : f.lineBreaks = lineBreaksFrom 0 f.content)
    (known : row ≤ f.lineBreaks.length) : fromLine? row s = some (s.drop (rawOffset s (f.rowStart row))) := by
  rw [breaks, content] at known
  obtain ⟨start, found, first, later⟩ := fromLine?_lineBreaks 0 known
  have same : start = f.rowStart row := by
    cases row with
    | zero => exact first rfl
    | succ row =>
      have here := List.getElem?_eq_getElem known
      have := later row _ rfl here
      rw [rowStart, breaks, content, here]
      simpa using this
  rw [← same]
  exact found

/-- A boundary in the first line of a text is one of that line. -/
theorem boundary_takeWhile (here : Boundary s n) (plain : ∀ b ∈ s.take n, b ≠ 0x0A) :
    Boundary (s.takeWhile (· != 0x0A)) n ∧ (s.takeWhile (· != 0x0A)).take n = s.take n := by
  have whole : s.takeWhile (· != 0x0A) = s.take n ++ (s.drop n).takeWhile (· != 0x0A) := by
    conv_lhs => rw [← List.take_append_drop n s]
    exact List.takeWhile_append_of_pos (by simpa using plain)
  have length : (s.take n).length = n := List.length_take_of_le here.le_length
  have reached : n ≤ (s.takeWhile (· != 0x0A)).length := by
    rw [whole, List.length_append, length]
    exact Nat.le_add_right _ _
  constructor
  · rw [List.prefix_iff_eq_take.mp (List.takeWhile_prefix (· != 0x0A))]
    exact here.take reached
  · rw [whole, List.take_append_of_le_length (Nat.le_of_eq length.symm), List.take_take, Nat.min_self]

/-! ## Positions -/

/-- The position of an offset: its row, and the units between the start of the row and the offset. -/
theorem editorPosition_pointAt (read : f.IsRead) {o : Nat} (inside : o ≤ f.size) :
    (Server.editorPosition f (f.pointAt o)).line.toNat = f.rowOf o ∧
      (Server.editorPosition f (f.pointAt o)).character.toNat =
        unitsOf (f.bytesBetween (f.rowStart (f.rowOf o)) o) := by
  obtain ⟨row, column⟩ := pointAt_eq read.small inside
  have start := rowStart_rowOf_le (f := f) (a := o)
  have units := read.utf16Column_eq (p := f.pointAt o) (a := o) (row.symm ▸ f.rowOf_le o)
    (by rw [row, column, Nat.add_sub_cancel' start]) (by rw [row]; exact le_rowStop_rowOf inside)
  rw [row] at units
  rw [Server.editorPosition, units]
  exact ⟨row, read.toNat_units inside⟩

/-- The part of the raw line of an offset that lies in front of it. -/
theorem line_of_offset (read : f.IsRead) (content : f.content = joinCrLf s)
    (breaks : f.lineBreaks = lineBreaksFrom 0 f.content) {o : Nat} (here : Boundary f.content o) :
    let start := f.rowStart (f.rowOf o)
    let line := (s.drop (rawOffset s start)).takeWhile (· != 0x0A)
    Boundary line (o - start) ∧ unitsOf (line.take (o - start)) = unitsOf (f.bytesBetween start o) ∧
      rawOffset s o = rawOffset s start + (o - start) := by
  have inside : o ≤ f.size := here.le_length
  have start := rowStart_rowOf_le (f := f) (a := o)
  have split : f.rowStart (f.rowOf o) + (o - f.rowStart (f.rowOf o)) = o := Nat.add_sub_cancel' start
  have behind := joinCrLf_drop s (f.rowStart (f.rowOf o))
  rw [← content] at behind
  have known : o - f.rowStart (f.rowOf o) ≤ (f.content.drop (f.rowStart (f.rowOf o))).length := by
    rw [List.length_drop]
    exact Nat.sub_le_sub_right inside _
  have plain : ∀ b ∈ (f.content.drop (f.rowStart (f.rowOf o))).take (o - f.rowStart (f.rowOf o)), b ≠ 0x0A := by
    rintro b member rfl
    obtain ⟨n, less, same⟩ := List.getElem_of_mem member
    rw [List.length_take] at less
    have found := List.getElem?_eq_getElem (by rw [List.length_take]; exact less)
    rw [same, List.getElem?_take_of_lt (by omega), List.getElem?_drop] at found
    exact ne_feed_of_row read breaks inside (Nat.le_add_right _ n) (by omega) found
  rw [← behind] at known plain
  obtain ⟨place, taken⟩ := rawOffset_of_line known plain
  have there : Boundary (f.content.drop (f.rowStart (f.rowOf o))) (o - f.rowStart (f.rowOf o)) :=
    read.boundary_rowStart.drop (split.symm ▸ here)
  rw [← behind] at there
  have there := boundary_rawOffset there
  rw [place] at there
  rw [← taken] at plain
  obtain ⟨boundary, same⟩ := boundary_takeWhile there plain
  refine ⟨boundary, ?_, ?_⟩
  · rw [same, taken, behind]
    rfl
  · conv_lhs => rw [← split, rawOffset_add, place]

/-! ## Origins -/

/-- Whether a byte of a raw text is still there in the file made of it. -/
def stays (text : Bytes) (i : Nat) : Bool :=
  !((dropByteOrderMark text).2 && i < byteOrderMark.length) && isKept text i

/-- An offset of a raw text is that of the character at an offset of the file made of it, or both are the ends. -/
structure IsOrigin (text : Bytes) (i o : Nat) : Prop where
  counted : (List.range i).countP (stays text) = o
  stays : i < text.length → SourceFile.stays text i = true
  inside : i ≤ text.length

theorem IsOrigin.unique {text : Bytes} {i j o : Nat} (first : IsOrigin text i o) (second : IsOrigin text j o) :
    i = j := by
  have least {i j : Nat} (first : IsOrigin text i o) (second : IsOrigin text j o) : j ≤ i := by
    by_contra less
    have less : i < j := Nat.lt_of_not_le less
    have here := first.stays (Nat.lt_of_lt_of_le less second.inside)
    have more : (List.range (i + 1)).countP (SourceFile.stays text) ≤ (List.range j).countP (SourceFile.stays text) :=
      (List.range_sublist.mpr less).countP_le
    rw [List.range_succ, List.countP_append, List.countP_singleton, if_pos here, first.counted, second.counted] at more
    exact absurd more (Nat.not_succ_le_self o)
  exact Nat.le_antisymm (least second first) (least first second)

/-- The offset of a raw text that belongs to an offset of the file made of it. -/
def origin (text : Bytes) (o : Nat) : Nat :=
  (if (dropByteOrderMark text).2 then byteOrderMark.length else 0) + rawOffset (dropByteOrderMark text).1 o

/-- A raw text with a byte order mark, or one without. -/
theorem dropByteOrderMark_cases (text : Bytes) :
    (∃ rest, text = byteOrderMark ++ rest ∧ dropByteOrderMark text = (rest, true)) ∨
      dropByteOrderMark text = (text, false) := by
  rw [dropByteOrderMark, Bytes.after?]
  split
  · rename_i rest found
    split at found
    · rename_i marked
      cases found
      exact Or.inl ⟨_, List.prefix_iff_eq_append.mp (List.isPrefixOf_iff_prefix.mp marked) |>.symm, rfl⟩
    · cases found
  · exact Or.inr rfl

/-- Behind a byte order mark the bytes that stay are those that do without it. -/
theorem stays_marked {rest : Bytes} (marked : dropByteOrderMark (byteOrderMark ++ rest) = (rest, true)) (i : Nat) :
    stays (byteOrderMark ++ rest) (byteOrderMark.length + i) = isKept rest i := by
  rw [stays, marked, decide_eq_false (by omega), Nat.add_comm]
  exact (isKept_succ _ _ _).trans ((isKept_succ _ _ _).trans (isKept_succ _ _ _))

theorem isOrigin_origin {text : Bytes} {o : Nat} (inside : o ≤ (joinCrLf (dropByteOrderMark text).1).length)
    (other : (joinCrLf (dropByteOrderMark text).1)[o]? ≠ some 0x0A) : IsOrigin text (origin text o) o := by
  have kept := isKept_rawOffset other
  have counted := countP_rawOffset inside
  have reached := rawOffset_le_length (dropByteOrderMark text).1 o
  rcases dropByteOrderMark_cases text with ⟨rest, rfl, marked⟩ | unmarked
  · have mark : (List.range byteOrderMark.length).countP (stays (byteOrderMark ++ rest)) = 0 := by
      rw [List.countP_eq_zero]
      intro i member
      rw [stays, marked, decide_eq_true (List.mem_range.mp member)]
      exact Bool.false_ne_true
    have behind : stays (byteOrderMark ++ rest) ∘ (byteOrderMark.length + ·) = isKept rest :=
      funext (stays_marked marked)
    rw [marked] at kept counted reached
    rw [origin, marked, if_pos rfl]
    refine ⟨?_, fun _ => (stays_marked marked _).trans kept, ?_⟩
    · rw [List.range_add, List.countP_append, List.countP_map, mark, behind, counted, Nat.zero_add]
    · rw [List.length_append]
      exact Nat.add_le_add_left reached _
  · have same : stays text = isKept text := by
      funext i
      rw [stays, unmarked]
      rfl
    rw [unmarked] at kept counted reached
    rw [origin, unmarked, if_neg Bool.false_ne_true, Nat.zero_add]
    exact ⟨same ▸ counted, fun _ => same ▸ kept, reached⟩

/-- Line breaks are found again behind a byte order mark. -/
theorem fromLine?_marked (row : Nat) (rest : Bytes) :
    fromLine? (row + 1) (byteOrderMark ++ rest) = fromLine? (row + 1) rest := by
  rw [fromLine?_succ, fromLine?_succ]
  have cut : Bytes.cut? 0x0A (byteOrderMark ++ rest) =
      (Bytes.cut? 0x0A rest).map fun pieces => (byteOrderMark ++ pieces.1, pieces.2) := by
    simp [byteOrderMark, Bytes.cut?, Option.map_map, Function.comp_def]
  rw [cut, Option.bind_map]
  rfl

/-! ## Where a position of the file lies in the raw text -/

/-- The replacement of a malformed byte is one unit wide, like the byte. -/
theorem units_of_isMalformed {d : Utf8.Decoded} (malformed : Utf8.isMalformed d = true) : Utf8.units d.code = 1 := by
  rw [Utf8.isMalformed, Bool.and_eq_true, beq_iff_eq] at malformed
  rw [malformed.1]
  rfl

/-- Counting up to a character takes the characters that fit into what is left. -/
theorem bytesUpTo_eq {character units : Nat} {ds : List Utf8.Decoded} (inside : units ≤ character) :
    EditorPosition.bytesUpTo character units ds = bytesOfUnits (character - units) ds := by
  induction ds generalizing units with
  | nil => rfl
  | cons d rest ih =>
    have width : (if Utf8.isMalformed d then 1 else Utf8.units d.code) = Utf8.units d.code := by
      split
      · rename_i malformed
        exact (units_of_isMalformed malformed).symm
      · rfl
    rw [EditorPosition.bytesUpTo, width, bytesOfUnits]
    by_cases beyond : character < units + Utf8.units d.code
    · rw [if_pos beyond, if_neg (by omega)]
    · rw [if_neg beyond, if_pos (by omega), ih (Nat.le_of_not_lt beyond), Nat.sub_add_eq]

theorem offset_of_line {p : EditorPosition} {text rest : Bytes} (line : p.line.toNat = row)
    (found : fromLine? row text = some rest) :
    p.offset text = text.length - rest.length +
      bytesOfUnits p.character.toNat (Utf8.decodeAll (rest.takeWhile (· != 0x0A))) := by
  rw [EditorPosition.offset, line, found]
  dsimp only
  rw [bytesUpTo_eq (Nat.zero_le _), Nat.sub_zero]

section

variable {rest : Bytes} {o : Nat} (read : f.IsRead) (content : f.content = joinCrLf rest)
  (breaks : f.lineBreaks = lineBreaksFrom 0 f.content) (here : Boundary f.content o)

include read content breaks here

/-- In a text without byte order mark a position lies at the offset that belongs to its own. -/
theorem offset_unmarked : (Server.editorPosition f (f.pointAt o)).offset rest = rawOffset rest o := by
  obtain ⟨row, units⟩ := editorPosition_pointAt read here.le_length
  obtain ⟨boundary, same, place⟩ := line_of_offset read content breaks here
  have found := fromLine?_rowStart content breaks (f.rowOf_le o)
  have reached := rawOffset_le_length rest (f.rowStart (f.rowOf o))
  have counted := bytesOfUnits_unitsOf boundary
  rw [same, ← units] at counted
  rw [offset_of_line row found, counted, place, List.length_drop]
  omega

/-- Behind the first row a byte order mark only shifts it. -/
theorem offset_marked (later : f.rowOf o ≠ 0) :
    (Server.editorPosition f (f.pointAt o)).offset (byteOrderMark ++ rest) =
      byteOrderMark.length + rawOffset rest o := by
  obtain ⟨row, -⟩ := editorPosition_pointAt read here.le_length
  have found := fromLine?_rowStart content breaks (f.rowOf_le o)
  have reached := rawOffset_le_length rest (f.rowStart (f.rowOf o))
  have same := offset_unmarked read content breaks here
  obtain ⟨before, eq⟩ := Nat.exists_eq_succ_of_ne_zero later
  have behind : fromLine? (f.rowOf o) (byteOrderMark ++ rest) =
      some (rest.drop (rawOffset rest (f.rowStart (f.rowOf o)))) := by
    rw [← found, eq]
    exact fromLine?_marked before rest
  rw [offset_of_line row found] at same
  rw [offset_of_line row behind, ← same, List.length_append, List.length_drop]
  omega

/-- On the first row the mark takes one of the units, so that the position falls short. -/
theorem offset_marked_lt (first : f.rowOf o = 0) :
    (Server.editorPosition f (f.pointAt o)).offset (byteOrderMark ++ rest) <
      byteOrderMark.length + rawOffset rest o := by
  obtain ⟨row, units⟩ := editorPosition_pointAt read here.le_length
  obtain ⟨boundary, same, place⟩ := line_of_offset read content breaks here
  have start : f.rowStart (f.rowOf o) = 0 := by
    rw [first]
    rfl
  rw [start, rawOffset_zero, Nat.zero_add, Nat.sub_zero] at place
  rw [start, rawOffset_zero, List.drop_zero, Nat.sub_zero] at boundary same
  rw [start] at units
  have line : (byteOrderMark ++ rest).takeWhile (· != 0x0A) = byteOrderMark ++ rest.takeWhile (· != 0x0A) :=
    List.takeWhile_append_of_pos (List.all_eq_true.mp rfl)
  have decoded (text : Bytes) : Utf8.decodeAll (byteOrderMark ++ text) = ⟨0xFEFF, 3⟩ :: Utf8.decodeAll text :=
    Utf8.decodeAll_cons _ _
  rw [offset_of_line (row.trans first) rfl, Nat.sub_self, Nat.zero_add, line, decoded, bytesOfUnits, units,
    ← same, place]
  split
  · rename_i one
    refine Nat.add_lt_add_left (bytesOfUnits_lt boundary ?_) 3
    exact Nat.sub_lt one Nat.zero_lt_one
  · exact Nat.lt_of_lt_of_le (by decide) (Nat.le_add_right 3 o)

end

/-- An offset on the first row of a file made of a text with a byte order mark. -/
def IsBehindMark (f : SourceFile) (o : Nat) : Prop := f.hadByteOrderMark = true ∧ (f.pointAt o).row = 0

variable {path text : Bytes} {o : Nat}

theorem isBehindMark_iff (small : (inMemory path text).size < 2 ^ 32) (inside : o ≤ (inMemory path text).size) :
    (inMemory path text).IsBehindMark o ↔
      (dropByteOrderMark text).2 = true ∧ (inMemory path text).rowOf o = 0 := by
  have small : (inMemory path text).IsSmall := isSmall_ofBytes small
  refine and_congr_right fun _ => ?_
  rw [← UInt32.toNat_inj, (pointAt_eq small inside).1]
  rfl

/-- A position lies at the offset that belongs to its own, unless it stands behind a byte order mark. -/
theorem offset_eq_origin_iff (small : (inMemory path text).size < 2 ^ 32)
    (here : Boundary (inMemory path text).content o) :
    (Server.editorPosition (inMemory path text) ((inMemory path text).pointAt o)).offset text = origin text o ↔
      ¬(inMemory path text).IsBehindMark o := by
  have read : (inMemory path text).IsRead := isRead_ofBytes small
  rw [isBehindMark_iff small here.le_length, origin]
  rcases dropByteOrderMark_cases text with ⟨rest, rfl, marked⟩ | unmarked
  · have content : (inMemory path (byteOrderMark ++ rest)).content = joinCrLf rest :=
      congrArg (fun pieces : Bytes × Bool => joinCrLf pieces.1) marked
    rw [marked, if_pos rfl]
    constructor
    · rintro same ⟨-, first⟩
      exact absurd same (Nat.ne_of_lt (offset_marked_lt read content rfl here first))
    · intro behind
      exact offset_marked read content rfl here fun first => behind ⟨rfl, first⟩
  · have content : (inMemory path text).content = joinCrLf text :=
      congrArg (fun pieces : Bytes × Bool => joinCrLf pieces.1) unmarked
    rw [unmarked, if_neg Bool.false_ne_true, Nat.zero_add]
    exact ⟨fun _ found => Bool.false_ne_true found.1, fun _ => offset_unmarked read content rfl here⟩

theorem IsBehindMark.mono (small : (inMemory path text).size < 2 ^ 32) {a b : Nat} (le : a ≤ b)
    (inside : b ≤ (inMemory path text).size) (behind : (inMemory path text).IsBehindMark b) :
    (inMemory path text).IsBehindMark a := by
  rw [isBehindMark_iff small inside] at behind
  rw [isBehindMark_iff small (Nat.le_trans le inside)]
  exact ⟨behind.1, Nat.le_zero.mp (behind.2 ▸ rowOf_mono le)⟩

/-! ## Cutting the raw text -/

theorem origin_add (text : Bytes) (o n : Nat) :
    origin text (o + n) = origin text o + rawOffset (text.drop (origin text o)) n := by
  rw [origin, origin, rawOffset_add, ← Nat.add_assoc]
  rcases dropByteOrderMark_cases text with ⟨rest, rfl, marked⟩ | unmarked
  · rw [marked, if_pos rfl, ← List.drop_drop, List.drop_left]
  · rw [unmarked, if_neg Bool.false_ne_true, Nat.zero_add]

theorem dropByteOrderMark_marked (rest : Bytes) : dropByteOrderMark (byteOrderMark ++ rest) = (rest, true) := rfl

/-- A beginning of a raw text is the raw text of a beginning. -/
theorem content_take_origin (path text : Bytes) (o : Nat) :
    (inMemory path (text.take (origin text o))).content = (inMemory path text).content.take o := by
  show joinCrLf (dropByteOrderMark _).1 = (joinCrLf (dropByteOrderMark text).1).take o
  rw [← joinCrLf_take, origin]
  rcases dropByteOrderMark_cases text with ⟨rest, rfl, marked⟩ | unmarked
  · rw [marked, if_pos rfl, List.take_length_add_append, dropByteOrderMark_marked]
  · rw [unmarked, if_neg Bool.false_ne_true, Nat.zero_add]
    rcases dropByteOrderMark_cases (text.take (rawOffset text o)) with ⟨front, cut, -⟩ | same
    · rw [← List.take_append_drop (rawOffset text o) text, cut, List.append_assoc,
        dropByteOrderMark_marked] at unmarked
      cases congrArg Prod.snd unmarked
    · rw [same]

/-- An end of a raw text is the raw text of an end. -/
theorem joinCrLf_drop_origin (path text : Bytes) (o : Nat) :
    joinCrLf (text.drop (origin text o)) = (inMemory path text).content.drop o := by
  show _ = (joinCrLf (dropByteOrderMark text).1).drop o
  rw [← joinCrLf_drop, origin]
  rcases dropByteOrderMark_cases text with ⟨rest, rfl, marked⟩ | unmarked
  · rw [marked, if_pos rfl, ← List.drop_drop, List.drop_left]
  · rw [unmarked, if_neg Bool.false_ne_true, Nat.zero_add]

/-- A position that is computed in the file is, in the raw text that the editor keeps, that of the same character if
and only if no byte order mark stands in front of it on its row. An edit of a range between two such positions takes
out what the range was computed for and leaves the rest as it is. -/
theorem positions_find_origins (path text : Bytes) (small : (inMemory path text).size < 2 ^ 32) :
    let f := inMemory path text
    let place (o : Nat) : EditorPosition := Server.editorPosition f (f.pointAt o)
    (∀ o, Boundary f.content o → f.content[o]? ≠ some 0x0A →
      (IsOrigin text ((place o).offset text) o ↔ ¬f.IsBehindMark o)) ∧
    ∀ a b, Boundary f.content a → Boundary f.content b → a ≤ b → ¬f.IsBehindMark a →
      ∃ before removed behind, text = before ++ removed ++ behind ∧
        (inMemory path before).content = f.content.take a ∧ joinCrLf removed = f.bytesBetween a b ∧
        joinCrLf behind = f.content.drop b ∧
        ∀ inserted, Edit.apply text ⟨some ⟨place a, place b⟩, inserted⟩ = before ++ inserted ++ behind := by
  refine ⟨fun o here other => ?_, fun a b hereA hereB le unmarked => ?_⟩
  · rw [← offset_eq_origin_iff small here]
    have origin := isOrigin_origin here.le_length other
    exact ⟨fun found => found.unique origin, fun same => same ▸ origin⟩
  · have startAt := (offset_eq_origin_iff small hereA).mpr unmarked
    have stopAt := (offset_eq_origin_iff small hereB).mpr fun behind =>
      unmarked (behind.mono small le hereB.le_length)
    have split : origin text b = origin text a + rawOffset (text.drop (origin text a)) (b - a) := by
      rw [← origin_add, Nat.add_sub_cancel' le]
    refine ⟨text.take (origin text a),
      (text.drop (origin text a)).take (rawOffset (text.drop (origin text a)) (b - a)), text.drop (origin text b), ?_,
      content_take_origin path text a, ?_, joinCrLf_drop_origin path text b, ?_⟩
    · rw [List.append_assoc, split, ← List.drop_drop, List.take_append_drop, List.take_append_drop]
    · rw [joinCrLf_take, joinCrLf_drop_origin path]
      rfl
    · intro inserted
      rw [Edit.apply]
      dsimp only
      rw [startAt, stopAt, Nat.max_eq_left (by omega)]

/-- Two rows behind a byte order mark, with CR LF between them. -/
def sampleMarked : Bytes := byteOrderMark ++ "match\r\nlet"

theorem positions_find_origins_sampleMarked :
    (inMemory [] sampleMarked).size < 2 ^ 32 ∧
      let f := inMemory [] sampleMarked
      let place (o : Nat) : EditorPosition := Server.editorPosition f (f.pointAt o)
      IsOrigin sampleMarked ((place 7).offset sampleMarked) 7 ∧
        ∃ before removed behind, sampleMarked = before ++ removed ++ behind ∧ joinCrLf removed = "let" ∧
          Edit.apply sampleMarked ⟨some ⟨place 6, place 9⟩, "if"⟩ = before ++ "if" ++ behind := by
  have small : (inMemory [] sampleMarked).size < 2 ^ 32 := by decide +kernel
  have letter (n : Nat) (b : UInt8) (found : (inMemory [] sampleMarked).content[n]? = some b)
      (ascii : Utf8.isAscii b = true) : Boundary (inMemory [] sampleMarked).content n := .of_isAscii found ascii
  have secondRow (o : Nat) (later : ((inMemory [] sampleMarked).pointAt o).row ≠ 0) :
      ¬(inMemory [] sampleMarked).IsBehindMark o := fun found => later found.2
  obtain ⟨origins, edits⟩ := positions_find_origins [] sampleMarked small
  refine ⟨small, (origins 7 (letter 7 0x65 (by decide +kernel) rfl) (by decide +kernel)).mpr
    (secondRow 7 (by decide +kernel)), ?_⟩
  obtain ⟨before, removed, behind, whole, -, taken, -, edited⟩ :=
    edits 6 9 (letter 6 0x6C (by decide +kernel) rfl) (.length _) (by decide) (secondRow 6 (by decide +kernel))
  exact ⟨before, removed, behind, whole, taken.trans (by decide +kernel), edited "if"⟩

/-- A byte order mark in front of a service. -/
def markedService : Bytes := byteOrderMark ++ "service a \x7b\x7d"

/-- Seven characters behind the mark the position that is computed lies one byte too early. -/
theorem position_falls_short : ¬∀ path text : Bytes, (inMemory path text).size < 2 ^ 32 →
    ∀ o, Boundary (inMemory path text).content o → (inMemory path text).content[o]? ≠ some 0x0A →
      IsOrigin text ((Server.editorPosition (inMemory path text) ((inMemory path text).pointAt o)).offset text) o := by
  intro always
  have found := always [] markedService (by decide +kernel) 7
    (.of_isAscii (b := 0x20) (by decide +kernel) rfl) (by decide +kernel)
  exact absurd found.counted (by decide +kernel)

/-! ## Positions of edits and of queries -/

/-- The text of a line behind the first one starts behind the line break in front of it, if there is one. -/
theorem fromLine?_succ_eq (offset row : Nat) (text : Bytes) :
    fromLine? (row + 1) text = (lineBreaksFrom offset text)[row]?.map fun n => text.drop (n + 1 - offset) := by
  induction row generalizing offset text with
  | zero =>
    rw [fromLine?_succ]
    cases cut : Bytes.cut? 0x0A text with
    | none =>
      rw [lineBreaksFrom_of_uncut offset cut]
      rfl
    | some pieces =>
      obtain ⟨left, right⟩ := pieces
      have place : offset + left.length + 1 - offset = left.length + 1 := by omega
      rw [lineBreaksFrom_of_cut offset cut, List.getElem?_cons_zero, Option.map_some, place, (Bytes.eq_of_cut? cut).1,
        ← List.drop_drop, List.drop_left]
      rfl
  | succ row ih =>
    rw [fromLine?_succ]
    cases cut : Bytes.cut? 0x0A text with
    | none =>
      rw [lineBreaksFrom_of_uncut offset cut]
      rfl
    | some pieces =>
      obtain ⟨left, right⟩ := pieces
      rw [lineBreaksFrom_of_cut offset cut, List.getElem?_cons_succ, Option.bind_some,
        ih (offset + left.length + 1) right]
      cases found : (lineBreaksFrom (offset + left.length + 1) right)[row]? with
      | none => rfl
      | some n =>
        have behind := (getElem?_of_mem_lineBreaksFrom (List.mem_of_getElem? found)).1
        have place : n + 1 - offset = left.length + (n + 1 - (offset + left.length + 1) + 1) := by omega
        rw [Option.map_some, Option.map_some, (Bytes.eq_of_cut? cut).1, place, ← List.drop_drop, List.drop_left,
          List.drop_succ_cons]

/-- The lines of the content are the rows of the file. -/
theorem fromLine?_content (breaks : f.lineBreaks = lineBreaksFrom 0 f.content) (row : Nat) :
    fromLine? row f.content =
      if row ≤ f.lineBreaks.length then some (f.content.drop (f.rowStart row)) else none := by
  cases row with
  | zero =>
    rw [if_pos (Nat.zero_le _)]
    rfl
  | succ row =>
    rw [fromLine?_succ_eq 0, ← breaks, rowStart]
    split
    · rename_i known
      rw [List.getElem?_eq_getElem known]
      rfl
    · rename_i unknown
      rw [List.getElem?_eq_none (Nat.le_of_not_lt unknown)]
      rfl

/-- From the start of a row on there is no line feed in front of its end. -/
theorem takeWhile_rowStart (read : f.IsRead) (breaks : f.lineBreaks = lineBreaksFrom 0 f.content)
    (known : row ≤ f.lineBreaks.length) :
    (f.content.drop (f.rowStart row)).takeWhile (· != 0x0A) = f.bytesBetween (f.rowStart row) (f.rowStop row) := by
  have forward := read.rowStart_le_rowStop known
  have plain := read.ne_feed_of_mem_row breaks known (Nat.le_refl _) (Nat.le_refl _)
  -- Behind the row the content ends or goes on with a line feed.
  have ended : (f.content.drop (f.rowStop row)).takeWhile (· != 0x0A) = [] := by
    cases found : f.lineBreaks[row]? with
    | none => rw [rowStop, found, Option.getD_none, size, List.drop_length, List.takeWhile_nil]
    | some n =>
      obtain ⟨inside, feed⟩ := List.getElem?_eq_some_iff.mp (read.feeds n (List.mem_of_getElem? found))
      rw [rowStop, found, Option.getD_some, List.drop_eq_getElem_cons inside, feed]
      rfl
  have split : f.content.drop (f.rowStart row) =
      f.bytesBetween (f.rowStart row) (f.rowStop row) ++ f.content.drop (f.rowStop row) := by
    conv_lhs => rw [← List.take_append_drop (f.rowStop row - f.rowStart row) (f.content.drop (f.rowStart row))]
    rw [List.drop_drop, Nat.add_sub_cancel' forward]
    rfl
  rw [split, List.takeWhile_append_of_pos (by simpa using plain), ended, List.append_nil]

/-- A query comes to the boundary of a character in a row. -/
theorem IsRead.offset_query (read : f.IsRead) (p : EditorPosition) :
    f.offset (Server.pointAt f p) = (f.lineBounds p.line).1 + f.byteColumn p.line p.character := by
  rw [Server.pointAt, read.byteColumn_eq]
  exact read.offset_column (boundary_bytesOfUnits p.character.toNat (f.line p.line)).1.le_length

/-- In the content of a file an edit and a query find the same offset for a position, whether its line and its column
exist or not. -/
theorem edit_offset_eq_query (path text : Bytes) (isVirtual : Bool)
    (small : (ofBytes path text isVirtual).size < 2 ^ 32) (p : EditorPosition) :
    let f := ofBytes path text isVirtual
    p.offset f.content = f.offset (Server.pointAt f p) := by
  intro f
  have read : f.IsRead := isRead_ofBytes small
  have line := fromLine?_content (f := f) rfl p.line.toNat
  -- Both loops take the longest run of characters that fits, of the same row.
  rw [read.offset_query, read.byteColumn_eq, SourceFile.line]
  by_cases known : p.line.toNat ≤ f.lineBreaks.length
  · have inside := Nat.le_trans (read.rowStart_le_rowStop known) read.rowStop_le_size
    have reached : f.content.length - (f.content.drop (f.rowStart p.line.toNat)).length = f.rowStart p.line.toNat := by
      rw [List.length_drop]
      exact Nat.sub_sub_self inside
    rw [if_pos known] at line
    rw [offset_of_line rfl line, IsRead.lineBounds_eq known, takeWhile_rowStart read rfl known, reached]
  · rw [if_neg known] at line
    rw [EditorPosition.offset, line, lineBounds, if_pos (Nat.lt_of_not_le known), bytesBetween_self, Utf8.decodeAll,
      bytesOfUnits]
    rfl

/-- A character of two units between two letters, behind a first row. -/
def sampleSmile : Bytes := Bytes.ofString "if\na😀b\n"

theorem edit_offset_eq_query_sampleSmile :
    let f := ofBytes [] sampleSmile true
    f.size < 2 ^ 32 ∧ EditorPosition.offset ⟨1, 2⟩ f.content = f.offset (Server.pointAt f ⟨1, 2⟩) ∧
      EditorPosition.offset ⟨7, 9⟩ f.content = f.offset (Server.pointAt f ⟨7, 9⟩) := by
  intro f
  have small : f.size < 2 ^ 32 := by decide +kernel
  exact ⟨small, edit_offset_eq_query [] sampleSmile true small ⟨1, 2⟩,
    edit_offset_eq_query [] sampleSmile true small ⟨7, 9⟩⟩

end SourceFile

end SecurityRules
