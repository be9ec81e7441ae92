import SecurityRules.Proofs.Highlight.Parts
import SecurityRules.Proofs.Lookup.Spans
import SecurityRules.Proofs.Parser.Lossless
import SecurityRules.Proofs.Token.Edges

/-!
# Marks sent to editors

The marks of a document stand over parts of it that lie behind each other and start and end between characters. The
marks that an editor is sent stand over the parts of these parts on single rows, and so the units in them can be
counted from the start of the row.
-/

namespace SecurityRules

open Utf8 (Boundary)

namespace ParseTree.Regular

variable {f : SourceFile} {t : ParseTree}

/-- A tree starts with the token that its first leaf starts with, and ends with the one that its last leaf ends with. -/
theorem edges (regular : Regular f t) : f.IsEdge t.start ∧ f.IsEdge t.stop := by
  induction t using induct with
  | step t ih =>
    by_cases childless : t.children = []
    · exact regular.sound.edges childless
    have whole := regular.sound.whole childless
    constructor
    · obtain ⟨first, rest, split⟩ := List.exists_cons_of_ne_nil childless
      have child : first ∈ t.children := by rw [split]; exact List.mem_cons_self ..
      have start : t.start = first.start := by rw [ParseTree.start, whole, split, extentOf_start]
      rw [start]
      exact (ih first child (regular.of_child child)).1
    · obtain ⟨before, last, split⟩ := List.eq_nil_or_concat' t.children |>.resolve_left childless
      have child : last ∈ t.children := by rw [split]; exact List.mem_append_right _ (List.mem_singleton_self _)
      have stop : t.stop = last.stop := by rw [ParseTree.stop, whole, split, extentOf_stop_concat]
      rw [stop]
      exact (ih last child (regular.of_child child)).2

end ParseTree.Regular

namespace Highlight

open ParseTree (Regular)
open SourceFile (unitsOf)

/-! ## Marks over parts of a text -/

/-- Marks that stand, in a given sense, over parts of a text from `low` to `high` that lie behind each other. -/
inductive Run (P : Mark → Nat → Nat → Prop) : Nat → List Mark → Nat → Prop
  | nil {low high : Nat} (forward : low ≤ high) : Run P low [] high
  | cons {low a b high : Nat} {m : Mark} {ms : List Mark} (behind : low ≤ a) (forward : a ≤ b) (stands : P m a b)
    (rest : Run P b ms high) : Run P low (m :: ms) high

namespace Run

variable {P Q : Mark → Nat → Nat → Prop} {low middle high : Nat} {ms ns : List Mark}

theorem lower {lower : Nat} (le : lower ≤ low) (run : Run P low ms high) : Run P lower ms high := by
  cases run with
  | nil forward => exact .nil (Nat.le_trans le forward)
  | cons behind forward stands rest => exact .cons (Nat.le_trans le behind) forward stands rest

theorem append (run : Run P low ms middle) (later : Run P middle ns high) : Run P low (ms ++ ns) high := by
  induction run with
  | nil forward => exact later.lower forward
  | cons behind forward stands _ ih => exact .cons behind forward stands (ih later)

/-- Marks put in the place of other marks stand over parts of the same parts. -/
theorem flatMap {g : Mark → List Mark} (parts : ∀ m a b, P m a b → Run Q a (g m) b) (run : Run P low ms high) :
    Run Q low (ms.flatMap g) high := by
  induction run with
  | nil forward => exact .nil forward
  | cons behind _ stands _ ih =>
    rw [List.flatMap_cons]
    exact ((parts _ _ _ stands).lower behind).append ih

theorem map {g : Mark → Mark} (same : ∀ m a b, P m a b → Q (g m) a b) (run : Run P low ms high) :
    Run Q low (ms.map g) high := by
  induction run with
  | nil forward => exact .nil forward
  | cons behind forward stands _ ih => exact .cons behind forward (same _ _ _ stands) ih

theorem exists_of_mem (run : Run P low ms high) {m : Mark} (member : m ∈ ms) : ∃ a b, low ≤ a ∧ P m a b := by
  induction run with
  | nil => cases member
  | cons behind forward stands _ ih =>
    rcases List.mem_cons.mp member with rfl | later
    · exact ⟨_, _, behind, stands⟩
    · obtain ⟨a, b, above, found⟩ := ih later
      exact ⟨a, b, Nat.le_trans behind (Nat.le_trans forward above), found⟩

theorem pairwise {R : Mark → Mark → Prop} (apart : ∀ m a b n c d, P m a b → P n c d → b ≤ c → R m n)
    (run : Run P low ms high) : ms.Pairwise R := by
  induction run with
  | nil => exact .nil
  | cons _ _ stands rest ih =>
    refine List.pairwise_cons.mpr ⟨fun n member => ?_, ih⟩
    obtain ⟨c, d, behind, found⟩ := rest.exists_of_mem member
    exact apart _ _ _ n c d stands found behind

end Run

/-! ## The marks of a document -/

/-- A mark whose numbers stand for what the legend declares. -/
def Mark.IsDeclared (m : Mark) : Prop :=
  m.kind.toNat < legendKinds.length ∧ m.modifiers.toNat < 2 ^ legendModifiers.length

theorem toWord_lt (k : Kind) : k.toWord.toNat < legendKinds.length := by
  cases k <;> decide

theorem modifiers_tokenClass {parent : Option NodeKind} {token : TokenKind} {c : Class}
    (found : tokenClass? parent token = some c) : c.modifiers = 0 := by
  unfold tokenClass? at found
  repeat' split at found
  all_goals cases found
  all_goals rfl

theorem modifiers_identifierClass {parent : Option NodeKind} {c : Class}
    (found : identifierClass? parent = some c) : c.modifiers.toNat < 2 ^ legendModifiers.length := by
  unfold identifierClass? at found
  repeat' split at found
  all_goals cases found
  all_goals decide

theorem modifiers_classify {kind : NodeKind} {parent : Option NodeKind} {c : Class}
    (found : classify? kind parent = some c) : c.modifiers.toNat < 2 ^ legendModifiers.length := by
  unfold classify? at found
  have token {parent : Option NodeKind} {token : TokenKind} (found : tokenClass? parent token = some c) :
      c.modifiers.toNat < 2 ^ legendModifiers.length := by
    rw [modifiers_tokenClass found]
    decide
  split at found
  all_goals first
    | exact modifiers_identifierClass found
    | exact token found
    | cases found <;> decide

/-- A mark of a tree: it may reach over several rows, and its length counts bytes. -/
structure Whole (f : SourceFile) (m : Mark) (a b : Nat) : Prop where
  filled : a < b
  inside : b ≤ f.size
  first : Boundary f.content a
  last : Boundary f.content b
  place : (⟨m.row, m.column⟩ : Point) = f.pointAt a
  length : m.length = UInt32.ofNat (b - a)
  declared : m.IsDeclared

variable {f : SourceFile}

theorem marks_eq (parent : Option NodeKind) (t : ParseTree) : marks parent t =
    if t.isEmpty then []
    else match classify? t.kind parent with
      | some c => [markOf t c]
      | none => marksAll t.kind t.children := by
  cases t
  rw [marks]
  rfl

theorem run_marksAll (parent : NodeKind) {low high : Nat} (cs : List ParseTree)
    (ordered : cs.Pairwise fun a b => a.stop ≤ b.start) (inside : ∀ c ∈ cs, low ≤ c.start ∧ c.stop ≤ high)
    (forward : low ≤ high) (each : ∀ c ∈ cs, Run (Whole f) c.start (marks (some parent) c) c.stop) :
    Run (Whole f) low (marksAll parent cs) high := by
  induction cs generalizing low with
  | nil =>
    rw [marksAll]
    exact .nil forward
  | cons c rest ih =>
    have here := inside c (List.mem_cons_self ..)
    rw [marksAll]
    refine ((each c (List.mem_cons_self ..)).lower here.1).append ?_
    refine ih (List.pairwise_cons.mp ordered).2 (fun d member => ?_) here.2 fun d member =>
      each d (List.mem_cons_of_mem _ member)
    exact ⟨(List.pairwise_cons.mp ordered).1 d member, (inside d (List.mem_cons_of_mem _ member)).2⟩

theorem whole_markOf {t : ParseTree} (regular : Regular f t) (filled : t.isEmpty = false) {c : Class}
    (modifiers : c.modifiers.toNat < 2 ^ legendModifiers.length) : Whole f (markOf t c) t.start t.stop := by
  have differs : t.start ≠ t.stop := by
    rw [Ne, ← ParseTree.isEmpty_iff, filled]
    exact Bool.false_ne_true
  obtain ⟨_, ends, _⟩ := regular.ends
  exact {
    filled := Nat.lt_of_le_of_ne regular.sound.forward differs
    inside := regular.sound.bounded
    first := regular.edges.1.boundary
    last := regular.edges.2.boundary
    place := ends.startPoint
    length := rfl
    declared := ⟨toWord_lt c.kind, modifiers⟩ }

/-- The marks of a tree stand over parts of it. -/
theorem run_marks {t : ParseTree} (regular : Regular f t) :
    ∀ parent, Run (Whole f) t.start (marks parent t) t.stop := by
  induction t using ParseTree.induct with
  | step t ih =>
    intro parent
    rw [marks_eq]
    cases empty : t.isEmpty with
    | true =>
      rw [if_pos rfl]
      exact .nil regular.sound.forward
    | false =>
      rw [if_neg Bool.false_ne_true]
      split
      · rename_i c found
        exact .cons (Nat.le_refl _) regular.sound.forward
          (whole_markOf regular empty (modifiers_classify found)) (.nil (Nat.le_refl _))
      · exact run_marksAll t.kind t.children regular.sound.ordered (fun c child => regular.inside_child child)
          regular.sound.forward fun c child => ih c child (regular.of_child child) (some t.kind)

/-- The marks of a document stand over parts of it, comments included. -/
theorem run_marksOf (f : SourceFile) (maxDepth : Int) :
    Run (Whole f) 0 (marksOf (Parser.parse f maxDepth)) f.size := by
  have kind : (Parser.parse f maxDepth).kind = .sourceFile := rfl
  rw [marksOf, marks_eq, kind]
  split
  · exact .nil (Nat.zero_le _)
  · have below : ∀ c ∈ (Parser.parse f maxDepth).children, Regular f c := Parser.sound_parse f maxDepth
    exact run_marksAll .sourceFile _ (Parser.ordered_parse f maxDepth)
      (fun c child => ⟨Nat.zero_le _, (below c child).sound.bounded⟩) (Nat.zero_le _)
      fun c child => run_marks (below c child) _

/-! ## The parts on single rows -/

/-- A mark on a single row, with its column and its length in bytes. -/
structure Piece (f : SourceFile) (m : Mark) (a b : Nat) : Prop where
  filled : a < b
  known : m.row.toNat ≤ f.lineBreaks.length
  place : f.rowStart m.row.toNat + m.column.toNat = a
  length : a + m.length.toNat = b
  inside : b ≤ f.rowStop m.row.toNat
  first : Boundary f.content a
  last : Boundary f.content b
  declared : m.IsDeclared

/-- The part of a mark on a row starts and ends where the mark or the row does. -/
theorem piece_partOn (read : f.IsRead) {m : Mark} {a b row : Nat} (whole : Whole f m a b)
    (known : row ≤ f.lineBreaks.length) (covers : Covers f a b row) :
    Piece f (partOn f m a b row) (max a (f.rowStart row)) (min b (f.rowStop row)) := by
  obtain ⟨known, place, length, inside⟩ := on_partOn (m := m) read known covers
  refine ⟨covers, known, place, length, inside, ?_, ?_, whole.declared⟩
  · rcases Nat.le_total a (f.rowStart row) with le | le
    · rw [Nat.max_eq_right le]
      exact read.boundary_rowStart
    · rw [Nat.max_eq_left le]
      exact whole.first
  · rcases Nat.le_total b (f.rowStop row) with le | le
    · rw [Nat.min_eq_left le]
      exact whole.last
    · rw [Nat.min_eq_right le]
      exact read.boundary_rowStop

/-- The parts of a mark on rows from a given row on stand behind the start of that row. -/
theorem run_partsFrom (read : f.IsRead) {m : Mark} {a b : Nat} (whole : Whole f m a b) (rows row : Nat)
    (left : row + rows = f.lineCount) (reached : f.rowStart row ≤ b) :
    Run (Piece f) (max a (f.rowStart row)) (partsFrom f m (.ofNat a) (.ofNat b) rows row) b := by
  have forward := whole.filled
  have inside := whole.inside
  induction rows generalizing row with
  | zero =>
    rw [partsFrom]
    exact .nil (by omega)
  | succ rows ih =>
    have known : row ≤ f.lineBreaks.length := by
      rw [SourceFile.lineCount] at left
      omega
    have rowStart := read.rowStart_le_rowStop known
    have rest : Run (Piece f) (max (max a (f.rowStart row)) (min b (f.rowStop row)))
        (if b ≤ f.rowStop row then [] else partsFrom f m (.ofNat a) (.ofNat b) rows (row + 1)) b := by
      split
      · exact .nil (by omega)
      · have more : row < f.lineBreaks.length := by
          by_contra last
          rw [SourceFile.IsRead.rowStop_last (Nat.le_of_not_lt last)] at *
          omega
        have next := SourceFile.IsRead.rowStart_succ more
        refine (ih (row + 1) (by omega) (by omega)).lower ?_
        omega
    rw [partsFrom_succ read rows known (by omega) inside]
    split
    · rename_i covers
      exact .cons (Nat.le_refl _) (Nat.le_of_lt covers) (piece_partOn read whole known covers)
        (rest.lower (Nat.le_max_right ..))
    · exact rest.lower (Nat.le_max_left ..)

/-- The parts of a mark stand over parts of what it stands over. -/
theorem run_splitMark (read : f.IsRead) {m : Mark} {a b : Nat} (whole : Whole f m a b) :
    Run (Piece f) a (splitMark f m) b := by
  have filled := whole.filled
  have inside := whole.inside
  have bound := read.small.size
  have start : a ≤ f.size := by omega
  have offset : f.offset m.start = a := by
    rw [Mark.start, whole.place, read.offset_pointAt start]
  have length : a + m.length.toNat = b := by
    rw [whole.length, read.toNat_offset (by omega), Nat.add_sub_cancel' (Nat.le_of_lt filled)]
  have stands : m.StandsIn f := by
    refine ⟨?_, by rw [offset, length]; exact inside⟩
    rw [Mark.start, whole.place]
    exact read.hasPoint_pointAt start
  have known : m.row.toNat ≤ f.lineBreaks.length := Nat.le_of_lt_succ stands.point.row
  have low : f.rowStart m.row.toNat ≤ a := offset ▸ Nat.le.intro (read.offset_of_hasPoint stands.point).1.symm
  rw [splitMark_eq read stands, offset, length]
  split
  · rename_i short
    have on : On f m a b := by
      have on := stands.on read (by rw [offset, length]; exact short)
      rwa [offset, length] at on
    refine .cons (Nat.le_refl _) (Nat.le_of_lt filled) ?_ (.nil (Nat.le_refl _))
    exact ⟨filled, known, on.place, length, short, whole.first, whole.last, whole.declared⟩
  · have all := run_partsFrom read whole (f.lineCount - m.row.toNat) m.row.toNat
      (by rw [SourceFile.lineCount]; omega) (by omega)
    rw [Nat.max_eq_left low] at all
    exact all

/-! ## UTF-16 units -/

/-- A mark on a single row, with its column and its length in UTF-16 units. -/
structure Sent (f : SourceFile) (m : Mark) (a b : Nat) : Prop where
  filled : a < b
  known : m.row.toNat ≤ f.lineBreaks.length
  low : f.rowStart m.row.toNat ≤ a
  inside : b ≤ f.rowStop m.row.toNat
  column : m.column.toNat = unitsOf (f.bytesBetween (f.rowStart m.row.toNat) a)
  length : m.length.toNat = unitsOf (f.bytesBetween a b)
  first : Boundary f.content a
  last : Boundary f.content b
  declared : m.IsDeclared

theorem sent_toUtf16 (read : f.IsRead) {m : Mark} {a b : Nat} (piece : Piece f m a b) : Sent f (toUtf16 f m) a b := by
  have filled := piece.filled
  have place := piece.place
  have length := piece.length
  have inside := Nat.le_trans piece.inside read.rowStop_le_size
  have bound := read.small.size
  have sum : (m.column + m.length).toNat = m.column.toNat + m.length.toNat := by
    rw [UInt32.toNat_add, Nat.mod_eq_of_lt (by omega)]
  have start := read.utf16Column_eq (p := ⟨m.row, m.column⟩) piece.known piece.place
    (Nat.le_trans (Nat.le_of_lt filled) piece.inside)
  have stop := read.utf16Column_eq (p := ⟨m.row, m.column + m.length⟩) (a := b) piece.known
    (by dsimp only; omega) piece.inside
  have split := f.unitsOf_bytesBetween (a := f.rowStart m.row.toNat) (by omega) (Nat.le_of_lt filled)
    read.boundary_rowStart piece.first
  have column : (toUtf16 f m).column.toNat = unitsOf (f.bytesBetween (f.rowStart m.row.toNat) a) := by
    rw [toUtf16]
    dsimp only
    rw [start, read.toNat_units (by omega)]
  have wordStop : (UInt32.ofNat (f.utf16Column ⟨m.row, m.column + m.length⟩)).toNat =
      unitsOf (f.bytesBetween (f.rowStart m.row.toNat) b) := by
    rw [stop, read.toNat_units inside]
  refine ⟨filled, piece.known, by simp only [toUtf16]; omega, piece.inside, column, ?_, piece.first, piece.last,
    piece.declared⟩
  have wordStart : (UInt32.ofNat (f.utf16Column ⟨m.row, m.column⟩)).toNat =
      unitsOf (f.bytesBetween (f.rowStart m.row.toNat) a) := column
  rw [toUtf16]
  dsimp only
  rw [UInt32.toNat_sub_of_le _ _ (by rw [UInt32.le_iff_toNat_le, wordStart, wordStop]; omega), wordStart, wordStop]
  omega

/-- The marks that an editor is sent: on single lines, in UTF-16 units. -/
def editorMarks (f : SourceFile) (root : ParseTree) : List Mark := (splitLines f (marksOf root)).map (toUtf16 f)

theorem run_editorMarks (read : f.IsRead) (maxDepth : Int) :
    Run (Sent f) 0 (editorMarks f (Parser.parse f maxDepth)) f.size :=
  ((run_marksOf f maxDepth).flatMap fun _ _ _ whole => run_splitMark read whole).map
    fun _ _ _ piece => sent_toUtf16 read piece

/-- Whether a mark ends in front of another one. -/
def Mark.IsBefore (m n : Mark) : Prop :=
  m.row < n.row ∨ m.row = n.row ∧ m.column.toNat + m.length.toNat ≤ n.column.toNat

theorem Sent.isBefore (read : f.IsRead) {m n : Mark} {a b c d : Nat} (earlier : Sent f m a b) (later : Sent f n c d)
    (apart : b ≤ c) : m.IsBefore n := by
  have filled := earlier.filled
  have filledLater := later.filled
  have low := earlier.low
  have inside := later.inside
  rcases Nat.lt_trichotomy m.row.toNat n.row.toNat with less | same | greater
  · exact Or.inl (UInt32.lt_iff_toNat_lt.mpr less)
  · refine Or.inr ⟨UInt32.toNat_inj.mp same, ?_⟩
    have whole := f.unitsOf_bytesBetween (a := f.rowStart m.row.toNat) low (Nat.le_of_lt filled)
      read.boundary_rowStart earlier.first
    have between := f.unitsOf_bytesBetween (a := f.rowStart m.row.toNat) (by omega) apart read.boundary_rowStart
      earlier.last
    rw [earlier.column, earlier.length, later.column, ← same]
    omega
  · have behind := read.rowStop_lt_rowStart greater earlier.known
    omega

/-- What editors may rely on: every mark has a width and lies in a row of the document, no mark reaches into the next
one, and the numbers stand for what the legend declares. -/
structure WellFormed (f : SourceFile) (ms : List Mark) : Prop where
  filled : ∀ m ∈ ms, 1 ≤ m.length.toNat
  known : ∀ m ∈ ms, m.row.toNat < f.lineCount
  inside : ∀ m ∈ ms, m.column.toNat + m.length.toNat ≤ unitsOf (f.line m.row)
  ordered : ms.Pairwise Mark.IsBefore
  kinds : ∀ m ∈ ms, m.kind.toNat < legendKinds.length
  modifiers : ∀ m ∈ ms, m.modifiers.toNat < 2 ^ legendModifiers.length

theorem Sent.filled_units {m : Mark} {a b : Nat} (sent : Sent f m a b) (read : f.IsRead) : 1 ≤ m.length.toNat := by
  rw [sent.length]
  apply SourceFile.unitsOf_pos
  rw [← List.length_pos_iff, f.length_bytesBetween (Nat.le_trans sent.inside read.rowStop_le_size)]
  exact Nat.sub_pos_of_lt sent.filled

theorem Sent.inside_line {m : Mark} {a b : Nat} (sent : Sent f m a b) (read : f.IsRead) :
    m.column.toNat + m.length.toNat ≤ unitsOf (f.line m.row) := by
  have filled := sent.filled
  have low := sent.low
  have toMark := f.unitsOf_bytesBetween (a := f.rowStart m.row.toNat) low (Nat.le_of_lt filled)
    read.boundary_rowStart sent.first
  have toEnd := f.unitsOf_bytesBetween (a := f.rowStart m.row.toNat) (by omega) sent.inside
    read.boundary_rowStart sent.last
  rw [sent.column, sent.length, SourceFile.line, SourceFile.IsRead.lineBounds_eq sent.known]
  dsimp only
  omega

theorem wellFormed_of_run (read : f.IsRead) {ms : List Mark} {low high : Nat} (run : Run (Sent f) low ms high) :
    WellFormed f ms where
  filled := by
    intro m member
    obtain ⟨_, _, _, sent⟩ := run.exists_of_mem member
    exact sent.filled_units read
  known := by
    intro m member
    obtain ⟨_, _, _, sent⟩ := run.exists_of_mem member
    exact Nat.lt_succ_of_le sent.known
  inside := by
    intro m member
    obtain ⟨_, _, _, sent⟩ := run.exists_of_mem member
    exact sent.inside_line read
  ordered := run.pairwise fun _ _ _ _ _ _ earlier later apart => earlier.isBefore read later apart
  kinds := by
    intro m member
    obtain ⟨_, _, _, sent⟩ := run.exists_of_mem member
    exact sent.declared.1
  modifiers := by
    intro m member
    obtain ⟨_, _, _, sent⟩ := run.exists_of_mem member
    exact sent.declared.2

/-- Whether the differences between two marks are no negative numbers. -/
def Follows (previous m : Mark) : Prop :=
  previous.row ≤ m.row ∧ (m.row = previous.row → previous.column ≤ m.column)

theorem Mark.IsBefore.follows {m n : Mark} (before : m.IsBefore n) : Follows m n := by
  rcases before with less | ⟨same, apart⟩
  · rw [UInt32.lt_iff_toNat_lt] at less
    refine ⟨UInt32.le_iff_toNat_le.mpr (Nat.le_of_lt less), fun same => ?_⟩
    rw [same] at less
    exact absurd less (Nat.lt_irrefl _)
  · exact ⟨same ▸ UInt32.le_refl _, fun _ => UInt32.le_iff_toNat_le.mpr (by omega)⟩

theorem follows_origin (m : Mark) : Follows {} m :=
  ⟨UInt32.le_iff_toNat_le.mpr (Nat.zero_le _), fun _ => UInt32.le_iff_toNat_le.mpr (Nat.zero_le _)⟩

/-- The marks that an editor is sent for a document are well formed, whatever its bytes and the limit on nesting, and
none of the differences that they are sent as wraps around. -/
theorem editorMarks_wellFormed (path text : Bytes) (isVirtual : Bool) (maxDepth : Int)
    (small : (SourceFile.ofBytes path text isVirtual).size < 2 ^ 32) :
    let f := SourceFile.ofBytes path text isVirtual
    let ms := editorMarks f (Parser.parse f maxDepth)
    WellFormed f ms ∧ editorWords f (Parser.parse f maxDepth) = encode ms ∧ ({} :: ms).IsChain Follows := by
  intro f ms
  have read := SourceFile.isRead_ofBytes small
  have wellFormed := wellFormed_of_run read (run_editorMarks read maxDepth)
  refine ⟨wellFormed, rfl, ?_⟩
  rw [List.isChain_cons]
  exact ⟨fun m _ => follows_origin m, (wellFormed.ordered.imp Mark.IsBefore.follows).isChain⟩

/-- A document with characters of several bytes in a comment on two rows, and a byte that is no character. -/
def sampleComment : Bytes :=
  Bytes.ofString "/* 😀\n é */ service ñ \x7b" ++ [0x80] ++ Bytes.ofString "\x7d"

theorem editorMarks_wellFormed_sampleComment :
    let f := SourceFile.ofBytes [] sampleComment true
    f.size < 2 ^ 32 ∧ WellFormed f (editorMarks f (Parser.parse f 0)) := by
  intro f
  have small : f.size < 2 ^ 32 := by decide +kernel
  exact ⟨small, (editorMarks_wellFormed [] sampleComment true 0 small).1⟩

end Highlight

end SecurityRules
