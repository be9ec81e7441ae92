import Mathlib
import SecurityRules.Diagnostic
import SecurityRules.Proofs.Disk.Paths
import SecurityRules.Proofs.Text.Fields
import SecurityRules.Proofs.Text.Order

/-!
# The short report is canonical

A finding says where it is, how bad it is, of what kind it is and what was found, on one line; a note says the same with
the code of its finding. All that a line shows besides the path is its place in the order of lines. So two lines at the
same place are the same line, findings have only one sorted list of lines, and the report does not depend on the order in
which they were found. No line holds a line break, so the lines can be read off the report.
-/

namespace SecurityRules

namespace Bytes

variable {s t : Bytes}

/-- A text without line feeds and carriage returns. -/
def Unbroken (s : Bytes) : Prop := ∀ b ∈ s, b ≠ 0x0A ∧ b ≠ 0x0D

instance (s : Bytes) : Decidable (Unbroken s) := List.decidableBAll _ s

@[simp] theorem unbroken_append : Unbroken (s ++ t) ↔ Unbroken s ∧ Unbroken t := List.forall_mem_append

theorem unbroken_decimal (n : Nat) : Unbroken (decimal n) := by
  intro b member
  have digit := isDigit_of_mem_decimal member
  constructor
  · rintro rfl
    exact absurd digit (by decide)
  · rintro rfl
    exact absurd digit (by decide)

/-- Texts without the separator are the pieces of what they are joined to. -/
theorem splitOn_join {separator : UInt8} {parts : List Bytes} (filled : parts ≠ [])
    (whole : ∀ part ∈ parts, separator ∉ part) : splitOn separator (join [separator] parts) = parts := by
  induction parts with
  | nil => exact absurd rfl filled
  | cons part rest ih =>
    have first := splitOn_of_notMem (whole part (List.mem_cons_self ..))
    cases rest with
    | nil => exact first
    | cons next rest =>
      have others := ih (List.cons_ne_nil _ _) fun p member => whole p (List.mem_cons_of_mem _ member)
      rw [join, List.append_assoc, List.singleton_append, splitOn_append, first, others]
      rfl

end Bytes

namespace ShortReport

open Bytes (Unbroken numbers)

variable {a b l : Line} {path : Bytes} {withNotes : Bool} {diagnostics others : List Diagnostic}

/-! ## The order of lines -/

namespace Line

/-- The place of a line in the report: by line, by column, by the label of the severity, by code, by message. -/
def place (l : Line) : Nat ×ₗ Nat ×ₗ List Nat ×ₗ List Nat ×ₗ List Nat :=
  toLex (l.line.toNat, toLex (l.column.toNat, toLex (numbers l.severity, toLex (numbers l.code, numbers l.message))))

/-- Lines at the same place show the same. -/
theorem place_inj : a.place = b.place ↔ a = b := by
  cases a
  cases b
  simp [place, UInt32.toNat_inj, Bytes.numbers_inj]

theorem before_iff : a.before b = true ↔ a.place < b.place := by
  simp only [place, Prod.Lex.toLex_lt_toLex, UInt32.toNat_inj, Bytes.numbers_inj, ← UInt32.lt_iff_toNat_lt,
    ← Bytes.before_iff]
  unfold before
  split_ifs <;> simp_all [Bytes.before_irrefl]

theorem notBefore_iff : (!b.before a) = true ↔ a.place ≤ b.place := by
  rw [Bool.not_eq_true', ← Bool.not_eq_true, before_iff, not_lt]

end Line

/-- The lines of findings as they are reported. -/
def sortedLines (withNotes : Bool) (diagnostics : List Diagnostic) : List Line :=
  (diagnostics.flatMap (linesOf withNotes)).mergeSort fun a b => !b.before a

theorem render_eq : render diagnostics path withNotes =
    Bytes.join "\n" ((sortedLines withNotes diagnostics).map (Line.render path)) := rfl

theorem pairwise_sortedLines :
    (sortedLines withNotes diagnostics).Pairwise fun a b => a.place ≤ b.place := by
  refine (List.pairwise_mergeSort (fun a b c first second => ?_) (fun a b => ?_) _).imp Line.notBefore_iff.mp
  · rw [Line.notBefore_iff] at first second ⊢
    exact le_trans first second
  · rw [Bool.or_eq_true, Line.notBefore_iff, Line.notBefore_iff]
    exact le_total _ _

/-- The same findings in another order have the same lines in the same order. -/
theorem sortedLines_of_perm (same : others.Perm diagnostics) :
    sortedLines withNotes others = sortedLines withNotes diagnostics := by
  refine List.Perm.eq_of_pairwise ?_ pairwise_sortedLines pairwise_sortedLines ?_
  · intro a b _ _ first second
    exact Line.place_inj.mp (le_antisymm first second)
  · calc
      (sortedLines withNotes others).Perm (others.flatMap (linesOf withNotes)) := List.mergeSort_perm _ _
      List.Perm _ (diagnostics.flatMap (linesOf withNotes)) := same.flatMap_right _
      List.Perm _ (sortedLines withNotes diagnostics) := (List.mergeSort_perm _ _).symm

/-! ## What a line holds -/

/-- A message with a blank in the place of each line break. -/
def joinLines : Bytes → Bytes
  | [] => []
  | 0x0D :: 0x0A :: rest => 0x20 :: joinLines rest
  | b :: rest => (if b = 0x0D ∨ b = 0x0A then 0x20 else b) :: joinLines rest

theorem oneLine_eq (message : Bytes) : oneLine message = Text.trimBlanks (joinLines message) := by
  have pair : ("\r\n" : Bytes) = [0x0D, 0x0A] := rfl
  rw [oneLine, pair]
  congr 1
  fun_induction joinLines message with
  | case1 => rw [Bytes.replaceAll, List.map_nil]
  | case2 rest ih =>
    have broken : List.isPrefixOf [0x0D, 0x0A] (0x0D :: 0x0A :: rest) = true := by simp
    rw [Bytes.replaceAll, if_pos broken, List.map_append, ← ih]
    rfl
  | case3 b rest other ih =>
    have whole : List.isPrefixOf [0x0D, 0x0A] (b :: rest) = false := by
      rw [Bool.eq_false_iff]
      intro broken
      obtain ⟨behind, same⟩ := List.isPrefixOf_iff_prefix.mp broken
      obtain ⟨first, second⟩ := List.cons.inj same
      exact other behind first.symm second.symm
    rw [Bytes.replaceAll, whole, if_neg Bool.false_ne_true, List.map_cons, ih]
    simp

/-- What the report says at a place: of a finding with the label of its severity, of a note with the word `note`. -/
def remark (start : Point) (label : Bytes) (code : Code) (message : Bytes) : Line where
  line := start.row + 1
  column := start.column + 1
  severity := label
  code := code.id
  message := Text.trimBlanks (joinLines message)

/-- What the report says of a finding, and of its notes if they are asked for. -/
def remarks (withNotes : Bool) (d : Diagnostic) : List Line :=
  remark d.span.start d.severity.label d.code d.message ::
    if withNotes then d.notes.map fun n => remark n.span.start "note" d.code n.message else []

theorem linesOf_eq (withNotes : Bool) (d : Diagnostic) : linesOf withNotes d = remarks withNotes d := by
  simp only [linesOf, remarks, lineOf, remark, oneLine_eq]

theorem unbroken_oneLine (message : Bytes) : Unbroken (oneLine message) := by
  intro b member
  obtain ⟨c, -, rfl⟩ := List.mem_map.mp (Text.mem_of_mem_trimBlanks member)
  split
  · decide
  · rename_i other
    simpa [and_comm] using other

theorem unbroken_id (code : Code) : Unbroken code.id := by
  have digits := Bytes.unbroken_decimal code.number.toNat
  unfold Code.id
  dsimp only
  split
  · exact Bytes.unbroken_append.mpr ⟨by decide, digits⟩
  · exact Bytes.unbroken_append.mpr ⟨by decide, digits⟩
  · exact Bytes.unbroken_append.mpr ⟨by decide, digits⟩
  · decide

theorem unbroken_label (severity : Severity) : Unbroken (Bytes.ofString severity.label) := by
  unfold Severity.label
  split_ifs <;> decide

/-- What a line shows besides the path holds no line break. -/
theorem unbroken_of_mem_linesOf {d : Diagnostic} (member : l ∈ linesOf withNotes d) :
    Unbroken l.severity ∧ Unbroken l.code ∧ Unbroken l.message := by
  rw [linesOf, List.mem_cons] at member
  rcases member with rfl | note
  · exact ⟨unbroken_label _, unbroken_id _, unbroken_oneLine _⟩
  · split at note
    · obtain ⟨n, -, rfl⟩ := List.mem_map.mp note
      exact ⟨show Unbroken "note" by decide, unbroken_id _, unbroken_oneLine _⟩
    · exact absurd note List.not_mem_nil

theorem unbroken_render (whole : Unbroken path) (member : l ∈ sortedLines withNotes diagnostics) :
    Unbroken (l.render path) := by
  obtain ⟨d, -, inside⟩ := List.mem_flatMap.mp (List.mem_mergeSort.mp member)
  obtain ⟨severity, code, message⟩ := unbroken_of_mem_linesOf inside
  have signs : Unbroken ":" ∧ Unbroken ": " ∧ Unbroken " " := by decide
  simp [Line.render, whole, severity, code, message, signs, Bytes.unbroken_decimal]

theorem length_linesOf (d : Diagnostic) :
    (linesOf withNotes d).length = 1 + if withNotes then d.notes.length else 0 := by
  cases withNotes <;> simp [linesOf, Nat.add_comm]

theorem length_sortedLines : (sortedLines withNotes diagnostics).length =
    diagnostics.length + if withNotes then (diagnostics.map (·.notes.length)).sum else 0 := by
  rw [sortedLines, List.length_mergeSort, List.length_flatMap]
  induction diagnostics with
  | nil => cases withNotes <;> rfl
  | cons d rest ih =>
    rw [List.map_cons, List.sum_cons, ih, length_linesOf, List.length_cons]
    cases withNotes <;> simp <;> omega

/-! ## The report -/

/-- The report of findings has a line for each of them, and one for each note if notes are asked for. Each line shows the
path, where it is, the label of the severity, the code and the message, and holds no line break. The lines stand in
order, and the report is the same for the findings in any other order. -/
theorem render_canonical (diagnostics : List Diagnostic) (path : Bytes) (withNotes : Bool) (whole : Unbroken path) :
    let shown (l : Line) : Bytes := path ++ ":" ++ Bytes.decimal l.line.toNat ++ ":" ++
      Bytes.decimal l.column.toNat ++ ": " ++ l.severity ++ " " ++ l.code ++ " " ++ l.message
    ∃ lines : List Line, lines.Perm (diagnostics.flatMap (remarks withNotes)) ∧
      lines.length = diagnostics.length + (if withNotes then (diagnostics.map (·.notes.length)).sum else 0) ∧
      lines.Pairwise (fun a b => a.place ≤ b.place) ∧ (∀ l ∈ lines, Unbroken (shown l)) ∧
      render diagnostics path withNotes = Bytes.join "\n" (lines.map shown) ∧
      (diagnostics ≠ [] → Bytes.splitOn 0x0A (render diagnostics path withNotes) = lines.map shown) ∧
      ∀ others, others.Perm diagnostics → render others path withNotes = render diagnostics path withNotes := by
  intro shown
  have same : diagnostics.flatMap (remarks withNotes) = diagnostics.flatMap (linesOf withNotes) :=
    List.flatMap_congr fun d _ => (linesOf_eq withNotes d).symm
  refine ⟨sortedLines withNotes diagnostics, same ▸ List.mergeSort_perm _ _, length_sortedLines, pairwise_sortedLines,
    fun l => unbroken_render whole, render_eq, fun filled => ?_, fun others same => ?_⟩
  · have some := List.length_pos_of_ne_nil filled
    apply Bytes.splitOn_join
    · intro none
      have none : sortedLines withNotes diagnostics = [] := List.map_eq_nil_iff.mp none
      have length := congrArg List.length none
      rw [length_sortedLines, List.length_nil] at length
      omega
    · intro text member feed
      obtain ⟨l, inside, rfl⟩ := List.mem_map.mp member
      exact (unbroken_render whole inside 0x0A feed).1 rfl
  · rw [render_eq, render_eq, sortedLines_of_perm same]

/-- Two findings: a warning, and an error in front of it with a message of two lines and a note in front of both. -/
def sampleFindings : List Diagnostic :=
  [⟨.warning, .unsupportedVersion, "another", ⟨⟨1, 0⟩, ⟨1, 0⟩⟩, []⟩,
    ⟨.error, .missingElement, "first line\nsecond", ⟨⟨0, 4⟩, ⟨0, 4⟩⟩, [⟨⟨⟨0, 0⟩, ⟨0, 0⟩⟩, "note line"⟩]⟩]

theorem render_canonical_sampleFindings : Unbroken "a.rules" ∧
    render sampleFindings.reverse "a.rules" true = render sampleFindings "a.rules" true ∧
    Bytes.splitOn 0x0A (render sampleFindings "a.rules" true) =
      (["a.rules:1:1: note SYN2002 note line", "a.rules:1:5: error SYN2002 first line second",
        "a.rules:2:1: warning SYN2202 another"] : List Bytes) ∧
    ∃ lines : List Line, lines.Perm (sampleFindings.flatMap (remarks true)) ∧ lines.length = 3 := by
  have whole : Unbroken "a.rules" := by decide
  obtain ⟨lines, same, length, -, -, -, -, others⟩ := render_canonical sampleFindings "a.rules" true whole
  exact ⟨whole, others _ (List.reverse_perm _), by cbv, lines, same, length⟩

end ShortReport

end SecurityRules
