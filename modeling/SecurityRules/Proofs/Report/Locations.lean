import SecurityRules.Proofs.Outline.Ranges
import SecurityRules.Proofs.SourceFile.Positions
import SecurityRules.Proofs.Text.Boundary
import SecurityRules.Report.Machine

/-!
# Where trees are said to be

The span of a tree ends with the first byte of its last character, and what an editor or a program is told ends behind
that character. In a well-formed document this is the end of the tree: a placeholder at the end of a tree stands where
the tree in front of it ends, so the last character of the tree that is not empty is the last one in front of its end.
-/

namespace SecurityRules

open Utf8 (Boundary IsValid)

variable {f : SourceFile}

/-! ## Last characters -/

namespace Extent

/-- The ends of an extent are told as they are, and if something stands there its last point is that of the last
character in front of its end. -/
structure Closes (f : SourceFile) (e : Extent) : Prop where
  startPoint : e.startPoint = f.pointAt e.start
  stopPoint : e.stopPoint = f.pointAt e.stop
  stop : Boundary f.content e.stop
  last : e.start < e.stop →
    ∃ o, e.lastPoint = f.pointAt o ∧ IsGreatest {m | Boundary f.content m ∧ m < e.stop} o

variable {e next : Extent} {a b : Nat}

/-- In a well-formed text the last character of a part starts at the last boundary in front of the end of the part. -/
theorem isGreatest_lastCharacter (valid : IsValid f.content) (first : Boundary f.content a) (less : a < b)
    (inside : b ≤ f.size) :
    IsGreatest {m | Boundary f.content m ∧ m < b} (lastCharacter a (f.bytesBetween a b)) := by
  have length := SourceFile.length_bytesBetween (f := f) (a := a) inside
  obtain ⟨low, high⟩ := lastCharacter_le a (f.bytesBetween a b)
  refine ⟨⟨boundary_lastCharacter first, ?_⟩, fun m ⟨here, before⟩ => ?_⟩
  · rw [length] at high
    omega
  · rcases Nat.lt_or_ge m a with outside | within
    · exact Nat.le_trans (Nat.le_of_lt outside) low
    · obtain ⟨c, found⟩ : ∃ c, f.content[m]? = some c :=
        ⟨_, List.getElem?_eq_getElem (Nat.lt_of_lt_of_le before inside)⟩
      have between : (f.bytesBetween a b)[m - a]? = some c := by
        rw [SourceFile.bytesBetween, List.getElem?_take_of_lt (by omega), List.getElem?_drop,
          Nat.add_sub_cancel' within]
        exact found
      have reached := le_lastCharacter between ((valid.boundary_iff found).mp here)
      unfold lastCharacter at reached ⊢
      omega

theorem closes_ofRange (valid : IsValid f.content) (first : Boundary f.content a) (last : Boundary f.content b) :
    Closes f (ofRange f a b) :=
  ⟨rfl, rfl, last, fun filled => ⟨_, rfl, isGreatest_lastCharacter valid first filled last.le_length⟩⟩

namespace Closes

theorem first (closes : Closes f e) : Closes f e.first where
  startPoint := closes.startPoint
  stopPoint := closes.stopPoint
  stop := closes.stop
  last := by
    intro filled
    have other : ¬e.isEmpty = true := by
      rw [isEmpty_iff]
      exact Nat.ne_of_lt filled
    rw [Extent.first, if_neg other]
    exact closes.last filled

/-- What is empty does not move the last character, if it stands where what is in front of it ends. -/
theorem extend (closes : Closes f e) (closesNext : Closes f next) (forward : next.start ≤ next.stop)
    (snug : next.isEmpty = true → e.stop = next.start) : Closes f (e.extend next) where
  startPoint := closes.startPoint
  stopPoint := closesNext.stopPoint
  stop := closesNext.stop
  last := by
    intro filled
    have filled : e.start < next.stop := filled
    show ∃ o, (if next.isEmpty then e.lastPoint else next.lastPoint) = f.pointAt o ∧
      IsGreatest {m | Boundary f.content m ∧ m < next.stop} o
    by_cases empty : next.isEmpty = true
    · have same : e.stop = next.stop := (snug empty).trans (isEmpty_iff.mp empty)
      rw [if_pos empty, ← same]
      exact closes.last (same ▸ filled)
    · rw [if_neg empty]
      rw [isEmpty_iff] at empty
      exact closesNext.last (Nat.lt_of_le_of_ne forward empty)

end Closes

end Extent

/-! ## The extents of trees -/

namespace ParseTree

open Extent (Closes)

theorem closes_extentOf {cs : List ParseTree} (grown : cs ≠ []) (each : ∀ c ∈ cs, Closes f c.extent)
    (forward : ∀ c ∈ cs, c.start ≤ c.stop) (snug : cs.IsChain fun a b => b.isEmpty = true → a.stop = b.start) :
    Closes f (extentOf cs) := by
  induction cs using List.reverseRecOn with
  | nil => exact absurd rfl grown
  | append_singleton cs c ih =>
    have here : c ∈ cs ++ [c] := List.mem_append_right _ (List.mem_singleton_self c)
    cases cs with
    | nil => exact (each c here).first
    | cons first rest =>
      have full : first :: rest ≠ [] := List.cons_ne_nil _ _
      obtain ⟨snug, -, between⟩ := List.isChain_append.mp snug
      have front := ih full (fun d member => each d (List.mem_append_left _ member))
        (fun d member => forward d (List.mem_append_left _ member)) snug
      rw [extentOf_concat full]
      refine front.extend (each c here) (forward c here) fun empty => ?_
      have last := List.getLast?_eq_some_getLast full
      rw [extentOf_stop last]
      exact between _ last c rfl empty

theorem Regular.closes {t : ParseTree} (valid : IsValid f.content) (regular : Regular f t) : Closes f t.extent := by
  induction t using induct with
  | step t ih =>
    by_cases childless : t.children = []
    · rw [(regular.sound.leaf childless).1]
      exact Extent.closes_ofRange valid regular.edges.1.boundary regular.edges.2.boundary
    · rw [regular.sound.whole childless]
      exact closes_extentOf childless (fun c child => ih c child (regular.of_child child))
        (fun c child => (regular.of_child child).sound.forward) regular.sound.snug

theorem closes_of_mem_parse (valid : IsValid f.content) {maxDepth : Int} {n : ParseTree}
    (member : n ∈ (Parser.parse f maxDepth).nodes) : Closes f n.extent ∧ n.start ≤ n.stop := by
  rcases mem_nodes.mp member with rfl | ⟨c, child, below⟩
  · rw [ParseTree.start, ParseTree.stop, Parser.extent_parse]
    exact ⟨Extent.closes_ofRange valid (.zero _) (.length _), Nat.zero_le _⟩
  · have regular := Regular.of_mem (Parser.sound_parse f maxDepth c child) below
    exact ⟨regular.closes valid, regular.sound.forward⟩

end ParseTree

/-! ## Spans opened again -/

namespace SourceFile

variable {o n : Nat}

/-- Only at the end of a row there is no character. -/
theorem eq_rowStop_of_behind (read : f.IsRead) (inside : o ≤ f.size) (stays : f.behind o ≤ o) :
    f.rowStop (f.rowOf o) = o := by
  have reached := le_rowStop_rowOf inside
  have stop : f.rowStop (f.rowOf o) ≤ f.size := read.rowStop_le_size
  have length := length_bytesBetween (f := f) (a := o) stop
  rw [behind, characterSize_pointAt read inside] at stays
  cases row : f.bytesBetween o (f.rowStop (f.rowOf o)) with
  | nil =>
    rw [row, List.length_nil] at length
    omega
  | cons b rest =>
    rw [row] at stays
    have positive := Utf8.size_pos b rest
    dsimp only at stays
    omega

/-- Behind the last character in front of an offset there is that offset, unless the character ends a row. -/
theorem behind_eq_of_isGreatest (read : f.IsRead) (last : IsGreatest {m | Boundary f.content m ∧ m < n} o)
    (there : Boundary f.content n) (other : f.content[n - 1]? ≠ some 0x0A) : f.behind o = n := by
  obtain ⟨⟨here, before⟩, greatest⟩ := last
  obtain ⟨-, -, next, nearest⟩ := behind_spec read here
  by_contra differ
  -- No boundary lies between the character and the offset, so what is at the offset is the end of a row.
  have stays : f.behind o ≤ o := greatest ⟨next, Nat.lt_of_le_of_ne (nearest n before there) differ⟩
  have ends := eq_rowStop_of_behind read here.le_length stays
  have size := there.le_length
  rw [rowStop] at ends
  cases found : f.lineBreaks[f.rowOf o]? with
  | none =>
    rw [found] at ends
    have whole : f.size = o := ends
    exact absurd before (Nat.not_lt.mpr (whole ▸ size))
  | some b =>
    rw [found] at ends
    obtain rfl : b = o := ends
    have feed := read.feeds b (List.mem_of_getElem? found)
    have behind : ¬b + 1 < n := fun less =>
      Nat.not_succ_le_self b (greatest ⟨Boundary.behind_isAscii feed rfl, less⟩)
    have same : n - 1 = b := by omega
    exact other (same ▸ feed)

end SourceFile

/-- The location of a closed span, in offsets. -/
theorem Report.locationValue_pointAt {a o : Nat} (read : f.IsRead) (inside : a ≤ f.size) (last : Boundary f.content o)
    (options : MachineOptions) (shown : Bytes) :
    ∃ rows, locationValue options shown (some f) ⟨f.pointAt a, f.pointAt o⟩ =
      .fields ([("file", .string shown), ("start_byte", .ofNat a), ("end_byte", .ofNat (f.behind o))] ++ rows) := by
  have stop : f.behind o ≤ f.size := (SourceFile.behind_spec read last).2.2.1.le_length
  have sum : UInt32.ofNat o + UInt32.ofNat (f.characterSize (f.pointAt o)) = UInt32.ofNat (f.behind o) := by
    rw [SourceFile.behind, UInt32.ofNat_add]
  simp only [locationValue, read.offset_pointAt inside, read.offset_pointAt last.le_length, sum, Json.ofWord,
    read.toNat_offset stop]
  exact ⟨_, rfl⟩

namespace ParseTree

open Server (editorRange editorPosition)

/-- What an editor and a program are told of a tree that is not empty and does not end with a line feed is where the
tree stands: it starts where the tree starts, and it ends where the tree ends. -/
theorem told_exactly (path text : Bytes) (isVirtual : Bool) (maxDepth : Int)
    (small : (SourceFile.ofBytes path text isVirtual).size < 2 ^ 32)
    (valid : IsValid (SourceFile.ofBytes path text isVirtual).content) :
    let f := SourceFile.ofBytes path text isVirtual
    ∀ n ∈ (Parser.parse f maxDepth).nodes, n.isEmpty = false → f.content[n.stop - 1]? ≠ some 0x0A →
      n.extent.startPoint = f.pointAt n.start ∧ n.extent.stopPoint = f.pointAt n.stop ∧
      editorRange f n.span = ⟨editorPosition f n.extent.startPoint, editorPosition f n.extent.stopPoint⟩ ∧
      ∀ options shown, ∃ rows, Report.locationValue options shown (some f) n.span =
        .fields ([("file", .string shown), ("start_byte", .ofNat n.start), ("end_byte", .ofNat n.stop)] ++ rows) := by
  intro f n member filled other
  have read : f.IsRead := SourceFile.isRead_ofBytes small
  obtain ⟨closes, forward⟩ := closes_of_mem_parse valid member
  have differ : n.start ≠ n.stop := fun same => Bool.false_ne_true (filled.symm.trans (isEmpty_iff.mpr same))
  obtain ⟨o, lastPoint, last⟩ := closes.last (Nat.lt_of_le_of_ne forward differ)
  have here : Boundary f.content o := last.1.1
  have behind : f.behind o = n.stop := SourceFile.behind_eq_of_isGreatest read last closes.stop other
  have span : n.span = ⟨f.pointAt n.start, f.pointAt o⟩ := by
    have filled : ¬n.extent.isEmpty = true := by
      rw [Bool.not_eq_true]
      exact filled
    rw [ParseTree.span, Extent.span, if_neg filled, closes.startPoint, lastPoint]
    rfl
  refine ⟨closes.startPoint, closes.stopPoint, ?_, fun options shown => ?_⟩
  · rw [span, Server.editorRange_pointAt read here, behind, closes.startPoint, closes.stopPoint]
    rfl
  · rw [span, ← behind]
    exact Report.locationValue_pointAt read (Nat.le_trans forward closes.stop.le_length) here options shown

/-- A match that has just been begun and ends with a character of two bytes. Its braces are placeholders. -/
def sampleAccent : Bytes := Bytes.ofString "service a \x7b match /é"

theorem told_exactly_sampleAccent :
    let f := SourceFile.ofBytes [] sampleAccent true
    f.size < 2 ^ 32 ∧ IsValid f.content ∧ ∃ n ∈ (Parser.parse f 256).nodes, n.kind = .matchDef ∧ n.isEmpty = false ∧
      f.content[n.stop - 1]? ≠ some 0x0A ∧ n.hasError = true ∧ n.stop = 21 ∧ n.extent.lastPoint = ⟨0, 19⟩ ∧
      editorRange f n.span = ⟨editorPosition f n.extent.startPoint, editorPosition f n.extent.stopPoint⟩ := by
  intro f
  have small : f.size < 2 ^ 32 := by decide +kernel
  have valid : IsValid f.content := by decide +kernel
  have found : ∃ n ∈ (Parser.parse f 256).nodes, n.kind = .matchDef ∧ n.isEmpty = false ∧
      f.content[n.stop - 1]? ≠ some 0x0A ∧ n.hasError = true ∧ n.stop = 21 ∧ n.extent.lastPoint = ⟨0, 19⟩ := by
    decide +kernel
  obtain ⟨n, member, kind, filled, other, flagged, stop, last⟩ := found
  have told := told_exactly [] sampleAccent true 256 small valid n member filled other
  exact ⟨small, valid, n, member, kind, filled, other, flagged, stop, last, told.2.2.1⟩

end ParseTree

end SecurityRules
