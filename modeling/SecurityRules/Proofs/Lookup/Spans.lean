import SecurityRules.Proofs.Lookup.Points
import SecurityRules.Proofs.ParseTree.Sound

/-!
# Spans of parse trees

The span of a tree reaches from its start to the last character in it. It contains the spans of the trees in it
that are not empty, and no point of the span of a tree beside it.
-/

namespace SecurityRules

variable {f : SourceFile}

/-- The points of an extent are those of its start and of the start of its last character. -/
structure Extent.Ends (f : SourceFile) (e : Extent) (last : Nat) : Prop where
  startPoint : e.startPoint = f.pointAt e.start
  lastPoint : e.lastPoint = f.pointAt last
  low : e.start ≤ last
  high : last = e.start ∨ last < e.stop

namespace Extent

variable {e : Extent} {last : Nat}

theorem isEmpty_iff : e.isEmpty = true ↔ e.start = e.stop := by
  simp [isEmpty]

theorem Ends.eq_start (ends : Ends f e last) (empty : e.start = e.stop) : last = e.start := by
  have := ends.low
  have := ends.high
  omega

/-- The span of an extent in offsets. -/
theorem Ends.span_eq (ends : Ends f e last) : e.span = ⟨f.pointAt e.start, f.pointAt last⟩ := by
  unfold span
  split
  · rename_i empty
    rw [ends.eq_start (isEmpty_iff.mp empty), ends.startPoint]
  · rw [ends.startPoint, ends.lastPoint]

theorem Ends.first (ends : Ends f e last) : Ends f e.first last where
  startPoint := ends.startPoint
  lastPoint := by
    unfold Extent.first
    split
    · rename_i empty
      rw [ends.eq_start (isEmpty_iff.mp empty)]
      exact ends.startPoint
    · exact ends.lastPoint
  low := ends.low
  high := ends.high

theorem Ends.extend (ends : Ends f e last) {next : Extent} {lastNext : Nat} (endsNext : Ends f next lastNext)
    (forward : e.start ≤ e.stop) (behind : e.stop ≤ next.start) (forwardNext : next.start ≤ next.stop) :
    Ends f (e.extend next) (if next.isEmpty then last else lastNext) := by
  have low := ends.low
  have lowNext := endsNext.low
  have high := ends.high
  have highNext := endsNext.high
  refine ⟨ends.startPoint, ?_, ?_, ?_⟩
  · unfold Extent.extend
    split
    · exact ends.lastPoint
    · exact endsNext.lastPoint
  · show e.start ≤ _
    split <;> omega
  · show _ = e.start ∨ _ < next.stop
    split
    · omega
    · rename_i filled
      rw [isEmpty_iff] at filled
      omega

theorem lastCharacter_le (start : Nat) (text : Bytes) :
    start ≤ lastCharacter start text ∧
      (lastCharacter start text = start ∨ lastCharacter start text < start + text.length) := by
  have shorter := (List.dropWhile_sublist (p := Utf8.isContinuation) (l := (text.drop 1).reverse)).length_le
  rw [List.length_reverse, List.length_drop] at shorter
  unfold lastCharacter
  omega

theorem ends_ofRange (f : SourceFile) (start stop : Nat) :
    Ends f (ofRange f start stop) (lastCharacter start (f.bytesBetween start stop)) := by
  obtain ⟨low, high⟩ := lastCharacter_le start (f.bytesBetween start stop)
  refine ⟨rfl, rfl, low, ?_⟩
  have short : (f.bytesBetween start stop).length ≤ stop - start := by
    rw [SourceFile.bytesBetween, List.length_take]
    exact Nat.min_le_left _ _
  show _ = start ∨ _ < stop
  omega

end Extent

namespace ParseTree

/-- All trees from a tree down are sound and shaped. -/
def Regular (f : SourceFile) (t : ParseTree) : Prop := ∀ n ∈ t.nodes, n.Sound f ∧ n.Shaped

theorem nodes_trans {n u t : ParseTree} (inner : n ∈ u.nodes) (outer : u ∈ t.nodes) : n ∈ t.nodes := by
  induction t using induct with
  | step t ih =>
    rcases mem_nodes.mp outer with rfl | ⟨c, child, inside⟩
    · exact inner
    · exact mem_nodes.mpr (Or.inr ⟨c, child, ih c child inside⟩)

theorem mem_nodes_of_mem_children {c t : ParseTree} (child : c ∈ t.children) : c ∈ t.nodes :=
  mem_nodes.mpr (Or.inr ⟨c, child, c.self_mem_nodes⟩)

/-- Different entries of an ordered list are ordered one way or the other. -/
theorem pairwise_of_ne {α : Type} {R : α → α → Prop} {l : List α} (ordered : l.Pairwise R) {a b : α}
    (memberA : a ∈ l) (memberB : b ∈ l) (differ : a ≠ b) : R a b ∨ R b a := by
  obtain ⟨i, insideA, rfl⟩ := List.getElem_of_mem memberA
  obtain ⟨j, insideB, rfl⟩ := List.getElem_of_mem memberB
  have ordered := List.pairwise_iff_getElem.mp ordered
  rcases Nat.lt_trichotomy i j with less | rfl | greater
  · exact Or.inl (ordered i j insideA insideB less)
  · exact absurd rfl differ
  · exact Or.inr (ordered j i insideB insideA greater)

namespace Regular

variable {t : ParseTree}

theorem sound (regular : Regular f t) : t.Sound f := (regular t t.self_mem_nodes).1

theorem shaped (regular : Regular f t) : t.Shaped := (regular t t.self_mem_nodes).2

theorem of_mem (regular : Regular f t) {u : ParseTree} (inside : u ∈ t.nodes) : Regular f u :=
  fun n member => regular n (nodes_trans member inside)

theorem of_child (regular : Regular f t) {c : ParseTree} (child : c ∈ t.children) : Regular f c :=
  regular.of_mem (mem_nodes_of_mem_children child)

theorem inside_child (regular : Regular f t) {c : ParseTree} (child : c ∈ t.children) :
    t.start ≤ c.start ∧ c.stop ≤ t.stop :=
  regular.sound.inside (fun _ member => (regular.of_child member).sound.forward) child

theorem inside (regular : Regular f t) {n : ParseTree} (member : n ∈ t.nodes) :
    t.start ≤ n.start ∧ n.stop ≤ t.stop := by
  induction t using induct with
  | step t ih =>
    rcases mem_nodes.mp member with rfl | ⟨c, child, below⟩
    · exact ⟨Nat.le_refl _, Nat.le_refl _⟩
    · have outer := regular.inside_child child
      have inner := ih c child (regular.of_child child) below
      omega

/-- Of two children one ends before the other one starts. -/
theorem apart (regular : Regular f t) {a b : ParseTree} (memberA : a ∈ t.children) (memberB : b ∈ t.children)
    (differ : a ≠ b) : a.stop ≤ b.start ∨ b.stop ≤ a.start :=
  pairwise_of_ne regular.sound.ordered memberA memberB differ

theorem filled_of_mem (regular : Regular f t) {n : ParseTree} (member : n ∈ t.nodes) (filled : n.isEmpty = false) :
    t.start < t.stop ∧ n.start < n.stop := by
  have outer := regular.inside member
  have forward := (regular.of_mem member).sound.forward
  have differ : n.start ≠ n.stop := by
    intro same
    rw [isEmpty_iff.mpr same] at filled
    cases filled
  omega

/-- The last character of siblings is that of the last one that is not empty. -/
theorem ends_extentOf {cs : List ParseTree} (grown : cs ≠ []) (regular : ∀ c ∈ cs, Regular f c)
    (ordered : cs.Pairwise fun a b => a.stop ≤ b.start)
    (ends : ∀ c ∈ cs, ∃ last, c.extent.Ends f last ∧
      ∀ n ∈ c.nodes, n.isEmpty = false → ∃ lastN, n.extent.Ends f lastN ∧ lastN ≤ last) :
    ∃ last, (extentOf cs).Ends f last ∧ (extentOf cs).start ≤ (extentOf cs).stop ∧
      ∀ c ∈ cs, ∀ n ∈ c.nodes, n.isEmpty = false → ∃ lastN, n.extent.Ends f lastN ∧ lastN ≤ last := by
  induction cs using List.reverseRecOn with
  | nil => exact absurd rfl grown
  | append_singleton cs c ih =>
    have here : c ∈ cs ++ [c] := List.mem_append_right _ (List.mem_singleton_self c)
    have forwardC := (regular c here).sound.forward
    obtain ⟨lastC, endsC, insideC⟩ := ends c here
    cases cs with
    | nil =>
      refine ⟨lastC, endsC.first, forwardC, fun d member => ?_⟩
      rw [List.mem_singleton.mp member]
      exact insideC
    | cons first rest =>
      have full : first :: rest ≠ [] := List.cons_ne_nil _ _
      obtain ⟨orderedCs, _, between⟩ := List.pairwise_append.mp ordered
      obtain ⟨last, endsCs, forward, inside⟩ := ih full
        (fun d member => regular d (List.mem_append_left _ member)) orderedCs
        fun d member => ends d (List.mem_append_left _ member)
      have behind : (extentOf (first :: rest)).stop ≤ c.start := by
        obtain ⟨before, d, split⟩ := List.eq_nil_or_concat' (first :: rest) |>.resolve_left full
        rw [split, extentOf_stop_concat]
        apply between d _ c (List.mem_singleton_self c)
        rw [split]
        exact List.mem_append_right _ (List.mem_singleton_self d)
      rw [extentOf_concat full]
      refine ⟨_, endsCs.extend endsC forward behind forwardC, ?_, ?_⟩
      · show (extentOf (first :: rest)).start ≤ c.stop
        omega
      · intro d member n node filled
        have filledD := filled_of_mem (regular d member) node filled
        rcases List.mem_append.mp member with old | new
        · have low : c.start ≤ lastC := endsC.low
          obtain ⟨lastN, endsN, within⟩ := inside d old n node filled
          have short : last ≤ (extentOf (first :: rest)).stop := by
            have := endsCs.high
            omega
          refine ⟨lastN, endsN, ?_⟩
          split <;> omega
        · rw [List.mem_singleton.mp new] at node filledD
          have notEmpty : ¬ c.extent.isEmpty = true := by
            rw [Extent.isEmpty_iff]
            exact Nat.ne_of_lt filledD.1
          rw [if_neg notEmpty]
          exact insideC n node filled

/-- Every tree ends with a character, not in front of the last characters of the trees in it. -/
theorem ends (regular : Regular f t) : ∃ last, t.extent.Ends f last ∧
    ∀ n ∈ t.nodes, n.isEmpty = false → ∃ lastN, n.extent.Ends f lastN ∧ lastN ≤ last := by
  induction t using induct with
  | step t ih =>
    by_cases childless : t.children = []
    · have ends := Extent.ends_ofRange f t.start t.stop
      rw [← (regular.sound.leaf childless).1] at ends
      refine ⟨_, ends, fun n member _ => ?_⟩
      rcases mem_nodes.mp member with rfl | ⟨c, child, _⟩
      · exact ⟨_, ends, Nat.le_refl _⟩
      · rw [childless] at child
        cases child
    · obtain ⟨last, ends, _, inside⟩ := ends_extentOf childless (fun c child => regular.of_child child)
        regular.sound.ordered fun c child => ih c child (regular.of_child child)
      rw [← regular.sound.whole childless] at ends
      refine ⟨last, ends, fun n member filled => ?_⟩
      rcases mem_nodes.mp member with rfl | ⟨c, child, below⟩
      · exact ⟨last, ends, Nat.le_refl _⟩
      · exact inside c child n below filled

/-- The span of a tree in offsets. -/
theorem exists_last (regular : Regular f t) : ∃ last, t.span = ⟨f.pointAt t.start, f.pointAt last⟩ ∧
    t.start ≤ last ∧ (last = t.start ∨ last < t.stop) ∧ last ≤ f.size := by
  obtain ⟨last, ends, _⟩ := regular.ends
  have forward := regular.sound.forward
  have bounded := regular.sound.bounded
  have high : last = t.start ∨ last < t.stop := ends.high
  exact ⟨last, ends.span_eq, ends.low, high, by omega⟩

end Regular

/-- Trees that lie beside each other. The first one, if it is empty, does not stand where the second one starts. -/
def Apart (u v : ParseTree) : Prop :=
  (u.stop ≤ v.start ∨ v.stop ≤ u.start) ∧ (u.isEmpty = true → u.start ≠ v.start)

theorem Apart.of_filled {u v : ParseTree} (beside : u.stop ≤ v.start ∨ v.stop ≤ u.start)
    (filled : u.isEmpty = false) : Apart u v := by
  refine ⟨beside, fun isEmpty => ?_⟩
  rw [filled] at isEmpty
  cases isEmpty

namespace Regular

variable {t : ParseTree} (small : f.IsSmall) (regular : Regular f t)
include small regular

/-- The span of a tree contains those of the trees in it that are not empty. -/
theorem span_within {n : ParseTree} (member : n ∈ t.nodes) (filled : n.isEmpty = false) :
    t.span.start.rank ≤ n.span.start.rank ∧ n.span.stop.rank ≤ t.span.stop.rank := by
  obtain ⟨last, ends, inside⟩ := regular.ends
  obtain ⟨lastN, endsN, within⟩ := inside n member filled
  have bounded := regular.sound.bounded
  have range := regular.inside member
  have forward := filled_of_mem regular member filled
  have high : last = t.start ∨ last < t.stop := ends.high
  rw [span, span, ends.span_eq, endsN.span_eq]
  exact ⟨SourceFile.rank_pointAt_le small range.1 (Nat.le_trans (Nat.le_of_lt forward.2) (by omega)),
    SourceFile.rank_pointAt_le small within (by omega)⟩

theorem span_forward : t.span.start.rank ≤ t.span.stop.rank := by
  obtain ⟨last, span, low, _, bounded⟩ := regular.exists_last
  rw [span]
  exact SourceFile.rank_pointAt_le small low bounded

/-- A tree that is not empty has no point in common with one that lies apart in front of it. -/
theorem span_apart {u : ParseTree} (other : Regular f u) (apart : Apart t u) (filled : u.isEmpty = false) :
    t.span.stop.rank < u.span.start.rank ∨ u.span.stop.rank < t.span.start.rank := by
  obtain ⟨last, span, _, high, _⟩ := regular.exists_last
  obtain ⟨lastU, spanU, _, highU, _⟩ := other.exists_last
  have bounded : t.start ≤ f.size := Nat.le_trans regular.sound.forward regular.sound.bounded
  have boundedU : u.start ≤ f.size := Nat.le_trans other.sound.forward other.sound.bounded
  have forward := regular.sound.forward
  have forwardU := (other.filled_of_mem u.self_mem_nodes filled).1
  obtain ⟨beside, differ⟩ := apart
  rw [isEmpty_iff] at differ
  have differ : t.start = t.stop → t.start ≠ u.start := differ
  rw [span, spanU]
  rcases beside with before | behind
  · left
    exact SourceFile.rank_pointAt_lt small (by omega) boundedU
  · right
    exact SourceFile.rank_pointAt_lt small (by omega) bounded

end Regular

end ParseTree

end SecurityRules
