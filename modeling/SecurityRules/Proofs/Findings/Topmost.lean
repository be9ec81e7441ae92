import SecurityRules.Proofs.Findings.Severity
import SecurityRules.Proofs.Lookup.Spans
import SecurityRules.Proofs.Parser.Lossless

/-!
# The findings of a parse tree

Findings of a parse tree are about the errors and placeholders in it that lie in no other one, parents before what they
hold and siblings from left to right. Trees that come later in this order do not start earlier, so the findings are in
the order of the text too.
-/

namespace SecurityRules

namespace ParseTree

mutual

/-- The tree and everything below it, parents first, each with the trees around it, the nearest one first. -/
def lineage (around : List ParseTree) : ParseTree → List (List ParseTree × ParseTree)
  | node kind isMissing role extent children =>
    (around, node kind isMissing role extent children) ::
      lineageAll (node kind isMissing role extent children :: around) children

/-- The trees of a list and everything below them, each with the trees around it. -/
def lineageAll (around : List ParseTree) : List ParseTree → List (List ParseTree × ParseTree)
  | [] => []
  | t :: rest => lineage around t ++ lineageAll around rest

end

/-- The errors and placeholders that lie in no other one, in the order of the tree. -/
def topmost (t : ParseTree) : List ParseTree :=
  ((t.lineage []).filter fun (around, u) => u.isFlagged && !around.any isFlagged).map (·.2)

theorem lineageAll_eq_flatMap (around ts : List ParseTree) : lineageAll around ts = ts.flatMap (lineage around) := by
  induction ts with
  | nil => rfl
  | cons t rest ih => rw [lineageAll, ih, List.flatMap_cons]

theorem lineage_eq (around : List ParseTree) (t : ParseTree) :
    t.lineage around = (around, t) :: t.children.flatMap (lineage (t :: around)) := by
  cases t with
  | node kind isMissing role extent children =>
    rw [lineage, lineageAll_eq_flatMap]
    rfl

theorem map_lineage (t : ParseTree) : ∀ around, (t.lineage around).map (·.2) = t.nodes := by
  induction t using induct with
  | step t ih =>
    intro around
    rw [lineage_eq, List.map_cons, List.map_flatMap, nodes_eq]
    congr 1
    exact List.flatMap_congr fun c child => ih c child _

/-- What lies around a tree lies around everything in it too. -/
theorem suffix_of_mem_lineage {around : List ParseTree} {t : ParseTree} {entry : List ParseTree × ParseTree}
    (member : entry ∈ t.lineage around) : around <:+ entry.1 := by
  induction t using induct generalizing around with
  | step t ih =>
    rw [lineage_eq] at member
    rcases List.mem_cons.mp member with rfl | below
    · exact List.suffix_rfl
    · obtain ⟨c, child, below⟩ := List.mem_flatMap.mp below
      exact (List.suffix_cons t around).trans (ih c child below)

theorem topmost_sublist_nodes (t : ParseTree) : t.topmost.Sublist t.nodes := by
  rw [← map_lineage t []]
  exact List.filter_sublist.map _

/-! ## The order of the text -/

variable {f : SourceFile} {t : ParseTree}

/-- Where the children of a tree lie behind each other, trees come in the order in which they start. -/
theorem pairwise_flatMap_nodes {ts : List ParseTree} (regular : ∀ c ∈ ts, Regular f c)
    (ordered : ts.Pairwise fun a b => a.stop ≤ b.start)
    (each : ∀ c ∈ ts, c.nodes.Pairwise fun u v => u.start ≤ v.start) :
    (ts.flatMap nodes).Pairwise fun u v => u.start ≤ v.start := by
  rw [List.pairwise_flatMap]
  refine ⟨each, ordered.imp_of_mem fun {a b} memberA memberB behind u inA v inB => ?_⟩
  have forward := ((regular a memberA).of_mem inA).sound.forward
  have inside := (regular a memberA).inside inA
  have inside' := (regular b memberB).inside inB
  omega

theorem Regular.pairwise_nodes (regular : Regular f t) : t.nodes.Pairwise fun u v => u.start ≤ v.start := by
  induction t using induct with
  | step t ih =>
    have below := pairwise_flatMap_nodes (fun c child => regular.of_child child) regular.sound.ordered
      fun c child => ih c child (regular.of_child child)
    rw [nodes_eq, List.pairwise_cons]
    refine ⟨fun n member => ?_, below⟩
    have inside : n ∈ t.nodes := by
      rw [nodes_eq]
      exact List.mem_cons_of_mem t member
    exact (regular.inside inside).1

theorem pairwise_nodes_parse (f : SourceFile) (maxDepth : Int) :
    (Parser.parse f maxDepth).nodes.Pairwise fun u v => u.start ≤ v.start := by
  have regular := Parser.sound_parse f maxDepth
  have start : (Parser.parse f maxDepth).start = 0 := by
    rw [ParseTree.start, Parser.extent_parse]
    rfl
  rw [nodes_eq, List.pairwise_cons]
  refine ⟨fun n _ => ?_, ?_⟩
  · rw [start]
    exact Nat.zero_le _
  · exact pairwise_flatMap_nodes regular (Parser.ordered_parse f maxDepth)
      fun c child => Regular.pairwise_nodes (regular c child)

/-- Every tree of a document starts at the point of its offset, inside the content. -/
theorem startPoint_of_mem_parse {maxDepth : Int} {n : ParseTree} (member : n ∈ (Parser.parse f maxDepth).nodes) :
    n.extent.startPoint = f.pointAt n.start ∧ n.start ≤ f.size := by
  rcases mem_nodes.mp member with rfl | ⟨c, child, below⟩
  · rw [ParseTree.start, Parser.extent_parse]
    exact ⟨rfl, Nat.zero_le _⟩
  · have regular := Regular.of_mem (Parser.sound_parse f maxDepth c child) below
    obtain ⟨last, ends, _⟩ := regular.ends
    exact ⟨ends.startPoint, Nat.le_trans regular.sound.forward regular.sound.bounded⟩

end ParseTree

namespace Diagnose

open ParseTree

variable {t : ParseTree}

/-! ## Topmost errors and placeholders -/

/-- Below an error or a placeholder nothing is topmost. -/
theorem filter_lineage_of_flagged {around : List ParseTree} (covered : around.any isFlagged = true) :
    ((t.lineage around).filter fun (outer, u) => u.isFlagged && !outer.any isFlagged) = [] := by
  rw [List.filter_eq_nil_iff]
  rintro ⟨outer, u⟩ member
  obtain ⟨a, inside, flagged⟩ := List.any_eq_true.mp covered
  have still : outer.any isFlagged = true :=
    List.any_eq_true.mpr ⟨a, (suffix_of_mem_lineage member).subset inside, flagged⟩
  simp [still]

theorem parseErrors_eq_filter_lineage (t : ParseTree) : ∀ around : List ParseTree, around.any isFlagged = false →
    parseErrors t = ((t.lineage around).filter fun (outer, u) => u.isFlagged && !outer.any isFlagged).map
      fun (_, u) => flagged u := by
  induction t using ParseTree.induct with
  | step t ih =>
    intro around free
    rw [parseErrors_eq, lineage_eq]
    cases isFlagged : t.isFlagged with
    | true =>
      have covered : (t :: around).any ParseTree.isFlagged = true := by simp [isFlagged]
      have nothing := fun c => filter_lineage_of_flagged (t := c) covered
      simp [isFlagged, free, List.filter_flatMap, nothing]
    | false =>
      have free : (t :: around).any ParseTree.isFlagged = false := by simp [isFlagged, free]
      simp only [isFlagged, Bool.false_eq_true, if_false, List.filter_cons, Bool.false_and, List.filter_flatMap,
        List.map_flatMap]
      exact List.flatMap_congr fun c child => ih c child _ free

theorem parseErrors_eq_map_topmost (t : ParseTree) : parseErrors t = t.topmost.map flagged := by
  rw [topmost, List.map_map, parseErrors_eq_filter_lineage t [] rfl]
  rfl

/-! ## One tree after the other -/

theorem sweep_eq (found : List Diagnostic) (stack : List ParseTree) :
    sweep found stack = found ++ stack.flatMap parseErrors := by
  fun_induction sweep found stack with
  | case1 found => simp
  | case2 found t rest isFlagged ih => simp [ih, parseErrors_eq t, isFlagged]
  | case3 found t rest isFlagged ih => simp [ih, parseErrors_eq t, isFlagged]

/-! ## The findings of a document -/

/-- What is said of an error or a placeholder, and where. -/
theorem flagged_spec (t : ParseTree) : (flagged t).span = t.span ∧
    (flagged t).message = (if t.isMissing then "Missing `" ++ Bytes.ofString t.kind.name ++ "`" else "Error") := by
  unfold flagged
  split <;> exact ⟨rfl, rfl⟩

/-- Of trees in the order in which they start the findings start in this order. -/
theorem pairwise_parseErrors {f : SourceFile} (small : f.IsSmall) (maxDepth : Int) :
    (parseErrors (Parser.parse f maxDepth)).Pairwise fun d e => e.span.start.before d.span.start = false := by
  have ordered := (pairwise_nodes_parse f maxDepth).sublist (topmost_sublist_nodes _)
  rw [parseErrors_eq_map_topmost, List.pairwise_map]
  refine ordered.imp_of_mem fun {u v} memberU memberV le => ?_
  obtain ⟨start, _⟩ := startPoint_of_mem_parse ((topmost_sublist_nodes _).mem memberU)
  obtain ⟨start', inside⟩ := startPoint_of_mem_parse ((topmost_sublist_nodes _).mem memberV)
  have first : (flagged u).span.start = f.pointAt u.start := by rw [(flagged_spec u).1, ← start]; rfl
  have second : (flagged v).span.start = f.pointAt v.start := by rw [(flagged_spec v).1, ← start']; rfl
  rw [first, second, ← Bool.not_eq_true, Point.before_iff, Nat.not_lt]
  exact SourceFile.rank_pointAt_le small le inside

/-- The findings of a parsed document are about the errors and placeholders that lie in no other one, one finding for
each in the order of the tree, with its span and what it is. Looking at one tree after the other finds the same, there
are none exactly where nothing below the root is an error or a placeholder, and none starts before an earlier one. -/
theorem parseErrors_parse (path text : Bytes) (isVirtual : Bool) (maxDepth : Int) :
    let file := SourceFile.ofBytes path text isVirtual
    let root := Parser.parse file maxDepth
    parseErrors root = root.topmost.map flagged ∧
      (∀ t ∈ root.topmost, (flagged t).span = t.span ∧
        (flagged t).message = if t.isMissing then "Missing `" ++ Bytes.ofString t.kind.name ++ "`" else "Error") ∧
      sweep [] [root] = parseErrors root ∧
      (parseErrors root = [] ↔ root.hasError = false) ∧
      (file.size < 2 ^ 32 →
        (parseErrors root).Pairwise fun d e => e.span.start.before d.span.start = false) := by
  intro file root
  refine ⟨parseErrors_eq_map_topmost root, fun t _ => flagged_spec t, ?_, parseErrors_eq_nil_iff root, fun small => ?_⟩
  · simp [sweep_eq]
  · exact pairwise_parseErrors (SourceFile.isSmall_ofBytes small) maxDepth

/-- A function that is nothing but its word, in front of input that fits nowhere. -/
def sampleBroken : Bytes := "service a { function ) /* c */ ] }"

theorem parseErrors_parse_sampleBroken :
    let file := SourceFile.ofBytes [] sampleBroken true
    let root := Parser.parse file 256
    file.size < 2 ^ 32 ∧ (parseErrors root).length = 4 ∧
      (parseErrors root).Pairwise fun d e => e.span.start.before d.span.start = false := by
  intro file root
  have small : file.size < 2 ^ 32 := by decide +kernel
  obtain ⟨-, -, -, -, ordered⟩ := parseErrors_parse [] sampleBroken true 256
  exact ⟨small, by decide +kernel, ordered small⟩

end Diagnose

end SecurityRules
