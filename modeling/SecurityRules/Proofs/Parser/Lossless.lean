import Mathlib.Data.List.TakeDrop
import SecurityRules.Parser
import SecurityRules.Proofs.Parser.Declarations

/-!
# Parse trees are lossless

The tree of a document holds every token of it, comments included, in order, whatever the text and the limit
on nesting.
-/

namespace SecurityRules.Parser

variable {f : SourceFile} {d : Draft}

/-! ## The top level -/

/-- What a turn of the top level reads. -/
def topItem (limit : Nat) : TokenKind → Production
  | .kwRulesVersion => rulesVersion
  | .kwService => serviceDef limit
  | _ => skipUntil isTopSync

theorem topTurn_eq (limit : Nat) (d : Draft) :
    topTurn limit d = if d.state.peek.kind = .endOfInput then .done d
      else .again (d.place none (topItem limit d.state.peek.kind)) := by
  rw [topTurn]
  split <;> simp_all [topItem]

theorem takes_topItem (limit : Nat) {s : State} (place : State.At f s) (ahead : s.rest ≠ []) :
    Reads f s (topItem limit s.peek.kind s) ∧ s.peek.stop ≤ (topItem limit s.peek.kind s).1.stop := by
  have choice : ∀ k, topItem limit k = rulesVersion ∨ topItem limit k = serviceDef limit ∨
      topItem limit k = skipUntil isTopSync := by
    intro k
    rw [topItem.eq_def]
    split <;> simp
  rcases choice s.peek.kind with chosen | chosen | chosen
  · rw [chosen]
    exact takes_rulesVersion place ahead
  · rw [chosen]
    exact takes_serviceDef limit place ahead
  · rw [chosen]
    exact ⟨reads_skipUntil isTopSync place, takes_skipUntil isTopSync place ahead⟩

/-- The items of the top level read the whole text. -/
theorem growing_items (limit : Nat) :
    Growing f .sourceFile (State.start f) 0
        ((Draft.opened .sourceFile (State.start f)).loop (topTurn limit)) ∧
      ((Draft.opened .sourceFile (State.start f)).loop (topTurn limit)).state.rest = [] := by
  refine iterate_progress (P := Growing f .sourceFile (State.start f) 0)
    (Q := fun d => Growing f .sourceFile (State.start f) 0 d ∧ d.state.rest = [])
    (.bare (State.At.start f) NodeKind.noConfusion (Nat.zero_le _)) ?_ ?_
  · intro d next growing found
    rw [topTurn_eq] at found
    split at found
    · cases found
    · rename_i going
      have ahead := State.rest_ne_nil going
      obtain ⟨reads, further⟩ := takes_topItem limit growing.place_state ahead
      have placed := growing.place none reads
      rw [← Turn.again.inj found]
      refine ⟨.grown placed, growing.place_state.rest_shorter placed.reading.place ahead ?_⟩
      have attached := (growing.attach none reads).reaches
      rw [← placed.reading.stop]
      exact Nat.le_trans further attached
  · intro d next growing found
    rw [topTurn_eq] at found
    split at found
    · rename_i ended
      rw [← Turn.done.inj found]
      refine ⟨growing, ?_⟩
      by_cases ahead : d.state.rest = []
      · exact ahead
      · exact absurd ended (growing.place_state.peek_kind ahead)
    · cases found

/-- The draft that becomes the document: with a placeholder for the service if there is none. -/
def items (f : SourceFile) (maxDepth : Int) : Draft :=
  let d := (Draft.opened .sourceFile (State.start f)).loop (topTurn (depthLimit maxDepth))
  if d.tree.children.any (·.kind == .serviceDef) then d else d.lacking none .serviceDef

theorem parse_eq (f : SourceFile) (maxDepth : Int) : parse f maxDepth = closeRoot (items f maxDepth) := rfl

theorem grown_items (f : SourceFile) (maxDepth : Int) :
    Grown f .sourceFile (State.start f) 0 (items f maxDepth) ∧ (items f maxDepth).state.rest = [] := by
  obtain ⟨growing, ended⟩ := growing_items (f := f) (depthLimit maxDepth)
  rw [items]
  generalize (Draft.opened .sourceFile (State.start f)).loop (topTurn (depthLimit maxDepth)) = d
    at growing ended
  split
  · rename_i hasService
    cases growing with
    | bare place other reaches => exact absurd hasService Bool.false_ne_true
    | grown grown => exact ⟨grown, ended⟩
  · refine ⟨growing.lacking none rfl, ?_⟩
    rw [Draft.lacking, Draft.rest_attach]
    exact ended

/-! ## Comments outside the items -/

theorem insertComment_eq (before behind : List ParseTree) {c : ParseTree}
    (earlier : ∀ t ∈ before, t.start ≤ c.start) (later : ∀ t ∈ behind, c.start < t.start) :
    insertComment (before ++ behind) c = before ++ [c] ++ behind := by
  have front : (before ++ behind).takeWhile (fun t => decide (t.start ≤ c.start)) = before := by
    rw [List.takeWhile_append_of_pos (by simpa using earlier)]
    cases behind with
    | nil => simp
    | cons t rest =>
      have := later t (List.mem_cons_self ..)
      rw [List.takeWhile_cons_of_neg (by simp only [decide_eq_true_eq]; omega), List.append_nil]
  have back : (before ++ behind).dropWhile (fun t => decide (t.start ≤ c.start)) = behind := by
    have split := List.takeWhile_append_dropWhile (p := fun t : ParseTree => decide (t.start ≤ c.start))
      (l := before ++ behind)
    rw [front] at split
    exact List.append_cancel_left split
  rw [insertComment, List.span_eq_takeWhile_dropWhile, front, back]
  simp

/-- Comments in order go between the trees that start before all of them and those that start behind. -/
theorem foldl_insertComment (before behind : List ParseTree) {comments : List ParseTree}
    (ordered : comments.Pairwise fun a b => a.start ≤ b.start)
    (earlier : ∀ t ∈ before, ∀ c ∈ comments, t.start ≤ c.start)
    (later : ∀ t ∈ behind, ∀ c ∈ comments, c.start < t.start) :
    comments.foldl insertComment (before ++ behind) = before ++ comments ++ behind := by
  induction comments generalizing before with
  | nil => rw [List.foldl_nil, List.append_nil]
  | cons c rest ih =>
    obtain ⟨behindC, ordered⟩ := List.pairwise_cons.mp ordered
    rw [List.foldl_cons, insertComment_eq before behind (fun t member => earlier t member c (List.mem_cons_self ..))
      fun t member => later t member c (List.mem_cons_self ..)]
    rw [ih _ ordered ?earlier fun t member u inside => later t member u (List.mem_cons_of_mem c inside)]
    · simp
    case earlier =>
      intro t member u inside
      rcases List.mem_append.mp member with old | new
      · exact earlier t old u (List.mem_cons_of_mem c inside)
      · rw [List.mem_singleton.mp new]
        exact behindC u inside

/-- The comments in front of the first item and behind the last one become children of the document. -/
theorem children_closeRoot (grown : Grown f .sourceFile (State.start f) 0 d) (ended : d.state.rest = []) :
    (closeRoot d).children =
      f.commentsIn 0 d.tree.start ++ d.tree.children ++ f.commentsIn d.tree.stop f.size := by
  have reading := grown.reading
  have forward := reading.forward
  have peek : d.state.peek.start = f.size := by
    rw [State.peek_of_end ended, reading.place.file]
    rfl
  have first : (State.start f).pending = f.commentsIn 0 (State.start f).peek.start := by
    have pending := reading.origin.pending
    have none : (State.start f).pending.filter (fun c => decide (c.start < (State.start f).lastStop)) = [] := by
      rw [List.filter_eq_nil_iff]
      intro c _
      have : (State.start f).lastStop = 0 := rfl
      simp only [decide_eq_true_eq]
      omega
    rw [none, List.nil_append] at pending
    exact pending
  have pending : d.state.pending = f.commentsIn 0 d.tree.start ++ f.commentsIn d.tree.stop f.size := by
    rw [reading.pending, peek, first, f.filter_commentsIn (Nat.zero_le _) reading.high]
  have inside : ∀ c ∈ d.tree.children, d.tree.start ≤ c.start ∧ c.start ≤ d.tree.stop := by
    intro c member
    have bounds := reading.self_sound.inside reading.forward_children member
    have := reading.forward_children c member
    omega
  have ordered : ∀ low high, (f.commentsIn low high).Pairwise fun a b => a.start ≤ b.start := by
    intro low high
    refine (f.commentsIn_apart low high).imp_of_mem ?_
    intro a b memberA _ apart
    obtain ⟨t, token, _, rfl⟩ := f.mem_commentsIn memberA
    exact Nat.le_trans (sound_commentLeaf ((f.mem_tokensIn).mp token).1).forward apart
  have front : (f.commentsIn 0 d.tree.start).foldl insertComment d.tree.children =
      f.commentsIn 0 d.tree.start ++ d.tree.children := by
    refine foldl_insertComment [] _ (ordered _ _)
      (fun t member => absurd member List.not_mem_nil) ?_
    intro t member c comment
    exact Nat.lt_of_lt_of_le (f.start_of_mem_commentsIn comment).2 (inside t member).1
  have back : (f.commentsIn d.tree.stop f.size).foldl insertComment
      (f.commentsIn 0 d.tree.start ++ d.tree.children) =
      f.commentsIn 0 d.tree.start ++ d.tree.children ++ f.commentsIn d.tree.stop f.size := by
    have folded := foldl_insertComment (f.commentsIn 0 d.tree.start ++ d.tree.children) []
      (ordered d.tree.stop f.size) ?earlier (fun t member => absurd member List.not_mem_nil)
    · rw [List.append_nil, List.append_nil] at folded
      exact folded
    case earlier =>
      intro t member c comment
      have low := (f.start_of_mem_commentsIn comment).1
      rcases List.mem_append.mp member with old | child
      · have := (f.start_of_mem_commentsIn old).2
        omega
      · have := (inside t child).2
        omega
  show d.state.pending.foldl insertComment d.tree.children = _
  rw [pending, List.foldl_append, front, back]

/-! ## The whole document -/

variable (f : SourceFile) (maxDepth : Int)

theorem extent_parse : (parse f maxDepth).extent = Extent.ofRange f 0 f.size := by
  have place := (grown_items f maxDepth).1.reading.place
  show Extent.ofRange (items f maxDepth).state.file 0 (items f maxDepth).state.file.size = _
  rw [place.file]

/-- A document has children: a service, or a placeholder for it. -/
theorem children_parse_ne_nil : (parse f maxDepth).children ≠ [] := by
  obtain ⟨grown, ended⟩ := grown_items f maxDepth
  rw [parse_eq, children_closeRoot grown ended]
  simp [grown.grown]

/-- The leaves of the document stand over all tokens in order. -/
theorem tiled_parse : ParseTree.Tiled (parse f maxDepth).leaves f.tokens := by
  obtain ⟨grown, ended⟩ := grown_items f maxDepth
  have reading := grown.reading
  have forward := reading.forward
  have bounded : (items f maxDepth).tree.stop ≤ f.size := reading.self_sound.bounded
  have children := children_closeRoot grown ended
  rw [parse_eq]
  generalize items f maxDepth = d at *
  have full : (closeRoot d).children ≠ [] := by
    rw [children]
    simp [grown.grown]
  have front : ∀ t ∈ f.tokensIn 0 d.tree.start, t.kind.isComment = true := reading.isComment_ahead
  have back : ∀ t ∈ f.tokensIn d.tree.stop f.size, t.kind.isComment = true := by
    intro t inside
    apply reading.place.isComment_of_gap
    rw [State.peek_of_end ended, reading.place.file, ← reading.stop]
    exact inside
  rw [ParseTree.leaves_of_children full, children, List.flatMap_append, List.flatMap_append,
    ← ParseTree.leaves_of_children grown.grown, ← f.tokensIn_whole,
    ← f.tokensIn_append (Nat.zero_le _) bounded, ← f.tokensIn_append (Nat.zero_le _) forward]
  exact ((tiled_commentsIn front).append reading.tiled).append (tiled_commentsIn back)

/-- All trees below the document are sound. -/
theorem sound_parse : ∀ c ∈ (parse f maxDepth).children, ∀ n ∈ c.nodes, n.Sound f ∧ n.Shaped := by
  obtain ⟨grown, ended⟩ := grown_items f maxDepth
  have reading := grown.reading
  rw [parse_eq, children_closeRoot grown ended]
  intro c member n inside
  rcases List.mem_append.mp member with (member | member)
  · rcases List.mem_append.mp member with comment | child
    · exact sound_commentsIn c comment n inside
    · exact ⟨reading.sound n (ParseTree.mem_nodes.mpr (Or.inr ⟨c, child, inside⟩)),
        reading.below c child n inside⟩
  · exact sound_commentsIn c member n inside

theorem ordered_parse : (parse f maxDepth).children.Pairwise fun a b => a.stop ≤ b.start := by
  obtain ⟨grown, ended⟩ := grown_items f maxDepth
  have reading := grown.reading
  have inside := fun c member => reading.self_sound.inside reading.forward_children (c := c) member
  have within : ∀ low high, ∀ c ∈ f.commentsIn low high, low ≤ c.start := by
    intro low high c member
    exact (f.start_of_mem_commentsIn member).1
  have front : ∀ c ∈ f.commentsIn 0 (items f maxDepth).tree.start,
      c.stop ≤ (items f maxDepth).tree.start := reading.stop_ahead
  rw [parse_eq, children_closeRoot grown ended, List.pairwise_append, List.pairwise_append]
  refine ⟨⟨f.commentsIn_apart _ _, reading.self_sound.ordered, ?_⟩, f.commentsIn_apart _ _, ?_⟩
  · intro a comment b child
    exact Nat.le_trans (front a comment) (inside b child).1
  · intro a member b comment
    refine Nat.le_trans ?_ (within _ _ b comment)
    rcases List.mem_append.mp member with old | child
    · exact Nat.le_trans (front a old) reading.forward
    · exact (inside a child).2

/-- A tree that holds a file without loss: its leaves are the tokens, and every tree in it takes the part of
the file that its children take. -/
structure Lossless (root : ParseTree) : Prop where
  /-- Exactly one leaf with content stands over each token. -/
  covered : ∀ t ∈ f.tokens, root.leaves.countP (fun leaf => leaf.covers t && !leaf.isEmpty) = 1
  /-- A leaf with content is one token; path segments may be several that touch each other. It is an extra
  exactly if it is a comment. -/
  spelled : ∀ leaf ∈ root.leaves, leaf.isEmpty = false → ∃ run : List Token, run <:+: f.tokens ∧
    run.head?.map (·.start) = some leaf.start ∧ run.getLast?.map (·.stop) = some leaf.stop ∧
    (run.length = 1 ∨ (leaf.kind = .collectionSegment ∨ leaf.kind = .pathSegment) ∧
      run.IsChain fun a b => a.stop = b.start) ∧
    ∀ t ∈ run, t.kind.isComment = leaf.isExtra
  hollow : ∀ leaf ∈ root.leaves, leaf.isEmpty = true → leaf.isExtra = false ∧ leaf.isFlagged = true
  ordered : ∀ n ∈ root.nodes, n.children.Pairwise fun a b => a.stop ≤ b.start
  whole : root.start = 0 ∧ root.stop = f.size
  /-- Trees below the root start and end with their children, none of which is an extra at the ends. -/
  tight : ∀ c ∈ root.children, ∀ n ∈ c.nodes,
    (∀ first ∈ n.children.head?, n.start = first.start ∧ first.isExtra = false) ∧
    (∀ last ∈ n.children.getLast?, n.stop = last.stop ∧ last.isExtra = false)

theorem isComment_iff {found : TokenKind} :
    found.isComment = true ↔ found = .lineComment ∨ found = .blockComment := by
  rw [TokenKind.isComment.eq_def]
  split <;> simp_all

theorem isComment_of_spells {kind : NodeKind} {found : TokenKind} (spelled : kind.spells found = true) :
    found.isComment = (kind == .comment) := by
  by_cases other : kind = .comment
  · subst other
    exact spelled
  · rw [beq_eq_false_iff_ne.mpr other, Bool.eq_false_iff]
    intro isComment
    rcases isComment_iff.mp isComment with rfl | rfl
    · cases kind <;>
        simp_all [NodeKind.spells, isSegmentToken, TokenKind.isKeyword, TokenKind.keywords]
    · cases kind <;>
        simp_all [NodeKind.spells, isSegmentToken, TokenKind.isKeyword, TokenKind.keywords]

theorem isSegment_iff {kind : NodeKind} :
    kind.isSegment = true ↔ kind = .collectionSegment ∨ kind = .pathSegment := by
  simp [NodeKind.isSegment]

/-- Parsing loses nothing, whatever the text and the limit on nesting. -/
theorem parse_lossless : Lossless f (parse f maxDepth) := by
  have tiled := tiled_parse f maxDepth
  have below := sound_parse f maxDepth
  have extent := extent_parse f maxDepth
  have full := children_parse_ne_nil f maxDepth
  have ordered := ordered_parse f maxDepth
  generalize parse f maxDepth = root at *
  refine ⟨?_, ?_, ?_, ?_, ?_, ?_⟩
  · intro t member
    exact tiled.countP_covers f.laid_tokens member
  · intro leaf member filled
    obtain ⟨run, inside, above⟩ := tiled.run_of_mem member filled
    refine ⟨run, inside, above.start, above.stop, ?_, ?_⟩
    · rcases above.single with isSegment | single
      · exact Or.inr ⟨isSegment_iff.mp isSegment, above.joined⟩
      · exact Or.inl single
    · intro t token
      exact isComment_of_spells (above.spelled t token)
  · intro leaf member isEmpty
    rw [ParseTree.leaves_of_children full, List.mem_flatMap] at member
    obtain ⟨c, child, inside⟩ := member
    obtain ⟨node, childless⟩ := ParseTree.mem_leaves inside
    have both := ((below c child leaf node).1.leaf childless).2 isEmpty
    exact ⟨both.2, both.1⟩
  · intro n member
    rcases ParseTree.mem_nodes.mp member with rfl | ⟨c, child, node⟩
    · exact ordered
    · exact (below c child n node).1.ordered
  · rw [ParseTree.start, ParseTree.stop, extent]
    exact ⟨rfl, rfl⟩
  · intro c child n node
    have sound := (below c child n node).1
    constructor
    · intro first head
      obtain ⟨rest, split⟩ := List.head?_eq_some_iff.mp head
      have whole := sound.whole (by rw [split]; exact List.cons_ne_nil _ _)
      refine ⟨?_, sound.first first head⟩
      rw [ParseTree.start, whole, split, ParseTree.extentOf_start]
    · intro last final
      have whole := sound.whole (List.ne_nil_of_mem (List.mem_of_getLast? final))
      refine ⟨?_, sound.last last final⟩
      rw [ParseTree.stop, whole, ParseTree.extentOf_stop final]

end SecurityRules.Parser
