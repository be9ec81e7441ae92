import SecurityRules.Proofs.Lookup.Calls

/-!
# Lookups are complete

Elements made of trees with a width nest, and no two beside each other have a point in common. So a lookup finds all
of them that contain its point. Only the whole document may end too early: a text that ends in bytes that continue no
character ends, as a whole, in front of these bytes.
-/

namespace SecurityRules

namespace Build.Origin

open ParseTree (Regular Apart)

variable {f : SourceFile} {limit : Nat} {o : Origin}

theorem mem_nodes {q : Origin} : q ∈ o.nodes ↔ q = o ∨ ∃ part ∈ o.parts, q ∈ part.nodes := by
  rw [nodes_eq, List.mem_cons, List.mem_flatMap]

namespace Grounded

theorem of_mem (grounded : Grounded f limit o) {q : Origin} (member : q ∈ o.nodes) : Grounded f limit q := by
  induction o using Origin.induct with
  | step o ih =>
    rcases mem_nodes.mp member with rfl | ⟨part, inside, below⟩
    · exact grounded
    · exact ih part inside (grounded.of_part inside) below

theorem source_mem (grounded : Grounded f limit o) {q : Origin} (member : q ∈ o.nodes) :
    q.source ∈ o.source.nodes := by
  induction o using Origin.induct with
  | step o ih =>
    rcases mem_nodes.mp member with rfl | ⟨part, inside, below⟩
    · exact q.source.self_mem_nodes
    · exact ParseTree.nodes_trans (ih part inside (grounded.of_part inside) below) (grounded.inside inside)

variable (small : f.IsSmall) (grounded : Grounded f limit o) (regular : Regular f o.source)
include small grounded regular

/-- The span of an element contains those of all elements with a width in it. -/
theorem span_within {q : Origin} (member : q ∈ o.nodes) (filled : q.isFilled = true) :
    o.span.start.rank ≤ q.span.start.rank ∧ q.span.stop.rank ≤ o.span.stop.rank ∧ o.isFilled = true := by
  have filled : q.source.isEmpty = false := by simpa [isFilled] using filled
  have source := grounded.source_mem member
  rw [grounded.span_eq, (grounded.of_mem member).span_eq]
  obtain ⟨low, high⟩ := regular.span_within small source filled
  have wide := (regular.filled_of_mem source filled).1
  refine ⟨low, high, ?_⟩
  rw [isFilled, Bool.not_eq_true', Bool.eq_false_iff, Ne, ParseTree.isEmpty_iff]
  omega

theorem contains_of_mem {q : Origin} (member : q ∈ o.nodes) (filled : q.isFilled = true) {p : Point}
    (inside : q.span.contains p = true) : o.span.contains p = true := by
  obtain ⟨low, high, _⟩ := grounded.span_within small regular member filled
  rw [Span.contains_iff] at inside ⊢
  omega

/-- An element contains the whole span of a part with a width. -/
theorem containsSpan_part {part : Origin} (member : part ∈ o.parts) (filled : part.isFilled = true) :
    o.span.containsSpan part.span = true := by
  have node : part ∈ o.nodes := mem_nodes.mpr (Or.inr ⟨part, member, mem_nodes.mpr (Or.inl rfl)⟩)
  obtain ⟨low, high, _⟩ := grounded.span_within small regular node filled
  have forward := (regular.of_mem (grounded.inside member)).span_forward small
  rw [← (grounded.of_part member).span_eq] at forward
  rw [Span.containsSpan_iff]
  omega

/-- A part with a width has no point in common with a part in front of it. -/
theorem disjoint : o.parts.Pairwise fun a b => b.isFilled = true → ∀ p,
    a.span.contains p = true → b.span.contains p = false := by
  refine grounded.apart.imp_of_mem ?_
  intro a b memberA memberB apart filled p insideA
  have filled : b.source.isEmpty = false := by simpa [isFilled] using filled
  have beside := (regular.of_mem (grounded.inside memberA)).span_apart small
    (regular.of_mem (grounded.inside memberB)) apart filled
  rw [← (grounded.of_part memberA).span_eq, ← (grounded.of_part memberB).span_eq] at beside
  rw [Span.contains_iff] at insideA
  rw [Bool.eq_false_iff, Ne, Span.contains_iff]
  omega

/-- No element with a width below an element contains a point outside it. -/
theorem filter_nodes_eq_nil {p : Point} (outside : o.isFilled = true → o.span.contains p = false) :
    o.nodes.filter (fun q => q.isFilled && q.span.contains p) = [] := by
  rw [List.filter_eq_nil_iff]
  intro q member
  rw [Bool.and_eq_true]
  rintro ⟨filled, inside⟩
  have wide := (grounded.span_within small regular member filled).2.2
  have contains := grounded.contains_of_mem small regular member filled inside
  rw [outside wide] at contains
  cases contains

end Grounded

/-- Of the elements with a width, a chain at a point inside an element finds all that contain the point, from the
outermost to the innermost. -/
theorem filter_chainAt (small : f.IsSmall) (grounded : Grounded f limit o) (regular : Regular f o.source) {p : Point}
    (inside : o.span.contains p = true) :
    (o.chainAt p).filter isFilled = o.nodes.filter (fun q => q.isFilled && q.span.contains p) := by
  induction o using Origin.induct with
  | step o ih =>
    have regularPart : ∀ part ∈ o.parts, Regular f part.source :=
      fun part member => regular.of_mem (grounded.inside member)
    have head : ∀ rest more : List Origin, rest.filter isFilled = more.filter (fun q => q.isFilled && q.span.contains p) →
        (o :: rest).filter isFilled = (o :: more).filter (fun q => q.isFilled && q.span.contains p) := by
      intro rest more same
      rw [List.filter_cons, List.filter_cons, inside, Bool.and_true, same]
    rw [chainAt_eq, nodes_eq]
    apply head
    rw [List.filter_flatMap]
    cases found : o.parts.find? (·.span.contains p) with
    | none =>
      symm
      show _ = []
      rw [List.flatMap_eq_nil_iff]
      intro part member
      refine (grounded.of_part member).filter_nodes_eq_nil small (regularPart part member) fun _ => ?_
      simpa using List.find?_eq_none.mp found part member
    | some part =>
      obtain ⟨contains, before, behind, split, missed⟩ := List.find?_eq_some_iff_append.mp found
      have member : part ∈ o.parts := List.mem_of_find?_eq_some found
      have disjoint := grounded.disjoint small regular
      rw [split, List.pairwise_append, List.pairwise_cons] at disjoint
      have front : before.flatMap (fun q => q.nodes.filter (fun q => q.isFilled && q.span.contains p)) = [] := by
        rw [List.flatMap_eq_nil_iff]
        intro a inFront
        have memberA : a ∈ o.parts := by
          rw [split]
          exact List.mem_append_left _ inFront
        refine (grounded.of_part memberA).filter_nodes_eq_nil small (regularPart a memberA) fun _ => ?_
        simpa using missed a inFront
      have back : behind.flatMap (fun q => q.nodes.filter (fun q => q.isFilled && q.span.contains p)) = [] := by
        rw [List.flatMap_eq_nil_iff]
        intro b inBack
        have memberB : b ∈ o.parts := by
          rw [split]
          exact List.mem_append_right _ (List.mem_cons_of_mem part inBack)
        refine (grounded.of_part memberB).filter_nodes_eq_nil small (regularPart b memberB) fun filled => ?_
        exact disjoint.2.1.1 b inBack filled p contains
      rw [split, List.flatMap_append, List.flatMap_cons, front, back, List.nil_append, List.append_nil]
      exact ih part member (grounded.of_part member) (regularPart part member) contains

end Build.Origin

/-! ## The end of a document -/

/-- The text from an offset on holds only bytes that continue a character. -/
def SourceFile.StrayFrom (f : SourceFile) (n : Nat) : Prop :=
  0 < n ∧ n < f.size ∧ ∀ b ∈ f.content.drop n, Utf8.isContinuation b = true

/-- The last character of a text, if it is not the first, starts with a byte that starts a character. -/
theorem exists_lastCharacter {text : Bytes} (behind : 0 < Extent.lastCharacter 0 text) :
    ∃ b, text[Extent.lastCharacter 0 text]? = some b ∧ Utf8.isContinuation b = false := by
  have split := List.takeWhile_append_dropWhile (p := Utf8.isContinuation) (l := (text.drop 1).reverse)
  have head := List.head?_dropWhile_not Utf8.isContinuation (text.drop 1).reverse
  unfold Extent.lastCharacter at *
  cases kept : (text.drop 1).reverse.dropWhile Utf8.isContinuation with
  | nil =>
    rw [kept] at behind
    cases behind
  | cons b rest =>
    rw [kept] at split head
    have whole := congrArg List.reverse split
    rw [List.reverse_reverse, List.reverse_append, List.reverse_cons, List.append_assoc] at whole
    refine ⟨b, ?_, by simpa using head⟩
    rw [List.length_cons, Nat.zero_add, Nat.add_comm, ← List.getElem?_drop, ← whole,
      List.getElem?_append_right (by simp)]
    simp

section

variable {f : SourceFile} {n : Nat}

/-- An offset lies behind the last character of a text exactly if only bytes that continue a character follow. -/
theorem le_lastCharacter_iff (inside : n < f.size) :
    n ≤ Extent.lastCharacter 0 f.content ↔ ¬ f.StrayFrom n := by
  constructor
  · rintro low ⟨positive, _, stray⟩
    obtain ⟨b, found, starts⟩ := exists_lastCharacter (Nat.lt_of_lt_of_le positive low)
    have member : b ∈ f.content.drop n := by
      rw [List.mem_iff_getElem?]
      refine ⟨Extent.lastCharacter 0 f.content - n, ?_⟩
      rw [List.getElem?_drop, Nat.add_sub_cancel' low]
      exact found
    rw [stray b member] at starts
    cases starts
  · intro sound
    by_contra behind
    refine sound ⟨by omega, inside, fun b member => ?_⟩
    obtain ⟨i, found⟩ := List.mem_iff_getElem?.mp member
    rw [List.getElem?_drop] at found
    by_contra starts
    have := le_lastCharacter found (by simpa using starts)
    omega

end

namespace Build.Origin

/-! ## Whole documents -/

/-- The closed spans of elements nest: each contains the spans of all its parts that are made of a tree with a
width. -/
def Nested (o : Origin) : Prop :=
  ∀ q ∈ o.nodes, ∀ part ∈ q.parts, part.isFilled = true → q.span.containsSpan part.span = true

section

variable {f : SourceFile} {limit : Nat} {e : Element} {root : ParseTree} {body : Origin}

/-- The body of a document is made of a tree below the whole one, or it is empty and made of the whole one. -/
def Below (f : SourceFile) (root : ParseTree) (body : Origin) : Prop :=
  ParseTree.Regular f body.source ∨ body.source = root ∧ body.parts = []

theorem nodes_of_bare {o : Origin} (bare : o.parts = []) : o.nodes = [o] := by
  rw [nodes_eq, bare]
  rfl

variable (small : f.IsSmall) (grounded : Grounded f limit (.mk e root [body])) (below : Below f root body)
include small grounded below

/-- No two parts beside each other have a point in common. -/
theorem disjoint_document : ∀ q ∈ (mk e root [body]).nodes, q.parts.Pairwise fun a b =>
    a.isFilled = true → b.isFilled = true → ∀ p, ¬ (a.span.contains p = true ∧ b.span.contains p = true) := by
  have groundedBody := grounded.of_part (List.mem_singleton_self body)
  intro q member
  rcases mem_nodes.mp member with rfl | ⟨part, inside, node⟩
  · exact List.pairwise_singleton _ _
  obtain rfl := List.mem_singleton.mp inside
  rcases below with regular | ⟨_, bare⟩
  · refine ((groundedBody.of_mem node).disjoint small (regular.of_mem (groundedBody.source_mem node))).imp ?_
    rintro a b beside _ filled p ⟨insideA, insideB⟩
    rw [beside filled p insideA] at insideB
    cases insideB
  · rw [nodes_of_bare bare] at node
    rw [List.mem_singleton.mp node, bare]
    exact .nil

/-- A chain of a document finds all elements with a width that contain its point. -/
theorem filter_chainAt_document {p : Point} (inside : e.span.contains p = true) :
    ((mk e root [body]).chainAt p).filter isFilled =
      (mk e root [body]).nodes.filter fun q => q.isFilled && q.span.contains p := by
  have groundedBody := grounded.of_part (List.mem_singleton_self body)
  have head : (mk e root [body]).span.contains p = true := inside
  have rest : (((([body] : List Origin).find? (·.span.contains p)).map (Origin.chainAt p)).getD []).filter isFilled =
      body.nodes.filter fun q => q.isFilled && q.span.contains p := by
    cases contains : body.span.contains p with
    | true =>
      rw [List.find?_cons_of_pos (by exact contains)]
      show (body.chainAt p).filter isFilled = _
      rcases below with regular | ⟨_, bare⟩
      · exact filter_chainAt small groundedBody regular contains
      · rw [chainAt_eq, nodes_of_bare bare, bare]
        show [body].filter _ = [body].filter _
        rw [List.filter_cons, List.filter_cons, contains, Bool.and_true]
        rfl
    | false =>
      rw [List.find?_cons_of_neg (by simp [contains])]
      rcases below with regular | ⟨_, bare⟩
      · exact (groundedBody.filter_nodes_eq_nil small regular fun _ => contains).symm
      · rw [nodes_of_bare bare]
        simp [contains]
  rw [chainAt_eq, nodes_eq]
  show List.filter _ (_ :: (((([body] : List Origin).find? _).map _).getD [])) = _
  rw [List.filter_cons, List.filter_cons, head, Bool.and_true, rest]
  simp [parts]

/-- Only the whole document may not contain the span of its part. -/
theorem nested_iff : (mk e root [body]).Nested ↔
    (body.isFilled = true → e.span.containsSpan body.span = true) := by
  have groundedBody := grounded.of_part (List.mem_singleton_self body)
  constructor
  · intro nested
    exact nested _ (mem_nodes.mpr (Or.inl rfl)) body (List.mem_singleton_self body)
  · intro whole q member part inside filled
    rcases mem_nodes.mp member with rfl | ⟨c, isBody, node⟩
    · rw [List.mem_singleton.mp inside] at filled ⊢
      exact whole filled
    obtain rfl := List.mem_singleton.mp isBody
    rcases below with regular | ⟨_, bare⟩
    · exact (groundedBody.of_mem node).containsSpan_part small (regular.of_mem (groundedBody.source_mem node)) inside
        filled
    · rw [nodes_of_bare bare] at node
      rw [List.mem_singleton.mp node, bare] at inside
      cases inside

/-- A document contains its body, if that has a width, exactly if the body does not end in a stray byte. -/
theorem containsSpan_body_iff
    (span : e.span = ⟨f.pointAt 0, f.pointAt (Extent.lastCharacter 0 f.content)⟩) (whole : e.span = root.span)
    (filled : body.isFilled = true) :
    e.span.containsSpan body.span = true ↔ ¬ ∃ n, body.span.stop = f.pointAt n ∧ f.StrayFrom n := by
  have groundedBody := grounded.of_part (List.mem_singleton_self body)
  have bounded : Extent.lastCharacter 0 f.content ≤ f.size := by
    have := (Extent.lastCharacter_le 0 f.content).2
    unfold SourceFile.size
    omega
  rcases below with regular | ⟨source, _⟩
  · obtain ⟨last, spanBody, low, high, _⟩ := regular.exists_last
    have wide := (regular.filled_of_mem body.source.self_mem_nodes (by simpa [isFilled] using filled)).1
    have within := regular.sound.bounded
    have inside : last < f.size := by omega
    rw [groundedBody.span_eq, spanBody]
    have stray : (∃ n, f.pointAt last = f.pointAt n ∧ f.StrayFrom n) ↔ f.StrayFrom last := by
      constructor
      · rintro ⟨n, same, stray⟩
        rw [SourceFile.pointAt_inj small (Nat.le_of_lt inside) (Nat.le_of_lt stray.2.1) same]
        exact stray
      · exact fun stray => ⟨last, rfl, stray⟩
    rw [stray, ← le_lastCharacter_iff inside, span, Span.containsSpan_iff]
    dsimp only
    have start := SourceFile.rank_pointAt_le small (Nat.zero_le body.source.start) (Nat.le_trans low (by omega))
    have forward := SourceFile.rank_pointAt_le small low (Nat.le_of_lt inside)
    constructor
    · intro contained
      by_contra behind
      have := SourceFile.rank_pointAt_lt small (Nat.lt_of_not_le behind) (Nat.le_of_lt inside)
      omega
    · intro le
      have := SourceFile.rank_pointAt_le small le bounded
      omega
  · have same : body.span = e.span := by rw [groundedBody.span_eq, source, whole]
    have forward := SourceFile.rank_pointAt_le small (Nat.zero_le _) bounded
    constructor
    · rintro _ ⟨n, stop, stray⟩
      rw [same, span] at stop
      have equal := SourceFile.pointAt_inj small bounded (Nat.le_of_lt stray.2.1) stop
      exact (le_lastCharacter_iff stray.2.1).mp (Nat.le_of_eq equal.symm) stray
    · intro _
      rw [same, span, Span.containsSpan_iff]
      dsimp only
      omega

end

end Build.Origin

namespace Document

open Build

/-- Position lookup in a document. The elements have origins, and of those with a width the spans of siblings are
disjoint; a lookup is empty exactly outside the document, and inside it finds all elements with a width that contain
the point, from the outermost to the innermost. The spans nest exactly if the body of the service does not end in a
byte that continues no character with only such bytes behind it. -/
theorem lookup_complete (uri : Bytes) (version : Int) (path text : Bytes) (isVirtual : Bool)
    (options : AnalysisOptions) (small : (SourceFile.ofBytes path text isVirtual).size < 2 ^ 32) :
    let f := SourceFile.ofBytes path text isVirtual
    let d := analyze uri version f options
    ∃ body : Origin,
      let o := Origin.mk (.tree d.built.tree) d.root [body]
      o.Grounded f (Parser.depthLimit options.maxDepth) ∧
      (∀ q ∈ o.nodes, q.parts.Pairwise fun a b => a.isFilled = true → b.isFilled = true →
        ∀ p, ¬ (a.span.contains p = true ∧ b.span.contains p = true)) ∧
      (∀ p, d.lookup p = [] ↔ ¬ d.root.span.contains p = true) ∧
      (∀ p, d.root.span.contains p = true → ∃ chain : List Origin, chain.map Origin.element = d.lookup p ∧
        chain.filter Origin.isFilled = o.nodes.filter fun q => q.isFilled && q.span.contains p) ∧
      (o.Nested ↔ ¬ (body.isFilled = true ∧ ∃ n, body.span.stop = f.pointAt n ∧ f.StrayFrom n)) := by
  intro f d
  have small : f.IsSmall := SourceFile.isSmall_ofBytes small
  have regular : ∀ c ∈ d.root.children, ParseTree.Regular f c := regular_parse options.maxDepth
  have rootSpan : d.root.span = ⟨f.pointAt 0, f.pointAt (Extent.lastCharacter 0 f.content)⟩ :=
    span_parse options.maxDepth
  obtain ⟨body, grounded, source⟩ := @Origin.exists_document f (Parser.depthLimit options.maxDepth) d.root regular
  change Origin.Grounded f _ (.mk (.tree d.built.tree) d.root [body]) at grounded
  have below : Origin.Below f d.root body := by
    rcases source with ⟨c, child, node⟩ | whole
    · exact Or.inl ((regular c child).of_mem node)
    · exact Or.inr whole
  have span : (Element.tree d.built.tree).span = d.root.span := grounded.span_eq
  refine ⟨body, grounded, Origin.disjoint_document small grounded below, fun p => ?_, fun p inside => ?_, ?_⟩
  · rw [← span, Document.lookup, RulesTree.lookup]
    show _ ↔ ¬ d.built.tree.span.contains p = true
    split
    · rename_i inside
      simp [inside, Element.chainAt_eq]
    · rename_i outside
      simp [outside]
  · rw [← span] at inside
    refine ⟨_, ?_, Origin.filter_chainAt_document small grounded below inside⟩
    rw [grounded.chainAt, Document.lookup, RulesTree.lookup, if_pos (by exact inside)]
    rfl
  · rw [Origin.nested_iff small grounded below, not_and]
    exact forall_congr' fun filled =>
      Origin.containsSpan_body_iff small grounded below (span.trans rootSpan) span filled

theorem lookup_complete_sampleCall :
    (SourceFile.ofBytes [] sampleCall true).size < 2 ^ 32 ∧ ∃ body : Origin,
      (Origin.mk (.tree (analyze [] 1 (SourceFile.ofBytes [] sampleCall true) {}).built.tree)
          (analyze [] 1 (SourceFile.ofBytes [] sampleCall true) {}).root [body]).Grounded
        (SourceFile.ofBytes [] sampleCall true) 256 ∧
      (Origin.mk (.tree (analyze [] 1 (SourceFile.ofBytes [] sampleCall true) {}).built.tree)
          (analyze [] 1 (SourceFile.ofBytes [] sampleCall true) {}).root [body]).Nested := by
  have small : (SourceFile.ofBytes [] sampleCall true).size < 2 ^ 32 := by decide +kernel
  obtain ⟨body, grounded, _, _, _, nested⟩ := lookup_complete [] 1 [] sampleCall true {} small
  refine ⟨small, body, grounded, nested.mpr ?_⟩
  rintro ⟨_, n, _, _, inside, stray⟩
  have last : (SourceFile.ofBytes [] sampleCall true).content.getLast? = some 0x7D := by decide +kernel
  have member : 0x7D ∈ (SourceFile.ofBytes [] sampleCall true).content.drop n := by
    apply List.mem_of_getLast?
    rw [List.getLast?_drop, if_neg (by exact Nat.not_le.mpr inside), last]
  have continues := stray 0x7D member
  exact absurd continues (by decide)

/-- A document that ends in a byte that continues no character. -/
def strayEnd : Document :=
  analyze [] 1 (SourceFile.ofBytes [] (Bytes.ofString "service a \x7b" ++ [0x80]) true) {}

/-- The body of this document sticks out of it, so lookups at its last byte miss it. -/
theorem not_nested_strayEnd : ¬ ∃ body : Origin,
    (Origin.mk (.tree strayEnd.built.tree) strayEnd.root [body]).Grounded strayEnd.file 256 ∧
      (Origin.mk (.tree strayEnd.built.tree) strayEnd.root [body]).Nested := by
  rintro ⟨body, grounded, nested⟩
  have span : body.span = ⟨⟨0, 10⟩, ⟨0, 11⟩⟩ := by
    have element : [body].map Origin.element = [Element.matchBody strayEnd.built.tree.body] := grounded.elements
    rw [Origin.span, List.head_eq_of_cons_eq element]
    decide +kernel
  have filled : body.isFilled = true := by
    rw [Origin.isFilled, Bool.not_eq_true', Bool.eq_false_iff]
    intro isEmpty
    have point := (grounded.of_part (List.mem_singleton_self body)).span_eq
    rw [ParseTree.span, Extent.span, if_pos (by exact isEmpty), span] at point
    have same := (congrArg Span.start point).trans (congrArg Span.stop point).symm
    exact absurd same (by decide)
  have within := nested _ (Origin.mem_nodes.mpr (Or.inl rfl)) body (List.mem_singleton_self body) filled
  have short : strayEnd.built.tree.span.containsSpan ⟨⟨0, 10⟩, ⟨0, 11⟩⟩ = false := by decide +kernel
  rw [span] at within
  exact Bool.false_ne_true (short.symm.trans within)

end Document

end SecurityRules
