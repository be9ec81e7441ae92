import SecurityRules.Parser.Draft
import SecurityRules.Proofs.ParseTree.Sound
import SecurityRules.Proofs.Parser.Place

/-!
# Trees as readings of the text

A tree is a reading between two states of the parser: its leaves stand over the tokens from its start to its
end, comments included, and the comments that it does not hold stay pending. Attaching a child to a tree
joins two readings.
-/

namespace SecurityRules.Parser

/-! ## Comments on their way into a tree -/

section

variable {t : ParseTree} {limit : Nat}

theorem placeComment_kept (kept : List ParseTree) {comments : List ParseTree}
    (outside : ∀ c ∈ comments, c.start < t.stop ∨ limit ≤ c.start) :
    comments.foldl (placeComment limit) (t, kept) = (t, kept ++ comments) := by
  induction comments generalizing kept with
  | nil => rw [List.foldl_nil, List.append_nil]
  | cons c rest ih =>
    have stays : placeComment limit (t, kept) c = (t, kept ++ [c]) := by
      have := outside c (List.mem_cons_self ..)
      simp only [placeComment]
      rw [if_neg]
      simp only [Bool.and_eq_true, decide_eq_true_eq]
      omega
    rw [List.foldl_cons, stays, ih _ fun u member => outside u (List.mem_cons_of_mem c member),
      List.append_assoc]
    rfl

theorem placeComment_pushed (kept : List ParseTree) {comments : List ParseTree} {t : ParseTree}
    (ordered : comments.Pairwise fun a b => a.stop ≤ b.start)
    (inside : ∀ c ∈ comments, t.stop ≤ c.start ∧ c.start < limit) :
    comments.foldl (placeComment limit) (t, kept) = (comments.foldl ParseTree.push t, kept) := by
  induction comments generalizing t with
  | nil => rfl
  | cons c rest ih =>
    obtain ⟨behind, ordered⟩ := List.pairwise_cons.mp ordered
    have taken : placeComment limit (t, kept) c = (t.push c, kept) := by
      have := inside c (List.mem_cons_self ..)
      simp only [placeComment]
      rw [if_pos]
      simpa using this
    rw [List.foldl_cons, taken, ih ordered, List.foldl_cons]
    intro u member
    rw [ParseTree.stop_push]
    exact ⟨behind u member, (inside u (List.mem_cons_of_mem c member)).2⟩

end

/-- Several more children. -/
theorem foldl_push {kind : NodeKind} {isMissing : Bool} {role : Option Role} {cs more : List ParseTree}
    (grown : cs ≠ []) :
    more.foldl ParseTree.push (.node kind isMissing role (ParseTree.extentOf cs) cs) =
      .node kind isMissing role (ParseTree.extentOf (cs ++ more)) (cs ++ more) := by
  induction more generalizing cs with
  | nil => rw [List.foldl_nil, List.append_nil]
  | cons c rest ih =>
    rw [List.foldl_cons, ParseTree.push_of_children (.node kind isMissing role _ cs) c grown]
    show rest.foldl ParseTree.push
      (.node kind isMissing role ((ParseTree.extentOf cs).extend c.extent) (cs ++ [c])) = _
    rw [← ParseTree.extentOf_concat grown, ih (by simp), List.append_assoc]
    rfl

/-! ## Readings -/

/-- The tree `t` is what the parser reads on its way from the state `s` to the state `s'`. It starts where the state
stands, or with the next token. -/
structure Reading (f : SourceFile) (s : State) (t : ParseTree) (s' : State) : Prop where
  origin : State.At f s
  place : State.At f s'
  edge : t.start = s.lastStop ∨ t.start = s.peek.start ∧ t.start < t.stop
  forward : t.start ≤ t.stop
  stop : t.stop = s'.lastStop
  pending : s'.pending = s.pending.filter (fun c => decide (c.start < t.start)) ++
    f.commentsIn t.stop s'.peek.start
  tiled : ParseTree.Tiled t.leaves (f.tokensIn t.start t.stop)
  significant : t.isExtra = false
  sound : ∀ n ∈ t.nodes, n.Sound f
  below : ∀ c ∈ t.children, ∀ n ∈ c.nodes, n.Shaped

/-- A draft that reads on from the state `s`, at least up to the offset `reach`. -/
structure Grown (f : SourceFile) (kind : NodeKind) (s : State) (reach : Nat) (d : Draft) : Prop where
  reading : Reading f s d.tree d.state
  kind : d.tree.kind = kind
  grown : d.tree.children ≠ []
  reaches : reach ≤ d.tree.stop
  firm : d.tree.Firm

/-- A draft that has no child yet, or reads on from the state `s`. -/
inductive Growing (f : SourceFile) (kind : NodeKind) (s : State) (reach : Nat) : Draft → Prop
  | bare (place : State.At f s) (other : kind ≠ .comment) (reaches : reach ≤ s.lastStop) :
    Growing f kind s reach (Draft.opened kind s)
  | grown {d : Draft} (grown : Grown f kind s reach d) : Growing f kind s reach d

/-- What a production reads from the state `s`, which may be hollow. -/
structure ReadsHollow (f : SourceFile) (s : State) (r : ParseTree × State) : Prop where
  reading : Reading f s r.1 r.2
  shaped : r.1.Shaped

/-- What a production reads from the state `s`. -/
structure Reads (f : SourceFile) (s : State) (r : ParseTree × State) : Prop extends ReadsHollow f s r where
  solid : r.1.kind.isHollow = false

variable {f : SourceFile} {s : State}

theorem Reading.low {t : ParseTree} {s' : State} (reading : Reading f s t s') : s.lastStop ≤ t.start := by
  have := reading.origin.lastStop_le_peek
  rcases reading.edge with edge | edge <;> omega

theorem Reading.high {t : ParseTree} {s' : State} (reading : Reading f s t s') :
    t.start ≤ s.peek.start := by
  have := reading.origin.lastStop_le_peek
  rcases reading.edge with edge | edge <;> omega

/-- Reading does not lead back. -/
theorem Reading.peek_le {t : ParseTree} {s' : State} (reading : Reading f s t s') :
    s.peek.start ≤ s'.peek.start := by
  have low := reading.low
  have forward := reading.forward
  have stop := reading.stop
  by_cases ended : s'.rest = []
  · rw [State.peek_of_end ended, reading.place.file]
    exact reading.origin.peek_le_size
  · obtain ⟨member, significant, behind⟩ := reading.place.peek_mem ended
    apply reading.origin.peek_start_le
    rw [reading.origin.rest, List.mem_filter]
    refine ⟨member, ?_⟩
    rw [significant]
    simp only [Bool.not_false, Bool.true_and, decide_eq_true_eq]
    omega

theorem Reading.self_sound {t : ParseTree} {s' : State} (reading : Reading f s t s') : t.Sound f :=
  reading.sound t t.self_mem_nodes

theorem Reading.forward_children {t : ParseTree} {s' : State} (reading : Reading f s t s') :
    ∀ c ∈ t.children, c.start ≤ c.stop := by
  intro c member
  exact (reading.sound c (ParseTree.mem_nodes.mpr (Or.inr ⟨c, member, c.self_mem_nodes⟩))).forward

theorem ReadsHollow.shaped_nodes {r : ParseTree × State} (reads : ReadsHollow f s r) : ∀ n ∈ r.1.nodes, n.Shaped := by
  intro n member
  rcases ParseTree.mem_nodes.mp member with rfl | ⟨c, child, inside⟩
  · exact reads.shaped
  · exact reads.reading.below c child n inside

theorem Reading.inRole {t : ParseTree} {s' : State} (reading : Reading f s t s') (r : Option Role) :
    Reading f s (t.inRole r) s' where
  origin := reading.origin
  place := reading.place
  edge := by simpa using reading.edge
  forward := by simpa using reading.forward
  stop := by simpa using reading.stop
  pending := by simpa using reading.pending
  tiled := by simpa using reading.tiled.inRole r
  significant := by simpa using reading.significant
  sound := by
    intro n member
    rcases ParseTree.mem_nodes.mp member with rfl | ⟨c, child, inside⟩
    · exact reading.self_sound.inRole r
    · rw [ParseTree.children_inRole] at child
      exact reading.sound n (ParseTree.mem_nodes.mpr (Or.inr ⟨c, child, inside⟩))
  below := by simpa using reading.below

/-- A tree that has children is the same reading with another kind. -/
theorem Reading.ofKind {t : ParseTree} {s' : State} (reading : Reading f s t s') (grown : t.children ≠ [])
    {k : NodeKind} (significant : k ≠ .comment) : Reading f s (t.ofKind k) s' where
  origin := reading.origin
  place := reading.place
  edge := by simpa using reading.edge
  forward := by simpa using reading.forward
  stop := by simpa using reading.stop
  pending := by simpa using reading.pending
  tiled := by
    rw [ParseTree.leaves_ofKind grown]
    simpa using reading.tiled
  significant := by simpa [ParseTree.isExtra] using significant
  sound := by
    intro n member
    rcases ParseTree.mem_nodes.mp member with rfl | ⟨c, child, inside⟩
    · exact reading.self_sound.ofKind grown k
    · rw [ParseTree.children_ofKind] at child
      exact reading.sound n (ParseTree.mem_nodes.mpr (Or.inr ⟨c, child, inside⟩))
  below := by simpa using reading.below

theorem ReadsHollow.inRole {t : ParseTree} {s' : State} (reads : ReadsHollow f s (t, s')) (r : Option Role) :
    ReadsHollow f s (t.inRole r, s') :=
  ⟨reads.reading.inRole r, reads.shaped.inRole r⟩

/-- The leaf of a comment is a sound tree. -/
theorem sound_commentLeaf {t : Token} (member : t ∈ f.tokens) :
    (f.commentLeaf t).Sound f where
  ordered := List.Pairwise.nil
  forward := Nat.le_of_lt (f.laid_tokens.filled t member)
  bounded := f.laid_tokens.bounded t member
  leaf := by
    intro _
    refine ⟨rfl, fun isEmpty => ?_⟩
    have filled := f.laid_tokens.filled t member
    have same : t.start = t.stop := ParseTree.isEmpty_iff.mp isEmpty
    omega
  whole := fun grown => absurd rfl grown
  first := by
    intro c none
    cases none
  last := by
    intro c none
    cases none
  edges := fun _ => ⟨Or.inr (Or.inr ⟨t, member, Or.inl rfl⟩), Or.inr (Or.inr ⟨t, member, Or.inr rfl⟩)⟩
  comments := by
    intro c none
    cases none
  snug := List.isChain_nil

theorem isEmpty_commentLeaf {t : Token} (member : t ∈ f.tokens) : (f.commentLeaf t).isEmpty = false := by
  have filled := f.laid_tokens.filled t member
  rw [Bool.eq_false_iff]
  intro isEmpty
  have same : t.start = t.stop := ParseTree.isEmpty_iff.mp isEmpty
  omega

theorem nodes_commentLeaf (t : Token) : (f.commentLeaf t).nodes = [f.commentLeaf t] := by
  rw [ParseTree.nodes_eq]
  rfl

theorem shaped_commentLeaf {t : Token} (member : t ∈ f.tokens) : (f.commentLeaf t).Shaped := by
  refine ParseTree.Shaped.of_plain rfl ?_ (ParseTree.Firm.of_childless rfl)
  intro isEmpty
  rw [isEmpty_commentLeaf member] at isEmpty
  exact absurd isEmpty Bool.false_ne_true

/-- Comments alone are tiled by their leaves. -/
theorem tiled_comments {ts : List Token} (inFile : ∀ t ∈ ts, t ∈ f.tokens)
    (comments : ∀ t ∈ ts, t.kind.isComment = true) :
    ParseTree.Tiled ((ts.map f.commentLeaf).flatMap ParseTree.leaves) ts := by
  induction ts with
  | nil => exact ParseTree.Tiled.nil
  | cons t rest ih =>
    have member := inFile t (List.mem_cons_self ..)
    have one : ParseTree.Tiled (f.commentLeaf t).leaves [t] := by
      rw [ParseTree.leaves_of_childless rfl]
      refine ParseTree.Tiled.run (isEmpty_commentLeaf member) ?_
      rw [ParseTree.Over.single_iff]
      exact ⟨rfl, rfl, comments t (List.mem_cons_self ..)⟩
    rw [List.map_cons, List.flatMap_cons]
    exact one.append (ih (fun u later => inFile u (List.mem_cons_of_mem t later))
      fun u later => comments u (List.mem_cons_of_mem t later))

/-! ## Comments between readings -/

theorem sound_commentsIn {low high : Nat} :
    ∀ c ∈ f.commentsIn low high, ∀ n ∈ c.nodes, n.Sound f ∧ n.Shaped := by
  intro c member n inside
  obtain ⟨t, token, _, rfl⟩ := f.mem_commentsIn member
  have member := ((f.mem_tokensIn).mp token).1
  rw [nodes_commentLeaf, List.mem_singleton] at inside
  rw [inside]
  exact ⟨sound_commentLeaf member, shaped_commentLeaf member⟩

/-- Where the text has only comments, their leaves tile it. -/
theorem tiled_commentsIn {low high : Nat} (only : ∀ t ∈ f.tokensIn low high, t.kind.isComment = true) :
    ParseTree.Tiled ((f.commentsIn low high).flatMap ParseTree.leaves) (f.tokensIn low high) := by
  rw [SourceFile.commentsIn, List.filter_eq_self.mpr only]
  exact tiled_comments (fun t inside => ((f.mem_tokensIn).mp inside).1) only

/-- Between the place where a state stands and the tree that is read there are only comments. -/
theorem Reading.isComment_ahead {t : ParseTree} {s' : State} (reading : Reading f s t s') :
    ∀ u ∈ f.tokensIn s.lastStop t.start, u.kind.isComment = true := by
  intro u inside
  obtain ⟨inFile, low, high⟩ := (f.mem_tokensIn).mp inside
  exact reading.origin.isComment_of_gap
    ((f.mem_tokensIn).mpr ⟨inFile, low, Nat.lt_of_lt_of_le high reading.high⟩)

/-- A comment in front of the tree that is read ends in front of it too. -/
theorem Reading.stop_ahead {t : ParseTree} {s' : State} (reading : Reading f s t s') :
    ∀ c ∈ f.commentsIn s.lastStop t.start, c.stop ≤ t.start := by
  intro c member
  have range := f.start_of_mem_commentsIn member
  obtain ⟨u, inside, _, rfl⟩ := f.mem_commentsIn member
  rcases reading.edge with edge | ⟨edge, _⟩
  · omega
  · rw [edge] at range ⊢
    exact reading.origin.stop_le_peek ((f.mem_tokensIn).mp inside).1 range.2

/-! ## Attaching a child -/

theorem Reading.sound_only {c : ParseTree} {s' : State} (reading : Reading f s c s') (kind : NodeKind) :
    (ParseTree.node kind false none c.extent.first [c]).Sound f where
  ordered := List.pairwise_singleton _ _
  forward := reading.forward
  bounded := reading.self_sound.bounded
  leaf := fun childless => absurd childless (List.cons_ne_nil _ _)
  whole := fun _ => rfl
  first := by
    intro u first
    rw [← Option.some.inj first]
    exact reading.significant
  last := by
    intro u last
    rw [← Option.some.inj last]
    exact reading.significant
  edges := fun childless => absurd childless (List.cons_ne_nil _ _)
  comments := by
    intro u only isExtra
    rw [List.mem_singleton.mp only, reading.significant] at isExtra
    cases isExtra
  snug := List.isChain_singleton _

/-- A tree with one child is the reading of that child. -/
theorem Reading.only {c : ParseTree} {s' : State} (reading : Reading f s c s') (shaped : ∀ n ∈ c.nodes, n.Shaped)
    {kind : NodeKind} (other : kind ≠ .comment) :
    Reading f s (.node kind false none c.extent.first [c]) s' where
  origin := reading.origin
  place := reading.place
  edge := reading.edge
  forward := reading.forward
  stop := reading.stop
  pending := reading.pending
  tiled := by
    rw [ParseTree.leaves_of_children (t := .node kind false none c.extent.first [c]) (List.cons_ne_nil _ _)]
    show ParseTree.Tiled ([c].flatMap ParseTree.leaves) _
    rw [List.flatMap_singleton]
    exact reading.tiled
  significant := by simpa [ParseTree.isExtra, ParseTree.kind] using other
  sound := by
    intro n member
    rcases ParseTree.mem_nodes.mp member with rfl | ⟨u, child, inside⟩
    · exact reading.sound_only kind
    · rw [List.mem_singleton.mp child] at inside
      exact reading.sound n inside
  below := by
    intro u child n inside
    rw [List.mem_singleton.mp child] at inside
    exact shaped n inside

/-- The first child of a tree: the tree reads what the child reads. -/
theorem Reads.opened {kind : NodeKind} {r : ParseTree × State} (reads : Reads f s r) (s₀ : State)
    (role : Option Role) (other : kind ≠ .comment) :
    Grown f kind s r.1.stop
      (({ Draft.opened kind s₀ with state := r.2 } : Draft).attach role r.1) := by
  obtain ⟨c, s'⟩ := r
  have attached : ({ Draft.opened kind s₀ with state := s' } : Draft).attach role c =
      ⟨.node kind false none (c.inRole role).extent.first [c.inRole role], s'⟩ := rfl
  have solid : (c.inRole role).kind.isHollow = false := by
    rw [ParseTree.kind_inRole]
    exact reads.solid
  have inRole := reads.toReadsHollow.inRole role
  rw [attached]
  refine ⟨inRole.reading.only inRole.shaped_nodes other, rfl, List.cons_ne_nil _ _, ?_, ?_, ?_⟩
  · show c.stop ≤ (c.inRole role).stop
    rw [ParseTree.stop_inRole]
  · intro u child isHollow
    rw [List.mem_singleton.mp child, solid] at isHollow
    exact absurd isHollow Bool.false_ne_true
  · intro u head
    rw [← Option.some.inj head]
    exact solid

/-- The children of the tree `t` with one more: the comments between its end and the child go in front of that. -/
def joinedChildren (f : SourceFile) (t child : ParseTree) : List ParseTree :=
  t.children ++ f.commentsIn t.stop child.start ++ [child]

/-- The tree `t` with one more child. -/
def joined (f : SourceFile) (t child : ParseTree) : ParseTree :=
  .node t.kind t.isMissing t.role (ParseTree.extentOf (joinedChildren f t child)) (joinedChildren f t child)

@[simp] theorem children_joined (f : SourceFile) (t child : ParseTree) :
    (joined f t child).children = joinedChildren f t child := rfl

@[simp] theorem extent_joined (f : SourceFile) (t child : ParseTree) :
    (joined f t child).extent = ParseTree.extentOf (joinedChildren f t child) := rfl

theorem children_joined_ne_nil (f : SourceFile) (t child : ParseTree) : (joined f t child).children ≠ [] :=
  List.append_ne_nil_of_right_ne_nil _ (List.cons_ne_nil child [])

theorem mem_joinedChildren {t child u : ParseTree} :
    u ∈ joinedChildren f t child ↔ u ∈ t.children ∨ u ∈ f.commentsIn t.stop child.start ∨ u = child := by
  rw [joinedChildren, List.mem_append, List.mem_append, List.mem_singleton, or_assoc]

/-- The first child stays the first one. -/
theorem head?_joinedChildren {t : ParseTree} (grown : t.children ≠ []) (child : ParseTree) :
    (joinedChildren f t child).head? = t.children.head? := by
  obtain ⟨first, rest, split⟩ := List.exists_cons_of_ne_nil grown
  rw [joinedChildren, split]
  rfl

@[simp] theorem getLast?_joinedChildren (t child : ParseTree) :
    (joinedChildren f t child).getLast? = some child := List.getLast?_concat

@[simp] theorem stop_joined (t child : ParseTree) : (joined f t child).stop = child.stop := by
  rw [ParseTree.stop, extent_joined, joinedChildren, ParseTree.extentOf_stop_concat]

section

variable {kind : NodeKind} {reach : Nat} {d : Draft} {c : ParseTree} {s' : State}

/-- Comments that are pending behind a further child: those in front of the tree, those between the tree and
the child, and those behind the child. -/
theorem Grown.pending_eq (grown : Grown f kind s reach d) (reading : Reading f d.state c s') :
    s'.pending = s.pending.filter (fun u => decide (u.start < d.tree.start)) ++
      f.commentsIn d.tree.stop c.start ++ f.commentsIn c.stop s'.peek.start := by
  have apart : d.tree.stop ≤ c.start := grown.reading.stop ▸ reading.low
  rw [reading.pending, grown.reading.pending, List.filter_append]
  congr 2
  · rw [List.filter_eq_self]
    intro u member
    have older : u.start < d.tree.start := by simpa using (List.mem_filter.mp member).2
    have := grown.reading.forward
    simp only [decide_eq_true_eq]
    omega
  · exact f.filter_commentsIn apart reading.high

/-- Pushing the comments and then the child makes the tree with the child. -/
theorem Grown.push_eq (grown : Grown f kind s reach d) (c : ParseTree) :
    ((f.commentsIn d.tree.stop c.start).foldl ParseTree.push d.tree).push c = joined f d.tree c := by
  have shape : d.tree = .node d.tree.kind d.tree.isMissing d.tree.role
      (ParseTree.extentOf d.tree.children) d.tree.children := by
    have whole := grown.reading.self_sound.whole grown.grown
    generalize d.tree = t at whole ⊢
    cases t with
    | node k m r e cs =>
      have whole : e = ParseTree.extentOf cs := whole
      rw [whole]
      rfl
  calc ((f.commentsIn d.tree.stop c.start).foldl ParseTree.push d.tree).push c
      = (f.commentsIn d.tree.stop c.start ++ [c]).foldl ParseTree.push d.tree := by
        rw [List.foldl_append, List.foldl_cons, List.foldl_nil]
    _ = (f.commentsIn d.tree.stop c.start ++ [c]).foldl ParseTree.push
          (.node d.tree.kind d.tree.isMissing d.tree.role
            (ParseTree.extentOf d.tree.children) d.tree.children) := by rw [← shape]
    _ = joined f d.tree c := by
        rw [foldl_push grown.grown, joined, joinedChildren, List.append_assoc]

/-- The comments between a tree and a further child become children of the tree, the others stay pending. -/
theorem Grown.foldl_placeComment (grown : Grown f kind s reach d) (reading : Reading f d.state c s') :
    s'.pending.foldl (placeComment c.start) (d.tree, []) =
      ((f.commentsIn d.tree.stop c.start).foldl ParseTree.push d.tree,
        s.pending.filter (fun u => decide (u.start < d.tree.start)) ++ f.commentsIn c.stop s'.peek.start) := by
  have older : ∀ u ∈ s.pending.filter (fun u => decide (u.start < d.tree.start)), u.start < d.tree.stop := by
    intro u member
    have front : u.start < d.tree.start := by simpa using (List.mem_filter.mp member).2
    exact Nat.lt_of_lt_of_le front grown.reading.forward
  have first : (s.pending.filter (fun u => decide (u.start < d.tree.start))).foldl
      (placeComment c.start) (d.tree, []) = (d.tree, [] ++ _) :=
    placeComment_kept [] fun u member => Or.inl (older u member)
  have second : (f.commentsIn d.tree.stop c.start).foldl (placeComment c.start) (d.tree, _) =
      ((f.commentsIn d.tree.stop c.start).foldl ParseTree.push d.tree, _) :=
    placeComment_pushed (s.pending.filter (fun u => decide (u.start < d.tree.start)))
      (f.commentsIn_apart d.tree.stop c.start) fun u member => f.start_of_mem_commentsIn member
  rw [grown.pending_eq reading, List.foldl_append, List.foldl_append, first, List.nil_append, second,
    placeComment_kept]
  intro u member
  exact Or.inr (Nat.le_trans reading.forward (f.start_of_mem_commentsIn member).1)

/-- What attaching a child makes of a tree that has children. -/
theorem Grown.attach_eq {role : Option Role} (grown : Grown f kind s reach d) (reading : Reading f d.state c s') :
    ({ d with state := s' } : Draft).attach role c =
      ⟨joined f d.tree (c.inRole role),
        { s' with
          pending := s.pending.filter (fun u => decide (u.start < d.tree.start)) ++
            f.commentsIn c.stop s'.peek.start }⟩ := by
  have notBare : ({ d with state := s' } : Draft).isBare = false := by
    simpa [Draft.isBare] using grown.grown
  rw [Draft.attach, notBare]
  simp only [Bool.false_eq_true, ↓reduceIte]
  rw [grown.foldl_placeComment reading]
  have pushed := grown.push_eq (c.inRole role)
  rw [ParseTree.start_inRole] at pushed
  simp only [pushed]

theorem Grown.children_attach (role : Option Role) {r : ParseTree × State} (grown : Grown f kind s reach d)
    (reading : Reading f d.state r.1 r.2) :
    (({ d with state := r.2 } : Draft).attach role r.1).tree.children =
      d.tree.children ++ f.commentsIn d.tree.stop r.1.start ++ [r.1.inRole role] := by
  rw [grown.attach_eq reading, children_joined, joinedChildren, ParseTree.start_inRole]

/-- The children in a role after attaching one more: comments have no role. -/
theorem Grown.childrenIn_attach (role : Option Role) {r : ParseTree × State} (grown : Grown f kind s reach d)
    (reading : Reading f d.state r.1 r.2) (wanted : Role) :
    (({ d with state := r.2 } : Draft).attach role r.1).tree.childrenIn wanted =
      d.tree.childrenIn wanted ++ if role = some wanted then [r.1.inRole role] else [] := by
  have noRole : (f.commentsIn d.tree.stop r.1.start).filter (·.role == some wanted) = [] := by
    rw [List.filter_eq_nil_iff]
    intro c member
    obtain ⟨t, _, _, rfl⟩ := f.mem_commentsIn member
    exact Bool.false_ne_true
  rw [ParseTree.childrenIn, grown.children_attach role reading, List.filter_append, List.filter_append,
    noRole, List.append_nil]
  congr 1
  by_cases same : role = some wanted
  · rw [if_pos same, List.filter_cons_of_pos (by simpa using same)]
    rfl
  · rw [if_neg same, List.filter_cons_of_neg (by simpa using same)]
    rfl

theorem Grown.mono {reach' : Nat} (grown : Grown f kind s reach d) (reaches : reach' ≤ d.tree.stop) :
    Grown f kind s reach' d :=
  { grown with reaches }

theorem Grown.start_joined (grown : Grown f kind s reach d) (c : ParseTree) :
    (joined f d.tree c).start = d.tree.start := by
  obtain ⟨first, rest, split⟩ := List.exists_cons_of_ne_nil grown.grown
  have start : d.tree.start = first.start := by
    rw [ParseTree.start, grown.reading.self_sound.whole grown.grown, split, ParseTree.extentOf_start]
  rw [ParseTree.start, extent_joined, joinedChildren, split, List.cons_append, List.cons_append,
    ParseTree.extentOf_start, start]

/-- An empty tree is attached where the tree ends that it is attached to, without comments in front of it. -/
theorem Grown.snug_joined (grown : Grown f kind s reach d) (reading : Reading f d.state c s') :
    (joinedChildren f d.tree c).IsChain fun a b => b.isEmpty = true → a.stop = b.start := by
  have filled : ∀ u ∈ f.commentsIn d.tree.stop c.start, u.isEmpty = false := by
    intro u member
    obtain ⟨t, inside, _, rfl⟩ := f.mem_commentsIn member
    exact isEmpty_commentLeaf ((f.mem_tokensIn).mp inside).1
  have behind : c.isEmpty = true → c.start = d.tree.stop := by
    intro isEmpty
    have same := ParseTree.isEmpty_iff.mp isEmpty
    rw [grown.reading.stop]
    rcases reading.edge with edge | ⟨_, content⟩
    · exact edge
    · omega
  have whole := grown.reading.self_sound.whole grown.grown
  refine List.isChain_append.mpr ⟨List.isChain_append.mpr ⟨grown.reading.self_sound.snug, ?_, ?_⟩,
    List.isChain_singleton _, ?_⟩
  · refine List.Pairwise.isChain (List.pairwise_of_forall_mem_list fun a _ b member isEmpty => ?_)
    rw [filled b member] at isEmpty
    cases isEmpty
  · intro a last b head isEmpty
    rw [filled b (List.mem_of_mem_head? head)] at isEmpty
    cases isEmpty
  · intro a last b head isEmpty
    rw [List.head?_cons] at head
    obtain rfl := Option.some.inj head
    rw [behind isEmpty, f.commentsIn_eq_nil (Nat.le_refl _), List.append_nil] at last
    rw [behind isEmpty, ParseTree.stop, ParseTree.stop, whole]
    exact (ParseTree.extentOf_stop last).symm

theorem Grown.ordered_joined (grown : Grown f kind s reach d) (reading : Reading f d.state c s') :
    (joinedChildren f d.tree c).Pairwise fun a b => a.stop ≤ b.start := by
  have before := grown.reading
  have apart : d.tree.stop ≤ c.start := before.stop ▸ reading.low
  have inside := fun u member => (before.self_sound.inside before.forward_children (c := u) member).2
  rw [joinedChildren, List.pairwise_append, List.pairwise_append]
  refine ⟨⟨before.self_sound.ordered, f.commentsIn_apart _ _, ?_⟩, List.pairwise_singleton _ _, ?_⟩
  · intro a old b isComment
    exact Nat.le_trans (inside a old) (f.start_of_mem_commentsIn isComment).1
  · intro a earlier b last
    rw [List.mem_singleton.mp last]
    rcases List.mem_append.mp earlier with old | isComment
    · exact Nat.le_trans (inside a old) apart
    · exact reading.stop_ahead a (before.stop ▸ isComment)

theorem Grown.forward_joined (grown : Grown f kind s reach d) (reading : Reading f d.state c s') :
    (joined f d.tree c).start ≤ (joined f d.tree c).stop := by
  rw [grown.start_joined, stop_joined]
  have before := grown.reading.forward
  have apart : d.tree.stop ≤ c.start := grown.reading.stop ▸ reading.low
  have forward := reading.forward
  omega

/-- A tree stays sound with a further child. -/
theorem Grown.sound_joined (grown : Grown f kind s reach d) (reading : Reading f d.state c s') :
    (joined f d.tree c).Sound f where
  ordered := grown.ordered_joined reading
  forward := grown.forward_joined reading
  bounded := by
    rw [stop_joined]
    exact reading.self_sound.bounded
  leaf := fun childless => absurd childless (children_joined_ne_nil f d.tree c)
  whole := fun _ => rfl
  first := by
    rw [children_joined, head?_joinedChildren grown.grown]
    exact grown.reading.self_sound.first
  last := by
    intro u last
    rw [children_joined, getLast?_joinedChildren] at last
    rw [← Option.some.inj last]
    exact reading.significant
  edges := fun childless => absurd childless (children_joined_ne_nil f d.tree c)
  comments := by
    intro u child isExtra
    rcases mem_joinedChildren.mp child with old | isComment | rfl
    · exact grown.reading.self_sound.comments u old isExtra
    · obtain ⟨t, _, _, rfl⟩ := f.mem_commentsIn isComment
      exact ⟨rfl, rfl, rfl⟩
    · rw [reading.significant] at isExtra
      cases isExtra
  snug := grown.snug_joined reading

theorem Grown.nodes_joined (grown : Grown f kind s reach d) (reading : Reading f d.state c s')
    (shaped : ∀ n ∈ c.nodes, n.Shaped) :
    ∀ u ∈ (joined f d.tree c).children, ∀ n ∈ u.nodes, n.Sound f ∧ n.Shaped := by
  intro u child n inside
  rcases mem_joinedChildren.mp child with old | isComment | rfl
  · exact ⟨grown.reading.sound n (ParseTree.mem_nodes.mpr (Or.inr ⟨u, old, inside⟩)),
      grown.reading.below u old n inside⟩
  · exact sound_commentsIn u isComment n inside
  · exact ⟨reading.sound n inside, shaped n inside⟩

/-- The leaves of the tree, of the comments and of the child stand over the tokens from its start to its end. -/
theorem Grown.tiled_joined (grown : Grown f kind s reach d) (reading : Reading f d.state c s') :
    ParseTree.Tiled (joined f d.tree c).leaves
      (f.tokensIn (joined f d.tree c).start (joined f d.tree c).stop) := by
  have before := grown.reading
  have apart : d.tree.stop ≤ c.start := before.stop ▸ reading.low
  have leaves : (joined f d.tree c).leaves =
      d.tree.leaves ++ (f.commentsIn d.tree.stop c.start).flatMap ParseTree.leaves ++ c.leaves := by
    rw [ParseTree.leaves_of_children (children_joined_ne_nil f d.tree c), children_joined, joinedChildren,
      List.flatMap_append, List.flatMap_append, ← ParseTree.leaves_of_children grown.grown,
      List.flatMap_singleton]
  have gap := tiled_commentsIn (before.stop ▸ reading.isComment_ahead)
  rw [leaves, grown.start_joined, stop_joined,
    ← f.tokensIn_append (Nat.le_trans before.forward apart) reading.forward,
    ← f.tokensIn_append before.forward apart]
  exact (before.tiled.append gap).append reading.tiled

theorem Grown.firm_joined (grown : Grown f kind s reach d)
    (fits : c.kind.isHollow = true → Role.mayBeHollow c.role = true) : (joined f d.tree c).Firm where
  role := by
    intro u child isHollow
    rcases mem_joinedChildren.mp child with old | isComment | rfl
    · exact grown.firm.role u old isHollow
    · obtain ⟨t, _, _, rfl⟩ := f.mem_commentsIn isComment
      exact absurd isHollow Bool.false_ne_true
    · exact fits isHollow
  first := by
    rw [children_joined, head?_joinedChildren grown.grown]
    exact grown.firm.first

/-- The tree with a further child is read on the way behind the child. -/
theorem Grown.reading_joined (grown : Grown f kind s reach d) (reading : Reading f d.state c s')
    (shaped : ∀ n ∈ c.nodes, n.Shaped) :
    Reading f s (joined f d.tree c)
      { s' with
        pending := s.pending.filter (fun u => decide (u.start < d.tree.start)) ++
          f.commentsIn c.stop s'.peek.start } where
  origin := grown.reading.origin
  place := by
    have older : ∀ u ∈ s.pending.filter (fun u => decide (u.start < d.tree.start)),
        u.start < s'.lastStop := by
      intro u member
      have low := (List.mem_filter.mp member).2
      have forward := grown.forward_joined reading
      rw [grown.start_joined, stop_joined, reading.stop] at forward
      simp only [decide_eq_true_eq] at low
      omega
    rw [reading.stop]
    exact reading.place.withPending older
  edge := by
    rw [grown.start_joined]
    rcases grown.reading.edge with edge | ⟨edge, filled⟩
    · exact Or.inl edge
    · refine Or.inr ⟨edge, ?_⟩
      have apart : d.tree.stop ≤ c.start := grown.reading.stop ▸ reading.low
      have forward := reading.forward
      rw [stop_joined]
      omega
  forward := grown.forward_joined reading
  stop := by
    rw [stop_joined]
    exact reading.stop
  pending := by
    rw [grown.start_joined, stop_joined]
    rfl
  tiled := grown.tiled_joined reading
  significant := grown.reading.significant
  sound := by
    intro n member
    rcases ParseTree.mem_nodes.mp member with rfl | ⟨u, child, inside⟩
    · exact grown.sound_joined reading
    · exact (grown.nodes_joined reading shaped u child n inside).1
  below := fun u child n inside => (grown.nodes_joined reading shaped u child n inside).2

/-- A further child may be hollow if its role allows it. -/
theorem Grown.attach {role : Option Role} {r : ParseTree × State} (grown : Grown f kind s reach d)
    (reads : ReadsHollow f d.state r) (fits : r.1.kind.isHollow = true → Role.mayBeHollow role = true) :
    Grown f kind s r.1.stop (({ d with state := r.2 } : Draft).attach role r.1) := by
  obtain ⟨c, s'⟩ := r
  have read := grown.reading_joined (reads.reading.inRole role) (reads.inRole role).shaped_nodes
  rw [ParseTree.stop_inRole] at read
  rw [grown.attach_eq reads.reading]
  refine ⟨read, grown.kind, children_joined_ne_nil f d.tree _, ?_, ?_⟩
  · rw [stop_joined, ParseTree.stop_inRole]
  · apply grown.firm_joined
    rw [ParseTree.kind_inRole, ParseTree.role_inRole]
    exact fits

end

end SecurityRules.Parser
