import SecurityRules.Proofs.Lookup.Spans
import SecurityRules.Proofs.Recovery.Sketch
import SecurityRules.Proofs.Recovery.Steps
import SecurityRules.Proofs.Text.Boundary

/-!
# Trees with a gap

A place between two tokens of a file lies inside some trees of its document, one in the other; behind or in front of
all others. What stands in the gap of the innermost of them is one more child of it.

A path of child numbers leads to a tree with a place between two of its children. All trees on the path lie around the
place, and no others do. So one more part at that place is one more part at the end of the path.
-/

namespace SecurityRules

namespace ParseTree

variable {f f' : SourceFile} {place : Nat} {e : Shape} {t t' c c' : ParseTree} {ts us : List ParseTree}

/-- Whether a place lies inside a tree. -/
def Straddles (place : Nat) (t : ParseTree) : Prop := t.start < place ∧ place < t.stop

instance (place : Nat) (t : ParseTree) : Decidable (t.Straddles place) := inferInstanceAs (Decidable (_ ∧ _))

mutual

/-- What is left of a tree without places and comments, with one more part at a place inside the tree. -/
def shapeWith (f : SourceFile) (place : Nat) (e : Shape) : ParseTree → Shape
  | node kind isMissing role _ children => .node kind isMissing role [] (shapesWith f place e children)

/-- The same of the trees of a list around the place. -/
def shapesWith (f : SourceFile) (place : Nat) (e : Shape) : List ParseTree → List Shape
  | [] => [e]
  | t :: rest =>
    if t.isExtra then shapesWith f place e rest
    else if t.stop ≤ place then t.shape f :: shapesWith f place e rest
    else if t.start < place then shapeWith f place e t :: shapes f rest
    else e :: t.shape f :: shapes f rest

end

theorem shapeWith_eq : t.shapeWith f place e =
    .node t.kind t.isMissing t.role [] (shapesWith f place e t.children) := by
  cases t
  rw [shapeWith]
  rfl

theorem shapesWith_cons : shapesWith f place e (t :: ts) =
    if t.isExtra then shapesWith f place e ts
    else if t.stop ≤ place then t.shape f :: shapesWith f place e ts
    else if t.start < place then shapeWith f place e t :: shapes f ts
    else e :: t.shape f :: shapes f ts := by
  rw [shapesWith]

theorem shapes_append : shapes f (ts ++ us) = shapes f ts ++ shapes f us := by
  rw [shapes_eq, shapes_eq, shapes_eq, List.filter_append, List.map_append]

/-- Comments play no part. -/
theorem shapesWith_eq_filter : shapesWith f place e ts = shapesWith f place e (ts.filter (!·.isExtra)) := by
  induction ts with
  | nil => rfl
  | cons t ts ih =>
    rw [shapesWith_cons]
    split
    · rename_i isExtra
      rw [ih, List.filter_cons_of_neg (by simp [isExtra])]
    · rename_i significant
      have same : shapes f ts = shapes f (ts.filter (!·.isExtra)) := by
        rw [shapes_eq, shapes_eq, List.filter_filter]
        simp
      rw [List.filter_cons_of_pos (by simp [significant]), shapesWith_cons, if_neg significant, ih, same]

theorem shapesWith_append_comments (comments : ∀ c ∈ us, c.isExtra = true) :
    shapesWith f place e (ts ++ us) = shapesWith f place e ts := by
  have none : us.filter (!·.isExtra) = [] := List.filter_eq_nil_iff.mpr fun c member => by simp [comments c member]
  rw [shapesWith_eq_filter, List.filter_append, none, List.append_nil, ← shapesWith_eq_filter]

/-- What stands behind the place keeps its shape. -/
theorem shapesWith_behind (significant : c.isExtra = false) (low : place ≤ c.start) (high : place < c.stop) :
    shapesWith f place e (ts ++ [c]) = shapesWith f place e ts ++ [c.shape f] := by
  have alone : shapes f [c] = [c.shape f] := by rw [shapes, if_neg (by simp [significant]), shapes]
  induction ts with
  | nil =>
    rw [List.nil_append, shapesWith_cons, if_neg (by simp [significant]), if_neg (by omega), if_neg (by omega)]
    rfl
  | cons t ts ih =>
    rw [List.cons_append, shapesWith_cons, shapesWith_cons, shapes_append, alone, ih]
    split
    · rfl
    · split
      · rfl
      · split <;> rfl

/-- Behind all that stands in front of the place there is the gap. -/
theorem shapesWith_before (before : ∀ c ∈ ts, c.isExtra = false → c.stop ≤ place) :
    shapesWith f place e (ts ++ us) = shapes f ts ++ shapesWith f place e us := by
  induction ts with
  | nil => rfl
  | cons t ts ih =>
    rw [List.cons_append, shapesWith_cons, ih fun c member => before c (List.mem_cons_of_mem t member), shapes]
    split
    · rfl
    · rename_i significant
      rw [if_pos (before t (List.mem_cons_self ..) (by simpa using significant))]
      rfl

theorem shapesWith_inside (significant : c.isExtra = false) (inside : c.Straddles place) :
    shapesWith f place e [c] = [c.shapeWith f place e] := by
  rw [shapesWith_cons, if_neg (by simp [significant]), if_neg (Nat.not_le_of_lt inside.2), if_pos inside.1, shapes]

/-- A tree that has one more child than another one, at a place inside that, and is the same otherwise. -/
structure Gains (f f' : SourceFile) (place : Nat) (e : Shape) (t t' : ParseTree) : Prop where
  kind : t'.kind = t.kind
  isMissing : t'.isMissing = t.isMissing
  role : t'.role = t.role
  filled : t'.children ≠ []
  parts : t'.significant.map (shape f') = shapesWith f place e t.children

theorem Gains.shape_eq (gains : Gains f f' place e t t') : t'.shape f' = t.shapeWith f place e := by
  rw [ParseTree.shape_eq, shapeWith_eq, gains.kind, gains.isMissing, gains.role, gains.parts,
    if_neg (by simpa using gains.filled)]

theorem Gains.inRole (gains : Gains f f' place e t t') (r : Option Role) :
    Gains f f' place e (t.inRole r) (t'.inRole r) where
  kind := by simpa using gains.kind
  isMissing := by simpa using gains.isMissing
  role := by simp
  filled := by simpa using gains.filled
  parts := by simpa [significant] using gains.parts

end ParseTree

namespace Parser

open ParseTree (Gains Twins shapesWith)

variable {f f' : SourceFile} {place : Nat} {e : Shape} {d d' : Draft} {c c' : ParseTree} {role : Option Role}

/-- The children of a draft with one more. -/
theorem exists_children_attach (of : d.state.Of f) (role : Option Role) (c : ParseTree) : ∃ comments,
    (d.attach role c).tree.children = d.tree.children ++ comments ++ [c.inRole role] ∧
      ∀ u ∈ comments, u.isExtra = true := by
  obtain ⟨comments, children, waiting, -⟩ := (attached_attach d role c).children
  exact ⟨comments, children, fun u member => (of.pending u (waiting u member)).isExtra⟩

theorem significant_attach (of : d.state.Of f) (significant : c.isExtra = false) :
    (d.attach role c).tree.significant = d.tree.significant ++ [c.inRole role] :=
  (attached_attach d role c).significant_eq of (by simpa using significant)

/-- What is read behind the place goes to both trees. -/
theorem gains_attach_behind (gains : Gains f f' place e d.tree d'.tree) (of : d.state.Of f) (of' : d'.state.Of f')
    (child : Twins f f' c c') (significant : c.isExtra = false) (low : place ≤ c.start) (high : place < c.stop) :
    Gains f f' place e (d.attach role c).tree (d'.attach role c').tree := by
  have attached := attached_attach d role c
  have attached' := attached_attach d' role c'
  obtain ⟨comments, children, extras⟩ := exists_children_attach of role c
  refine ⟨?_, ?_, ?_, attached'.children_ne_nil, ?_⟩
  · rw [attached.kind, attached'.kind, gains.kind]
  · rw [attached.isMissing, attached'.isMissing, gains.isMissing]
  · rw [attached.role, attached'.role, gains.role]
  · rw [significant_attach of' (child.isExtra ▸ significant), List.map_append, gains.parts, children,
      ParseTree.shapesWith_behind (by simpa using significant) (by simpa using low) (by simpa using high),
      ParseTree.shapesWith_append_comments extras, List.map_singleton, (child.inRole role).shape]

section

variable (tree : Twins f f' d.tree d'.tree) (before : ∀ u ∈ d.tree.children, u.stop ≤ place)
include tree before

/-- What is read at the place goes to the second tree only. -/
theorem gains_attach_here (of' : d'.state.Of f') (shape : (c'.inRole role).shape f' = e)
    (significant : c'.isExtra = false) : Gains f f' place e d.tree (d'.attach role c').tree := by
  have attached' := attached_attach d' role c'
  have shapes := tree.shape
  rw [ParseTree.shape_eq, ParseTree.shape_eq] at shapes
  obtain ⟨kind, isMissing, roleSame, -, parts⟩ := Shape.node.inj shapes
  refine ⟨?_, ?_, ?_, attached'.children_ne_nil, ?_⟩
  · rw [attached'.kind, kind]
  · rw [attached'.isMissing, isMissing]
  · rw [attached'.role, roleSame]
  · have gap : shapesWith f place e (d.tree.children ++ []) = ParseTree.shapes f d.tree.children ++ [e] :=
      ParseTree.shapesWith_before fun u member _ => before u member
    rw [List.append_nil, ParseTree.shapes_eq] at gap
    rw [significant_attach of' significant, List.map_append, gap, List.map_singleton, shape, ← parts]
    rfl

/-- What lies around the place goes to both trees, and has the gap inside. -/
theorem gains_attach_around (of : d.state.Of f) (of' : d'.state.Of f') (gains : Gains f f' place e c c')
    (significant : c.isExtra = false) (around : c.Straddles place) :
    Gains f f' place e (d.attach role c).tree (d'.attach role c').tree := by
  have attached := attached_attach d role c
  have attached' := attached_attach d' role c'
  obtain ⟨comments, children, extras⟩ := exists_children_attach of role c
  have shapes := tree.shape
  rw [ParseTree.shape_eq, ParseTree.shape_eq] at shapes
  obtain ⟨kind, isMissing, roleSame, -, parts⟩ := Shape.node.inj shapes
  have significant' : c'.isExtra = false := by rw [ParseTree.isExtra, gains.kind]; exact significant
  refine ⟨?_, ?_, ?_, attached'.children_ne_nil, ?_⟩
  · rw [attached.kind, attached'.kind, kind]
  · rw [attached.isMissing, attached'.isMissing, isMissing]
  · rw [attached.role, attached'.role, roleSame]
  · have gap : shapesWith f place e (d.attach role c).tree.children =
        ParseTree.shapes f d.tree.children ++ [(c.inRole role).shapeWith f place e] := by
      have around : (c.inRole role).Straddles place := by simpa [ParseTree.Straddles] using around
      have none : ParseTree.shapes f comments = [] := by
        rw [ParseTree.shapes_eq, List.filter_eq_nil_iff.mpr fun u member => by simp [extras u member], List.map_nil]
      rw [children, ParseTree.shapesWith_before fun u member plain => ?_,
        ParseTree.shapesWith_inside (by simpa using significant) around, ParseTree.shapes_append, none, List.append_nil]
      rcases List.mem_append.mp member with child | comment
      · exact before u child
      · rw [extras u comment] at plain
        cases plain
    rw [significant_attach of' significant', List.map_append, gap, ParseTree.shapes_eq, ← parts, List.map_singleton,
      (gains.inRole role).shape_eq]
    rfl

end

end Parser

/-! ## Sketches with one more part -/

namespace Shape

variable {kind : NodeKind} {isMissing : Bool} {role : Option Role} {text : Bytes} {x y : Shape} {xs ys : List Shape}

theorem Trim.parts (trim : Trim (node kind isMissing role text xs)) (grown : xs ≠ []) :
    kind ≠ .comment ∧ (xs.map Shape.kind).head? ≠ some .comment ∧ (xs.map Shape.kind).getLast? ≠ some .comment ∧
      ∀ x ∈ xs, Trim x := by
  cases trim with
  | comment => exact absurd rfl grown
  | leaf => exact absurd rfl grown
  | tree other _ first last each => exact ⟨other, first, last, each⟩

/-- One more part between two others leaves the ends as they are. -/
theorem Trim.insert (trim : Trim (node kind isMissing role text (xs ++ ys))) (front : xs ≠ []) (back : ys ≠ [])
    (part : Trim x) : Trim (node kind isMissing role [] (xs ++ x :: ys)) := by
  obtain ⟨other, first, last, each⟩ := trim.parts (List.append_ne_nil_of_left_ne_nil front ys)
  obtain ⟨z, xs, rfl⟩ := List.exists_cons_of_ne_nil front
  refine .tree other (List.cons_ne_nil _ _) ?_ ?_ fun y member => ?_
  · simpa using first
  · rw [List.map_append, List.getLast?_append_of_ne_nil _ (by simpa using back)] at last
    rw [List.map_append, List.getLast?_append_of_ne_nil _ (by simp), List.map_cons,
      List.getLast?_cons_of_ne_nil (by simpa using back)]
    exact last
  · rcases List.mem_append.mp member with before | later
    · exact each y (List.mem_append_left _ before)
    · rcases List.mem_cons.mp later with rfl | behind
      · exact part
      · exact each y (List.mem_append_right _ behind)

/-- Another part of the same kind does too. -/
theorem Trim.replace (trim : Trim (node kind isMissing role text (xs ++ x :: ys))) (same : y.kind = x.kind)
    (part : Trim y) : Trim (node kind isMissing role [] (xs ++ y :: ys)) := by
  obtain ⟨other, first, last, each⟩ := trim.parts (List.append_ne_nil_of_right_ne_nil _ (List.cons_ne_nil x ys))
  rw [List.map_append, List.map_cons, ← same] at first last
  refine .tree other (List.append_ne_nil_of_right_ne_nil _ (List.cons_ne_nil y ys)) ?_ ?_ fun z member => ?_
  · rwa [List.map_append, List.map_cons]
  · rwa [List.map_append, List.map_cons]
  · rcases List.mem_append.mp member with before | later
    · exact each z (List.mem_append_left _ before)
    · rcases List.mem_cons.mp later with rfl | behind
      · exact part
      · exact each z (List.mem_append_right _ (List.mem_cons_of_mem x behind))

end Shape

namespace ParseTree

variable {f : SourceFile} {place i number : Nat} {path : List Nat} {e : Shape} {t c body : ParseTree}
  {ts front back : List ParseTree}

/-! ## Paths -/

/-- The tree at the end of a path of child numbers. -/
def at? : List Nat → ParseTree → Option ParseTree
  | [], t => some t
  | i :: path, t => t.children[i]?.bind (at? path)

theorem exists_of_at? (found : t.at? (i :: path) = some body) :
    ∃ before c behind, t.children = before ++ c :: behind ∧ before.length = i ∧ c.at? path = some body := by
  rw [at?] at found
  obtain ⟨c, here, below⟩ := Option.bind_eq_some_iff.mp found
  obtain ⟨inside, rfl⟩ := List.getElem?_eq_some_iff.mp here
  refine ⟨t.children.take i, t.children[i], t.children.drop (i + 1), ?_, ?_, below⟩
  · rw [List.getElem_cons_drop, List.take_append_drop]
  · rw [List.length_take]
    omega

theorem mem_nodes_of_at? (found : t.at? path = some body) : body ∈ t.nodes := by
  induction path generalizing t with
  | nil => rw [Option.some.inj found]; exact self_mem_nodes body
  | cons i path ih =>
    obtain ⟨before, c, behind, split, -, below⟩ := exists_of_at? found
    exact mem_nodes.mpr (.inr ⟨c, by simp [split], ih below⟩)

/-- A place between two children. -/
structure Between (place : Nat) (t : ParseTree) (front back : List ParseTree) : Prop where
  split : t.children = front ++ back
  grown : back ≠ []
  ends : ∃ c, front.getLast? = some c ∧ c.stop = place

theorem Between.front_ne_nil (between : Between place t front back) : front ≠ [] := by
  obtain ⟨last, final, -⟩ := between.ends
  exact List.ne_nil_of_mem (List.mem_of_getLast? final)

theorem Between.grown_self (between : Between place t front back) : t.children ≠ [] := by
  rw [between.split]
  exact List.append_ne_nil_of_right_ne_nil _ between.grown

/-- On the way to a tree with children there are no leaves. -/
theorem Between.children_ne_nil (between : Between place body front back) (found : t.at? path = some body) :
    t.children ≠ [] := by
  cases path with
  | nil =>
    rw [Option.some.inj found]
    exact between.grown_self
  | cons i path =>
    obtain ⟨before, c, behind, split, -⟩ := exists_of_at? found
    rw [split]
    exact List.append_ne_nil_of_right_ne_nil _ (List.cons_ne_nil _ _)

/-! ## Trees without empty trees -/

/-- A tree with no empty trees in it. Children lie behind each other, and comments are leaves. -/
structure Whole (t : ParseTree) : Prop where
  ordered : ∀ n ∈ t.nodes, n.children.Pairwise fun a b => a.stop ≤ b.start
  inside : ∀ n ∈ t.nodes, ∀ c ∈ n.children, n.start ≤ c.start ∧ c.stop ≤ n.stop
  filled : ∀ n ∈ t.nodes, n.start < n.stop
  comments : ∀ n ∈ t.nodes, ∀ c ∈ n.children, c.isExtra = true → c.children = []

/-- Without errors there are no empty trees. -/
theorem Regular.filled (regular : Regular f t) (clean : t.hasError = false) : t.start < t.stop := by
  induction t using induct with
  | step t ih =>
    by_cases childless : t.children = []
    · refine Nat.lt_of_le_of_ne regular.sound.forward fun same => ?_
      have flagged := ((regular.sound.leaf childless).2 (isEmpty_iff.mpr same)).1
      rw [hasError_eq, List.any_eq_false] at clean
      exact clean t t.self_mem_nodes flagged
    · obtain ⟨c, rest, split⟩ := List.exists_cons_of_ne_nil childless
      have child : c ∈ t.children := by simp [split]
      have cleanC : c.hasError = false := by
        rw [hasError_eq, List.any_eq_false] at clean ⊢
        exact fun n inside => clean n (mem_nodes.mpr (.inr ⟨c, child, inside⟩))
      have inner := ih c child (regular.of_child child) cleanC
      have outer := regular.inside_child child
      omega

theorem Regular.whole (regular : Regular f t) (clean : t.hasError = false) : Whole t where
  ordered := fun n inside => (regular.of_mem inside).sound.ordered
  inside := fun n inside c child => (regular.of_mem inside).inside_child child
  filled := fun n inside => by
    refine (regular.of_mem inside).filled ?_
    rw [hasError_eq, List.any_eq_false] at clean ⊢
    exact fun m below => clean m (nodes_trans below inside)
  comments := fun n inside c child isExtra => ((regular.of_mem inside).sound.comments c child isExtra).2.2

theorem whole_of_children (ordered : t.children.Pairwise fun a b => a.stop ≤ b.start)
    (inside : ∀ c ∈ t.children, t.start ≤ c.start ∧ c.stop ≤ t.stop) (filled : t.start < t.stop)
    (comments : ∀ c ∈ t.children, c.isExtra = true → c.children = []) (each : ∀ c ∈ t.children, Whole c) : Whole t where
  ordered := fun n member => (mem_nodes.mp member).elim (fun same => same ▸ ordered)
    fun ⟨c, child, below⟩ => (each c child).ordered n below
  inside := fun n member => (mem_nodes.mp member).elim (fun same => same ▸ inside)
    fun ⟨c, child, below⟩ => (each c child).inside n below
  filled := fun n member => (mem_nodes.mp member).elim (fun same => same ▸ filled)
    fun ⟨c, child, below⟩ => (each c child).filled n below
  comments := fun n member => (mem_nodes.mp member).elim (fun same => same ▸ comments)
    fun ⟨c, child, below⟩ => (each c child).comments n below

namespace Whole

section

variable (whole : Whole t)
include whole

theorem of_mem (inside : c ∈ t.nodes) : Whole c where
  ordered := fun n below => whole.ordered n (nodes_trans below inside)
  inside := fun n below => whole.inside n (nodes_trans below inside)
  filled := fun n below => whole.filled n (nodes_trans below inside)
  comments := fun n below => whole.comments n (nodes_trans below inside)

theorem of_child (child : c ∈ t.children) : Whole c := whole.of_mem (mem_nodes_of_mem_children child)

theorem within (inside : c ∈ t.nodes) : t.start ≤ c.start ∧ c.stop ≤ t.stop := by
  induction t using induct with
  | step t ih =>
    rcases mem_nodes.mp inside with rfl | ⟨u, child, below⟩
    · exact ⟨Nat.le_refl _, Nat.le_refl _⟩
    · have outer := whole.inside t t.self_mem_nodes u child
      have inner := ih u child (whole.of_child child) below
      omega

/-- The children in front of the place and behind it. -/
theorem sides (between : Between place t front back) :
    (∀ c ∈ front, c.stop ≤ place) ∧ ∀ c ∈ back, place ≤ c.start ∧ c.start < c.stop := by
  obtain ⟨last, final, rfl⟩ := between.ends
  have ordered := whole.ordered t t.self_mem_nodes
  obtain ⟨before, shape⟩ := List.getLast?_eq_some_iff.mp final
  have filled : ∀ c ∈ t.children, c.start < c.stop := fun c child => (whole.of_child child).filled c c.self_mem_nodes
  rw [between.split] at ordered filled
  obtain ⟨orderedFront, -, apart⟩ := List.pairwise_append.mp ordered
  refine ⟨fun c member => ?_, fun c member => ⟨?_, filled c (List.mem_append_right _ member)⟩⟩
  · have := filled last (List.mem_append_left _ (List.mem_of_getLast? final))
    rw [shape, List.pairwise_append] at orderedFront
    rw [shape, List.mem_append, List.mem_singleton] at member
    rcases member with earlier | rfl
    · have := orderedFront.2.2 c earlier last (List.mem_singleton_self _)
      omega
    · exact Nat.le_refl _
  · exact apart last (List.mem_of_getLast? final) c member

/-- The children in front of one around the place and behind it. -/
theorem sides_of_straddles {before behind : List ParseTree} (split : t.children = before ++ c :: behind)
    (around : c.Straddles place) : (∀ u ∈ before, u.stop < place) ∧ ∀ u ∈ behind, place < u.start := by
  have ordered := whole.ordered t t.self_mem_nodes
  rw [split, List.pairwise_append, List.pairwise_cons] at ordered
  obtain ⟨-, ⟨later, -⟩, earlier⟩ := ordered
  obtain ⟨low, high⟩ := around
  refine ⟨fun u member => ?_, fun u member => ?_⟩
  · have := earlier u member c (List.mem_cons_self ..)
    omega
  · have := later u member
    omega

/-- All trees on the way to a place lie around it. -/
theorem straddles (between : Between place body front back) (found : t.at? path = some body) :
    t.Straddles place := by
  have inside := mem_nodes_of_at? found
  have inner := whole.of_mem inside
  obtain ⟨low, high⟩ := inner.sides between
  obtain ⟨last, final, rfl⟩ := between.ends
  obtain ⟨next, rest, shape⟩ := List.exists_cons_of_ne_nil between.grown
  have first : last ∈ body.children := by
    rw [between.split]
    exact List.mem_append_left _ (List.mem_of_getLast? final)
  have second : next ∈ body.children := by
    rw [between.split, shape]
    exact List.mem_append_right _ (List.mem_cons_self ..)
  have := inner.inside body body.self_mem_nodes last first
  have := inner.inside body body.self_mem_nodes next second
  have := (inner.of_child first).filled last last.self_mem_nodes
  have := high next (by rw [shape]; exact List.mem_cons_self ..)
  have := whole.within inside
  exact ⟨by omega, by omega⟩

/-- No comments are on the way. -/
theorem isExtra_of_at? (between : Between place body front back) (child : c ∈ t.children)
    (found : c.at? path = some body) : c.isExtra = false := by
  rw [Bool.eq_false_iff]
  exact fun isExtra => between.children_ne_nil found (whole.comments t t.self_mem_nodes c child isExtra)

end

end Whole

/-! ## The sketch with one more part -/

theorem withPart_nil (between : Between place t front back) : (t.sketch f).withPart e front.length [] =
    .node t.kind t.isMissing t.role [] (front.map (sketch f) ++ e :: back.map (sketch f)) := by
  have filled : t.children.isEmpty = false := List.isEmpty_eq_false_iff.mpr between.grown_self
  rw [sketch_eq, filled, if_neg Bool.false_ne_true, Shape.withPart, between.split, List.map_append,
    List.take_left' (List.length_map _), List.drop_left' (List.length_map _)]

theorem modify_middle {α : Type} (g : α → α) (front back : List α) (x : α) :
    (front ++ x :: back).modify front.length g = front ++ g x :: back := by
  rw [List.modify_eq_take_cons_drop (by simp), List.take_left, List.getElem_append_right (Nat.le_refl _)]
  simp

theorem withPart_cons (split : t.children = front ++ c :: back) :
    (t.sketch f).withPart e number (front.length :: path) = .node t.kind t.isMissing t.role []
      (front.map (sketch f) ++ (c.sketch f).withPart e number path :: back.map (sketch f)) := by
  have modified := modify_middle (fun x : Shape => x.withPart e number path) (front.map (sketch f)) (back.map (sketch f))
    (c.sketch f)
  rw [List.length_map] at modified
  rw [sketch_eq, Shape.withPart, split, if_neg (by simp), List.map_append, List.map_cons, modified]

/-- Children with a sketch between them. -/
theorem bares_around {x : Shape} (other : x.kind ≠ .comment) :
    Shape.bares (front.map (sketch f) ++ x :: back.map (sketch f)) = shapes f front ++ x.bare :: shapes f back := by
  rw [Shape.bares_append, Shape.bares_cons other, bares_sketches fun _ _ => bare_sketch,
    bares_sketches fun _ _ => bare_sketch]

theorem shapesWith_behind_place (behind : ∀ c ∈ ts, place ≤ c.start ∧ c.start < c.stop) :
    shapesWith f place e ts = e :: shapes f ts := by
  induction ts with
  | nil => rfl
  | cons t ts ih =>
    have := behind t (List.mem_cons_self ..)
    rw [shapesWith_cons, shapes]
    split
    · exact ih fun c member => behind c (List.mem_cons_of_mem t member)
    · rw [if_neg (by omega), if_neg (by omega)]

theorem shapesWith_around (before : ∀ u ∈ front, u.stop < place) (significant : c.isExtra = false)
    (around : c.Straddles place) :
    shapesWith f place e (front ++ c :: back) = shapes f front ++ c.shapeWith f place e :: shapes f back := by
  rw [shapesWith_before fun u member _ => Nat.le_of_lt (before u member), shapesWith_cons, if_neg (by simp [significant]),
    if_neg (Nat.not_le_of_lt around.2), if_pos around.1]

/-- One more part at the end of the path is one more part at the place. The induction is on the path. -/
theorem Whole.bare_withPart (whole : Whole t) (between : Between place body front back)
    (found : t.at? path = some body) (other : e.kind ≠ .comment) :
    ((t.sketch f).withPart e front.length path).bare = t.shapeWith f place e.bare := by
  induction path generalizing t with
  | nil =>
    obtain rfl := Option.some.inj found
    obtain ⟨low, high⟩ := whole.sides between
    rw [withPart_nil between, Shape.bare, bares_around other, shapeWith_eq, between.split,
      shapesWith_before fun u member _ => low u member, shapesWith_behind_place high]
  | cons i path ih =>
    obtain ⟨before, c, behind, split, rfl, below⟩ := exists_of_at? found
    have child : c ∈ t.children := by simp [split]
    have around := (whole.of_child child).straddles between below
    have significant := whole.isExtra_of_at? between child below
    have plain : ((c.sketch f).withPart e front.length path).kind ≠ .comment := by
      rw [Shape.kind_withPart, kind_sketch]
      exact beq_eq_false_iff_ne.mp significant
    rw [withPart_cons split, Shape.bare, bares_around plain, ih (whole.of_child child) below, @shapeWith_eq f place _ t,
      split, shapesWith_around (whole.sides_of_straddles split around).1 significant around]

/-! ## Comments at the ends -/

theorem kinds_sketches : (ts.map (sketch f)).map Shape.kind = ts.map ParseTree.kind := by
  rw [List.map_map]
  exact List.map_congr_left fun _ _ => kind_sketch

/-- What is known of comments in a tree. -/
theorem trim_sketch (regular : Regular f t)
    (comment : t.isExtra = true → t.isMissing = false ∧ t.role = none ∧ t.children = []) : (t.sketch f).Trim := by
  induction t using induct with
  | step t ih =>
    have sound := regular.sound
    rw [sketch_eq]
    cases isExtra : t.isExtra with
    | true =>
      obtain ⟨isMissing, role, children⟩ := comment isExtra
      rw [isMissing, role, children, beq_iff_eq.mp isExtra]
      exact .comment _
    | false =>
      have other : t.kind ≠ .comment := beq_eq_false_iff_ne.mp isExtra
      by_cases childless : t.children = []
      · rw [childless]
        exact .leaf other
      · rw [if_neg (by simpa using childless)]
        refine .tree other (by simpa using childless) ?_ ?_ fun x member => ?_
        · rw [kinds_sketches, List.head?_map]
          intro first
          obtain ⟨c, head, kind⟩ := Option.map_eq_some_iff.mp first
          exact absurd kind (beq_eq_false_iff_ne.mp (sound.first c head))
        · rw [kinds_sketches, List.getLast?_map]
          intro last
          obtain ⟨c, final, kind⟩ := Option.map_eq_some_iff.mp last
          exact absurd kind (beq_eq_false_iff_ne.mp (sound.last c final))
        · obtain ⟨c, child, rfl⟩ := List.mem_map.mp member
          exact ih c child (regular.of_child child) (sound.comments c child)

/-- One more part inside leaves the ends as they are. -/
theorem Between.trim_withPart (between : Between place body front back) (found : t.at? path = some body)
    (trim : (t.sketch f).Trim) (part : e.Trim) : ((t.sketch f).withPart e front.length path).Trim := by
  induction path generalizing t with
  | nil =>
    obtain rfl := Option.some.inj found
    rw [sketch_eq, between.split, List.map_append] at trim
    rw [withPart_nil between]
    exact trim.insert (by simpa using between.front_ne_nil) (by simpa using between.grown) part
  | cons i path ih =>
    obtain ⟨before, c, behind, split, rfl, below⟩ := exists_of_at? found
    rw [sketch_eq, split, List.map_append, List.map_cons] at trim
    have inner : (c.sketch f).Trim := (trim.parts (by simp)).2.2.2 _ (by simp)
    rw [withPart_cons split]
    exact trim.replace Shape.kind_withPart (ih below inner)

/-- Without empty trees all leaves have texts. -/
theorem Whole.filled_sketch (whole : Whole t) (bounded : t.stop ≤ f.size) : (t.sketch f).Filled := by
  induction t using induct with
  | step t ih =>
    rw [sketch_eq]
    by_cases childless : t.children = []
    · have filled := whole.filled t t.self_mem_nodes
      have length := f.length_bytesBetween (a := t.start) bounded
      rw [childless]
      refine .leaf fun none => ?_
      have none : f.bytesBetween t.start t.stop = [] := none
      rw [none, List.length_nil] at length
      omega
    · rw [if_neg (by simpa using childless)]
      refine .tree (by simpa using childless) fun x member => ?_
      obtain ⟨c, child, rfl⟩ := List.mem_map.mp member
      have inside := whole.inside t t.self_mem_nodes c child
      exact ih c child (whole.of_child child) (by omega)

/-- One more part with texts leaves it so. -/
theorem Between.filled_withPart (between : Between place body front back) (found : t.at? path = some body)
    (filled : (t.sketch f).Filled) (part : e.Filled) : ((t.sketch f).withPart e front.length path).Filled := by
  induction path generalizing t with
  | nil =>
    obtain rfl := Option.some.inj found
    rw [sketch_eq, if_neg (by simpa using between.grown_self), between.split, List.map_append] at filled
    rw [withPart_nil between]
    refine .tree (by simp) fun x member => ?_
    rcases List.mem_append.mp member with before | later
    · exact filled.each x (List.mem_append_left _ before)
    · rcases List.mem_cons.mp later with rfl | behind
      · exact part
      · exact filled.each x (List.mem_append_right _ behind)
  | cons i path ih =>
    obtain ⟨before, c, behind, split, rfl, below⟩ := exists_of_at? found
    rw [sketch_eq, split, if_neg (by simp), List.map_append, List.map_cons] at filled
    rw [withPart_cons split]
    refine .tree (by simp) fun x member => ?_
    rcases List.mem_append.mp member with before | later
    · exact filled.each x (List.mem_append_left _ before)
    · rcases List.mem_cons.mp later with rfl | behind
      · exact ih below (filled.each _ (by simp))
      · exact filled.each x (List.mem_append_right _ (List.mem_cons_of_mem _ behind))

end ParseTree

end SecurityRules
