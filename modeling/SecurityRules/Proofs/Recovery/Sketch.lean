import SecurityRules.Proofs.Trivia.Alike

/-!
# Sketches

A sketch is a tree with its comments, without its places. Where no tree starts or ends with a comment, a comment stands
between two words of its text in the innermost tree around both. So a sketch is determined by what is left of it without
comments and by its words and comments in order.
-/

namespace SecurityRules

namespace Shape

def kind : Shape → NodeKind
  | node kind _ _ _ _ => kind

def parts : Shape → List Shape
  | node _ _ _ _ parts => parts

mutual

/-- What is left without comments. -/
def bare : Shape → Shape
  | node kind isMissing role text parts => node kind isMissing role text (bares parts)

def bares : List Shape → List Shape
  | [] => []
  | x :: rest => if x.kind = .comment then bares rest else bare x :: bares rest

end

/-- A comment, or a byte of another token. -/
inductive Mark where
  | comment (text : Bytes)
  | byte (b : UInt8)

/-- What a leaf contributes to the text. -/
def marksOf (kind : NodeKind) (text : Bytes) : List Mark :=
  if kind = .comment then [.comment text] else text.map .byte

mutual

/-- The text of a sketch, without blanks. -/
def marks : Shape → List Mark
  | node kind _ _ text parts => if parts.isEmpty then marksOf kind text else marksAll parts

def marksAll : List Shape → List Mark
  | [] => []
  | x :: rest => marks x ++ marksAll rest

end

/-- A sketch in which no tree starts or ends with a comment, and comments are leaves. -/
inductive Trim : Shape → Prop
  | comment (text : Bytes) : Trim (node .comment false none text [])
  | leaf {kind : NodeKind} {isMissing : Bool} {role : Option Role} {text : Bytes} (other : kind ≠ .comment) :
    Trim (node kind isMissing role text [])
  | tree {kind : NodeKind} {isMissing : Bool} {role : Option Role} {parts : List Shape} (other : kind ≠ .comment)
    (grown : parts ≠ []) (first : (parts.map Shape.kind).head? ≠ some .comment)
    (last : (parts.map Shape.kind).getLast? ≠ some .comment) (each : ∀ x ∈ parts, Trim x) :
    Trim (node kind isMissing role [] parts)

/-- A sketch whose leaves have texts. -/
inductive Filled : Shape → Prop
  | leaf {kind : NodeKind} {isMissing : Bool} {role : Option Role} {text : Bytes} (filled : text ≠ []) :
    Filled (node kind isMissing role text [])
  | tree {kind : NodeKind} {isMissing : Bool} {role : Option Role} {parts : List Shape} (grown : parts ≠ [])
    (each : ∀ x ∈ parts, Filled x) : Filled (node kind isMissing role [] parts)

theorem Filled.each {kind : NodeKind} {isMissing : Bool} {role : Option Role} {parts : List Shape}
    (filled : Filled (node kind isMissing role [] parts)) : ∀ x ∈ parts, Filled x := by
  cases filled with
  | leaf filled => exact absurd rfl filled
  | tree _ each => exact each

variable {x y : Shape} {xs ys : List Shape} {us vs : List Mark}

/-! ## Lists of sketches -/

theorem bares_eq (xs : List Shape) : bares xs = (xs.filter fun x => x.kind != .comment).map bare := by
  induction xs with
  | nil => rfl
  | cons x rest ih =>
    rw [bares, ih]
    split
    · rename_i isComment
      rw [List.filter_cons_of_neg (by simp [isComment])]
    · rename_i other
      rw [List.filter_cons_of_pos (by simp [other]), List.map_cons]

theorem bares_append : bares (xs ++ ys) = bares xs ++ bares ys := by
  rw [bares_eq, bares_eq, bares_eq, List.filter_append, List.map_append]

theorem marksAll_eq (xs : List Shape) : marksAll xs = xs.flatMap marks := by
  induction xs with
  | nil => rfl
  | cons x rest ih => rw [marksAll, ih, List.flatMap_cons]

theorem bares_cons_comment (isComment : x.kind = .comment) : bares (x :: xs) = bares xs := by
  rw [bares, if_pos isComment]

theorem bares_cons (other : x.kind ≠ .comment) : bares (x :: xs) = bare x :: bares xs := by
  rw [bares, if_neg other]

theorem all_comments_of_bares (none : bares xs = []) : ∀ x ∈ xs, x.kind = .comment := by
  rw [bares_eq, List.map_eq_nil_iff, List.filter_eq_nil_iff] at none
  simpa using none

@[simp] theorem kind_bare (x : Shape) : x.bare.kind = x.kind := by
  cases x
  rfl

/-! ## The first word -/

theorem Trim.marks_of_comment (trim : Trim x) (isComment : x.kind = .comment) :
    ∃ text, x = node .comment false none text [] := by
  cases trim with
  | comment text => exact ⟨text, rfl⟩
  | leaf other => exact absurd isComment other
  | tree other => exact absurd isComment other

/-- No other tree than a comment starts with one. -/
theorem Trim.starts (trim : Trim x) (other : x.kind ≠ .comment) (filled : x.bare.Filled) :
    ∃ b rest, x.marks = .byte b :: rest := by
  induction trim with
  | comment text => exact absurd rfl other
  | @leaf kind isMissing role text plain =>
    cases filled with
    | leaf filled =>
      obtain ⟨b, rest, split⟩ := List.exists_cons_of_ne_nil filled
      refine ⟨b, rest.map .byte, ?_⟩
      rw [marks, marksOf, if_neg plain, split]
      rfl
    | tree grown => exact absurd rfl grown
  | @tree kind isMissing role parts _ grown first _ each ih =>
    obtain ⟨x, rest, rfl⟩ := List.exists_cons_of_ne_nil grown
    have plain : x.kind ≠ .comment := by simpa using first
    rw [bare, bares_cons plain] at filled
    obtain ⟨b, more, split⟩ := ih x (List.mem_cons_self ..) plain (filled.each _ (List.mem_cons_self ..))
    exact ⟨b, more ++ marksAll rest, by rw [marks, marksAll, split]; rfl⟩

/-! ## Sketches by their words -/

/-- A sketch that no other one can be taken for. -/
def Unique (x : Shape) : Prop :=
  ∀ y us vs, Trim y → x.bare = y.bare → y.bare.Filled → x.marks ++ us = y.marks ++ vs → x = y ∧ us = vs

/-- Comments at the end of a list belong to it only if nothing follows. -/
def EndsWell (xs : List Shape) (us : List Mark) (ys : List Shape) (vs : List Mark) : Prop :=
  us = [] ∧ vs = [] ∨ (xs.map kind).getLast? ≠ some .comment ∧ (ys.map kind).getLast? ≠ some .comment

theorem EndsWell.symm (ends : EndsWell xs us ys vs) : EndsWell ys vs xs us := ends.imp And.symm And.symm

theorem EndsWell.tail (ends : EndsWell (x :: xs) us (y :: ys) vs) : EndsWell xs us ys vs := by
  refine ends.imp_right (And.imp ?_ ?_)
  · cases xs with
    | nil => exact fun _ => by simp
    | cons => exact id
  · cases ys with
    | nil => exact fun _ => by simp
    | cons => exact id

/-- Behind the last of one list there is nothing left of the other one. -/
theorem eq_nil_of_bares (trim : ∀ x ∈ xs, Trim x) (none : bares xs = []) (ends : EndsWell xs us [] vs)
    (marks : marksAll xs ++ us = vs) : xs = [] := by
  by_contra more
  have comments := all_comments_of_bares none
  rcases ends with ⟨-, rfl⟩ | ⟨last, -⟩
  · obtain ⟨x, rest, rfl⟩ := List.exists_cons_of_ne_nil more
    obtain ⟨text, rfl⟩ := (trim x (List.mem_cons_self ..)).marks_of_comment (comments x (List.mem_cons_self ..))
    cases marks
  · obtain ⟨rest, x, rfl⟩ := List.eq_nil_or_concat' xs |>.resolve_left more
    simp [comments x] at last

theorem eq_of_marksAll (unique : ∀ x ∈ xs, Unique x) (trim : ∀ x ∈ xs, Trim x) (trim' : ∀ y ∈ ys, Trim y)
    (same : bares xs = bares ys) (filled : ∀ y ∈ bares ys, Filled y) (ends : EndsWell xs us ys vs)
    (marks : marksAll xs ++ us = marksAll ys ++ vs) : xs = ys ∧ us = vs := by
  induction xs generalizing ys with
  | nil =>
    obtain rfl := eq_nil_of_bares trim' same.symm ends.symm marks.symm
    exact ⟨rfl, marks⟩
  | cons x xs ih =>
    cases ys with
    | nil => cases eq_nil_of_bares trim same ends marks
    | cons y ys =>
      have here := trim x (List.mem_cons_self ..)
      have here' := trim' y (List.mem_cons_self ..)
      have next := @ih ys (fun z member => unique z (List.mem_cons_of_mem x member))
        (fun z member => trim z (List.mem_cons_of_mem x member))
        fun z member => trim' z (List.mem_cons_of_mem y member)
      rw [marksAll, marksAll, List.append_assoc, List.append_assoc] at marks
      by_cases isComment : x.kind = .comment
      · obtain ⟨text, rfl⟩ := here.marks_of_comment isComment
        by_cases isComment' : y.kind = .comment
        · obtain ⟨text', rfl⟩ := here'.marks_of_comment isComment'
          rw [bares_cons_comment rfl, bares_cons_comment rfl] at same
          rw [bares_cons_comment rfl] at filled
          obtain ⟨head, rest⟩ := List.cons.inj marks
          obtain ⟨rfl, rfl⟩ := next same filled ends.tail rest
          exact ⟨by rw [Mark.comment.inj head], rfl⟩
        · rw [bares_cons isComment'] at filled
          obtain ⟨b, more, split⟩ := here'.starts isComment' (filled _ (List.mem_cons_self ..))
          rw [split] at marks
          cases marks
      · rw [bares_cons isComment] at same
        have filledX := filled _ (same ▸ List.mem_cons_self ..)
        by_cases isComment' : y.kind = .comment
        · obtain ⟨text', rfl⟩ := here'.marks_of_comment isComment'
          obtain ⟨b, more, split⟩ := here.starts isComment filledX
          rw [split] at marks
          cases marks
        · rw [bares_cons isComment'] at same filled
          obtain ⟨sameX, sameRest⟩ := List.cons.inj same
          obtain ⟨rfl, rest⟩ := unique x (List.mem_cons_self ..) y _ _ here' sameX
            (filled _ (List.mem_cons_self ..)) marks
          obtain ⟨rfl, rfl⟩ := next sameRest (fun z member => filled z (List.mem_cons_of_mem _ member)) ends.tail rest
          exact ⟨rfl, rfl⟩

/-- A sketch is determined by its shape and its words. The induction is on the first of two sketches. -/
theorem Trim.unique (trim : Trim x) : Unique x := by
  induction trim with
  | comment text =>
    intro y us vs trim same _ marks
    have isComment : y.kind = .comment := by rw [← kind_bare, ← same]; rfl
    obtain ⟨text', rfl⟩ := trim.marks_of_comment isComment
    obtain ⟨head, rest⟩ := List.cons.inj marks
    exact ⟨by rw [Mark.comment.inj head], rest⟩
  | @leaf kind isMissing role text other =>
    intro y us vs trim same _ marks
    cases trim with
    | comment text' => exact absurd (Shape.node.inj same).1 other
    | leaf other' =>
      obtain ⟨rfl, rfl, rfl, rfl, -⟩ := Shape.node.inj same
      exact ⟨rfl, List.append_cancel_left marks⟩
    | tree _ grown first =>
      obtain ⟨x, rest, rfl⟩ := List.exists_cons_of_ne_nil grown
      have plain : x.kind ≠ .comment := by simpa using first
      have none := (Shape.node.inj same).2.2.2.2
      rw [bares_cons plain] at none
      cases none
  | @tree kind isMissing role parts other grown first last each ih =>
    intro y us vs trim same filled marks
    cases trim with
    | comment text' => exact absurd (Shape.node.inj same).1 other
    | leaf other' =>
      obtain ⟨x, rest, rfl⟩ := List.exists_cons_of_ne_nil grown
      have plain : x.kind ≠ .comment := by simpa using first
      have none := (Shape.node.inj same).2.2.2.2
      rw [bares_cons plain] at none
      cases none
    | @tree _ _ _ parts' _ grown' _ last' each' =>
      obtain ⟨rfl, rfl, rfl, -, sameParts⟩ := Shape.node.inj same
      rw [Shape.marks, Shape.marks, if_neg (by simpa using grown), if_neg (by simpa using grown')] at marks
      obtain ⟨rfl, rest⟩ := eq_of_marksAll ih each each' sameParts filled.each (.inr ⟨last, last'⟩) marks
      exact ⟨rfl, rest⟩

/-- The same holds of a whole text, which may start and end with comments. -/
theorem eq_of_parts {kind kind' : NodeKind} {isMissing isMissing' : Bool} {role role' : Option Role}
    (trim : ∀ x ∈ xs, Trim x) (trim' : ∀ y ∈ ys, Trim y) (grown : xs ≠ []) (grown' : ys ≠ [])
    (filled : ∀ y ∈ bares ys, Filled y)
    (same : (node kind isMissing role [] xs).bare = (node kind' isMissing' role' [] ys).bare)
    (words : (node kind isMissing role [] xs).marks = (node kind' isMissing' role' [] ys).marks) :
    node kind isMissing role [] xs = node kind' isMissing' role' [] ys := by
  obtain ⟨rfl, rfl, rfl, -, sameParts⟩ := Shape.node.inj same
  rw [marks, marks, if_neg (by simpa using grown), if_neg (by simpa using grown')] at words
  have unique : ∀ x ∈ xs, Unique x := fun x member => (trim x member).unique
  have words : marksAll xs ++ [] = marksAll ys ++ [] := by rw [words]
  obtain ⟨rfl, -⟩ := eq_of_marksAll unique trim trim' sameParts filled (.inl ⟨rfl, rfl⟩) words
  rfl

/-! ## One more part -/

/-- A sketch with one more part in front of the one of some number, in the tree at the end of a path. -/
def withPart : Shape → Shape → Nat → List Nat → Shape
  | node kind isMissing role text parts, e, number, [] =>
    node kind isMissing role text (parts.take number ++ e :: parts.drop number)
  | node kind isMissing role text parts, e, number, i :: path =>
    node kind isMissing role text (parts.modify i fun x => x.withPart e number path)

variable {e : Shape} {number : Nat} {path : List Nat}

@[simp] theorem kind_withPart : (x.withPart e number path).kind = x.kind := by
  cases x
  cases path <;> rfl

/-- Comments apart a sketch without empty leaves has none either. -/
theorem Filled.bare (filled : Filled x) (trim : Trim x) : x.bare.Filled := by
  induction trim with
  | comment text =>
    cases filled with
    | leaf filled => exact .leaf filled
    | tree grown => exact absurd rfl grown
  | leaf other =>
    cases filled with
    | leaf filled => exact .leaf filled
    | tree grown => exact absurd rfl grown
  | @tree kind isMissing role parts other grown first last each ih =>
    refine .tree ?_ fun y member => ?_
    · obtain ⟨x, rest, rfl⟩ := List.exists_cons_of_ne_nil grown
      rw [bares_cons (by simpa using first)]
      exact List.cons_ne_nil _ _
    · rw [bares_eq] at member
      obtain ⟨x, inside, rfl⟩ := List.mem_map.mp member
      have inside := (List.mem_filter.mp inside).1
      exact ih x inside (filled.each x inside)

end Shape

/-! ## Sketches of trees -/

namespace ParseTree

variable {f : SourceFile} {t : ParseTree} {ts : List ParseTree}

mutual

/-- A tree without its places. Only leaves have a text. -/
def sketch (f : SourceFile) : ParseTree → Shape
  | node kind isMissing role extent children =>
    .node kind isMissing role (if children.isEmpty then f.bytesBetween extent.start extent.stop else [])
      (sketches f children)

def sketches (f : SourceFile) : List ParseTree → List Shape
  | [] => []
  | t :: rest => sketch f t :: sketches f rest

end

theorem sketches_eq (f : SourceFile) (ts : List ParseTree) : sketches f ts = ts.map (sketch f) := by
  induction ts with
  | nil => rfl
  | cons t rest ih => rw [sketches, ih, List.map_cons]

theorem sketch_eq (f : SourceFile) (t : ParseTree) : t.sketch f =
    .node t.kind t.isMissing t.role (if t.children.isEmpty then t.text f else []) (t.children.map (sketch f)) := by
  cases t
  rw [sketch, sketches_eq]
  rfl

@[simp] theorem kind_sketch : (t.sketch f).kind = t.kind := by
  rw [sketch_eq]
  rfl

@[simp] theorem kind_shape : (t.shape f).kind = t.kind := by
  rw [shape_eq]
  rfl

theorem bares_sketches (same : ∀ t ∈ ts, (t.sketch f).bare = t.shape f) :
    Shape.bares (ts.map (sketch f)) = shapes f ts := by
  induction ts with
  | nil => rfl
  | cons t rest ih =>
    have next := ih fun u member => same u (List.mem_cons_of_mem t member)
    rw [List.map_cons, shapes]
    cases isExtra : t.isExtra with
    | true => rw [if_pos rfl, Shape.bares_cons_comment (by simpa [isExtra] using beq_iff_eq.mp isExtra), next]
    | false =>
      have other : (t.sketch f).kind ≠ .comment := by rw [kind_sketch]; exact beq_eq_false_iff_ne.mp isExtra
      rw [if_neg Bool.false_ne_true, Shape.bares_cons other, next, same t (List.mem_cons_self ..)]

/-- A sketch without comments is a shape. -/
theorem bare_sketch : (t.sketch f).bare = t.shape f := by
  induction t using induct with
  | step t ih => rw [sketch_eq, Shape.bare, bares_sketches ih, shape_eq, shapes_eq]; rfl

/-- What a leaf contributes to the text. -/
def marks (f : SourceFile) (leaf : ParseTree) : List Shape.Mark := Shape.marksOf leaf.kind (leaf.text f)

/-- The text of a sketch is that of the leaves. -/
theorem marks_sketch : (t.sketch f).marks = t.leaves.flatMap (marks f) := by
  induction t using induct with
  | step t ih =>
    rw [sketch_eq, Shape.marks]
    by_cases childless : t.children = []
    · rw [leaves_of_childless childless, childless, List.flatMap_singleton]
      rfl
    · rw [if_neg (by simpa using childless), leaves_of_children childless, Shape.marksAll_eq, List.flatMap_map,
        List.flatMap_assoc]
      exact List.flatMap_congr ih

end ParseTree

end SecurityRules
