import SecurityRules.Proofs.Parser.Lossless
import SecurityRules.Proofs.Recovery.Insertion
import SecurityRules.Proofs.Trivia.Document

/-!
# Stray statements in a text

The text of a document, without blanks, is that of its tokens. At a place between two children it falls apart into the
tokens in front of it and those behind it; one more part stands between the two.

A text that no match body knows as an item is put into another one behind a brace or semicolon. Its tokens then stand
between those in front of the place and those behind it, and the words that the two texts go on with are the same again
behind the statement.
-/

namespace SecurityRules

/-- What a token contributes to the text. -/
def Token.marks (t : Token) : List Shape.Mark := if t.kind.isComment then [.comment t.text] else t.text.map .byte

namespace ParseTree

variable {f : SourceFile} {place : Nat} {path : List Nat} {t body leaf : ParseTree}
  {ls rs ts front back : List ParseTree} {run tokens : List Token} {e : Shape}

/-! ## Leaves and tokens -/

/-- The text of tokens that touch each other. The induction is on the tokens. -/
theorem text_of_chain (spelled : ∀ t ∈ run, t.start ≤ t.stop ∧ f.bytesBetween t.start t.stop = t.text)
    (joined : run.IsChain fun a b => a.stop = b.start) {a b : Nat} (start : run.head?.map (·.start) = some a)
    (stop : run.getLast?.map (·.stop) = some b) : a ≤ b ∧ f.bytesBetween a b = run.flatMap (·.text) := by
  induction run generalizing a with
  | nil => cases start
  | cons t run ih =>
    obtain rfl : t.start = a := Option.some.inj start
    obtain ⟨forward, text⟩ := spelled t (List.mem_cons_self ..)
    cases run with
    | nil =>
      obtain rfl : t.stop = b := Option.some.inj stop
      exact ⟨forward, by rw [text, List.flatMap_singleton]⟩
    | cons u run =>
      obtain ⟨touch, joined⟩ := List.isChain_cons_cons.mp joined
      obtain ⟨further, rest⟩ := ih (fun v member => spelled v (List.mem_cons_of_mem t member)) joined (a := u.start) rfl
        (by rwa [List.getLast?_cons_cons] at stop)
      rw [← touch] at further rest
      refine ⟨Nat.le_trans forward further, ?_⟩
      rw [List.flatMap_cons, ← rest, ← text, f.bytesBetween_append forward further]

/-- A leaf contributes what its tokens do. -/
theorem Over.marks_eq (above : leaf.Over run)
    (spelled : ∀ t ∈ run, t.start ≤ t.stop ∧ f.bytesBetween t.start t.stop = t.text) :
    leaf.marks f = run.flatMap Token.marks := by
  have same : ∀ t ∈ run, t.kind.isComment = (leaf.kind == .comment) := fun t member =>
    Parser.isComment_of_spells (above.spelled t member)
  have text : leaf.text f = run.flatMap (·.text) := (text_of_chain spelled above.joined above.start above.stop).2
  rw [marks, Shape.marksOf, text]
  split
  · rename_i isComment
    have single : run.length = 1 := above.single.resolve_left (by rw [isComment]; exact Bool.false_ne_true)
    obtain ⟨t, rfl⟩ := List.length_eq_one_iff.mp single
    have found : t.kind.isComment = true := by rw [same t (List.mem_singleton_self t), isComment]; rfl
    rw [List.flatMap_singleton, List.flatMap_singleton, Token.marks, if_pos found]
  · rename_i other
    rw [List.map_flatMap]
    refine List.flatMap_congr fun t member => ?_
    rw [Token.marks, if_neg (by rw [same t member, beq_eq_false_iff_ne.mpr other]; exact Bool.false_ne_true)]

/-- Leaves contribute what their tokens do. -/
theorem Tiled.marks_eq (tiled : Tiled ls tokens)
    (spelled : ∀ t ∈ tokens, t.start ≤ t.stop ∧ f.bytesBetween t.start t.stop = t.text)
    (hollow : ∀ leaf ∈ ls, leaf.isEmpty = true → leaf.isExtra = false) :
    ls.flatMap (marks f) = tokens.flatMap Token.marks := by
  obtain ⟨runs, rfl, above⟩ := tiled
  -- Empty leaves contribute nothing.
  have filled : ls.flatMap (marks f) = (ls.filter (!·.isEmpty)).flatMap (marks f) := by
    clear above
    induction ls with
    | nil => rfl
    | cons leaf ls ih =>
      have next := ih fun l member => hollow l (List.mem_cons_of_mem leaf member)
      cases isEmpty : leaf.isEmpty with
      | false => rw [List.filter_cons_of_pos (by simp [isEmpty]), List.flatMap_cons, List.flatMap_cons, next]
      | true =>
        have other := beq_eq_false_iff_ne.mp (hollow leaf (List.mem_cons_self ..) isEmpty)
        have none : leaf.marks f = [] := by
          rw [marks, Shape.marksOf, if_neg other, text, isEmpty_iff.mp isEmpty, f.bytesBetween_self, List.map_nil]
        rw [List.filter_cons_of_neg (by simp [isEmpty]), List.flatMap_cons, none, next, List.nil_append]
  rw [filled]
  generalize ls.filter (!·.isEmpty) = full at above
  induction above with
  | nil => rfl
  | @cons leaf run rest runs first above ih =>
    rw [List.flatten_cons] at spelled
    rw [List.flatMap_cons, List.flatten_cons, List.flatMap_append,
      first.marks_eq fun t member => spelled t (List.mem_append_left _ member),
      ih fun t member => spelled t (List.mem_append_right _ member)]

/-- Where the leaves fall apart, the tokens do. -/
theorem Tiled.split (tiled : Tiled (ls ++ rs) tokens) :
    ∃ ts us, tokens = ts ++ us ∧ Tiled ls ts ∧ Tiled rs us := by
  obtain ⟨runs, rfl, above⟩ := tiled
  rw [List.filter_append] at above
  have above := above.flip
  refine ⟨_, _, ?_, ⟨_, rfl, (List.forall₂_take_append _ _ _ above).flip⟩,
    ⟨_, rfl, (List.forall₂_drop_append _ _ _ above).flip⟩⟩
  rw [← List.flatten_append, List.take_append_drop]

theorem Tiled.exists_covers {size : Nat} {t : Token} (tiled : Tiled ls tokens) (laid : Token.Laid size tokens)
    (member : t ∈ tokens) : ∃ leaf ∈ ls, leaf.start ≤ t.start ∧ t.stop ≤ leaf.stop := by
  have one := tiled.countP_covers laid member
  obtain ⟨leaf, inside, found⟩ := List.countP_pos_iff.mp (one ▸ Nat.one_pos)
  simp only [covers, Bool.and_eq_true, decide_eq_true_eq] at found
  exact ⟨leaf, inside, found.1⟩

/-- Where leaves and tokens fall apart at the same place, leaves on one side stand over the tokens there. -/
theorem Tiled.sides {size : Nat} {ts us : List Token} (tiled : Tiled (ls ++ rs) (ts ++ us))
    (laid : Token.Laid size (ts ++ us)) (low : ∀ leaf ∈ ls, leaf.stop ≤ place) (high : ∀ leaf ∈ rs, place ≤ leaf.start)
    (lowTokens : ∀ t ∈ ts, t.stop ≤ place) (highTokens : ∀ u ∈ us, place ≤ u.start) : Tiled ls ts ∧ Tiled rs us := by
  obtain ⟨ts', us', same, tiledLeft, tiledRight⟩ := tiled.split
  have filled := laid.filled
  rw [same] at laid
  obtain ⟨laidLeft, laidRight, -⟩ := laid.append
  have lowTokens' : ∀ t ∈ ts', t.stop ≤ place := by
    intro t member
    obtain ⟨leaf, inside, -, stop⟩ := tiledLeft.exists_covers laidLeft member
    exact Nat.le_trans stop (low leaf inside)
  have highTokens' : ∀ u ∈ us', ¬u.stop ≤ place := by
    intro u member
    obtain ⟨leaf, inside, start, -⟩ := tiledRight.exists_covers laidRight member
    have := high leaf inside
    have := laidRight.filled u member
    omega
  have highTokens : ∀ u ∈ us, ¬u.stop ≤ place := by
    intro u member
    have := highTokens u member
    have := filled u (List.mem_append_right _ member)
    omega
  have kept {as bs : List Token} (before : ∀ t ∈ as, t.stop ≤ place) (behind : ∀ u ∈ bs, ¬u.stop ≤ place) :
      (as ++ bs).filter (fun t => decide (t.stop ≤ place)) = as := by
    rw [List.filter_append, List.filter_eq_self.mpr (by simpa using before),
      List.filter_eq_nil_iff.mpr (by simpa using behind), List.append_nil]
  have front : ts = ts' := by rw [← kept lowTokens highTokens, same, kept lowTokens' highTokens']
  subst front
  rw [List.append_cancel_left same]
  exact ⟨tiledLeft, tiledRight⟩

/-! ## One more part -/

/-- The leaves of children in front of a place. -/
theorem Whole.leaves_low (whole : Whole t) (children : ts ⊆ t.children) (low : ∀ u ∈ ts, u.stop ≤ place) :
    ∀ leaf ∈ ts.flatMap leaves, leaf.stop ≤ place := by
  intro leaf inside
  obtain ⟨u, member, inside⟩ := List.mem_flatMap.mp inside
  exact Nat.le_trans ((whole.of_child (children member)).within (mem_leaves inside).1).2 (low u member)

/-- The leaves of children behind it. -/
theorem Whole.leaves_high (whole : Whole t) (children : ts ⊆ t.children) (high : ∀ u ∈ ts, place ≤ u.start) :
    ∀ leaf ∈ ts.flatMap leaves, place ≤ leaf.start := by
  intro leaf inside
  obtain ⟨u, member, inside⟩ := List.mem_flatMap.mp inside
  exact Nat.le_trans (high u member) ((whole.of_child (children member)).within (mem_leaves inside).1).1

theorem marksAll_sketches (ts : List ParseTree) :
    Shape.marksAll (ts.map (sketch f)) = (ts.flatMap leaves).flatMap (marks f) := by
  rw [Shape.marksAll_eq, List.flatMap_map, List.flatMap_assoc]
  exact List.flatMap_congr fun _ _ => marks_sketch

theorem marks_around {kind : NodeKind} {isMissing : Bool} {role : Option Role} {x : Shape} :
    (Shape.node kind isMissing role [] (front.map (sketch f) ++ x :: back.map (sketch f))).marks =
      (front.flatMap leaves).flatMap (marks f) ++ x.marks ++ (back.flatMap leaves).flatMap (marks f) := by
  have split (xs ys : List Shape) : Shape.marksAll (xs ++ ys) = Shape.marksAll xs ++ Shape.marksAll ys := by
    rw [Shape.marksAll_eq, Shape.marksAll_eq, Shape.marksAll_eq, List.flatMap_append]
  rw [Shape.marks, if_neg (by simp), split, Shape.marksAll, marksAll_sketches, marksAll_sketches, List.append_assoc]

/-- The leaves in front of a place and those behind it, and what one more part between them does to the text. The
induction is on the path. -/
theorem Whole.leaves_around (whole : Whole t) (between : Between place body front back)
    (found : t.at? path = some body) : ∃ ls rs, t.leaves = ls ++ rs ∧ (∀ leaf ∈ ls, leaf.stop ≤ place) ∧
      (∀ leaf ∈ rs, place ≤ leaf.start) ∧
      ((t.sketch f).withPart e front.length path).marks = ls.flatMap (marks f) ++ e.marks ++ rs.flatMap (marks f) := by
  have grown := between.children_ne_nil found
  induction path generalizing t with
  | nil =>
    obtain rfl := Option.some.inj found
    obtain ⟨before, behind⟩ := whole.sides between
    refine ⟨front.flatMap leaves, back.flatMap leaves, ?_, whole.leaves_low ?_ before,
      whole.leaves_high ?_ fun u member => (behind u member).1, ?_⟩
    · rw [leaves_of_children grown, between.split, List.flatMap_append]
    · simp [between.split]
    · simp [between.split]
    · rw [withPart_nil between, marks_around]
  | cons i path ih =>
    obtain ⟨before, c, behind, split, rfl, below⟩ := exists_of_at? found
    have wholeC : Whole c := whole.of_child (by simp [split])
    obtain ⟨earlier, later⟩ := whole.sides_of_straddles split (wholeC.straddles between below)
    obtain ⟨ls, rs, leavesC, low, high, marksC⟩ := ih wholeC below (between.children_ne_nil below)
    have lowBefore : ∀ leaf ∈ before.flatMap leaves, leaf.stop ≤ place :=
      whole.leaves_low (by simp [split]) fun u member => Nat.le_of_lt (earlier u member)
    have highBehind : ∀ leaf ∈ behind.flatMap leaves, place ≤ leaf.start := by
      refine whole.leaves_high (fun u member => ?_) fun u member => Nat.le_of_lt (later u member)
      rw [split]
      exact List.mem_append_right _ (List.mem_cons_of_mem c member)
    refine ⟨before.flatMap leaves ++ ls, rs ++ behind.flatMap leaves, ?_, ?_, ?_, ?_⟩
    · rw [leaves_of_children grown, split, List.flatMap_append, List.flatMap_cons, leavesC]
      simp only [List.append_assoc]
    · exact fun leaf inside => (List.mem_append.mp inside).elim (lowBefore leaf) (low leaf)
    · exact fun leaf inside => (List.mem_append.mp inside).elim (high leaf) (highBehind leaf)
    · rw [withPart_cons split, marks_around, marksC, List.flatMap_append, List.flatMap_append]
      simp only [List.append_assoc]

end ParseTree

/-- The leaf of a token that fits nowhere. -/
def Token.sketch (t : Token) : Shape :=
  .node (if t.kind.isComment then .comment else Parser.leafKind t.kind) false none t.text []

namespace Parser

open Grammar Lexer

variable {f f' : SourceFile} {t : Token} {ts us : List Token} {junk : Bytes} {ks : List TokenKind}

/-! ## Lexemes of several tokens -/

theorem lexemes_append (last : ts.getLast? = some t) (stop : Nat) :
    lexemes stop (ts ++ us) = lexemes stop ts ++ lexemes t.stop us := by
  induction ts generalizing stop with
  | nil => cases last
  | cons u ts ih =>
    rw [List.cons_append, lexemes, lexemes, List.cons_append]
    cases ts with
    | nil =>
      obtain rfl : u = t := Option.some.inj last
      rfl
    | cons v ts => rw [ih (by rwa [List.getLast?_cons_cons] at last)]

theorem lexemes_shift (gap stop : Nat) (ts : List Token) :
    lexemes (stop + gap) (ts.map (Token.shift gap)) = lexemes stop ts := by
  induction ts generalizing stop with
  | nil => rfl
  | cons t ts ih =>
    have glued : ((t.shift gap).start == stop + gap) = (t.start == stop) := by
      rw [Bool.eq_iff_iff, beq_iff_eq, beq_iff_eq]
      exact Nat.add_right_cancel_iff
    rw [List.map_cons, lexemes, lexemes, glued]
    exact congrArg _ (ih t.stop)

/-- Only what the first word touches depends on what stands in front. -/
theorem unglued_lexemes_shift (gap a b : Nat) (ts : List Token) :
    unglued (lexemes a (ts.map (Token.shift gap))) = unglued (lexemes b ts) := by
  cases ts with
  | nil => rfl
  | cons t ts =>
    rw [List.map_cons, lexemes, lexemes, unglued, unglued]
    exact congrArg _ (lexemes_shift gap t.stop ts)

/-! ## Tokens without comments -/

/-- Tokens that are no comments. -/
def significantOf (ts : List Token) : List Token := ts.filter (!·.kind.isComment)

theorem significantOf_append (ts us : List Token) :
    significantOf (ts ++ us) = significantOf ts ++ significantOf us := List.filter_append ..

theorem significantOf_shift (gap : Nat) (ts : List Token) :
    significantOf (ts.map (Token.shift gap)) = (significantOf ts).map (Token.shift gap) := List.filter_map ..

theorem getLast?_significantOf (last : ts.getLast? = some t) (significant : t.kind.isComment = false) :
    (significantOf ts).getLast? = some t := by
  obtain ⟨before, rfl⟩ := List.getLast?_eq_some_iff.mp last
  rw [significantOf_append, significantOf, significantOf, List.filter_cons_of_pos (by simp [significant])]
  exact List.getLast?_concat

theorem kinds_significantOf (ts : List Token) :
    (significantOf ts).map (·.kind) = (ts.map (·.kind)).filter (!·.isComment) := by
  rw [List.filter_map]
  rfl

theorem isComment_of_isFence {k : TokenKind} (fence : k.isFence = true) : k.isComment = false := by
  cases k <;> first | rfl | cases fence

/-! ## Statements with comments in them -/

theorem openBraces_filter (ks : List TokenKind) : openBraces (ks.filter (!·.isComment)) = openBraces ks := by
  rw [openBraces, openBraces, List.count_filter rfl, List.count_filter rfl]

/-- Comments in a statement play no part if it does not start with one. -/
theorem IsStray.filter (stray : IsStray ks) (bare : ∀ k ∈ ks.head?, k.isComment = false) :
    IsStray (ks.filter (!·.isComment)) := by
  have head : (ks.filter (!·.isComment)).head? = ks.head? := by
    cases ks with
    | nil => rfl
    | cons k ks => rw [List.filter_cons_of_pos (by simp [bare k rfl]), List.head?_cons, List.head?_cons]
  refine ⟨head ▸ stray.first, ?_, fun before initial => ?_, ?_, fun before k after split started going outside => ?_, ?_⟩
  · rw [openBraces_filter, stray.balanced]
  · obtain ⟨whole, earlier, rfl⟩ := List.prefix_filter_iff.mp initial
    rw [openBraces_filter]
    exact stray.nested whole earlier
  · obtain ⟨before, split⟩ := List.getLast?_eq_some_iff.mp stray.last
    rw [split, List.filter_append]
    exact List.getLast?_concat
  · obtain ⟨whole, rest, rfl, rfl, behind⟩ := List.filter_eq_append_iff.mp split
    obtain ⟨comments, after', rfl, silent, -, rfl⟩ := List.filter_eq_cons_iff.mp behind
    rw [← List.append_assoc] at stray
    refine stray.inner (whole ++ comments) k after' rfl ?_ ?_ ?_
    · rintro none
      rw [(List.append_eq_nil_iff.mp none).1] at started
      exact started rfl
    · rintro rfl
      exact going rfl
    · have none : comments.filter (!·.isComment) = [] := List.filter_eq_nil_iff.mpr silent
      rw [← openBraces_filter, List.filter_append, none, List.append_nil, outside]
  · intro first
    rw [stray.single (head ▸ first)]
    rfl

/-- A text that is a statement no match body knows: it starts with no comment, and its last semicolon ends it. -/
structure IsStatement (junk : Bytes) : Prop where
  stray : IsStray ((realTokens 0 junk).map (·.kind))
  bare : ∀ t ∈ (realTokens 0 junk).head?, t.kind.isComment = false
  whole : ∀ t ∈ (realTokens 0 junk).getLast?, t.stop = junk.length

theorem IsStatement.exists_last (statement : IsStatement junk) :
    ∃ last, (realTokens 0 junk).getLast? = some last ∧ last.kind = .semicolon := by
  have ends := statement.stray.last
  rw [List.getLast?_map] at ends
  exact Option.map_eq_some_iff.mp ends

/-- The error that a statement becomes: its leaves are the tokens of the statement. -/
def errorOf (junk : Bytes) : Shape := .node .error false none [] ((realTokens 0 junk).map Token.sketch)

section

theorem kind_sketch_of_comment (isComment : t.kind.isComment = true) : t.sketch.kind = .comment := if_pos isComment

theorem kind_sketch_of_significant (significant : t.kind.isComment = false) :
    t.sketch.kind = leafKind t.kind := if_neg (by rw [significant]; exact Bool.false_ne_true)

theorem trim_sketch (t : Token) : t.sketch.Trim := by
  rw [Token.sketch]
  cases t.kind.isComment with
  | true => exact .comment _
  | false => exact .leaf (leafKind_ne t.kind)

theorem marks_sketch (t : Token) : t.sketch.marks = t.marks := by
  rw [Token.sketch, Token.marks, Shape.marks, Shape.marksOf]
  cases t.kind.isComment with
  | true => rfl
  | false => exact if_neg (leafKind_ne t.kind)

theorem bares_sketches (ts : List Token) :
    Shape.bares (ts.map Token.sketch) = (significantOf ts).map fun t => leafShape ⟨t.kind, t.text, false⟩ := by
  induction ts with
  | nil => rfl
  | cons t ts ih =>
    rw [List.map_cons, significantOf]
    cases isComment : t.kind.isComment with
    | true =>
      rw [List.filter_cons_of_neg (by simp [isComment]), Shape.bares_cons_comment (kind_sketch_of_comment isComment), ih]
      rfl
    | false =>
      have other : t.sketch.kind ≠ .comment := by
        rw [kind_sketch_of_significant isComment]
        exact leafKind_ne t.kind
      rw [List.filter_cons_of_pos (by simp [isComment]), Shape.bares_cons other, ih, Token.sketch, isComment]
      rfl

theorem map_leafShape_lexemes (gap stop : Nat) (ts : List Token) :
    (lexemes stop (ts.map (Token.shift gap))).map leafShape = ts.map fun t => leafShape ⟨t.kind, t.text, false⟩ := by
  induction ts generalizing stop with
  | nil => rfl
  | cons t ts ih =>
    rw [List.map_cons, lexemes, List.map_cons, ih]
    rfl

/-- A token has a text. -/
theorem text_ne_nil {text : Bytes} (member : t ∈ realTokens 0 text) : t.text ≠ [] := by
  obtain ⟨inside, real⟩ := List.mem_filter.mp member
  obtain ⟨b, rest, -, -, same⟩ := measured_tokensFrom ⟨0, text⟩ rfl t inside (by simpa using real)
  rw [same]
  exact List.cons_ne_nil _ _

variable (statement : IsStatement junk)
include statement

theorem IsStatement.trim : (errorOf junk).Trim := by
  obtain ⟨last, final, semicolon⟩ := statement.exists_last
  have grown : realTokens 0 junk ≠ [] := List.ne_nil_of_mem (List.mem_of_getLast? final)
  refine .tree NodeKind.noConfusion (by simpa using grown) ?_ ?_ fun x member => ?_
  · obtain ⟨t, rest, split⟩ := List.exists_cons_of_ne_nil grown
    have significant := statement.bare t (by rw [split]; rfl)
    rw [split, List.map_cons, List.map_cons, List.head?_cons, kind_sketch_of_significant significant]
    exact fun same => leafKind_ne t.kind (Option.some.inj same)
  · rw [List.getLast?_map, List.getLast?_map, final]
    have significant : last.kind.isComment = false := by rw [semicolon]; rfl
    exact fun same => leafKind_ne last.kind ((kind_sketch_of_significant significant).symm.trans (Option.some.inj same))
  · obtain ⟨t, -, rfl⟩ := List.mem_map.mp member
    exact trim_sketch t

theorem IsStatement.filled : (errorOf junk).Filled := by
  obtain ⟨last, final, -⟩ := statement.exists_last
  have grown : realTokens 0 junk ≠ [] := List.ne_nil_of_mem (List.mem_of_getLast? final)
  refine .tree (by simpa using grown) fun x member => ?_
  obtain ⟨t, inside, rfl⟩ := List.mem_map.mp member
  exact .leaf (text_ne_nil inside)

theorem IsStatement.marks_errorOf : (errorOf junk).marks = (realTokens 0 junk).flatMap Token.marks := by
  obtain ⟨last, final, -⟩ := statement.exists_last
  have grown : realTokens 0 junk ≠ [] := List.ne_nil_of_mem (List.mem_of_getLast? final)
  rw [errorOf, Shape.marks, if_neg (by simpa using grown), Shape.marksAll_eq, List.flatMap_map]
  exact List.flatMap_congr fun t _ => marks_sketch t

end

/-- A statement is put into a text behind a brace or semicolon, between white space. -/
structure Inserted (f f' : SourceFile) (t : Token) (junk : Bytes) : Prop where
  token : t ∈ f.tokens
  fence : t.kind.isFence = true
  content : ∃ before after, (∀ b ∈ before, isBlank b = true) ∧ (∀ b ∈ after, isBlank b = true) ∧
    f'.content = f.content.take t.stop ++ (before ++ junk ++ after ++ f.content.drop t.stop)

/-- Where the tokens of both texts come from. -/
structure Parted (f f' : SourceFile) (t : Token) (junk : Bytes) (front back : List Token) (gap gap' : Nat) : Prop where
  last : front.getLast? = some t
  behind : ∀ u ∈ back, t.stop ≤ u.start
  first : f.tokens = front ++ back
  second : f'.tokens = front ++ (realTokens 0 junk).map (Token.shift gap) ++ back.map (Token.shift gap')

theorem Inserted.parted (inserted : Inserted f f' t junk) (statement : IsStatement junk) :
    ∃ front back gap gap', Parted f f' t junk front back gap gap' := by
  obtain ⟨before, after, blank, blank', content⟩ := inserted.content
  obtain ⟨last, final, semicolon⟩ := statement.exists_last
  have token : t ∈ realTokens 0 f.content := inserted.token
  obtain ⟨front, back, ends, behind, first, second⟩ := realTokens_insert token inserted.fence
    (List.mem_of_getLast? final) (by rw [semicolon]; rfl) (statement.whole last final) blank blank'
  rw [← content] at second
  exact ⟨front, back, _, _, ends, behind, first, second⟩

/-! ## The insertion -/

namespace Parted

variable {front back : List Token} {gap gap' : Nat} (parted : Parted f f' t junk front back gap gap')
include parted

theorem low : ∀ u ∈ front, u.stop ≤ t.stop := by
  intro u member
  have laid := f.laid_tokens
  rw [parted.first] at laid
  have filled := laid.filled t (List.mem_append_left _ (List.mem_of_getLast? parted.last))
  obtain ⟨before, split⟩ := List.getLast?_eq_some_iff.mp parted.last
  have apart := laid.append.1.apart
  rw [split, List.pairwise_append] at apart
  rw [split, List.mem_append, List.mem_singleton] at member
  rcases member with earlier | rfl
  · have := apart.2.2 u earlier t (List.mem_singleton_self t)
    omega
  · exact Nat.le_refl _

theorem significantFrom : f.significantFrom t.stop = significantOf back := by
  rw [SourceFile.significantFrom, parted.first, List.filter_append, List.filter_eq_nil_iff.mpr ?_, List.nil_append]
  · refine List.filter_congr fun u member => ?_
    rw [decide_eq_true (parted.behind u member), Bool.and_true]
  · intro u member
    have low := parted.low u member
    have filled := f.laid_tokens.filled u (by rw [parted.first]; exact List.mem_append_left _ member)
    simp only [Bool.and_eq_true, decide_eq_true_eq, not_and]
    omega

/-- The words of both texts, up to the place and from there on. -/
theorem words (fence : t.kind.isFence = true) {last : Token} (final : (realTokens 0 junk).getLast? = some last)
    (semicolon : last.kind = .semicolon) :
    (State.start f).words = lexemes 0 (significantOf front) ++ lexemes t.stop (significantOf back) ∧
      (State.start f').words = lexemes 0 (significantOf front) ++
        (lexemes t.stop (significantOf ((realTokens 0 junk).map (Token.shift gap))) ++
          lexemes (last.shift gap).stop (significantOf (back.map (Token.shift gap')))) := by
  have ends := getLast?_significantOf parted.last (isComment_of_isFence fence)
  have ends' : (significantOf ((realTokens 0 junk).map (Token.shift gap))).getLast? = some (last.shift gap) := by
    rw [significantOf_shift, List.getLast?_map, getLast?_significantOf final (by rw [semicolon]; rfl)]
    rfl
  constructor
  · show lexemes 0 (significantOf f.tokens) = _
    rw [parted.first, significantOf_append, lexemes_append ends]
  · show lexemes 0 (significantOf f'.tokens) = _
    rw [parted.second, List.append_assoc, significantOf_append, significantOf_append, lexemes_append ends,
      lexemes_append ends']

/-- The statement as an insertion between two tokens. -/
theorem exists_insertion (token : t ∈ f.tokens) (fence : t.kind.isFence = true) (statement : IsStatement junk)
    (more : f.significantFrom t.stop ≠ []) :
    ∃ ι : Insertion, ι.first = f ∧ ι.second = f' ∧ ι.place = t.stop ∧ ι.final = t.kind ∧
      ι.stray = lexemes t.stop (significantOf ((realTokens 0 junk).map (Token.shift gap))) ∧
      ι.Same (State.start ι.first) (State.start ι.second) := by
  obtain ⟨last, final, semicolon⟩ := statement.exists_last
  obtain ⟨words, words'⟩ := parted.words fence final semicolon
  have ends := getLast?_significantOf parted.last (isComment_of_isFence fence)
  let ι : Insertion :=
    { first := f
      second := f'
      ahead := lexemes t.stop (f.significantFrom t.stop)
      ahead' := lexemes t.stop (significantOf ((realTokens 0 junk).map (Token.shift gap))) ++
        lexemes (last.shift gap).stop (significantOf (back.map (Token.shift gap')))
      final := t.kind
      fence
      filled := by
        intro none
        exact more (List.eq_nil_of_length_eq_zero (by rw [← length_lexemes t.stop, none]; rfl))
      place := t.stop
      stray := lexemes t.stop (significantOf ((realTokens 0 junk).map (Token.shift gap)))
      behind := lexemes (last.shift gap).stop (significantOf (back.map (Token.shift gap')))
      ahead'_eq := rfl
      near := by
        rw [parted.significantFrom, significantOf_shift]
        exact unglued_lexemes_shift ..
      isStray := by
        have bare : ∀ k ∈ ((realTokens 0 junk).map (·.kind)).head?, k.isComment = false := by
          intro k head
          rw [List.head?_map] at head
          obtain ⟨u, first, rfl⟩ := Option.map_eq_some_iff.mp head
          exact statement.bare u first
        have stray := statement.stray.filter bare
        rw [← kinds_significantOf] at stray
        rw [map_kind_lexemes, significantOf_shift, List.map_map]
        exact stray
      ahead_eq := rfl
      edge := ⟨t, token, isComment_of_isFence fence, rfl⟩ }
  refine ⟨ι, rfl, rfl, rfl, rfl, rfl, of_start f, of_start f', lexemes 0 (significantOf front), ?_, words', ?_⟩
  · rw [words, ← parted.significantFrom]
  · intro u member
    have kinds := congrArg List.getLast? (map_kind_lexemes 0 (significantOf front))
    rw [List.getLast?_map, List.getLast?_map, ends, Option.mem_def.mp member] at kinds
    exact Option.some.inj kinds

end Parted

end Parser

end SecurityRules
