import SecurityRules.Proofs.Grammar.Steps
import SecurityRules.Proofs.Text.Boundary
import SecurityRules.Proofs.Trivia.Alike

/-!
# Steps of two parsers over the same words

Two states of the parser are the same if the words ahead are, however many comments lie between them. The same step
then makes trees that are alike, and leads to states that are the same again.
-/

namespace SecurityRules.Parser

open Grammar
open ParseTree (Alike Tame)

/-! ## States -/

/-- A comment that no tree holds yet. -/
structure IsLoose (c : ParseTree) : Prop where
  kind : c.kind = .comment
  role : c.role = none
  children : c.children = []

theorem IsLoose.isExtra {c : ParseTree} (loose : IsLoose c) : c.isExtra = true := by
  rw [ParseTree.isExtra, loose.kind]
  rfl

/-- A state of a file: the tokens ahead are none at the end and spell their parts of it, and what waits to be placed
are comments. -/
structure State.Of (f : SourceFile) (s : State) : Prop where
  file : s.file = f
  kinds : ∀ t ∈ s.rest, t.kind ≠ .endOfInput
  spelled : ∀ t ∈ s.rest, t.start ≤ t.stop ∧ f.bytesBetween t.start t.stop = t.text
  pending : ∀ c ∈ s.pending, IsLoose c

/-- Lexemes, the first of which is taken to touch nothing. -/
def unglued : List Lexeme → List Lexeme
  | [] => []
  | t :: rest => { t with isGlued := false } :: rest

/-- States with the same words ahead, apart from whether the first one touches what is in front of it. -/
structure Near (f f' : SourceFile) (s s' : State) : Prop where
  first : s.Of f
  second : s'.Of f'
  words : unglued s.words = unglued s'.words

/-- States with the same words ahead. -/
structure Same (f f' : SourceFile) (s s' : State) : Prop where
  first : s.Of f
  second : s'.Of f'
  words : s.words = s'.words

variable {f f' : SourceFile} {s s' : State}

namespace State.Of

theorem advance (of : s.Of f) : s.advance.Of f := by
  rw [State.advance]
  split
  · exact of
  · rename_i t rest ahead
    have behind : ∀ u ∈ rest, u ∈ s.rest := fun u member => by rw [ahead]; exact List.mem_cons_of_mem t member
    refine ⟨of.file, fun u member => of.kinds u (behind u member), fun u member => of.spelled u (behind u member), ?_⟩
    intro c member
    rcases List.mem_append.mp member with old | new
    · exact of.pending c old
    · obtain ⟨u, _, rfl⟩ := List.mem_map.mp new
      exact ⟨rfl, rfl, rfl⟩

theorem rest_of_end (of : s.Of f) (ended : s.peek.kind = .endOfInput) : s.rest = [] := by
  rw [State.peek] at ended
  cases ahead : s.rest with
  | nil => rfl
  | cons t rest =>
    rw [ahead] at ended
    exact absurd ended (of.kinds t (by rw [ahead]; exact List.mem_cons_self ..))

/-- The next token spells its part of the file, also the empty one at the end. -/
theorem spelled_peek (of : s.Of f) : s.peek.start ≤ s.peek.stop ∧
    f.bytesBetween s.peek.start s.peek.stop = s.peek.text := by
  rw [State.peek]
  cases ahead : s.rest with
  | nil => exact ⟨Nat.le_refl _, f.bytesBetween_self _⟩
  | cons t rest => exact of.spelled t (by rw [ahead]; exact List.mem_cons_self ..)

end State.Of

theorem Same.near (same : Same f f' s s') : Near f f' s s' := ⟨same.first, same.second, by rw [same.words]⟩

namespace Near

variable (near : Near f f' s s')
include near

theorem peek : s.peek.kind = s'.peek.kind ∧ s.peek.text = s'.peek.text := by
  have words := near.words
  rw [State.words, State.words] at words
  rw [State.peek, State.peek]
  cases ahead : s.rest with
  | nil =>
    cases ahead' : s'.rest with
    | nil => exact ⟨rfl, rfl⟩
    | cons t' rest' =>
      rw [ahead, ahead', lexemes, lexemes] at words
      cases words
  | cons t rest =>
    cases ahead' : s'.rest with
    | nil =>
      rw [ahead, ahead', lexemes, lexemes] at words
      cases words
    | cons t' rest' =>
      rw [ahead, ahead', lexemes, lexemes] at words
      simp only [unglued, List.cons.injEq, Lexeme.mk.injEq, and_true] at words
      exact words.1

theorem tail : s.words.tail = s'.words.tail := by
  have words := near.words
  have tail : ∀ ts : List Lexeme, (unglued ts).tail = ts.tail := by
    intro ts
    cases ts <;> rfl
  rw [← tail, words, tail]

theorem length_rest : s.rest.length = s'.rest.length := by
  have words := congrArg List.length near.words
  have length : ∀ ts : List Lexeme, (unglued ts).length = ts.length := by
    intro ts
    cases ts <;> rfl
  rw [length, length, State.length_words, State.length_words] at words
  exact words

/-- Behind the next token the states are the same. -/
theorem advance : Same f f' s.advance s'.advance :=
  ⟨near.first.advance, near.second.advance, by rw [State.words_advance, State.words_advance, near.tail]⟩

theorem isAt (kind : TokenKind) : s.isAt kind = s'.isAt kind := by
  rw [State.isAt, State.isAt, near.peek.1]

/-- At the end there is no first word. -/
theorem same_of_end (ended : s.peek.kind = .endOfInput) : Same f f' s s' := by
  have rest := near.first.rest_of_end ended
  have rest' := near.second.rest_of_end (near.peek.1 ▸ ended)
  exact ⟨near.first, near.second, by rw [State.words, State.words, rest, rest', lexemes, lexemes]⟩

theorem peekSecond : s.peekSecond.kind = s'.peekSecond.kind := by
  rw [State.peekSecond_kind, State.peekSecond_kind, near.tail]

end Near

namespace Same

variable (same : Same f f' s s')
include same

theorem kind : s.peek.kind = s'.peek.kind := same.near.peek.1

theorem text : s.peek.text = s'.peek.text := same.near.peek.2

theorem isAt (kind : TokenKind) : s.isAt kind = s'.isAt kind := same.near.isAt kind

theorem isAtAny (kinds : List TokenKind) : s.isAtAny kinds = s'.isAtAny kinds := by
  rw [State.isAtAny, State.isAtAny, same.kind]

theorem isAtSync : s.isAtSync = s'.isAtSync := by
  rw [State.isAtSync, State.isAtSync, same.kind]

theorem second_kind : s.peekSecond.kind = s'.peekSecond.kind := same.near.peekSecond

theorem length_rest : s.rest.length = s'.rest.length := same.near.length_rest

/-- Whether the next token touches the last one. At the end of the text that may differ, but nothing asks there. -/
theorem isAdjacent (ahead : s.rest ≠ []) : s.isAdjacent = s'.isAdjacent := by
  obtain ⟨t, rest, shape⟩ := List.exists_cons_of_ne_nil ahead
  have words : s.words = ⟨t.kind, t.text, t.start == s.lastStop⟩ :: lexemes t.stop rest := by
    rw [State.words, shape, lexemes]
  rw [State.isAdjacent_eq words, State.isAdjacent_eq (same.words ▸ words)]

end Same

/-! ## What productions read -/

/-- Trees that are alike, with states behind them that are the same. -/
structure Pair (f f' : SourceFile) (r r' : ParseTree × State) : Prop where
  tree : Alike f f' r.1 r'.1
  significant : r.1.isExtra = false
  state : Same f f' r.2 r'.2

/-- A production that reads trees that are alike from states that are the same. -/
def Stable (p : Production) : Prop := ∀ f f' s s', Same f f' s s' → Pair f f' (p s) (p s')

/-- Drafts of trees of a kind, which is not read as text, that grow in the same way. -/
structure Grows (f f' : SourceFile) (kind : NodeKind) (d d' : Draft) : Prop where
  inner : kind.isSpelled = false
  tree : Alike f f' d.tree d'.tree
  kind : d.tree.kind = kind
  state : Same f f' d.state d'.state

/-- Leaves over texts that are equal. -/
theorem alike_leaf {start stop start' stop' : Nat} (kind : NodeKind)
    (text : f.bytesBetween start stop = f'.bytesBetween start' stop') :
    Alike f f' (s.leaf start stop kind) (s'.leaf start' stop' kind) :=
  .leaf rfl rfl rfl rfl rfl text

theorem Near.leafOf {kind : NodeKind} (near : Near f f' s s') (other : kind ≠ .comment) :
    Pair f f' (leafOf kind s) (leafOf kind s') where
  tree := by
    refine alike_leaf kind ?_
    rw [near.first.spelled_peek.2, near.second.spelled_peek.2, near.peek.2]
  significant := beq_eq_false_iff_ne.mpr other
  state := near.advance

theorem stable_leafOf {kind : NodeKind} (other : kind ≠ .comment) : Stable (leafOf kind) :=
  fun _ _ _ _ same => same.near.leafOf other

theorem Same.placeholder {kind : NodeKind} (same : Same f f' s s') (other : kind ≠ .comment) :
    Pair f f' (s.placeholder kind, s) (s'.placeholder kind, s') where
  tree := .leaf rfl rfl rfl rfl rfl ((f.bytesBetween_self _).trans (f'.bytesBetween_self _).symm)
  significant := beq_eq_false_iff_ne.mpr other
  state := same

/-! ## Attaching a child -/

/-- Comments that are placed become children; no other child comes or goes. -/
theorem foldl_placeComment {limit : Nat} (comments : List ParseTree) (t : ParseTree) (kept : List ParseTree) :
    let r := comments.foldl (placeComment limit) (t, kept)
    (r.1.kind = t.kind ∧ r.1.isMissing = t.isMissing ∧ r.1.role = t.role) ∧
      (∃ placed, r.1.children = t.children ++ placed ∧ ∀ c ∈ placed, c ∈ comments) ∧
      ∀ c ∈ r.2, c ∈ kept ∨ c ∈ comments := by
  induction comments generalizing t kept with
  | nil => exact ⟨⟨rfl, rfl, rfl⟩, ⟨[], (List.append_nil _).symm, fun c member => member⟩, fun c member => Or.inl member⟩
  | cons c rest ih =>
    rw [List.foldl_cons]
    by_cases inside : (t.stop ≤ c.start && c.start < limit) = true
    · have placed : placeComment limit (t, kept) c = (t.push c, kept) := by
        simp only [placeComment]
        rw [if_pos inside]
      obtain ⟨same, ⟨more, children, from_⟩, left⟩ := ih (t.push c) kept
      rw [placed]
      refine ⟨by simpa using same, ⟨c :: more, ?_, ?_⟩, fun u member => ?_⟩
      · rw [children, ParseTree.children_push, List.append_assoc]
        rfl
      · intro u member
        rcases List.mem_cons.mp member with rfl | later
        · exact List.mem_cons_self ..
        · exact List.mem_cons_of_mem c (from_ u later)
      · exact (left u member).imp_right (List.mem_cons_of_mem c)
    · have placed : placeComment limit (t, kept) c = (t, kept ++ [c]) := by
        simp only [placeComment]
        rw [if_neg inside]
      obtain ⟨same, ⟨more, children, from_⟩, left⟩ := ih t (kept ++ [c])
      rw [placed]
      refine ⟨same, ⟨more, children, fun u member => List.mem_cons_of_mem c (from_ u member)⟩, fun u member => ?_⟩
      rcases left u member with old | new
      · rcases List.mem_append.mp old with old | last
        · exact Or.inl old
        · rw [List.mem_singleton.mp last]
          exact Or.inr (List.mem_cons_self ..)
      · exact Or.inr (List.mem_cons_of_mem c new)

/-- What attaching makes of a draft: comments that waited, and then the child. -/
structure Attached (d : Draft) (c : ParseTree) (d' : Draft) : Prop where
  kind : d'.tree.kind = d.tree.kind
  isMissing : d'.tree.isMissing = d.tree.isMissing
  role : d'.tree.role = d.tree.role
  children : ∃ placed, d'.tree.children = d.tree.children ++ placed ++ [c] ∧ (∀ u ∈ placed, u ∈ d.state.pending) ∧
    (d.tree.children = [] → placed = [])
  pending : ∀ u ∈ d'.state.pending, u ∈ d.state.pending
  file : d'.state.file = d.state.file
  rest : d'.state.rest = d.state.rest
  words : d'.words = d.words

theorem attached_attach (d : Draft) (role : Option Role) (c : ParseTree) :
    Attached d (c.inRole role) (d.attach role c) := by
  have rest := d.rest_attach role c
  have file := d.file_attach role c
  have words := words_attach d role c
  rw [Draft.attach] at rest file words ⊢
  split at rest
  · rename_i bare
    rw [if_pos bare] at file words ⊢
    refine ⟨by simp, by simp, by simp, ⟨[], by simp, fun u none => absurd none List.not_mem_nil, fun _ => rfl⟩,
      fun u member => member, file, rest, words⟩
  · rename_i grown
    rw [if_neg grown] at file words ⊢
    obtain ⟨⟨kind, isMissing, roleSame⟩, ⟨placed, children, from_⟩, left⟩ :=
      @foldl_placeComment c.start d.state.pending d.tree []
    refine ⟨?_, ?_, ?_, ⟨placed, ?_, from_, fun childless => ?_⟩, fun u member => ?_, file, rest, words⟩
    · rw [ParseTree.kind_push, kind]
    · rw [ParseTree.isMissing_push, isMissing]
    · rw [ParseTree.role_push, roleSame]
    · rw [ParseTree.children_push, children]
    · exact absurd (by rw [Draft.isBare, childless]; rfl) grown
    · exact (left u member).resolve_left List.not_mem_nil

namespace Attached

variable {d d' : Draft} {c : ParseTree}

theorem significant_eq (attached : Attached d c d') (of : d.state.Of f) (significant : c.isExtra = false) :
    d'.tree.significant = d.tree.significant ++ [c] := by
  obtain ⟨placed, children, waiting, _⟩ := attached.children
  have none : placed.filter (!·.isExtra) = [] := by
    rw [List.filter_eq_nil_iff]
    intro u member
    rw [(of.pending u (waiting u member)).isExtra]
    exact Bool.false_ne_true
  rw [ParseTree.significant, children, List.filter_append, List.filter_append, none, List.append_nil,
    List.filter_cons_of_pos (by simp [significant])]
  rfl

theorem state_of (attached : Attached d c d') (of : d.state.Of f) : d'.state.Of f :=
  ⟨attached.file.trans of.file, attached.rest ▸ of.kinds, attached.rest ▸ of.spelled, fun u member => of.pending u (attached.pending u member)⟩

theorem children_ne_nil (attached : Attached d c d') : d'.tree.children ≠ [] := by
  obtain ⟨placed, children, _⟩ := attached.children
  rw [children]
  simp

theorem tame (attached : Attached d c d') (of : d.state.Of f) (tame : d.tree.Tame)
    (inner : d.tree.kind.isSpelled = false) (significant : c.isExtra = false)
    (label : d.tree.kind.isLabelled c.role = true →
      c.children = [] ∨ (d.tree.kind, c.role) = (.functionDef, some .param) ∧ c.kind = .parameter) :
    d'.tree.Tame := by
  obtain ⟨placed, children, waiting, bare⟩ := attached.children
  have loose : ∀ u ∈ placed, IsLoose u := fun u member => of.pending u (waiting u member)
  have split : ∀ u ∈ d'.tree.children, u ∈ d.tree.children ∨ u ∈ placed ∨ u = c := by
    intro u member
    rw [children, List.append_assoc] at member
    simpa using member
  refine ⟨?_, ?_, ?_, ?_⟩
  · intro spelled
    rw [attached.kind, inner] at spelled
    cases spelled
  · intro u head
    cases shape : d.tree.children with
    | nil =>
      rw [children, shape, bare shape] at head
      rw [← Option.some.inj head]
      exact significant
    | cons first rest =>
      rw [children, shape] at head
      rw [← Option.some.inj head]
      exact tame.first first (by rw [shape]; rfl)
  · intro u member isExtra
    rcases split u member with old | comment | rfl
    · exact tame.extras u old isExtra
    · exact (loose u comment).role
    · rw [significant] at isExtra
      cases isExtra
  · intro u member labelled
    rw [attached.kind] at labelled ⊢
    rcases split u member with old | comment | rfl
    · exact tame.labels u old labelled
    · exact Or.inl (loose u comment).children
    · exact label labelled

end Attached

/-- Drafts that grow in the same way still do when children that are alike are attached. -/
theorem grows_attach {kind : NodeKind} {t t' : ParseTree} {r r' : ParseTree × State} (tree : Alike f f' t t')
    (kindEq : t.kind = kind) (pair : Pair f f' r r') (role : Option Role) (inner : kind.isSpelled = false)
    (label : kind.isLabelled role = true →
      r.1.children = [] ∨ (kind, role) = (.functionDef, some .param) ∧ r.1.kind = .parameter) :
    Grows f f' kind ((⟨t, r.2⟩ : Draft).attach role r.1) ((⟨t', r'.2⟩ : Draft).attach role r'.1) := by
  have attached := attached_attach ⟨t, r.2⟩ role r.1
  have attached' := attached_attach ⟨t', r'.2⟩ role r'.1
  have matched := tree.matched
  have significant : (r.1.inRole role).isExtra = false := by simpa using pair.significant
  have significant' : (r'.1.inRole role).isExtra = false := by
    rw [ParseTree.isExtra_inRole, ← pair.tree.isExtra]
    exact pair.significant
  refine ⟨inner, .of ⟨?_, ?_, ?_, ?_, ?_, ?_, ?_⟩ ?_, attached.kind.trans kindEq, ⟨?_, ?_, ?_⟩⟩
  · exact attached.kind.trans (matched.kind.trans attached'.kind.symm)
  · exact attached.isMissing.trans (matched.isMissing.trans attached'.isMissing.symm)
  · exact attached.role.trans (matched.role.trans attached'.role.symm)
  · exact ⟨fun none => absurd none attached.children_ne_nil, fun none => absurd none attached'.children_ne_nil⟩
  · exact fun none => absurd none attached.children_ne_nil
  · refine attached.tame pair.state.first matched.tame (kindEq ▸ inner) significant ?_
    rw [ParseTree.role_inRole, ParseTree.children_inRole, ParseTree.kind_inRole]
    exact kindEq ▸ label
  · refine attached'.tame pair.state.second matched.tame' (matched.kind ▸ kindEq ▸ inner) significant' ?_
    rw [ParseTree.role_inRole, ParseTree.children_inRole, ParseTree.kind_inRole, ← pair.tree.matched.kind]
    have kindEq' : t'.kind = kind := matched.kind.symm.trans kindEq
    exact kindEq' ▸ fun labelled => (label labelled).imp_left pair.tree.matched.bare.mp
  · rw [attached.significant_eq pair.state.first significant, attached'.significant_eq pair.state.second significant']
    exact List.rel_append tree.parts (.cons (pair.tree.inRole role) .nil)
  · exact attached.state_of pair.state.first
  · exact attached'.state_of pair.state.second
  · exact attached.words.trans (pair.state.words.trans attached'.words.symm)

/-! ## Steps of a draft -/

section

variable {kind : NodeKind} {d d' : Draft}

theorem alike_opened (kind : NodeKind) (s s' : State) :
    Alike f f' (Draft.opened kind s).tree (Draft.opened kind s').tree :=
  .leaf rfl rfl rfl rfl rfl ((f.bytesBetween_self 0).trans (f'.bytesBetween_self 0).symm)

theorem Same.opened (same : Same f f' s s') (inner : kind.isSpelled = false) :
    Grows f f' kind (Draft.opened kind s) (Draft.opened kind s') :=
  ⟨inner, alike_opened kind s s', rfl, same⟩

theorem leafKind_ne (k : TokenKind) : leafKind k ≠ .comment := by
  unfold leafKind
  split <;> exact NodeKind.noConfusion

/-- Before the first token has been taken, it does not matter what it touches. -/
theorem Near.take (near : Near f f' s s') (role : Option Role) (inner : kind.isSpelled = false) :
    Grows f f' kind ((Draft.opened kind s).take role) ((Draft.opened kind s').take role) := by
  have kinds : (Draft.opened kind s').state.peek.kind = (Draft.opened kind s).state.peek.kind := near.peek.1.symm
  rw [Draft.take, Draft.take, kinds]
  exact grows_attach (alike_opened kind s s') rfl (near.leafOf (leafKind_ne _)) role inner
    fun _ => .inl rfl

namespace Grows

variable (grows : Grows f f' kind d d')
include grows

theorem place {p : Production} (pair : Pair f f' (p d.state) (p d'.state)) (role : Option Role)
    (free : kind.isLabelled role = false) : Grows f f' kind (d.place role p) (d'.place role p) := by
  refine grows_attach grows.tree grows.kind pair role grows.inner fun labelled => ?_
  rw [free] at labelled
  cases labelled

theorem takeAs (role : Option Role) {leaf : NodeKind} (other : leaf ≠ .comment) :
    Grows f f' kind (d.takeAs role leaf) (d'.takeAs role leaf) :=
  grows_attach grows.tree grows.kind (stable_leafOf other f f' _ _ grows.state) role grows.inner fun _ => .inl rfl

theorem take (role : Option Role) : Grows f f' kind (d.take role) (d'.take role) := by
  rw [Draft.take, Draft.take, ← grows.state.kind]
  exact grows.takeAs role (leafKind_ne _)

theorem lacking (role : Option Role) {leaf : NodeKind} (other : leaf ≠ .comment) :
    Grows f f' kind (d.lacking role leaf) (d'.lacking role leaf) :=
  grows_attach grows.tree grows.kind (grows.state.placeholder other) role grows.inner fun _ => .inl rfl

theorem isAt (k : TokenKind) : d.isAt k = d'.isAt k := grows.state.isAt k

theorem takeName (role : Option Role) : Grows f f' kind (d.takeName role) (d'.takeName role) := by
  rw [Draft.takeName, Draft.takeName, ← grows.isAt]
  split
  · exact grows.takeAs role NodeKind.noConfusion
  · exact grows.lacking role NodeKind.noConfusion

theorem isBare : d.isBare = d'.isBare := by
  rw [Draft.isBare, Draft.isBare, Bool.eq_iff_iff, List.isEmpty_iff, List.isEmpty_iff]
  exact grows.tree.matched.bare

/-- The finished tree of a draft, which is no comment. -/
theorem pair (other : kind ≠ .comment) : Pair f f' (d.tree, d.state) (d'.tree, d'.state) :=
  ⟨grows.tree, by rw [ParseTree.isExtra, grows.kind]; exact beq_eq_false_iff_ne.mpr other, grows.state⟩

end Grows

theorem stable_branch {fill : Draft → Draft} (inner : kind.isSpelled = false) (other : kind ≠ .comment)
    (fills : ∀ f f' d d', Grows f f' kind d d' → Grows f f' kind (fill d) (fill d')) : Stable (branch kind fill) :=
  fun f f' _ _ same => (fills f f' _ _ (same.opened inner)).pair other

end

/-! ## Loops -/

/-- Turns that both go on or both end, with related values. -/
inductive Turn.Related {α : Type} (R : α → α → Prop) : Turn α → Turn α → Prop
  | again {a b : α} (related : R a b) : Related R (.again a) (.again b)
  | done {a b : α} (related : R a b) : Related R (.done a) (.done b)

theorem Turn.Related.ite {α : Type} {R : α → α → Prop} {c c' : Bool} {x y x' y' : Turn α} (same : c = c')
    (yes : Related R x x') (no : Related R y y') : Related R (if c then x else y) (if c' then x' else y') := by
  subst same
  split
  · exact yes
  · exact no

/-- Loops over related values end with related values, if the first turns do and each later turn keeps it. -/
theorem iterate_related {α : Type} {stateOf : α → State} {turn : α → Turn α} {R : α → α → Prop} {a b : α}
    (shorter : ∀ a b, R a b → (stateOf a).rest.length = (stateOf b).rest.length)
    (length : (stateOf a).rest.length = (stateOf b).rest.length) (first : Turn.Related R (turn a) (turn b))
    (step : ∀ a b, R a b → Turn.Related R (turn a) (turn b)) : R (iterate stateOf turn a) (iterate stateOf turn b) := by
  fun_induction iterate stateOf turn a generalizing b with
  | case1 a next found =>
    rw [found] at first
    rw [iterate.eq_def stateOf turn b]
    generalize turn b = other at first
    cases first with
    | done related => exact related
  | case2 a next found less ih =>
    rw [found] at first
    rw [iterate.eq_def stateOf turn b]
    generalize turn b = other at first
    cases first with
    | @again _ next' related =>
      show R _ (if _ then _ else _)
      rw [if_pos (by rw [← length, ← shorter _ _ related]; exact less)]
      exact ih (shorter _ _ related) (step _ _ related)
  | case3 a next found longer =>
    rw [found] at first
    rw [iterate.eq_def stateOf turn b]
    generalize turn b = other at first
    cases first with
    | @again _ next' related =>
      show R _ (if _ then _ else _)
      rw [if_neg (by rw [← length, ← shorter _ _ related]; exact longer)]
      exact related

/-- A loop over drafts that grow in the same way. -/
theorem Grows.loop {kind : NodeKind} {d d' : Draft} {turn : Draft → Turn Draft} (grows : Grows f f' kind d d')
    (step : ∀ d d', Grows f f' kind d d' → Turn.Related (Grows f f' kind) (turn d) (turn d')) :
    Grows f f' kind (d.loop turn) (d'.loop turn) :=
  iterate_related (fun _ _ grows => grows.state.length_rest) grows.state.length_rest (step d d' grows) step

end SecurityRules.Parser
