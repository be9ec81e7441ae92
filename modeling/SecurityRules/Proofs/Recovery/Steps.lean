import SecurityRules.Proofs.Nesting.Declarations
import SecurityRules.Proofs.Token.Splitting

/-!
# Two parsers up to a place where their texts part

Two texts are the same up to a brace or semicolon, and then go on in different ways. What the parser reads of the first
one without errors, and not beyond that place, it reads of the second one too. Only at the very place does it matter
how the texts go on, since the parser looks ahead to find out whether an expression or a statement is complete.
-/

namespace SecurityRules

namespace ParseTree

/-- Trees of two files that differ in comments and places only, and have children both or neither. -/
structure Twins (f f' : SourceFile) (t t' : ParseTree) : Prop where
  shape : t.shape f = t'.shape f'
  bare : t.children = [] ↔ t'.children = []

variable {f f' : SourceFile} {t t' : ParseTree}

theorem Alike.twins (alike : Alike f f' t t') : Twins f f' t t' := ⟨alike.shape_eq, alike.matched.bare⟩

namespace Twins

variable (twins : Twins f f' t t')
include twins

theorem kind : t.kind = t'.kind := by
  have shape := twins.shape
  rw [shape_eq, shape_eq] at shape
  exact (Shape.node.inj shape).1

theorem isExtra : t.isExtra = t'.isExtra := by rw [ParseTree.isExtra, ParseTree.isExtra, twins.kind]

theorem inRole (r : Option Role) : Twins f f' (t.inRole r) (t'.inRole r) := by
  obtain ⟨shape, bare⟩ := twins
  cases t
  cases t'
  rw [ParseTree.shape, ParseTree.shape] at shape
  obtain ⟨rfl, rfl, -, text, parts⟩ := Shape.node.inj shape
  refine ⟨?_, bare⟩
  rw [ParseTree.inRole, ParseTree.inRole, ParseTree.shape, ParseTree.shape, text, parts]

theorem ofKind (kind : NodeKind) : Twins f f' (t.ofKind kind) (t'.ofKind kind) := by
  obtain ⟨shape, bare⟩ := twins
  cases t
  cases t'
  rw [ParseTree.shape, ParseTree.shape] at shape
  obtain ⟨-, rfl, rfl, text, parts⟩ := Shape.node.inj shape
  refine ⟨?_, bare⟩
  rw [ParseTree.ofKind, ParseTree.ofKind, ParseTree.shape, ParseTree.shape, text, parts]

end Twins

/-- Leaves over the same text. -/
theorem Twins.leaf {e e' : Extent} (kind : NodeKind) (isMissing : Bool) (role : Option Role)
    (text : f.bytesBetween e.start e.stop = f'.bytesBetween e'.start e'.stop) :
    Twins f f' (.node kind isMissing role e []) (.node kind isMissing role e' []) := by
  refine ⟨?_, ⟨fun _ => rfl, fun _ => rfl⟩⟩
  rw [ParseTree.shape_eq, ParseTree.shape_eq]
  exact congrArg (Shape.node kind isMissing role · []) text

end ParseTree

namespace Parser

open Grammar
open ParseTree (Twins)

/-- Whether a turn asks for another one. -/
def Turn.goesOn {α : Type} : Turn α → Bool
  | .again _ => true
  | .done _ => false

theorem loop_eq (turn : Draft → Turn Draft) (d : Draft) : d.loop turn =
    if (turn d).goesOn && (turn d).value.state.rest.length < d.state.rest.length then (turn d).value.loop turn
    else (turn d).value := by
  rw [Draft.loop, iterate]
  cases turn d with
  | done next => rfl
  | again next =>
    by_cases shorter : next.state.rest.length < d.state.rest.length
    · exact (if_pos shorter).trans (if_pos (decide_eq_true shorter)).symm
    · exact (if_neg shorter).trans (if_neg fun goes => shorter (of_decide_eq_true goes)).symm

/-- Two texts that part behind a brace or semicolon. -/
structure Parting where
  first : SourceFile
  second : SourceFile
  /-- The words of the first text from there on. -/
  ahead : List Lexeme
  /-- The words of the second text from there on. -/
  ahead' : List Lexeme
  /-- The sign in front of the place. -/
  final : TokenKind
  fence : final.isFence = true
  filled : ahead ≠ []

namespace Parting

variable (σ : Parting)

/-- States in front of the place, or at it. -/
structure Same (s s' : State) : Prop where
  first : s.Of σ.first
  second : s'.Of σ.second
  words : ∃ ws, s.words = ws ++ σ.ahead ∧ s'.words = ws ++ σ.ahead' ∧ ∀ t ∈ ws.getLast?, t.kind = σ.final

/-- The first parser has not yet reached the place. -/
def Inner (s : State) : Prop := σ.ahead.length < s.rest.length

/-- The first parser has not gone beyond the place, and something is known if it stands there. -/
def Stands (known : Prop) (s : State) : Prop := σ.Inner s ∨ s.rest.length = σ.ahead.length ∧ known

/-- Trees that differ in comments and places only, and states in front of the place or at it. -/
structure Pair (r r' : ParseTree × State) : Prop where
  tree : Twins σ.first σ.second r.1 r'.1
  significant : r.1.isExtra = false
  state : σ.Same r.2 r'.2

/-- Drafts that grow in the same way. -/
structure Grows (d d' : Draft) : Prop where
  tree : Twins σ.first σ.second d.tree d'.tree
  significant : d.tree.isExtra = false
  state : σ.Same d.state d'.state

variable {σ} {s s' v : State} {d d' : Draft} {known other : Prop}

/-! ## States -/

theorem Inner.stands (inner : σ.Inner s) : σ.Stands known s := .inl inner

theorem Stands.inner (stands : σ.Stands False s) : σ.Inner s := stands.resolve_right fun here => here.2

theorem Stands.mono (stands : σ.Stands known s) (wider : known → other) : σ.Stands other s :=
  stands.imp_right fun here => ⟨here.1, wider here.2⟩

theorem Stands.le (stands : σ.Stands known s) : σ.ahead.length ≤ s.rest.length := by
  rcases stands with inner | here
  · exact Nat.le_of_lt inner
  · exact Nat.le_of_eq here.1.symm

/-- A state in front of another one that is not beyond the place is not either. -/
theorem Stands.earlier (stands : σ.Stands known v) (less : v.rest.length ≤ s.rest.length) : σ.Stands known s := by
  rcases stands with inner | ⟨here, known⟩
  · exact .inl (Nat.lt_of_lt_of_le inner less)
  · rw [here] at less
    rcases Nat.lt_or_eq_of_le less with inner | same
    · exact .inl inner
    · exact .inr ⟨same.symm, known⟩

theorem Stands.inner_of_lt (stands : σ.Stands known v) (less : v.rest.length < s.rest.length) : σ.Inner s :=
  Nat.lt_of_le_of_lt stands.le less

theorem rest_advance (s : State) : s.advance.rest = s.rest.tail := by
  rw [State.advance]
  split
  · rename_i ended
    rw [ended]
    rfl
  · rename_i shape
    rw [shape]
    rfl

theorem length_advance (ahead : s.rest ≠ []) : s.advance.rest.length + 1 = s.rest.length := by
  rw [rest_advance, List.length_tail]
  exact Nat.sub_add_cancel (List.length_pos_iff.mpr ahead)

theorem length_take (d : Draft) (role : Option Role) : (d.take role).state.rest.length ≤ d.state.rest.length := by
  have taken : (d.take role).state.rest = d.state.advance.rest := by
    rw [Draft.take, Draft.takeAs, Draft.place_eq, Draft.rest_attach]
    rfl
  rw [taken, rest_advance, List.length_tail]
  exact Nat.sub_le _ _

/-- Gathering tokens only takes tokens. -/
theorem less_gathered {turn : Nested → Turn Nested} (takes : ∀ n, (turn n).value.draft = n.draft ∨
    n.draft.state.rest ≠ [] ∧ (turn n).value.draft = n.draft.take) (s : State) :
    (iterate (·.draft.state) turn ⟨0, Draft.opened .error s⟩).toError.2.rest.length ≤ s.rest.length := by
  rw [state_toError]
  refine iterate_keeps (P := fun n : Nested => n.draft.state.rest.length ≤ s.rest.length) (Nat.le_refl _) fun n less => ?_
  rcases takes n with same | ⟨-, taken⟩
  · rwa [same]
  · rw [taken]
    exact Nat.le_trans (length_take n.draft none) less

theorem Stands.rest_ne_nil (stands : σ.Stands known s) : s.rest ≠ [] := by
  have less := stands.le
  have filled := List.length_pos_iff.mpr σ.filled
  exact List.length_pos_iff.mp (Nat.lt_of_lt_of_le filled less)

/-- If the parser does not get beyond the place with the next token, it has not yet reached it. -/
theorem Stands.advanced (stands : σ.Stands known s.advance) : σ.Inner s := by
  have ahead := stands.rest_ne_nil
  have filled : s.rest ≠ [] := by
    rw [rest_advance] at ahead
    rintro ended
    rw [ended] at ahead
    exact ahead rfl
  exact stands.inner_of_lt (by rw [← length_advance filled]; exact Nat.lt_succ_self _)

namespace Same

variable (same : σ.Same s s')
include same

theorem next (inner : σ.Inner s) : ∃ t ws, s.words = t :: (ws ++ σ.ahead) ∧ s'.words = t :: (ws ++ σ.ahead') ∧
    ∀ u ∈ (t :: ws).getLast?, u.kind = σ.final := by
  obtain ⟨ws, words, words', final⟩ := same.words
  cases ws with
  | nil =>
    rw [Inner, ← State.length_words, words, List.nil_append] at inner
    exact absurd inner (Nat.lt_irrefl _)
  | cons t ws => exact ⟨t, ws, words, words', final⟩

theorem kind (inner : σ.Inner s) : s.peek.kind = s'.peek.kind := by
  obtain ⟨t, ws, words, words', -⟩ := same.next inner
  rw [State.peek_kind, State.peek_kind, words, words']
  rfl

theorem text (inner : σ.Inner s) : s.peek.text = s'.peek.text := by
  obtain ⟨t, ws, words, words', -⟩ := same.next inner
  rw [State.peek_text words, State.peek_text words']

theorem isAdjacent (inner : σ.Inner s) : s.isAdjacent = s'.isAdjacent := by
  obtain ⟨t, ws, words, words', -⟩ := same.next inner
  rw [State.isAdjacent_eq words, State.isAdjacent_eq words']

theorem isAt (inner : σ.Inner s) (kind : TokenKind) : s.isAt kind = s'.isAt kind := by
  rw [State.isAt, State.isAt, same.kind inner]

theorem isAtAny (inner : σ.Inner s) (kinds : List TokenKind) : s.isAtAny kinds = s'.isAtAny kinds := by
  rw [State.isAtAny, State.isAtAny, same.kind inner]

theorem isAtSync (inner : σ.Inner s) : s.isAtSync = s'.isAtSync := by
  rw [State.isAtSync, State.isAtSync, same.kind inner]

/-- Behind a token that is no brace or semicolon the place is not reached yet. -/
theorem second_kind (inner : σ.Inner s) (other : s.peek.kind.isFence = false) :
    s.peekSecond.kind = s'.peekSecond.kind := by
  obtain ⟨t, ws, words, words', final⟩ := same.next inner
  rw [State.peekSecond_kind, State.peekSecond_kind, words, words']
  cases ws with
  | nil =>
    have kind := final t rfl
    rw [State.peek_kind, words] at other
    have other : t.kind.isFence = false := other
    rw [kind, σ.fence] at other
    cases other
  | cons u ws => rfl

/-- At the place nothing is left of what the texts have in common. -/
theorem at_place (here : s.rest.length = σ.ahead.length) : s.words = σ.ahead ∧ s'.words = σ.ahead' := by
  obtain ⟨ws, words, words', -⟩ := same.words
  have none : ws = [] := by
    rw [← State.length_words, words, List.length_append] at here
    exact List.length_eq_zero_iff.mp (by omega)
  rw [words, words', none]
  exact ⟨rfl, rfl⟩

/-- What depends on the next token only, and not on it at the place. -/
theorem decides {α : Type} (c : TokenKind → α) (stands : σ.Stands known s)
    (place : known → c (headKind σ.ahead) = c (headKind σ.ahead')) : c s.peek.kind = c s'.peek.kind := by
  rcases stands with inner | ⟨here, known⟩
  · rw [same.kind inner]
  · obtain ⟨words, words'⟩ := same.at_place here
    rw [State.peek_kind, State.peek_kind, words, words']
    exact place known

theorem advance (inner : σ.Inner s) : σ.Same s.advance s'.advance := by
  obtain ⟨t, ws, words, words', final⟩ := same.next inner
  refine ⟨same.first.advance, same.second.advance, ws, ?_, ?_, fun u last => final u ?_⟩
  · rw [State.words_advance, words]
    rfl
  · rw [State.words_advance, words']
    rfl
  · cases ws with
    | nil => cases last
    | cons v ws => rw [List.getLast?_cons_cons]; exact last

/-- The token in front of the place is known. -/
theorem stands_advance (inner : σ.Inner s) (stands : σ.Stands known s.advance) :
    σ.Stands (known ∧ σ.final = s.peek.kind) s.advance := by
  rcases stands with further | ⟨here, known⟩
  · exact .inl further
  · refine .inr ⟨here, known, ?_⟩
    obtain ⟨t, ws, words, -, final⟩ := same.next inner
    have none : ws = [] := by
      rw [← State.length_words, State.words_advance, words] at here
      simpa using here
    rw [State.peek_kind, words, none]
    exact (final t (by rw [none]; rfl)).symm

theorem length : s.rest.length + σ.ahead'.length = s'.rest.length + σ.ahead.length := by
  obtain ⟨ws, words, words', -⟩ := same.words
  rw [← State.length_words, ← State.length_words, words, words', List.length_append, List.length_append]
  omega

end Same

/-! ## Attaching a child -/

theorem twins_attach {f f' : SourceFile} {d d' : Draft} (role : Option Role) {c c' : ParseTree}
    (tree : Twins f f' d.tree d'.tree) (child : Twins f f' c c') (significant : c.isExtra = false) (of : d.state.Of f)
    (of' : d'.state.Of f') : Twins f f' (d.attach role c).tree (d'.attach role c').tree := by
  have attached := attached_attach d role c
  have attached' := attached_attach d' role c'
  have own : (d.attach role c).tree.significant = d.tree.significant ++ [c.inRole role] :=
    attached.significant_eq of (by simpa using significant)
  have own' : (d'.attach role c').tree.significant = d'.tree.significant ++ [c'.inRole role] :=
    attached'.significant_eq of' (by simpa [← child.isExtra] using significant)
  have grown := attached.children_ne_nil
  have grown' := attached'.children_ne_nil
  refine ⟨?_, ⟨fun none => absurd none grown, fun none => absurd none grown'⟩⟩
  have shape := tree.shape
  rw [ParseTree.shape_eq, ParseTree.shape_eq] at shape
  obtain ⟨kind, isMissing, roleSame, -, parts⟩ := Shape.node.inj shape
  rw [ParseTree.shape_eq, ParseTree.shape_eq, own, own', List.map_append, List.map_append, parts, attached.kind,
    attached'.kind, attached.isMissing, attached'.isMissing, attached.role, attached'.role, kind, isMissing, roleSame,
    if_neg (by simpa using grown), if_neg (by simpa using grown'), List.map_singleton, List.map_singleton,
    (child.inRole role).shape]

namespace Same

/-- Which comments wait to be placed does not matter. -/
theorem attach {t t' c c' : ParseTree} {role : Option Role} (same : σ.Same s s') :
    σ.Same ((⟨t, s⟩ : Draft).attach role c).state ((⟨t', s'⟩ : Draft).attach role c').state := by
  have attached := attached_attach ⟨t, s⟩ role c
  have attached' := attached_attach ⟨t', s'⟩ role c'
  obtain ⟨ws, words, words', final⟩ := same.words
  exact ⟨attached.state_of same.first, attached'.state_of same.second, ws, attached.words.trans words,
    attached'.words.trans words', final⟩

end Same

theorem Pair.attach {t t' : ParseTree} {r r' : ParseTree × State} (pair : σ.Pair r r')
    (tree : Twins σ.first σ.second t t') (significant : t.isExtra = false) (role : Option Role) :
    σ.Grows ((⟨t, r.2⟩ : Draft).attach role r.1) ((⟨t', r'.2⟩ : Draft).attach role r'.1) where
  tree := twins_attach role tree pair.tree pair.significant pair.state.first pair.state.second
  significant := by rwa [ParseTree.isExtra, Draft.kind_attach]
  state := pair.state.attach

theorem Same.opened (same : σ.Same s s') {kind : NodeKind} (other : kind ≠ .comment) :
    σ.Grows (Draft.opened kind s) (Draft.opened kind s') where
  tree := .leaf kind false none ((σ.first.bytesBetween_self 0).trans (σ.second.bytesBetween_self 0).symm)
  significant := beq_eq_false_iff_ne.mpr other
  state := same

/-- The finished tree of a draft. -/
theorem Grows.pair (grows : σ.Grows d d') : σ.Pair (d.tree, d.state) (d'.tree, d'.state) :=
  ⟨grows.tree, grows.significant, grows.state⟩

/-! ## Productions -/

variable (σ)

/-- A production that reads, from a state on, the same tree of both texts, if that has no errors and ends in front of
the place or at it. At the place it may be needed to know how the texts go on, and something is known there then. -/
structure CarriesAt (needs gives : Prop) (p : Production) (s : State) : Prop where
  less : (p s).2.rest.length ≤ s.rest.length
  enters : (p s).1.hasError = false → σ.Stands needs (p s).2 → σ.Inner s
  same : (p s).1.hasError = false → σ.Stands needs (p s).2 → ∀ s', σ.Same s s' →
    σ.Pair (p s) (p s') ∧ σ.Stands gives (p s).2

/-- So from all states on. -/
def Carries (needs gives : Prop) (p : Production) : Prop := ∀ s, σ.CarriesAt needs gives p s

/-- A step that makes the same of drafts that grow in the same way, if there are no errors and it does not lead beyond
the place. -/
structure StepAt (needs gives : Prop) (g : Draft → Draft) (d : Draft) : Prop where
  less : (g d).state.rest.length ≤ d.state.rest.length
  back : (g d).isClean = true → d.isClean = true
  enters : (g d).isClean = true → σ.Stands needs (g d).state → σ.Inner d.state
  same : (g d).isClean = true → σ.Stands needs (g d).state → ∀ d', σ.Grows d d' →
    σ.Grows (g d) (g d') ∧ σ.Stands gives (g d).state

variable {σ} {needs gives weaker stronger : Prop} {p q : Production} {g h : Draft → Draft} {role : Option Role}
  {kind : NodeKind}

namespace CarriesAt

/-- More may be needed, and less known. -/
theorem mono (carries : σ.CarriesAt needs gives p s) (need : stronger → needs) (give : stronger → gives → weaker) :
    σ.CarriesAt stronger weaker p s where
  less := carries.less
  enters := fun clean stands => carries.enters clean (stands.mono need)
  same := fun clean stands s' same => by
    obtain ⟨pair, known⟩ := carries.same clean (stands.mono need) s' same
    refine ⟨pair, ?_⟩
    rcases stands with further | ⟨here, needed⟩
    · exact .inl further
    · exact known.imp_right fun known => ⟨known.1, give needed known.2⟩

/-- In front of the place nothing is needed. -/
theorem inside (carries : σ.CarriesAt needs gives p s) : σ.CarriesAt False False p s :=
  carries.mono False.elim fun never _ => never

/-- Where there is an error nothing is claimed. -/
theorem of_error (less : (p s).2.rest.length ≤ s.rest.length) (wrong : (p s).1.hasError = true) :
    σ.CarriesAt needs gives p s where
  less := less
  enters := fun clean => by rw [wrong] at clean; cases clean
  same := fun clean => by rw [wrong] at clean; cases clean

theorem placeholder (leaf : NodeKind) : σ.CarriesAt needs gives (fun s => (s.placeholder leaf, s)) s :=
  of_error (Nat.le_refl _) (hasError_placeholder s leaf)

theorem leafOf {leaf : NodeKind} (other : leaf ≠ .comment) :
    σ.CarriesAt needs (needs ∧ σ.final = s.peek.kind) (leafOf leaf) s where
  less := by
    show s.advance.rest.length ≤ _
    rw [rest_advance, List.length_tail]
    exact Nat.sub_le _ _
  enters := fun _ stands => Stands.advanced stands
  same := fun _ stands s' same => by
    have inner := Stands.advanced stands
    refine ⟨⟨.leaf leaf false none ?_, beq_eq_false_iff_ne.mpr other, same.advance inner⟩,
      same.stands_advance inner stands⟩
    show σ.first.bytesBetween s.peek.start s.peek.stop = σ.second.bytesBetween s'.peek.start s'.peek.stop
    rw [same.first.spelled_peek.2, same.second.spelled_peek.2, same.text inner]

/-- A production that is another one where it starts. -/
theorem congr (carries : σ.CarriesAt needs gives p s) (here : q s = p s)
    (there : ∀ s', σ.Same s s' → σ.Inner s → q s' = p s') : σ.CarriesAt needs gives q s where
  less := here ▸ carries.less
  enters := here ▸ carries.enters
  same := fun clean stands s' same => by
    rw [here] at clean stands ⊢
    rw [there s' same (carries.enters clean stands)]
    exact carries.same clean stands s' same

/-- A choice that depends on what is seen. -/
theorem ite {c : State → Bool} (seen : ∀ s', σ.Same s s' → σ.Inner s → c s = c s')
    (yes : c s = true → σ.CarriesAt needs gives p s) (no : c s = false → σ.CarriesAt needs gives q s) :
    σ.CarriesAt needs gives (fun s => if c s then p s else q s) s := by
  cases chosen : c s with
  | true => exact (yes chosen).congr (if_pos chosen) fun s' same inner => if_pos (seen s' same inner ▸ chosen)
  | false =>
    refine (no chosen).congr (if_neg ?_) fun s' same inner => if_neg ?_
    · rw [chosen]
      exact Bool.false_ne_true
    · rw [← seen s' same inner, chosen]
      exact Bool.false_ne_true

end CarriesAt

/-! ## Steps of a draft -/

namespace StepAt

/-- Where there is an error nothing is claimed. -/
theorem of_dirty (less : (g d).state.rest.length ≤ d.state.rest.length) (wrong : (g d).isClean = false) :
    σ.StepAt needs gives g d where
  less := less
  back := fun clean => by rw [wrong] at clean; cases clean
  enters := fun clean => by rw [wrong] at clean; cases clean
  same := fun clean => by rw [wrong] at clean; cases clean

theorem mono (step : σ.StepAt needs gives g d) (need : stronger → needs) (give : stronger → gives → weaker) :
    σ.StepAt stronger weaker g d where
  less := step.less
  back := step.back
  enters := fun clean stands => step.enters clean (stands.mono need)
  same := fun clean stands d' grows => by
    obtain ⟨grown, known⟩ := step.same clean (stands.mono need) d' grows
    refine ⟨grown, ?_⟩
    rcases stands with further | ⟨here, needed⟩
    · exact .inl further
    · exact known.imp_right fun known => ⟨known.1, give needed known.2⟩

/-- In front of the place nothing is needed. -/
theorem inside (step : σ.StepAt False gives g d) : σ.StepAt False False g d := step.mono id fun never _ => never

/-- A step that is another one where it starts. -/
theorem congr (step : σ.StepAt needs gives g d) (here : h d = g d)
    (there : ∀ d', σ.Grows d d' → σ.Inner d.state → h d' = g d') : σ.StepAt needs gives h d where
  less := here ▸ step.less
  back := here ▸ step.back
  enters := here ▸ step.enters
  same := fun clean stands d' grows => by
    rw [here] at clean stands ⊢
    rw [there d' grows (step.enters clean stands)]
    exact step.same clean stands d' grows

theorem ite {c : Draft → Bool} (seen : ∀ d', σ.Grows d d' → σ.Inner d.state → c d = c d')
    (yes : c d = true → σ.StepAt needs gives g d) (no : c d = false → σ.StepAt needs gives h d) :
    σ.StepAt needs gives (fun d => if c d then g d else h d) d := by
  cases chosen : c d with
  | true => exact (yes chosen).congr (if_pos chosen) fun d' grows inner => if_pos (seen d' grows inner ▸ chosen)
  | false =>
    refine (no chosen).congr (if_neg ?_) fun d' grows inner => if_neg ?_
    · rw [chosen]
      exact Bool.false_ne_true
    · rw [← seen d' grows inner, chosen]
      exact Bool.false_ne_true

theorem here : σ.StepAt False False (fun d => d) d where
  less := Nat.le_refl _
  back := id
  enters := fun _ stands => stands.inner
  same := fun _ stands _ grows => ⟨grows, stands⟩

/-- One step behind another. The place is not reached before the last one. -/
theorem andThen (first : σ.StepAt False False g d) (second : σ.StepAt needs gives h (g d)) :
    σ.StepAt needs gives (fun d => h (g d)) d where
  less := Nat.le_trans second.less first.less
  back := fun clean => first.back (second.back clean)
  enters := fun clean stands => first.enters (second.back clean) (second.enters clean stands).stands
  same := fun clean stands d' grows =>
    second.same clean stands _ (first.same (second.back clean) (second.enters clean stands).stands d' grows).1

theorem place (role : Option Role) (carries : σ.CarriesAt needs gives p d.state) :
    σ.StepAt needs gives (·.place role p) d := by
  have rest : (d.place role p).state.rest = (p d.state).2.rest := by rw [Draft.place_eq, Draft.rest_attach]
  have stands (known : Prop) : σ.Stands known (d.place role p).state ↔ σ.Stands known (p d.state).2 := by
    rw [Stands, Stands, Inner, Inner, rest]
  constructor
  · rw [rest]
    exact carries.less
  · exact fun clean => (clean_of_attach (d := ⟨d.tree, _⟩) clean).1
  · exact fun clean reached => carries.enters (clean_of_attach (d := ⟨d.tree, _⟩) clean).2 ((stands _).mp reached)
  · intro clean reached d' grows
    obtain ⟨pair, known⟩ :=
      carries.same (clean_of_attach (d := ⟨d.tree, _⟩) clean).2 ((stands _).mp reached) d'.state grows.state
    exact ⟨pair.attach grows.tree grows.significant role, (stands _).mpr known⟩

/-- A placeholder is an error. -/
theorem lacking (role : Option Role) (leaf : NodeKind) : σ.StepAt needs gives (·.lacking role leaf) d :=
  place role (.placeholder leaf)

theorem takeAs (role : Option Role) {leaf : NodeKind} (other : leaf ≠ .comment) :
    σ.StepAt needs (needs ∧ σ.final = d.state.peek.kind) (·.takeAs role leaf) d :=
  place role (.leafOf other)

theorem take (role : Option Role) : σ.StepAt needs (needs ∧ σ.final = d.state.peek.kind) (·.take role) d := by
  refine (takeAs role (leafKind_ne d.state.peek.kind)).congr rfl fun d' grows inner => ?_
  rw [Draft.take, grows.state.kind inner]

/-- A token that is no brace or semicolon is not the one in front of the place. -/
theorem takeOther (role : Option Role) (other : d.state.peek.kind.isFence = false) :
    σ.StepAt needs False (·.take role) d :=
  (take role).mono id fun _ known => by
    have fence := σ.fence
    rw [known.2, other] at fence
    cases fence

/-- Steps of a tree around the one so far. -/
theorem wrapped (kind : NodeKind) (other : kind ≠ .comment) (role : Option Role)
    (step : ∀ d, σ.StepAt needs gives g d) :
    σ.StepAt needs gives (fun d => g ((Draft.opened kind d.state).attach role d.tree)) d := by
  have rest : ((Draft.opened kind d.state).attach role d.tree).state.rest = d.state.rest := Draft.rest_attach ..
  have around := step ((Draft.opened kind d.state).attach role d.tree)
  refine ⟨rest ▸ around.less, fun clean => ?_, fun clean stands => ?_, fun clean stands d' grows => ?_⟩
  · rw [Draft.isClean, (clean_of_attach (around.back clean)).2]
    rfl
  · have inner := around.enters clean stands
    rwa [Inner, rest] at inner
  · exact around.same clean stands _
      (grows.pair.attach (grows.state.opened other).tree (beq_eq_false_iff_ne.mpr other) role)

theorem isAt (grows : σ.Grows d d') (inner : σ.Inner d.state) (wanted : TokenKind) : d.isAt wanted = d'.isAt wanted :=
  grows.state.isAt inner wanted

theorem takeName (role : Option Role) : σ.StepAt needs False (·.takeName role) d := by
  refine ite (fun d' grows inner => isAt grows inner .identifier) (fun found => ?_) fun _ => lacking role .identifier
  have kind : d.state.peek.kind = .identifier := beq_iff_eq.mp found
  refine (takeAs role NodeKind.noConfusion).mono id fun _ known => ?_
  have fence := σ.fence
  rw [known.2, kind] at fence
  cases fence

end StepAt

theorem isClean_of_tree (clean : d.tree.hasError = false) : d.isClean = true := by
  rw [Draft.isClean, clean]
  rfl

namespace CarriesAt

/-- The production of one kind of tree. -/
theorem branch (other : kind ≠ .comment) (step : σ.StepAt needs gives g (Draft.opened kind s)) :
    σ.CarriesAt needs gives (branch kind g) s where
  less := step.less
  enters := fun clean => step.enters (isClean_of_tree clean)
  same := fun clean stands s' same => by
    obtain ⟨grown, known⟩ := step.same (isClean_of_tree clean) stands _ (same.opened other)
    exact ⟨grown.pair, known⟩

theorem stray (s : State) : σ.CarriesAt False False stray s :=
  branch NodeKind.noConfusion
    (.ite (fun _ grows inner => grows.state.isAt inner .endOfInput) (fun _ => .here)
      fun _ => (StepAt.take none).inside)

end CarriesAt

namespace StepAt

/-- A token that is asked for. -/
theorem expect (wanted : TokenKind) : σ.StepAt needs (needs ∧ σ.final = wanted) (·.expect wanted) d := by
  by_cases found : d.isAt wanted = true
  · have kind : d.state.peek.kind = wanted := beq_iff_eq.mp found
    have taken : σ.StepAt needs (needs ∧ σ.final = wanted) (·.take) d := kind ▸ take none
    refine taken.congr ?_ fun d' grows inner => ?_
    · show d.expect wanted = d.take
      rw [Draft.expect, if_pos found]
    · show d'.expect wanted = d'.take
      rw [Draft.expect, if_pos (isAt grows inner wanted ▸ found)]
  · -- Something else stands there: a stray token or a placeholder.
    have missing : σ.StepAt False False (·.lacking none (.token wanted)) d := lacking none _
    have passed : σ.StepAt False False (fun d => (d.place none stray).take) d :=
      (place none (.stray d.state)).andThen (take none).inside
    have absent : ¬d.isAt wanted = true := found
    refine of_dirty ?_ (dirty_expect found)
    rw [Draft.expect, if_neg absent]
    split
    · exact passed.less
    · exact missing.less

end StepAt

/-! ## Loops -/

variable (σ) in
/-- A turn that makes the same of drafts that grow in the same way, and goes on or not alike. The place may have been
reached in front of it, and something is known then. -/
structure TurnAt (held needs gives : Prop) (turn : Draft → Turn Draft) (d : Draft) : Prop where
  less : (turn d).value.state.rest.length ≤ d.state.rest.length
  back : (turn d).value.isClean = true → d.isClean = true
  same : (turn d).value.isClean = true → σ.Stands needs (turn d).value.state → σ.Stands held d.state →
    ∀ d', σ.Grows d d' → σ.Grows (turn d).value (turn d').value ∧ (turn d).goesOn = (turn d').goesOn ∧
      σ.Stands gives (turn d).value.state

variable {turn other : Draft → Turn Draft} {held between : Prop}

namespace TurnAt

/-- A loop goes on as long as its turns do. The induction is on the tokens ahead. -/
theorem loop (turns : ∀ d, σ.TurnAt held needs held turn d) (d : Draft) :
    σ.TurnAt held needs held (fun d => .done (d.loop turn)) d := by
  induction length : d.state.rest.length using Nat.strongRecOn generalizing d with
  | ind n ih =>
    have first := turns d
    by_cases goes : ((turn d).goesOn && decide ((turn d).value.state.rest.length < d.state.rest.length)) = true
    · have later := ih _ (by simp only [Bool.and_eq_true, decide_eq_true_eq] at goes; omega) (turn d).value rfl
      have here : d.loop turn = (turn d).value.loop turn := by rw [loop_eq, if_pos goes]
      refine ⟨?_, ?_, ?_⟩
      all_goals
        dsimp only [Turn.value]
        rw [here]
      · exact Nat.le_trans later.less first.less
      · exact fun clean => first.back (later.back clean)
      · intro clean stands known d' grows
        obtain ⟨grown, goesOn, known⟩ :=
          first.same (later.back clean) (stands.earlier later.less) known d' grows
        have length := grows.state.length
        have length' := grown.state.length
        simp only [Bool.and_eq_true, decide_eq_true_eq] at goes
        rw [loop_eq turn d', if_pos (by rw [← goesOn, goes.1, Bool.true_and, decide_eq_true_eq]; omega)]
        exact later.same clean stands known _ grown
    · have here : d.loop turn = (turn d).value := by rw [loop_eq, if_neg goes]
      refine ⟨?_, ?_, ?_⟩
      all_goals
        dsimp only [Turn.value]
        rw [here]
      · exact first.less
      · exact first.back
      · intro clean stands known d' grows
        obtain ⟨grown, goesOn, known⟩ := first.same clean stands known d' grows
        have length := grows.state.length
        have length' := grown.state.length
        rw [loop_eq turn d', if_neg (fun goes' => goes ?_)]
        · exact ⟨grown, rfl, known⟩
        · simp only [Bool.and_eq_true, decide_eq_true_eq] at goes' ⊢
          exact ⟨goesOn ▸ goes'.1, by omega⟩

theorem again (step : σ.StepAt needs gives g d) : σ.TurnAt held needs gives (fun d => .again (g d)) d where
  less := step.less
  back := step.back
  same := fun clean stands _ d' grows => by
    obtain ⟨grown, known⟩ := step.same clean stands d' grows
    exact ⟨grown, rfl, known⟩

theorem done (step : σ.StepAt needs gives g d) : σ.TurnAt held needs gives (fun d => .done (g d)) d where
  less := step.less
  back := step.back
  same := fun clean stands _ d' grows => by
    obtain ⟨grown, known⟩ := step.same clean stands d' grows
    exact ⟨grown, rfl, known⟩

theorem stop (d : Draft) : σ.TurnAt held needs held .done d where
  less := Nat.le_refl _
  back := id
  same := fun _ _ known _ grows => ⟨grows, rfl, known⟩

/-- Less may be known behind it. -/
theorem weaken (turn' : σ.TurnAt held needs gives turn d) (give : gives → weaker) : σ.TurnAt held needs weaker turn d where
  less := turn'.less
  back := turn'.back
  same := fun clean stands known d' grows => by
    obtain ⟨grown, goesOn, known⟩ := turn'.same clean stands known d' grows
    exact ⟨grown, goesOn, known.mono give⟩

/-- A turn behind one that ends. -/
theorem behind (first : σ.TurnAt held needs between (fun d => .done (g d)) d)
    (turn' : σ.TurnAt between needs gives turn (g d)) : σ.TurnAt held needs gives (fun d => turn (g d)) d where
  less := Nat.le_trans turn'.less first.less
  back := fun clean => first.back (turn'.back clean)
  same := fun clean stands known d' grows => by
    obtain ⟨grown, -, known⟩ := first.same (turn'.back clean) (stands.earlier turn'.less) known d' grows
    exact turn'.same clean stands known _ grown

/-- A turn that is another one where it starts. -/
theorem congr (turn' : σ.TurnAt held needs gives turn d) (here : other d = turn d)
    (there : ∀ d', σ.Grows d d' → σ.Stands held d.state → other d' = turn d') : σ.TurnAt held needs gives other d where
  less := here ▸ turn'.less
  back := here ▸ turn'.back
  same := fun clean stands known d' grows => by
    rw [here] at clean stands ⊢
    rw [there d' grows known]
    exact turn'.same clean stands known d' grows

/-- A step in front of a turn that takes more tokens. -/
theorem behindInner (step : σ.StepAt False False g d) (turn' : σ.TurnAt False needs gives turn (g d))
    (enters : (turn (g d)).value.isClean = true → σ.Stands needs (turn (g d)).value.state → σ.Inner (g d).state) :
    σ.TurnAt False needs gives (fun d => turn (g d)) d where
  less := Nat.le_trans turn'.less step.less
  back := fun clean => step.back (turn'.back clean)
  same := fun clean stands _ d' grows => by
    obtain ⟨grown, inner⟩ := step.same (turn'.back clean) (enters clean stands).stands d' grows
    exact turn'.same clean stands inner _ grown

theorem ite {c : Draft → Bool} (seen : ∀ d', σ.Grows d d' → σ.Stands held d.state → c d = c d')
    (yes : c d = true → σ.TurnAt held needs gives turn d) (no : c d = false → σ.TurnAt held needs gives other d) :
    σ.TurnAt held needs gives (fun d => if c d then turn d else other d) d := by
  cases chosen : c d with
  | true => exact (yes chosen).congr (if_pos chosen) fun d' grows known => if_pos (seen d' grows known ▸ chosen)
  | false =>
    refine (no chosen).congr (if_neg ?_) fun d' grows known => if_neg ?_
    · rw [chosen]
      exact Bool.false_ne_true
    · rw [← seen d' grows known, chosen]
      exact Bool.false_ne_true

/-- A step that is left out where something is not seen. -/
theorem doneIf {c : Draft → Bool} (seen : ∀ d', σ.Grows d d' → σ.Stands held d.state → c d = c d')
    (yes : c d = true → σ.StepAt needs gives g d) (no : held → gives) :
    σ.TurnAt held needs gives (fun d => .done (if c d then g d else d)) d := by
  have choice : σ.TurnAt held needs gives (fun d => if c d then .done (g d) else .done d) d :=
    ite seen (fun chosen => .done (yes chosen)) fun _ => (stop d).weaken no
  exact choice.congr (apply_ite Turn.done ..) fun d' _ _ => apply_ite Turn.done ..

/-- A turn that depends on the next token. -/
theorem byKind {α : Type} (turns : α → Draft → Turn Draft) (c : TokenKind → α)
    (place : held → c (headKind σ.ahead) = c (headKind σ.ahead'))
    (turn' : σ.TurnAt held needs gives (turns (c d.state.peek.kind)) d) :
    σ.TurnAt held needs gives (fun d => turns (c d.state.peek.kind) d) d :=
  turn'.congr rfl fun _ grows known => by rw [grows.state.decides c known place]

end TurnAt

/-- What a loop leaves is not more than what its first turn leaves. -/
theorem less_loop (turns : ∀ d, σ.TurnAt held needs held turn d) (d : Draft) :
    (d.loop turn).state.rest.length ≤ (turn d).value.state.rest.length := by
  rw [loop_eq]
  split
  · exact (TurnAt.loop turns _).less
  · exact Nat.le_refl _

/-- A loop makes no error good. -/
theorem back_loop (turns : ∀ d, σ.TurnAt held needs held turn d) (d : Draft) (clean : (d.loop turn).isClean = true) :
    (turn d).value.isClean = true := by
  rw [loop_eq] at clean
  split at clean
  · exact (TurnAt.loop turns _).back clean
  · exact clean

/-- What follows a tree that is finished. -/
theorem CarriesAt.followed (first : σ.CarriesAt needs held p s)
    (turn' : σ.TurnAt held needs gives turn ⟨(p s).1, (p s).2⟩) :
    σ.CarriesAt needs gives
      (fun s => ((turn ⟨(p s).1, (p s).2⟩).value.tree, (turn ⟨(p s).1, (p s).2⟩).value.state)) s where
  less := Nat.le_trans turn'.less first.less
  enters := fun clean stands =>
    have clean' := (Bool.not_eq_true' _).mp (turn'.back (isClean_of_tree clean))
    first.enters clean' (stands.earlier turn'.less)
  same := fun clean stands s' same => by
    have clean' := (Bool.not_eq_true' _).mp (turn'.back (isClean_of_tree clean))
    obtain ⟨pair, known⟩ := first.same clean' (stands.earlier turn'.less) s' same
    obtain ⟨grown, -, known⟩ :=
      turn'.same (isClean_of_tree clean) stands known ⟨(p s').1, (p s').2⟩ ⟨pair.tree, pair.significant, pair.state⟩
    exact ⟨grown.pair, known⟩

/-- What follows a tree that is finished, if a token of a given kind is there. -/
theorem CarriesAt.followedAt (first : σ.CarriesAt needs held p s) (wanted : TokenKind)
    (place : held → (headKind σ.ahead == wanted) = (headKind σ.ahead' == wanted)) (step : ∀ d, σ.StepAt needs held g d) :
    σ.CarriesAt needs held (fun s => if (p s).2.isAt wanted then
      ((g ⟨(p s).1, (p s).2⟩).tree, (g ⟨(p s).1, (p s).2⟩).state) else p s) s := by
  have turn' : σ.TurnAt held needs held (fun d => if d.isAt wanted then .done (g d) else .done d) ⟨(p s).1, (p s).2⟩ :=
    .ite (fun _ grows known => grows.state.decides (· == wanted) known place) (fun _ => .done (step _)) fun _ => .stop _
  have same (s : State) : (if (p s).2.isAt wanted then
      ((g ⟨(p s).1, (p s).2⟩).tree, (g ⟨(p s).1, (p s).2⟩).state) else p s) =
        let turn : Turn Draft :=
          if (p s).2.isAt wanted then .done (g ⟨(p s).1, (p s).2⟩) else .done ⟨(p s).1, (p s).2⟩
        (turn.value.tree, turn.value.state) := by
    split <;> rfl
  exact (first.followed turn').congr (same s) fun s' _ _ => same s'

/-- A step that may stay at the place which the one in front of it has reached. -/
theorem StepAt.andStay (first : σ.StepAt needs held g d) (second : σ.TurnAt held needs gives (fun d => .done (h d)) (g d)) :
    σ.StepAt needs gives (fun d => h (g d)) d where
  less := Nat.le_trans second.less first.less
  back := fun clean => first.back (second.back clean)
  enters := fun clean stands => first.enters (second.back clean) (stands.earlier second.less)
  same := fun clean stands d' grows => by
    obtain ⟨grown, known⟩ := first.same (second.back clean) (stands.earlier second.less) d' grows
    obtain ⟨grown, -, known⟩ := second.same clean stands known _ grown
    exact ⟨grown, known⟩

/-- A loop in front of the place, of which the first turn takes something. -/
theorem StepAt.loop (turns : ∀ d, σ.TurnAt False needs False turn d)
    (enters : (turn d).value.isClean = true → σ.Stands needs (turn d).value.state → σ.Inner d.state) :
    σ.StepAt needs False (·.loop turn) d := by
  have loop := TurnAt.loop turns d
  have first : (d.loop turn).isClean = true → σ.Stands needs (d.loop turn).state → σ.Inner d.state :=
    fun clean stands => enters (back_loop turns d clean) (stands.earlier (less_loop turns d))
  refine ⟨loop.less, loop.back, first, fun clean stands d' grows => ?_⟩
  obtain ⟨grown, -, known⟩ := loop.same clean stands (.inl (first clean stands)) d' grows
  exact ⟨grown, known⟩

/-- A loop that something else follows. -/
theorem StepAt.loopInside (turns : ∀ d, σ.TurnAt False False False turn d) (d : Draft) :
    σ.StepAt False False (·.loop turn) d :=
  .loop turns fun _ stands => (stands.earlier (turns d).less).inner

end Parting

end Parser

end SecurityRules
