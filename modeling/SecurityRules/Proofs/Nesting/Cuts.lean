import SecurityRules.Proofs.ParseTree.Nodes
import SecurityRules.Proofs.Parser.Lossless

/-!
# How deep a tree nests and where a cut ends

The parser counts the match bodies, the expressions and the prefix operators around the place where it reads. A
visit is a tree inside another one together with that count.

At the limit the parser gathers the rest of an expression without reading it: up to the first token outside
brackets that can never go on an expression. Whether that is the end of the expression is a question about its
tokens alone.
-/

namespace SecurityRules

/-- The kinds that are counted wherever they stand. -/
def NodeKind.deepens : NodeKind → Bool
  | .unary | .matchBody => true
  | _ => false

/-- The statements of a document: rules, functions and what stands in a function. -/
def NodeKind.isStatementItem : NodeKind → Bool
  | .ruleDef | .variableDef | .returnStatement | .functionDef => true
  | _ => false

namespace ParseTree

/-- Whether a child is a whole expression in a tree of a kind, as against an operand of one: it is counted then. -/
def isWholeIn (parent : NodeKind) (c : ParseTree) : Bool :=
  match c.role with
  | some .value | some .consequence | some .alternative | some .expression | some .element | some .key
  | some .start | some .stop => true
  | some .condition => parent == .ruleDef
  | some .index => c.kind != .range
  | none => parent == .argumentList && c.isNamed && !c.isExtra
  | _ => false

end ParseTree

/-- A tree with the number of levels counted in front of it. -/
structure Visit where
  tree : ParseTree
  before : Nat
  /-- Whether the tree is a whole expression. -/
  isWhole : Bool
  /-- Where the innermost whole expression around or at the tree ends. -/
  stop : Nat

namespace Visit

/-- The visit of a tree inside an expression that ends at `stop`. -/
def of (level : Nat) (isWhole : Bool) (stop : Nat) (t : ParseTree) : Visit :=
  ⟨t, level, isWhole, if isWhole then t.stop else stop⟩

/-- The number of levels inside the tree. -/
def within (v : Visit) : Nat := v.before + v.isWhole.toNat + v.tree.kind.deepens.toNat

end Visit

namespace ParseTree

mutual

/-- The visits of a tree and of everything below it. -/
def visits (level : Nat) (isWhole : Bool) (stop : Nat) : ParseTree → List Visit
  | node kind isMissing role extent children =>
    let v := Visit.of level isWhole stop (node kind isMissing role extent children)
    v :: visitsAll kind v.within v.stop children

/-- The visits of the children of a tree of a kind and of everything below them. -/
def visitsAll (parent : NodeKind) (level : Nat) (stop : Nat) : List ParseTree → List Visit
  | [] => []
  | c :: rest => visits level (c.isWholeIn parent) stop c ++ visitsAll parent level stop rest

end

variable {t : ParseTree} {level stop : Nat} {isWhole : Bool} {parent : NodeKind}

theorem visits_eq (level : Nat) (isWhole : Bool) (stop : Nat) (t : ParseTree) :
    t.visits level isWhole stop = Visit.of level isWhole stop t ::
      visitsAll t.kind (Visit.of level isWhole stop t).within (Visit.of level isWhole stop t).stop t.children := by
  cases t
  rfl

theorem mem_visitsAll {cs : List ParseTree} {v : Visit} :
    v ∈ visitsAll parent level stop cs ↔ ∃ c ∈ cs, v ∈ c.visits level (c.isWholeIn parent) stop := by
  induction cs with
  | nil => simp [visitsAll]
  | cons c rest ih => simp [visitsAll, ih]

theorem mem_visits {v : Visit} : v ∈ t.visits level isWhole stop ↔ v = Visit.of level isWhole stop t ∨
    ∃ c ∈ t.children, v ∈ c.visits (Visit.of level isWhole stop t).within (c.isWholeIn t.kind)
      (Visit.of level isWhole stop t).stop := by
  rw [visits_eq, List.mem_cons, mem_visitsAll]

theorem of_mem_visits (level : Nat) (isWhole : Bool) (stop : Nat) (t : ParseTree) :
    Visit.of level isWhole stop t ∈ t.visits level isWhole stop := mem_visits.mpr (Or.inl rfl)

theorem visitsAll_append {cs ds : List ParseTree} : visitsAll parent level stop (cs ++ ds) =
    visitsAll parent level stop cs ++ visitsAll parent level stop ds := by
  induction cs with
  | nil => rfl
  | cons c rest ih => rw [List.cons_append, visitsAll, visitsAll, ih, List.append_assoc]

/-- The count never falls on the way down. -/
theorem le_within_of_mem_visits {v : Visit} (member : v ∈ t.visits level isWhole stop) :
    (Visit.of level isWhole stop t).within ≤ v.within := by
  induction t using induct generalizing level isWhole stop with
  | step t ih =>
    rcases mem_visits.mp member with rfl | ⟨c, child, below⟩
    · exact Nat.le_refl _
    · refine Nat.le_trans ?_ (ih c child below)
      exact Nat.le_trans (Nat.le_add_right _ _) (Nat.le_add_right _ _)

/-- What is visited are the nodes of the tree. -/
theorem tree_mem_nodes_of_mem_visits {v : Visit} (member : v ∈ t.visits level isWhole stop) : v.tree ∈ t.nodes := by
  induction t using induct generalizing level isWhole stop with
  | step t ih =>
    rcases mem_visits.mp member with rfl | ⟨c, child, below⟩
    · exact t.self_mem_nodes
    · exact mem_nodes.mpr (Or.inr ⟨c, child, ih c child below⟩)

end ParseTree

/-! ## Trees within a limit -/

/-- Whether the count stays within a limit in all of these visits. -/
def Shallow (limit : Nat) (vs : List Visit) : Prop := ∀ v ∈ vs, v.within ≤ limit

instance (limit : Nat) (vs : List Visit) : Decidable (Shallow limit vs) :=
  inferInstanceAs (Decidable (∀ v ∈ vs, v.within ≤ limit))

namespace Shallow

variable {limit level stop : Nat} {isWhole : Bool} {parent : NodeKind} {t : ParseTree} {vs ws : List Visit}

theorem append_iff : Shallow limit (vs ++ ws) ↔ Shallow limit vs ∧ Shallow limit ws := List.forall_mem_append

theorem visits_iff : Shallow limit (t.visits level isWhole stop) ↔
    (Visit.of level isWhole stop t).within ≤ limit ∧
      Shallow limit (ParseTree.visitsAll t.kind (Visit.of level isWhole stop t).within
        (Visit.of level isWhole stop t).stop t.children) := by
  rw [Shallow, ParseTree.visits_eq, List.forall_mem_cons]
  rfl

/-- The role of a tree does not matter for what is counted in it. -/
theorem inRole_iff {role : Option Role} : Shallow limit ((t.inRole role).visits level isWhole stop) ↔
    Shallow limit (t.visits level isWhole stop) := by
  rw [visits_iff, visits_iff]
  simp [Visit.of, Visit.within]

/-- Inside a whole expression the count goes on from the level of the expression. -/
theorem enter_iff : Shallow limit (t.visits level true stop) ↔
    Shallow limit (t.visits (level + 1) false t.stop) := by
  rw [visits_iff, visits_iff]
  simp [Visit.of, Visit.within]

end Shallow

/-! ## Cuts -/

/-- The number of open brackets behind a token. -/
def Parser.bracketDepth (depth : Nat) : TokenKind → Nat
  | .leftParen | .leftBracket | .leftBrace => depth + 1
  | .rightParen | .rightBracket | .rightBrace => depth - 1
  | _ => depth

/-- The tokens from the first one outside brackets on that can never go on an expression. -/
def Parser.pastExpression : Nat → List Token → List Token
  | _, [] => []
  | depth, t :: rest =>
    if depth == 0 && isExpressionStop t.kind then t :: rest else pastExpression (bracketDepth depth t.kind) rest

/-- The significant tokens from an offset on. -/
def SourceFile.significantFrom (f : SourceFile) (offset : Nat) : List Token :=
  f.tokens.filter fun t => !t.kind.isComment && decide (offset ≤ t.start)

/-- Whether the expression around a tree, from the tree on, ends at the first token outside brackets that can never
go on an expression. A conditional expression has a colon in it, and the name behind a dot may be a reserved word:
there that token comes too early. -/
def Visit.EndsAtStop (f : SourceFile) (v : Visit) : Prop :=
  Parser.pastExpression 0 (f.significantFrom v.tree.start) = f.significantFrom v.stop

instance (f : SourceFile) (v : Visit) : Decidable (v.EndsAtStop f) :=
  inferInstanceAs (Decidable (_ = _))

/-- Whether a visit goes past the limit on the way into an expression. -/
def Visit.IsCut (limit : Nat) (v : Visit) : Prop :=
  v.before ≤ limit ∧ limit < v.within ∧ v.tree.kind ≠ .matchBody

instance (limit : Nat) (v : Visit) : Decidable (v.IsCut limit) :=
  inferInstanceAs (Decidable (_ ∧ _ ∧ _))

/-- Whether all expressions that go past a limit end where the parser takes them to end. -/
def CutsWell (f : SourceFile) (limit : Nat) (vs : List Visit) : Prop :=
  ∀ v ∈ vs, v.IsCut limit → v.EndsAtStop f

instance (f : SourceFile) (limit : Nat) (vs : List Visit) : Decidable (CutsWell f limit vs) :=
  inferInstanceAs (Decidable (∀ v ∈ vs, v.IsCut limit → v.EndsAtStop f))

namespace CutsWell

variable {f : SourceFile} {limit level stop : Nat} {isWhole : Bool} {t : ParseTree} {vs ws : List Visit}

theorem append_iff : CutsWell f limit (vs ++ ws) ↔ CutsWell f limit vs ∧ CutsWell f limit ws :=
  List.forall_mem_append

theorem visits_iff : CutsWell f limit (t.visits level isWhole stop) ↔
    ((Visit.of level isWhole stop t).IsCut limit → (Visit.of level isWhole stop t).EndsAtStop f) ∧
      CutsWell f limit (ParseTree.visitsAll t.kind (Visit.of level isWhole stop t).within
        (Visit.of level isWhole stop t).stop t.children) := by
  rw [CutsWell, ParseTree.visits_eq, List.forall_mem_cons]
  rfl

theorem inRole_iff {role : Option Role} : CutsWell f limit ((t.inRole role).visits level isWhole stop) ↔
    CutsWell f limit (t.visits level isWhole stop) := by
  rw [visits_iff, visits_iff]
  simp [Visit.of, Visit.within, Visit.IsCut, Visit.EndsAtStop]

/-- The parts of a whole expression end well if the expression does. -/
theorem enter (cuts : CutsWell f limit (t.visits level true stop)) :
    CutsWell f limit (t.visits (level + 1) false t.stop) := by
  rw [visits_iff] at cuts ⊢
  have within : (Visit.of (level + 1) false t.stop t).within = (Visit.of level true stop t).within := by
    simp [Visit.of, Visit.within]
  refine ⟨fun isCut => cuts.1 ⟨?_, ?_, isCut.2.2⟩, ?_⟩
  · exact Nat.le_of_succ_le isCut.1
  · rw [← within]
    exact isCut.2.1
  · rw [within]
    exact cuts.2

end CutsWell

namespace Parser

variable {f : SourceFile} {s : State}

/-! ## What gathering leaves -/

theorem Draft.rest_take (d : Draft) (role : Option Role) : (d.take role).state.rest = d.state.rest.drop 1 := by
  rw [Draft.take, Draft.takeAs, Draft.place_eq, Draft.rest_attach]
  exact rest_advance d.state

theorem Draft.lastStop_attach (d : Draft) (role : Option Role) (c : ParseTree) :
    (d.attach role c).state.lastStop = d.state.lastStop := by
  rw [Draft.attach]
  split <;> rfl

theorem Draft.lastStop_take (d : Draft) (role : Option Role) :
    (d.take role).state.lastStop = d.state.advance.lastStop := by
  rw [Draft.take, Draft.takeAs, Draft.place_eq, Draft.lastStop_attach]
  rfl

theorem Draft.take_shorter {d : Draft} (ahead : d.state.rest ≠ []) (role : Option Role) :
    (d.take role).state.rest.length < d.state.rest.length := by
  have some := List.length_pos_of_ne_nil ahead
  rw [d.rest_take, List.length_drop]
  omega

/-- Turns that take tokens until one of them ends leave what a scan of the tokens leaves. -/
theorem rest_iterate (past : Nat → List Token → List Token) {turn : Nested → Turn Nested} {P : Nested → Prop}
    (step : ∀ n, P n → (turn n = .done n ∧ past n.depth n.draft.state.rest = n.draft.state.rest) ∨
      ∃ depth, turn n = .again ⟨depth, n.draft.take⟩ ∧ n.draft.state.rest ≠ [] ∧ P ⟨depth, n.draft.take⟩ ∧
        past n.depth n.draft.state.rest = past depth (n.draft.state.rest.drop 1))
    {n : Nested} (holds : P n) :
    (iterate (·.draft.state) turn n).draft.state.rest = past n.depth n.draft.state.rest := by
  fun_induction iterate (fun n : Nested => n.draft.state) turn n with
  | case1 n next found =>
    rcases step n holds with ⟨done, same⟩ | ⟨depth, again, _⟩
    · rw [found] at done
      rw [Turn.done.inj done, same]
    · rw [found] at again
      cases again
  | case2 n next found shorter ih =>
    rcases step n holds with ⟨done, _⟩ | ⟨depth, again, _, kept, same⟩
    · rw [found] at done
      cases done
    · rw [found] at again
      obtain rfl := Turn.again.inj again
      rw [ih kept, same, Draft.rest_take]
  | case3 n next found longer =>
    rcases step n holds with ⟨done, _⟩ | ⟨depth, again, ahead, _⟩
    · rw [found] at done
      cases done
    · rw [found] at again
      obtain rfl := Turn.again.inj again
      exact absurd (Draft.take_shorter ahead none) longer

theorem state_toError (n : Nested) : n.toError.2 = n.draft.state := by
  rw [Nested.toError]
  split <;> rfl

theorem Draft.isAt_end {d : Draft} (ended : d.state.rest = []) : d.isAt .endOfInput = true := by
  rw [Draft.isAt, State.isAt, State.peek_of_end ended]
  rfl

theorem Draft.not_isAt_end {d : Draft} (place : State.At f d.state) (ahead : d.state.rest ≠ []) :
    d.isAt .endOfInput = false :=
  beq_eq_false_iff_ne.mpr (place.peek_kind ahead)

theorem rest_collapse (place : State.At f s) : (collapse s).2.rest = pastExpression 0 s.rest := by
  rw [collapse, state_toError]
  refine rest_iterate pastExpression (P := fun n => Growing f .error s 0 n.draft) ?_
    (.bare place NodeKind.noConfusion (Nat.zero_le _))
  intro n growing
  have place := growing.place_state
  rw [collapseTurn]
  cases ahead : n.draft.state.rest with
  | nil =>
    dsimp only
    rw [if_pos (Draft.isAt_end ahead)]
    exact Or.inl ⟨rfl, rfl⟩
  | cons t rest =>
    have nonempty : n.draft.state.rest ≠ [] := by
      rw [ahead]
      exact List.cons_ne_nil t rest
    have going := Draft.not_isAt_end place nonempty
    rw [State.peek_of_rest ahead]
    simp only [going, Bool.false_eq_true, ↓reduceIte]
    split
    · rename_i stops
      left
      refine ⟨rfl, ?_⟩
      rw [pastExpression, if_pos stops]
    · rename_i more
      right
      refine ⟨_, rfl, List.cons_ne_nil t rest, .grown (growing.take_keeps none nonempty), ?_⟩
      rw [pastExpression, if_neg more]
      rfl

/-- The scan ends in front of a token that can never go on an expression, or at the end. -/
theorem pastExpression_stops (depth : Nat) (ts : List Token) :
    ∀ t ∈ (pastExpression depth ts).head?, isExpressionStop t.kind = true := by
  induction ts generalizing depth with
  | nil =>
    intro t head
    rw [pastExpression] at head
    cases head
  | cons u rest ih =>
    rw [pastExpression]
    split
    · rename_i stops
      intro t head
      rw [← Option.some.inj head]
      exact (Bool.and_eq_true_iff.mp stops).2
    · exact ih _

theorem stops_collapse (place : State.At f s) : isExpressionStop (collapse s).2.peek.kind = true := by
  have stops := pastExpression_stops 0 s.rest
  rw [← rest_collapse place] at stops
  rw [State.peek]
  cases ahead : (collapse s).2.rest with
  | nil => rfl
  | cons t rest => exact stops t (by rw [ahead]; rfl)

/-! ## Behind which token the parser stands -/

/-- Whether the last token taken is a token of the file. -/
def State.IsBehindToken (f : SourceFile) (s : State) : Prop :=
  ∃ t ∈ f.tokens, t.kind.isComment = false ∧ t.stop = s.lastStop

theorem State.At.isBehindToken_advance (place : State.At f s) (ahead : s.rest ≠ []) :
    s.advance.IsBehindToken f := by
  obtain ⟨t, rest, split⟩ := List.exists_cons_of_ne_nil ahead
  obtain ⟨member, significant, _⟩ := place.mem_rest (by rw [split]; exact List.mem_cons_self ..)
  exact ⟨t, member, significant, (place.advance split).2.1.symm⟩

/-- Of two states with the same tokens ahead, none stands further on than the other. -/
theorem State.At.lastStop_le {s' : State} (place : State.At f s) (place' : State.At f s')
    (behind' : s'.IsBehindToken f) (behind : s.IsBehindToken f) (rest : s'.rest = s.rest) :
    s'.lastStop ≤ s.lastStop := by
  obtain ⟨t, member, _, stop⟩ := behind
  obtain ⟨t', member', significant', stop'⟩ := behind'
  have filled := f.laid_tokens.filled t' member'
  have taken : t' ∉ s.rest := by
    rw [← rest]
    intro ahead
    have := (place'.mem_rest ahead).2.2
    omega
  have early : t'.start < s.lastStop := by
    rw [place.rest, List.mem_filter] at taken
    simp only [member', significant', Bool.not_false, Bool.true_and, decide_eq_true_eq, true_and] at taken
    omega
  rcases Nat.lt_trichotomy t.start t'.start with less | same | more
  · have := f.laid_tokens.stop_le_of_start_lt member member' less
    omega
  · have same : t' ∈ f.tokensIn t.start t.stop := (f.mem_tokensIn).mpr ⟨member', by omega, by omega⟩
    rw [f.tokensIn_token member, List.mem_singleton] at same
    rw [← stop', ← stop, same]
  · have := f.laid_tokens.stop_le_of_start_lt member' member more
    have := f.laid_tokens.filled t member
    omega

theorem State.At.lastStop_eq {s' : State} (place : State.At f s) (place' : State.At f s')
    (behind : s.IsBehindToken f) (behind' : s'.IsBehindToken f) (rest : s'.rest = s.rest) :
    s'.lastStop = s.lastStop :=
  Nat.le_antisymm (place.lastStop_le place' behind' behind rest) (place'.lastStop_le place behind behind' rest.symm)

/-- Gathering tokens one by one ends behind one of them, or takes none. -/
theorem gathered {turn : Nested → Turn Nested} (place : State.At f s)
    (takes : ∀ n, (turn n).value.draft = n.draft ∨
      n.draft.state.rest ≠ [] ∧ (turn n).value.draft = n.draft.take) :
    let s' := (iterate (·.draft.state) turn ⟨0, Draft.opened .error s⟩).toError.2
    s'.rest = s.rest ∨ s'.IsBehindToken f := by
  dsimp only
  rw [state_toError]
  have kept : ∀ n : Nested, Growing f .error s 0 n.draft ∧
      (n.draft.state.rest = s.rest ∨ n.draft.state.IsBehindToken f) →
      Growing f .error s 0 (turn n).value.draft ∧
        ((turn n).value.draft.state.rest = s.rest ∨ (turn n).value.draft.state.IsBehindToken f) := by
    rintro n ⟨growing, holds⟩
    rcases takes n with same | ⟨ahead, taken⟩
    · rw [same]
      exact ⟨growing, holds⟩
    · rw [taken]
      refine ⟨.grown (growing.take_keeps none ahead), Or.inr ?_⟩
      rw [State.IsBehindToken, Draft.lastStop_take]
      exact growing.place_state.isBehindToken_advance ahead
  exact (iterate_keeps (P := fun n : Nested => Growing f .error s 0 n.draft ∧
    (n.draft.state.rest = s.rest ∨ n.draft.state.IsBehindToken f))
    ⟨.bare place NodeKind.noConfusion (Nat.zero_le _), Or.inl rfl⟩ kept).2

/-- A turn of a collapse takes the next token or nothing. -/
theorem draft_collapseTurn (n : Nested) : (collapseTurn n).value.draft = n.draft ∨
    n.draft.state.rest ≠ [] ∧ (collapseTurn n).value.draft = n.draft.take := by
  rw [collapseTurn]
  split
  · exact Or.inl rfl
  · rename_i there
    split
    · exact Or.inl rfl
    · exact Or.inr ⟨rest_of_not_end there, rfl⟩

theorem gathered_collapse (place : State.At f s) :
    (collapse s).2.rest = s.rest ∨ (collapse s).2.IsBehindToken f := gathered place draft_collapseTurn

theorem gathered_skipUntil (stop : TokenKind → Bool) (place : State.At f s) :
    (skipUntil stop s).2.rest = s.rest ∨ (skipUntil stop s).2.IsBehindToken f := gathered place (draft_skipTurn stop)

/-! ## Where trees without errors end -/

/-- The last leaf of a sound tree ends where the tree ends, and is no comment. -/
theorem exists_last_leaf {t : ParseTree} (sound : ∀ n ∈ t.nodes, n.Sound f) (significant : t.isExtra = false) :
    ∃ leaf ∈ t.leaves, leaf.stop = t.stop ∧ leaf.isExtra = false := by
  induction t using ParseTree.induct with
  | step t ih =>
    by_cases childless : t.children = []
    · rw [ParseTree.leaves_of_childless childless]
      exact ⟨t, List.mem_singleton_self t, rfl, significant⟩
    · have self := sound t t.self_mem_nodes
      obtain ⟨front, c, split⟩ := List.eq_nil_or_concat t.children |>.resolve_left childless
      have child : c ∈ t.children := by simp [split]
      have last : c.isExtra = false := self.last c (by simp [split])
      obtain ⟨leaf, inside, stop, plain⟩ := ih c child
        (fun n below => sound n (ParseTree.mem_nodes.mpr (Or.inr ⟨c, child, below⟩))) last
      refine ⟨leaf, ?_, ?_, plain⟩
      · rw [ParseTree.leaves_of_children childless, List.mem_flatMap]
        exact ⟨c, child, inside⟩
      · rw [stop, ParseTree.stop, ParseTree.stop, self.whole childless, split, List.concat_eq_append,
          ParseTree.extentOf_stop_concat]
        rfl

/-- A tree without errors ends with a token. -/
theorem Reading.exists_last {t : ParseTree} {s' : State} (reading : Reading f s t s') (clean : t.hasError = false) :
    ∃ u ∈ f.tokensIn t.start t.stop, u.kind.isComment = false ∧ u.stop = t.stop := by
  obtain ⟨leaf, inside, stop, plain⟩ := exists_last_leaf reading.sound reading.significant
  obtain ⟨node, childless⟩ := ParseTree.mem_leaves inside
  have flagged : leaf.isFlagged = false := by
    rw [ParseTree.hasError_eq, List.any_eq_false] at clean
    simpa using clean leaf node
  have filled : leaf.isEmpty = false := by
    rw [Bool.eq_false_iff]
    intro isEmpty
    rw [(((reading.sound leaf node).leaf childless).2 isEmpty).1] at flagged
    cases flagged
  obtain ⟨run, inFile, above⟩ := reading.tiled.run_of_mem inside filled
  obtain ⟨_, _, last, member, _, ends⟩ := above.ends
  refine ⟨last, inFile.mem member, ?_, ends.trans stop⟩
  rw [isComment_of_spells (above.spelled last member)]
  exact plain

theorem Reading.isBehindToken {t : ParseTree} {s' : State} (reading : Reading f s t s')
    (clean : t.hasError = false) : s'.IsBehindToken f := by
  obtain ⟨u, inside, significant, stop⟩ := reading.exists_last clean
  exact ⟨u, ((f.mem_tokensIn).mp inside).1, significant, stop.trans reading.stop⟩

/-- A tree without errors has taken a token. -/
theorem Reading.rest_ne {t : ParseTree} {s' : State} (reading : Reading f s t s')
    (clean : t.hasError = false) : s'.rest ≠ s.rest := by
  intro same
  obtain ⟨u, inside, significant, _⟩ := reading.exists_last clean
  obtain ⟨member, low, high⟩ := (f.mem_tokensIn).mp inside
  have ahead : u ∈ s'.rest := by
    have := reading.low
    rw [same, reading.origin.rest, List.mem_filter]
    simp only [member, significant, Bool.not_false, Bool.true_and, decide_eq_true_eq, true_and]
    omega
  have := (reading.place.mem_rest ahead).2.2
  have := reading.stop
  omega

/-- What is ahead of a tree are the tokens from its start on. -/
theorem Reading.rest_eq {t : ParseTree} {s' : State} (reading : Reading f s t s') :
    s.rest = f.significantFrom t.start := by
  have place := reading.origin
  rcases reading.edge with edge | ⟨edge, _⟩
  · rw [edge]
    exact place.rest
  · rw [edge, place.rest]
    apply List.filter_congr
    intro u member
    have below := place.lastStop_le_peek
    have gap : s.lastStop ≤ u.start → u.start < s.peek.start → u.kind.isComment = true := fun low high =>
      place.isComment_of_gap ((f.mem_tokensIn).mpr ⟨member, low, high⟩)
    rw [Bool.eq_iff_iff]
    simp only [Bool.and_eq_true, Bool.not_eq_true', decide_eq_true_eq]
    constructor
    · rintro ⟨significant, low⟩
      refine ⟨significant, Nat.le_of_not_lt fun high => ?_⟩
      rw [gap low high] at significant
      cases significant
    · rintro ⟨significant, low⟩
      exact ⟨significant, by omega⟩

theorem Reading.rest_eq_stop {t : ParseTree} {s' : State} (reading : Reading f s t s') :
    s'.rest = f.significantFrom t.stop := by
  rw [reading.stop]
  exact reading.place.rest

end Parser

end SecurityRules
