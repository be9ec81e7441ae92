import SecurityRules.Proofs.Nesting.Expressions

/-!
# Operators side by side

Behind a prefix operator at the limit, the parser with less nesting gathers the whole rest of the expression. Until
that expression ends, the other parser goes on alone.
-/

namespace SecurityRules.Parser

open ParseTree (visitsAll)

variable {f : SourceFile} {limit depth stop : Nat} {kind : NodeKind} {s s' : State} {d d' : Draft} {role : Option Role}

/-- The second operand has been cut off, together with all that follows in the expression around it. -/
structure CutOff (f : SourceFile) (limit depth stop : Nat) (s s' : State) (d d' : Draft) : Prop where
  reads : Reads f s (d.tree, d.state)
  reads' : Reads f s' (d'.tree, d'.state)
  rest : d'.state.rest = f.significantFrom stop
  stops : isExpressionStop d'.state.peek.kind = true
  behind : d'.state.IsBehindToken f
  deep : ¬ Shallow limit (d.tree.visits depth false stop)

/-- Operands that are read side by side, or of which the second has been cut off. -/
def Trails (f : SourceFile) (limit depth stop : Nat) (s s' : State) (d d' : Draft) : Prop :=
  Alongside f limit depth stop s s' d d' ∨ CutOff f limit depth stop s s' d d'

/-- A production of operands and one that is in step with it up to where it is cut off. -/
structure Pursues (f : SourceFile) (limit depth stop : Nat) (p q : Production) : Prop where
  reader : Reader f p
  reader' : Reader f q
  trails : ∀ s s', Level f s s' → WellCut f limit depth stop (p s).1 →
    Trails f limit depth stop s s' ⟨(p s).1, (p s).2⟩ ⟨(q s').1, (q s').2⟩

/-- What is cut off inside a tree is cut off in the whole, if the second tree ends there too. -/
theorem CutOff.enclosed {depth' : Nat} {u u' : State} {v v' : Draft} (cut : CutOff f limit depth' stop u u' v v')
    (reads : Reads f s (d.tree, d.state)) (reads' : Reads f s' (d'.tree, d'.state))
    (rest : d'.state.rest = v'.state.rest) (lastStop : d'.state.lastStop = v'.state.lastStop)
    (inside : Shallow limit (d.tree.visits depth false stop) → Shallow limit (v.tree.visits depth' false stop)) :
    CutOff f limit depth stop s s' d d' where
  reads := reads
  reads' := reads'
  rest := rest.trans cut.rest
  stops := by
    have peek : d'.state.peek = v'.state.peek := by
      rw [State.peek, State.peek, rest, reads'.reading.place.file, cut.reads'.reading.place.file]
    rw [peek]
    exact cut.stops
  behind := by
    rw [State.IsBehindToken, lastStop]
    exact cut.behind
  deep := fun shallow => cut.deep (inside shallow)

/-! ## Infix operators -/

/-- The name of a type. -/
def typeOperand : Production := fun s =>
  if s.isAt .identifier then leafOf .typeName s else (s.placeholder .typeName, s)

/-- What stands on the right of an operator: behind a type test the name of a type. -/
def rightOf (operand : Production) (kind : NodeKind) : Production :=
  if kind = .typeComparison then typeOperand else operand

/-- A tree with an operator behind it and what stands on the right of that. -/
def joinedOf (operand : Production) (kind : NodeKind) (d : Draft) : Draft :=
  (((Draft.opened kind d.state).attach (some .left) d.tree).take (some .operator)).place (some .right)
    (rightOf operand kind)

theorem joinedOf_eq (operand : Production) (kind : NodeKind) (d : Draft) : joinedOf operand kind d =
    let n := ((Draft.opened kind d.state).attach (some .left) d.tree).take (some .operator)
    if kind = .typeComparison then
      if n.isAt .identifier then n.takeAs (some .right) .typeName else n.lacking (some .right) .typeName
    else n.place (some .right) operand := by
  dsimp only
  rw [joinedOf, rightOf]
  split
  · rw [Draft.place_eq, typeOperand, Draft.isAt]
    split <;> rfl
  · rfl

theorem infixTurn_eq (operand : Tier → Production) (tier : Tier) (d : Draft) : infixTurn operand tier d =
    match infixOperator? d.state.peek.kind with
    | some (found, kind) => if tier.rank ≤ found.rank then .again (joinedOf (operand found) kind d) else .done d
    | none => .done d := by
  simp only [joinedOf_eq]
  rfl

theorem kind_joinedOf (operand : Production) (kind : NodeKind) (d : Draft) :
    (joinedOf operand kind d).tree.kind = kind := by
  rw [joinedOf, Draft.kind_place, Draft.kind_take, Draft.kind_attach]
  rfl

theorem flat_infixOperator {found : TokenKind} {tier : Tier} (known : infixOperator? found = some (tier, kind)) :
    kind.deepens = false := by
  cases found <;> simp only [infixOperator?, reduceCtorEq, Option.some.injEq, Prod.mk.injEq] at known
  all_goals
    obtain ⟨-, rfl⟩ := known
    rfl

theorem infixOperator?_of_stop {k : TokenKind} (stops : isExpressionStop k = true) : infixOperator? k = none := by
  cases k <;> first | rfl | exact absurd stops (by decide)

/-- The left operand is cut well if the whole is. -/
theorem WellCut.of_infixTurn {operand : Tier → Production} {tier : Tier}
    (wellCut : WellCut f limit depth stop (infixTurn operand tier d).value.tree) :
    WellCut f limit depth stop d.tree := by
  rw [infixTurn_eq] at wellCut
  split at wellCut
  · rename_i found kind known
    split at wellCut
    · have fine : Fine f limit kind depth stop (joinedOf (operand found) kind d) :=
        wellCut.fine (kind_joinedOf _ kind d) (flat_infixOperator known)
      exact fine.of_place.of_take.wellCut (isWholeIn_inRole _ _ _)
    · exact wellCut
  · exact wellCut

/-- What is deep in the left operand is deep in the whole. -/
theorem shallow_of_infixTurn {operand : Tier → Production} {tier : Tier}
    (shallow : Shallow limit ((infixTurn operand tier d).value.tree.visits depth false stop)) :
    Shallow limit (d.tree.visits depth false stop) := by
  rw [infixTurn_eq] at shallow
  split at shallow
  · rename_i found kind known
    split at shallow
    · have children := shallow_children (kind_joinedOf (operand found) kind d) shallow
      rw [flat_infixOperator known] at children
      have left := (shallow_of_attach (shallow_of_place (shallow_of_place children).1).1).2
      rwa [isWholeIn_inRole] at left
    · exact shallow
  · exact shallow

theorem reader_typeOperand : Reader f typeOperand := by
  intro s place
  rw [typeOperand]
  split
  · rename_i found
    refine reads_leafOf place (State.rest_of_isAt found TokenKind.noConfusion) ?_
    rw [State.kind_of_isAt found]
    rfl
  · exact reads_placeholder place rfl

theorem pursues_typeOperand : Pursues f limit depth stop typeOperand typeOperand := by
  refine ⟨reader_typeOperand, reader_typeOperand, fun s s' states _ => Or.inl ⟨reader_typeOperand s states.first,
    reader_typeOperand s' states.second, ?_, fun _ => ?_⟩⟩
  all_goals
    dsimp only
    rw [typeOperand, typeOperand, states.isAt]
    split
  · exact (states.leafOf _).1
  · exact states
  · exact (states.leafOf _).2
  · exact states.placeholder _

theorem Pursues.rightOf {p q : Production} (pursues : Pursues f limit depth stop p q) (kind : NodeKind) :
    Pursues f limit depth stop (rightOf p kind) (rightOf q kind) := by
  rw [Parser.rightOf, Parser.rightOf]
  split
  · exact pursues_typeOperand
  · exact pursues

theorem reads_joinedOf {operand : Tier → Production} (readers : ∀ t, Reader f (operand t)) {tier : Tier}
    (reads : Reads f s (d.tree, d.state)) (known : infixOperator? d.state.peek.kind = some (tier, kind)) :
    Reads f s ((joinedOf (operand tier) kind d).tree, (joinedOf (operand tier) kind d).state) := by
  rw [joinedOf_eq]
  exact reads_joined readers reads known

/-- An operator and its right operand. -/
theorem Alongside.joined {operand operand' : Tier → Production}
    (pursues : ∀ t, Pursues f limit depth stop (operand t) (operand' t)) {tier : Tier}
    (alongside : Alongside f limit depth stop s s' d d')
    (known : infixOperator? d.state.peek.kind = some (tier, kind))
    (wellCut : WellCut f limit depth stop (joinedOf (operand tier) kind d).tree) :
    Trails f limit depth stop s s' (joinedOf (operand tier) kind d) (joinedOf (operand' tier) kind d') := by
  obtain ⟨_, other, here⟩ := plain_infixOperator known
  have flat := flat_infixOperator known
  have known' : infixOperator? d'.state.peek.kind = some (tier, kind) := by
    rw [alongside.states.peek]
    exact known
  have isKind := kind_joinedOf (operand tier) kind d
  have reads := reads_joinedOf (fun t => (pursues t).reader) alongside.reads known
  have reads' := reads_joinedOf (fun t => (pursues t).reader') alongside.reads' known'
  have fine : Fine f limit kind depth stop (joinedOf (operand tier) kind d) := wellCut.fine isKind flat
  have left := alongside.wrapped (some .left) other (isWholeIn_inRole _ _ _)
  have taken := left.take (some .operator) (by rw [Draft.rest_attach]; exact State.rest_ne_nil here)
  have right := (pursues tier).rightOf kind
  rcases right.trails _ _ taken.states (fine.wellCut_place (isWholeIn_inRole _ _ _)) with together | cut
  · left
    have whole := taken.attachReads together.reads together.reads' together.states fun shallow => together.same
      (by rwa [isWholeIn_inRole _ (some .right)] at shallow)
    exact .of_abreast whole isKind flat reads reads'
  · right
    refine cut.enclosed reads reads' (Draft.rest_attach _ _ _) (Draft.lastStop_attach _ _ _) fun shallow => ?_
    have children := shallow_children isKind shallow
    rw [flat] at children
    have inside := (shallow_of_place children).2
    rwa [isWholeIn_inRole] at inside

theorem CutOff.settled {operand : Tier → Production} {tier : Tier} (cut : CutOff f limit depth stop s s' d d') :
    infixTurn operand tier d' = .done d' := by
  rw [infixTurn_eq, infixOperator?_of_stop cut.stops]

theorem CutOff.infixTurn {operand : Tier → Production} {tier : Tier} (readers : ∀ t, Reader f (operand t))
    (cut : CutOff f limit depth stop s s' d d') :
    CutOff f limit depth stop s s' (infixTurn operand tier d).value d' :=
  cut.enclosed (reads_infixTurn readers tier cut.reads) cut.reads' rfl rfl shallow_of_infixTurn

theorem Pursues.infixed {operand operand' : Tier → Production}
    (pursues : ∀ t, Pursues f limit depth stop (operand t) (operand' t)) (tier : Tier) :
    Pursues f limit depth stop (infixed operand tier) (infixed operand' tier) where
  reader := reader_infixed (fun t => (pursues t).reader) tier
  reader' := reader_infixed (fun t => (pursues t).reader') tier
  trails := by
    intro s s' states wellCut
    have back : ∀ v : Draft, WellCut f limit depth stop (infixTurn operand tier v).value.tree →
        WellCut f limit depth stop v.tree := fun _ => WellCut.of_infixTurn
    have first : WellCut f limit depth stop (operand tier s).1 :=
      back ⟨(operand tier s).1, (operand tier s).2⟩
        (iterate_back (G := fun v : Draft => WellCut f limit depth stop v.tree) back wellCut)
    refine iterate_paired (R := Alongside f limit depth stop s s') (E := CutOff f limit depth stop s s')
      (Q := Trails f limit depth stop s s') (G := fun v : Draft => WellCut f limit depth stop v.tree)
      (fun _ _ alongside => by rw [alongside.states.rest]) (fun _ _ cut => cut.settled)
      (fun _ _ cut => cut.infixTurn fun t => (pursues t).reader) (fun _ _ => Or.inr) back
      (fun v w alongside wellCut => ?_) ((pursues tier).trails s s' states first) wellCut
    rw [infixTurn_eq] at wellCut ⊢
    rw [infixTurn_eq, alongside.states.peek]
    split
    · rename_i found kind known
      rw [known] at wellCut
      dsimp only at wellCut ⊢
      split
      · rename_i binds
        rw [if_pos binds] at wellCut
        have next := alongside.joined pursues known wellCut
        exact .again next next
      · exact .done (Or.inl alongside)
    · exact .done (Or.inl alongside)

theorem Pursues.loosen {o o' : Operands} (tier : Tier)
    (pursues : (∀ t, Pursues f limit depth stop (o.beside t) (o'.beside t)) ∧
      Pursues f limit depth stop o.joined o'.joined) :
    (∀ t, Pursues f limit depth stop ((o.loosen tier).beside t) ((o'.loosen tier).beside t)) ∧
      Pursues f limit depth stop (o.loosen tier).joined (o'.loosen tier).joined := by
  have beside : ∀ t, Pursues f limit depth stop ((o.loosen tier).beside t) ((o'.loosen tier).beside t) := by
    intro t
    rw [Operands.loosen, Operands.loosen]
    dsimp only
    split
    · exact pursues.2
    · exact pursues.1 t
  exact ⟨beside, .infixed beside tier⟩

theorem Pursues.binary {p q : Production} (pursues : Pursues f limit depth stop p q) :
    Pursues f limit depth stop (binary p) (binary q) := by
  rw [Parser.binary, Parser.binary]
  suffices keeps : ∀ (tiers : List Tier) (o o' : Operands),
      (∀ t, Pursues f limit depth stop (o.beside t) (o'.beside t)) ∧ Pursues f limit depth stop o.joined o'.joined →
        Pursues f limit depth stop (tiers.foldl Operands.loosen o).joined (tiers.foldl Operands.loosen o').joined from
    keeps _ _ _ ⟨fun _ => pursues, pursues⟩
  intro tiers
  induction tiers with
  | nil => exact fun o o' pursues => pursues.2
  | cons tier rest ih => exact fun o o' pursues => ih _ _ (Pursues.loosen tier pursues)

/-! ## Conditional expressions -/

/-- A condition with a question mark and the two branches behind it. -/
def ternaryOf (e : Production) (d : Draft) : Draft :=
  ((((Draft.opened .ternary d.state).attach (some .condition) d.tree).take.place (some .consequence) e).expect
    .colon).place (some .alternative) e

theorem kind_ternaryOf (e : Production) (d : Draft) : (ternaryOf e d).tree.kind = .ternary := by
  rw [ternaryOf, Draft.kind_place, Draft.kind_expect, Draft.kind_place, Draft.kind_take, Draft.kind_attach]
  rfl

theorem ternary_eq (unary e : Production) (s : State) : ternary unary e s =
    let d : Draft := ⟨(binary unary s).1, (binary unary s).2⟩
    if d.isAt .question then ((ternaryOf e d).tree, (ternaryOf e d).state) else (d.tree, d.state) := rfl

theorem isAt_question_of_stop (stops : isExpressionStop s.peek.kind = true) : s.isAt .question = false := by
  rw [State.isAt, beq_eq_false_iff_ne]
  intro question
  rw [question] at stops
  exact absurd stops (by decide)

section

variable {e e' : Production} (nests : Nests f limit depth e e')
include nests

theorem Alongside.ternary (alongside : Alongside f limit depth stop s s' d d') (found : d.isAt .question = true)
    (reads : Reads f s ((ternaryOf e d).tree, (ternaryOf e d).state))
    (reads' : Reads f s' ((ternaryOf e' d').tree, (ternaryOf e' d').state))
    (wellCut : WellCut f limit depth stop (ternaryOf e d).tree) :
    Alongside f limit depth stop s s' (ternaryOf e d) (ternaryOf e' d') := by
  have ahead := State.rest_of_isAt found TokenKind.noConfusion
  have fine : Fine f limit .ternary depth stop (ternaryOf e d) := wellCut.fine (kind_ternaryOf e d) rfl
  have condition := alongside.wrapped (some .condition) (NodeKind.noConfusion : NodeKind.ternary ≠ .comment)
    (isWholeIn_inRole _ _ _)
  have question := condition.take none (by rw [Draft.rest_attach]; exact ahead)
  have consequence := question.nested nests fine.of_place.of_expect fun t _ _ => isWholeIn_inRole t _ _
  have colon := consequence.expect (TokenKind.noConfusion : TokenKind.colon ≠ .endOfInput)
  have alternative := colon.nested nests fine fun t _ _ => isWholeIn_inRole t _ _
  exact .of_abreast alternative (kind_ternaryOf e d) rfl reads reads'

theorem Pursues.ternary {p q : Production} (pursues : Pursues f limit depth stop p q) :
    Pursues f limit depth stop (ternary p e) (ternary q e') where
  reader := reader_ternary pursues.reader nests.reader
  reader' := reader_ternary pursues.reader' nests.reader'
  trails := by
    intro s s' states wellCut
    have reads := reader_ternary pursues.reader nests.reader s states.first
    have reads' := reader_ternary pursues.reader' nests.reader' s' states.second
    have condition := pursues.binary.trails s s' states
    rw [ternary_eq] at wellCut reads ⊢
    rw [ternary_eq] at reads' ⊢
    generalize Parser.binary p s = r at condition wellCut reads ⊢
    generalize Parser.binary q s' = r' at condition reads' ⊢
    obtain ⟨t, u⟩ := r
    obtain ⟨t', u'⟩ := r'
    dsimp only at condition wellCut reads reads' ⊢
    by_cases question : (Draft.mk t u).isAt .question = true
    · rw [if_pos question] at wellCut reads ⊢
      have fine : Fine f limit .ternary depth stop (ternaryOf e ⟨t, u⟩) := wellCut.fine (kind_ternaryOf e _) rfl
      rcases condition (fine.of_place.of_expect.of_place.of_take.wellCut (isWholeIn_inRole _ _ _)) with together | cut
      · have question' : (Draft.mk t' u').isAt .question = true := (together.states.isAt _).trans question
        rw [if_pos question'] at reads' ⊢
        exact Or.inl (together.ternary nests question reads reads' wellCut)
      · have ended : (Draft.mk t' u').isAt .question = false := isAt_question_of_stop cut.stops
        rw [if_neg (by rw [ended]; exact Bool.false_ne_true)] at reads' ⊢
        refine Or.inr (cut.enclosed reads reads' rfl rfl fun shallow => ?_)
        have children : Shallow limit (visitsAll .ternary depth stop (ternaryOf e ⟨t, u⟩).tree.children) :=
          shallow_children (kind_ternaryOf e _) shallow
        have condition := (shallow_of_attach (shallow_of_place (shallow_of_place (shallow_of_expect
          (shallow_of_place children).1)).1).1).2
        rwa [isWholeIn_inRole] at condition
    · rw [if_neg question] at wellCut reads ⊢
      rcases condition wellCut with together | cut
      · rw [if_neg (by rw [Draft.isAt, together.states.isAt]; exact question)] at reads' ⊢
        exact Or.inl together
      · have ended : (Draft.mk t' u').isAt .question = false := isAt_question_of_stop cut.stops
        rw [if_neg (by rw [ended]; exact Bool.false_ne_true)] at reads' ⊢
        exact Or.inr cut

end

/-! ## Prefix operators -/

theorem kind_unary (operand : Production) (s : State) : (unary operand s).1.kind = .unary := by
  rw [unary, branch, Draft.kind_place, Draft.kind_take]
  rfl

theorem Pursues.unary {p q : Production} (pursues : Pursues f limit (depth + 1) stop p q) (states : Level f s s')
    (ahead : s.rest ≠ []) (wellCut : WellCut f limit depth stop (unary p s).1) :
    Trails f limit depth stop s s' ⟨(Parser.unary p s).1, (Parser.unary p s).2⟩
      ⟨(Parser.unary q s').1, (Parser.unary q s').2⟩ := by
  have ahead' : s'.rest ≠ [] := by
    rw [states.rest]
    exact ahead
  have reads := reads_unary pursues.reader states.first ahead
  have reads' := reads_unary pursues.reader' states.second ahead'
  have known : (((Draft.opened .unary s).take (some .operator)).place (some .operand) p).tree.kind = .unary :=
    kind_unary p s
  have fine : Fine f limit .unary (depth + 1) stop
      (((Draft.opened .unary s).take (some .operator)).place (some .operand) p) :=
    Fine.of_visits known wellCut.clean wellCut.cuts
  have opened : Abreast f limit .unary (depth + 1) stop s s' (Draft.opened .unary s) (Draft.opened .unary s') :=
    .opened states NodeKind.noConfusion
  have sign := opened.take (some .operator) ahead
  rcases pursues.trails _ _ sign.states (fine.wellCut_place (isWholeIn_inRole _ _ _)) with together | cut
  · left
    have whole := sign.attachReads together.reads together.reads' together.states fun shallow => together.same
      (by rwa [isWholeIn_inRole _ (some .operand)] at shallow)
    exact ⟨reads, reads', whole.states, fun shallow => whole.same (shallow_children known shallow)⟩
  · right
    refine cut.enclosed reads reads' (Draft.rest_attach _ _ _) (Draft.lastStop_attach _ _ _) fun shallow => ?_
    have inside := (shallow_of_place (shallow_children known shallow)).2
    rwa [isWholeIn_inRole] at inside

/-! ## The limit -/

/-- Where the expression ends at the first stop outside brackets, the gathered rest of it ends there too. -/
theorem Level.rest_collapse {t : ParseTree} {u : State} (states : Level f s s') (reading : Reading f s t u)
    (ends : pastExpression 0 (f.significantFrom t.start) = f.significantFrom stop) :
    (collapse s').2.rest = f.significantFrom stop := by
  rw [Parser.rest_collapse states.second, states.rest, reading.rest_eq, ends]

/-- An expression at the limit. -/
theorem nests_cut (budget : Nat) : Nests f limit limit (expressionAt budget) (expressionAt 0) where
  reader := (reader_expressionAt budget).1
  reader' := (reader_expressionAt 0).1
  good := (yields_expressionAt budget).1
  inStep := by
    intro s s' states stop clean cuts
    have reading := ((reader_expressionAt budget).1 s states.first).reading
    have isOperand := (((yields_expressionAt budget).1 f s states.of trivial).made clean).1
    generalize expressionAt budget s = r at reading isOperand clean cuts ⊢
    obtain ⟨t, u⟩ := r
    dsimp only at isOperand clean cuts ⊢
    have beyond : limit < (Visit.of limit true stop t).within := by
      simp only [Visit.of, Visit.within, Bool.toNat_true]
      omega
    have isCut : (Visit.of limit true stop t).IsCut limit := by
      refine ⟨Nat.le_refl _, beyond, fun body => ?_⟩
      have body : t.kind = .matchBody := body
      rw [body] at isOperand
      cases isOperand
    have ends := cuts _ (ParseTree.of_mem_visits limit true stop t) isCut
    have rest : (collapse s').2.rest = u.rest := by
      rw [states.rest_collapse reading ends, reading.rest_eq_stop]
      rfl
    have behind : (collapse s').2.IsBehindToken f := by
      refine (gathered_collapse states.second).resolve_left fun same => reading.rest_ne clean ?_
      rw [← rest, same, states.rest]
    have place := (reader_collapse s' states.second).reading.place
    refine ⟨⟨reading.place, place, rest, ?_, reading.isLoose states.loose⟩, fun shallow => ?_⟩
    · exact reading.place.lastStop_eq place (reading.isBehindToken clean) behind rest
    · exact absurd (shallow _ (ParseTree.of_mem_visits limit true stop t)) (Nat.not_le_of_lt beyond)

/-! ## Expressions -/

/-- What stands behind a prefix operator, if the nesting allows it. -/
def prefixed : Nat → Production
  | 0 => collapse
  | budget + 1 => unary (unaryAt budget)

theorem unaryAt_eq (budget : Nat) (s : State) : unaryAt budget s =
    if s.isAtUnary then prefixed budget s else postfixed (expressionAt budget) s := by
  cases budget with
  | zero =>
    have collapses : expressionAt 0 = collapse := funext fun s => by rw [expressionAt]
    rw [unaryAt, collapses]
    rfl
  | succ budget =>
    have nested : expressionAt (budget + 1) = ternary (unaryAt budget) (expressionAt budget) :=
      funext fun s => by rw [expressionAt]
    rw [unaryAt, nested]
    rfl

/-- A prefix operator at the limit. -/
theorem CutOff.prefixed {budget : Nat} (states : Level f s s') (found : s.isAtUnary = true)
    (wellCut : WellCut f limit limit stop (unaryAt budget s).1) :
    CutOff f limit limit stop s s' ⟨(unaryAt budget s).1, (unaryAt budget s).2⟩ ⟨(collapse s').1, (collapse s').2⟩ := by
  have reads := (reader_expressionAt budget).2 s states.first
  have reads' := reader_collapse s' states.second
  have known : (unaryAt budget s).1.kind = .unary := by
    rw [unaryAt_eq, if_pos found]
    cases budget with
    | zero =>
      have clean := wellCut.clean
      rw [unaryAt_eq, if_pos found, Parser.prefixed, hasError_collapse] at clean
      cases clean
    | succ budget => exact kind_unary _ s
  generalize unaryAt budget s = r at reads known wellCut ⊢
  obtain ⟨t, u⟩ := r
  dsimp only at known wellCut ⊢
  have beyond : limit < (Visit.of limit false stop t).within := by
    simp [Visit.of, Visit.within, known, NodeKind.deepens]
  have isCut : (Visit.of limit false stop t).IsCut limit := by
    refine ⟨Nat.le_refl _, beyond, fun body => ?_⟩
    have body : t.kind = .matchBody := body
    rw [known] at body
    cases body
  have ends := wellCut.cuts _ (ParseTree.of_mem_visits limit false stop t) isCut
  refine ⟨reads, reads', states.rest_collapse reads.reading ends, stops_collapse states.second, ?_, fun shallow => ?_⟩
  · refine (gathered_collapse states.second).resolve_left fun same => ?_
    -- a prefix operator can go on an expression, so it is gathered
    have stops := stops_collapse states.second
    rw [State.peek, same, (reads'.reading).place.file, ← states.second.file, ← State.peek, states.peek] at stops
    rw [State.isAtUnary, State.isAtAny] at found
    rcases (by simpa using found : s.peek.kind = .bang ∨ s.peek.kind = .minus) with kind | kind
    all_goals
      rw [kind] at stops
      exact absurd stops (by decide)
  · exact absurd (shallow _ (ParseTree.of_mem_visits limit false stop t)) (Nat.not_le_of_lt beyond)

/-- Operands are in step as far as whole expressions at the same level are. -/
theorem pursues_unaryAt {budget budget' : Nat}
    (nests : Nests f limit depth (expressionAt budget) (expressionAt budget'))
    (signed : ∀ s s', Level f s s' → s.isAtUnary = true → WellCut f limit depth stop (unaryAt budget s).1 →
      Trails f limit depth stop s s' ⟨(unaryAt budget s).1, (unaryAt budget s).2⟩
        ⟨(prefixed budget' s').1, (prefixed budget' s').2⟩) :
    Pursues f limit depth stop (unaryAt budget) (unaryAt budget') where
  reader := (reader_expressionAt budget).2
  reader' := (reader_expressionAt budget').2
  trails := by
    intro s s' states wellCut
    have isAtUnary : s'.isAtUnary = s.isAtUnary := states.isAtAny _
    rw [unaryAt_eq budget', isAtUnary]
    split
    · rename_i found
      exact signed s s' states found wellCut
    · rename_i none
      rw [unaryAt_eq, if_neg none] at wellCut ⊢
      exact Or.inl (Alongside.postfixed nests states wellCut)

/-- Expressions at a level with what is left of the limit there, whatever nesting the other parser allows. -/
theorem nests_expressionAt (budget' budget : Nat) (spent : depth + budget' = limit) :
    Nests f limit depth (expressionAt budget) (expressionAt budget') ∧
      ∀ stop, Pursues f limit depth stop (unaryAt budget) (unaryAt budget') := by
  induction budget' generalizing depth budget with
  | zero =>
    obtain rfl : depth = limit := spent
    have nests : Nests f depth depth (expressionAt budget) (expressionAt 0) := nests_cut budget
    exact ⟨nests, fun stop => pursues_unaryAt nests fun s s' states found wellCut =>
      Or.inr (CutOff.prefixed states found wellCut)⟩
  | succ budget' ih =>
    have nests : Nests f limit depth (expressionAt budget) (expressionAt (budget' + 1)) := by
      refine ⟨(reader_expressionAt budget).1, (reader_expressionAt (budget' + 1)).1, (yields_expressionAt budget).1,
        fun s s' states stop clean cuts => ?_⟩
      cases budget with
      | zero =>
        rw [expressionAt, hasError_collapse] at clean
        cases clean
      | succ budget =>
        obtain ⟨inner, operand⟩ := @ih (depth + 1) budget (by omega)
        have reading := ((reader_expressionAt (budget + 1)).1 s states.first).reading
        have trails := ((operand (expressionAt (budget + 1) s).1.stop).ternary inner).trails s s' states
        rw [expressionAt] at clean cuts reading trails ⊢
        rw [expressionAt]
        rcases trails ⟨clean, cuts.enter⟩ with together | cut
        · exact ⟨together.states, fun shallow => together.same (Shallow.enter_iff.mp shallow)⟩
        · have place := cut.reads'.reading.place
          have rest := cut.rest.trans reading.rest_eq_stop.symm
          refine ⟨⟨reading.place, place, rest, ?_, reading.isLoose states.loose⟩, fun shallow => ?_⟩
          · exact reading.place.lastStop_eq place (reading.isBehindToken clean) cut.behind rest
          · exact absurd (Shallow.enter_iff.mp shallow) cut.deep
    refine ⟨nests, fun stop => pursues_unaryAt nests fun s s' states found wellCut => ?_⟩
    have ahead : s.rest ≠ [] := rest_of_isAtUnary found
    cases budget with
    | zero =>
      have clean := wellCut.clean
      rw [unaryAt_eq, if_pos found, prefixed, hasError_collapse] at clean
      cases clean
    | succ budget =>
      rw [unaryAt_eq, if_pos found] at wellCut ⊢
      exact ((@ih (depth + 1) budget (by omega)).2 stop).unary states ahead wellCut

end SecurityRules.Parser
