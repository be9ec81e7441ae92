import SecurityRules.Proofs.Mirror.Steps
import SecurityRules.Proofs.Nesting.Operators

/-!
# Expressions that mirror others

A production mirrors another one of the same shape if what is nested in it does. One lemma for each production.
-/

namespace SecurityRules.Parser

variable {strict : Prop} {σ : Unseen}

/-! ## Items and paths -/

/-- A comma that leads on. -/
theorem MirrorsTurn.comma :
    MirrorsTurn σ strict (fun d : Draft => if d.isAt .comma then .again d.take else .done d)
      (fun d : Draft => if d.isAt .comma then .again d.take else .done d) :=
  ite (·.isAt_under .comma) (MirrorsStep.take none).again MirrorsStep.here.done

theorem MirrorsStep.items {g f : Draft → Draft} (closing : TokenKind) (item : MirrorsStep σ strict g f) :
    MirrorsStep σ strict (·.items closing g) (·.items closing f) := by
  have turn : MirrorsTurn σ strict (itemTurn closing g) (itemTurn closing f) := by
    refine .ite (fun d => ?_) here.done (item.turn .comma)
    rw [d.isAt_under, d.peek_under]
  exact turn.loop.andThen (expect closing)

theorem Mirrors.segment (kind : NodeKind) : Mirrors σ strict (segment kind) (segment kind) := by
  intro s _
  have passed : (σ.on s).passSegment = σ.on s.passSegment := by
    rw [State.passSegment, State.passSegment, σ.advance]
    refine iterate_map id σ.on σ.rest (fun s => ?_) _
    simp only [σ.peek, σ.isAdjacent, σ.advance, Turn.map_ite, Turn.map_again, Turn.map_done]
  simp only [Parser.segment, passed, σ.leaf, σ.peek, σ.lastStop]

theorem mirrors_slashTurn : MirrorsTurn σ strict slashTurn slashTurn := by
  refine .ite (fun d => ?_) MirrorsStep.here.again MirrorsStep.here.done
  show ((σ.on d.state).isAt _ && (σ.on d.state).isAdjacent) = _
  rw [σ.isAt, σ.isAdjacent]
  rfl

theorem mirrors_slashedPart {opening : TokenKind} {q p : Production} {leaf : NodeKind} (bracketed : Mirrors σ strict q p) :
    MirrorsTurn σ strict (slashedPart opening q leaf) (slashedPart opening p leaf) := by
  refine .ite (·.isAt_under opening) ((MirrorsStep.place _ bracketed).turn mirrors_slashTurn)
    (.ite (fun d => ?_) ((MirrorsStep.place _ (.segment leaf)).turn mirrors_slashTurn) (MirrorsStep.lacking _ _).done)
  rw [d.peek_under]

/-! ## Expressions -/

namespace Mirrors

variable {q p : Production} (mirrors : Mirrors σ strict q p)
include mirrors

theorem argumentList : Mirrors σ strict (argumentList q) (argumentList p) :=
  .branch .argumentList ((MirrorsStep.take none).andThen (.items .rightParen (.place none mirrors)))

theorem functionCall : Mirrors σ strict (functionCall q) (functionCall p) :=
  .branch .functionCall ((MirrorsStep.takeAs _ .identifier).andThen (.place _ mirrors.argumentList))

theorem parenthesized : Mirrors σ strict (parenthesized q) (parenthesized p) :=
  .branch .parenthesized (((MirrorsStep.take none).andThen (.place _ mirrors)).andThen (.expect .rightParen))

theorem list : Mirrors σ strict (list q) (list p) :=
  .branch .list ((MirrorsStep.take none).andThen (.items .rightBracket (.place _ mirrors)))

theorem mapEntry : Mirrors σ strict (mapEntry q) (mapEntry p) :=
  .branch .mapEntry (((MirrorsStep.place _ mirrors).andThen (.expect .colon)).andThen (.place _ mirrors))

theorem map : Mirrors σ strict (map q) (map p) :=
  .branch .map ((MirrorsStep.take none).andThen (.items .rightBrace (.place _ mirrors.mapEntry)))

theorem interpolation : Mirrors σ strict (interpolation q) (interpolation p) :=
  .branch .interpolation ((((MirrorsStep.take none).andThen (.expect .leftParen)).andThen (.place _ mirrors)).andThen
    (.expect .rightParen))

theorem path : Mirrors σ strict (path q) (path p) :=
  .branch .path (MirrorsTurn.loop ((MirrorsStep.take none).turn (mirrors_slashedPart mirrors.interpolation)))

theorem primary : Mirrors σ strict (primary q) (primary p) := by
  intro s
  rw [Parser.primary, Parser.primary, σ.peek, σ.peekSecond]
  split
  · split
    · exact mirrors.functionCall s
    · exact leafOf _ s
  · exact leafOf _ s
  · exact leafOf _ s
  · exact leafOf _ s
  · exact leafOf _ s
  · exact leafOf _ s
  · exact mirrors.parenthesized s
  · exact mirrors.list s
  · exact mirrors.map s
  · exact mirrors.path s
  · split
    · exact placeholder _ s
    · exact stray s

theorem memberField : Mirrors σ strict (memberField q) (memberField p) := by
  refine .ite (fun s => ?_) (.ite (fun s => ?_) mirrors.functionCall (.leafOf _)) (.placeholder _)
  · rw [σ.isAt, σ.peek]
  · rw [σ.peekSecond]

theorem rangeTail : MirrorsStep σ strict (·.rangeTail q) (·.rangeTail p) :=
  (MirrorsStep.take none).andThen (.ite (c := (·.isAtAny [.rightBracket, .endOfInput])) (σ.isAtAny ·.state _) .here
    (.place _ mirrors))

omit mirrors in
/-- What goes on from the tree that is read first, if a token of a given kind is there. -/
theorem andThenAt {g f : Draft → Draft} (first : Mirrors σ strict q p) (kind : TokenKind)
    (step : MirrorsStep σ strict g f) :
    Mirrors σ strict
      (fun s => if (q s).2.isAt kind then ((g ⟨(q s).1, (q s).2⟩).tree, (g ⟨(q s).1, (q s).2⟩).state) else q s)
      (fun s => if (p s).2.isAt kind then ((f ⟨(p s).1, (p s).2⟩).tree, (f ⟨(p s).1, (p s).2⟩).state) else p s) := by
  have split : ∀ (h : Draft → Draft) (r : ParseTree × State),
      (if r.2.isAt kind then ((h ⟨r.1, r.2⟩).tree, (h ⟨r.1, r.2⟩).state) else r) =
        ((if (Draft.mk r.1 r.2).isAt kind then h ⟨r.1, r.2⟩ else ⟨r.1, r.2⟩).tree,
          (if (Draft.mk r.1 r.2).isAt kind then h ⟨r.1, r.2⟩ else ⟨r.1, r.2⟩).state) := by
    intro h r
    show _ = ((if r.2.isAt kind then _ else _ : Draft).tree, (if r.2.isAt kind then _ else _ : Draft).state)
    split <;> rfl
  simp only [split]
  exact first.andThen (.ite (c := (·.isAt kind)) (·.isAt_under kind) step .here)

theorem index : Mirrors σ strict (index q) (index p) := by
  rw [funext (index_eq q), funext (index_eq p)]
  have range := mirrors.andThenAt .colon (.wrapped .range (some .start) mirrors.rangeTail)
  exact .ite (σ.isAt · .colon) (.branch .range mirrors.rangeTail) range

theorem postfixTurn : MirrorsTurn σ strict (postfixTurn q) (postfixTurn p) :=
  .ite (·.isAt_under .dot)
    (MirrorsStep.wrapped .member (some .object)
      ((MirrorsStep.take none).andThen (.place (some .field) mirrors.memberField))).again
    (.ite (·.isAt_under .leftBracket)
      (MirrorsStep.wrapped .indexing (some .object)
        (((MirrorsStep.take none).andThen (.place (some .index) mirrors.index)).andThen (.expect .rightBracket))).again
      MirrorsStep.here.done)

theorem postfixed : Mirrors σ strict (postfixed q) (postfixed p) := mirrors.primary.andThen mirrors.postfixTurn.loop

end Mirrors

/-! ## Operators -/

theorem Mirrors.rightOf {q p : Production} (mirrors : Mirrors σ strict q p) (kind : NodeKind) :
    Mirrors σ strict (rightOf q kind) (rightOf p kind) := by
  rw [Parser.rightOf, Parser.rightOf]
  split
  · exact .ite (σ.isAt · .identifier) (.leafOf _) (.placeholder _)
  · exact mirrors

theorem MirrorsStep.joinedOf {q p : Production} (mirrors : Mirrors σ strict q p) (kind : NodeKind) :
    MirrorsStep σ strict (joinedOf q kind) (joinedOf p kind) :=
  wrapped kind (some .left) ((take _).andThen (place _ (mirrors.rightOf kind)))

/-- What follows an operand, given the operator that stands behind it. -/
def operatorTurn (operand : Tier → Production) (tier : Tier) (d : Draft) : Option (Tier × NodeKind) → Turn Draft
  | some (found, kind) => if tier.rank ≤ found.rank then .again (joinedOf (operand found) kind d) else .done d
  | none => .done d

theorem infixTurn_eq_operatorTurn (operand : Tier → Production) (tier : Tier) :
    infixTurn operand tier = fun d => operatorTurn operand tier d (infixOperator? d.state.peek.kind) :=
  funext (infixTurn_eq operand tier)

theorem mirrors_infixTurn {q p : Tier → Production} (mirrors : ∀ tier, Mirrors σ strict (q tier) (p tier)) (tier : Tier) :
    MirrorsTurn σ strict (infixTurn q tier) (infixTurn p tier) := by
  rw [infixTurn_eq_operatorTurn, infixTurn_eq_operatorTurn]
  refine .byKind (u := fun k d => operatorTurn q tier d (infixOperator? k))
    (t := fun k d => operatorTurn p tier d (infixOperator? k)) fun k => ?_
  cases infixOperator? k with
  | none => exact MirrorsStep.here.done
  | some found =>
    simp only [operatorTurn]
    split
    · exact (MirrorsStep.joinedOf (mirrors _) _).again
    · exact MirrorsStep.here.done

namespace Mirrors

theorem infixed {q p : Tier → Production} (mirrors : ∀ tier, Mirrors σ strict (q tier) (p tier)) (tier : Tier) :
    Mirrors σ strict (infixed q tier) (infixed p tier) := (mirrors tier).andThen (mirrors_infixTurn mirrors tier).loop

/-- Operands joined by the operators of some tiers. -/
theorem joined {q p : Production} (mirrors : Mirrors σ strict q p) (tiers : List Tier) :
    Mirrors σ strict (tiers.foldl Operands.loosen { beside := fun _ => q, joined := q }).joined
      (tiers.foldl Operands.loosen { beside := fun _ => p, joined := p }).joined := by
  suffices folded : ∀ o o' : Operands, (∀ tier, Mirrors σ strict (o.beside tier) (o'.beside tier)) →
      Mirrors σ strict o.joined o'.joined →
        Mirrors σ strict (tiers.foldl Operands.loosen o).joined (tiers.foldl Operands.loosen o').joined from
    folded _ _ (fun _ => mirrors) mirrors
  induction tiers with
  | nil => exact fun _ _ _ joined => joined
  | cons tier rest ih =>
    intro o o' beside joined
    have next : ∀ t, Mirrors σ strict ((o.loosen tier).beside t) ((o'.loosen tier).beside t) := by
      intro t
      show Mirrors σ strict (if t = tier then o.joined else o.beside t) (if t = tier then o'.joined else o'.beside t)
      split
      · exact joined
      · exact beside t
    exact ih _ _ next (infixed next tier)

variable {q p q' p' : Production}

theorem ternary (unary : Mirrors σ strict q p) (expression : Mirrors σ strict q' p') :
    Mirrors σ strict (ternary q q') (ternary p p') := by
  rw [funext (ternary_eq q q'), funext (ternary_eq p p')]
  exact (unary.joined Tier.tightestFirst).andThenAt .question (.wrapped .ternary (some .condition)
    ((((MirrorsStep.take none).andThen (.place _ expression)).andThen (.expect .colon)).andThen (.place _ expression)))

theorem unary (mirrors : Mirrors σ strict q p) : Mirrors σ strict (unary q) (unary p) :=
  .branch .unary ((MirrorsStep.take _).andThen (.place _ mirrors))

end Mirrors

end SecurityRules.Parser
