import SecurityRules.Proofs.Landmark.Layout

/-!
# Layouts of expressions

Every production of expressions makes trees that are in order where they have no errors.
-/

namespace SecurityRules.Parser

variable {f : SourceFile} {s : State} {kind : NodeKind} {ps : List Piece} {d : Draft}

/-- Items between commas up to a closing token. -/
theorem Lays.items {item : Draft → Draft} (lays : Lays f kind ps d) (slots : List Slot) (closing : TokenKind)
    (sign : Slot.sign ∈ slots) (known : NodeKind.isToken (leafKind closing) = true)
    (step : ∀ d, Lays f kind (ps ++ [Piece.many slots]) d → Lays f kind (ps ++ [Piece.many slots]) (item d)) :
    Lays f kind (ps ++ [Piece.many slots] ++ [Piece.one .sign]) (d.items closing item) := by
  have turn : ∀ d, Lays f kind (ps ++ [Piece.many slots]) d →
      Lays f kind (ps ++ [Piece.many slots]) (itemTurn closing item d).value := by
    intro d lays
    rw [itemTurn]
    split
    · exact lays
    · exact (step d lays).comma sign
  have loop : Lays f kind (ps ++ [Piece.many slots]) (d.loop (itemTurn closing item)) :=
    iterate_keeps (lays.several slots) turn
  exact loop.expect closing known

/-- A state at a token of a given kind. -/
abbrev At (k : TokenKind) (s : State) : Prop := s.isAt k = true

/-- Any state. -/
abbrev Anywhere (_ : State) : Prop := True

theorem yielded_segment {kinds : NodeKind → Bool} {leaf : NodeKind} (of : s.Of f)
    (isSegment : isSegmentToken s.peek.kind = true) (known : kinds leaf = true) (bare : leaf.layout = [])
    (other : leaf ≠ .comment) (noError : leaf ≠ .error) : Yielded f kinds (segment leaf s) := by
  have same : Same f f s s := ⟨of, of, rfl⟩
  refine ⟨(same.segment isSegment other).state.first, beq_eq_false_iff_ne.mpr other, fun _ => ⟨known, ?_⟩⟩
  refine ParseTree.allOrdered_leaf rfl bare ?_
  rw [ParseTree.isFlagged]
  exact Bool.or_eq_false_iff.mpr ⟨beq_eq_false_iff_ne.mpr noError, rfl⟩

/-- One segment of a path. The path goes on only at a slash. -/
theorem Lays.slashedPart {slots : List Slot} {kinds : NodeKind → Bool} {opening : TokenKind} {bracketed : Production}
    (lays : Lays f kind (ps ++ [Piece.many slots]) d) (leaf : NodeKind) (member : ⟨some .segment, kinds⟩ ∈ slots)
    (yields : Yields (At opening) kinds bracketed) (known : kinds leaf = true) (bare : leaf.layout = [])
    (other : leaf ≠ .comment) (noError : leaf ≠ .error) :
    (∀ next, slashedPart opening bracketed leaf d = .again next →
        Lays f kind (ps ++ [Piece.many slots]) next ∧ next.isAt .slash = true) ∧
      ∀ next, slashedPart opening bracketed leaf d = .done next → Lays f kind (ps ++ [Piece.many slots]) next := by
  have turn {next : Draft} (lays : Lays f kind (ps ++ [Piece.many slots]) next) :
      (∀ last, slashTurn next = .again last → Lays f kind (ps ++ [Piece.many slots]) last ∧ last.isAt .slash = true) ∧
        ∀ last, slashTurn next = .done last → Lays f kind (ps ++ [Piece.many slots]) last := by
    rw [slashTurn]
    split
    · rename_i found
      refine ⟨fun last same => ?_, fun last same => by cases same⟩
      cases same
      exact ⟨lays, (Bool.and_eq_true_iff.mp found).1⟩
    · refine ⟨fun last same => (by cases same), fun last same => ?_⟩
      cases same
      exact lays
  rw [Parser.slashedPart]
  split
  · rename_i found
    exact turn (lays.placeMany (yields f d.state lays.state found) member)
  · split
    · rename_i isSegment
      exact turn (lays.placeMany (yielded_segment lays.state isSegment known bare other noError) member)
    · refine ⟨fun last same => (by cases same), fun last same => ?_⟩
      cases same
      exact lays.lacking _ _ other

section

variable {expression : Production} (good : Yields Anywhere NodeKind.isOperand expression)
include good

theorem Lays.read (lays : Lays f kind ps d) (role : Option Role) :
    Lays f kind (ps ++ [Piece.one (.operand role)]) (d.place role expression) :=
  lays.place (good f d.state lays.state trivial) role

theorem Lays.readMany {slots : List Slot} {role : Option Role} (lays : Lays f kind (ps ++ [Piece.many slots]) d)
    (known : Slot.operand role ∈ slots) : Lays f kind (ps ++ [Piece.many slots]) (d.place role expression) :=
  lays.placeMany (good f d.state lays.state trivial) known

theorem yields_argumentList : Yields (At .leftParen) (· == .argumentList) (argumentList expression) := by
  intro f s of found
  have list := ((Lays.opened .argumentList of).take found rfl).items [.sign, .operand none] .rightParen
    (List.mem_cons_self ..) rfl fun d lays => lays.readMany good (List.mem_cons_of_mem _ (List.mem_cons_self ..))
  exact list.yielded rfl NodeKind.noConfusion

theorem yields_functionCall :
    Yields (·.peekSecond.kind = .leftParen) (· == .functionCall) (functionCall expression) := by
  intro f s of behind
  have named : Lays f .functionCall _ _ := (Lays.opened .functionCall of).takeAs (some .name) .identifier rfl
    NodeKind.noConfusion NodeKind.noConfusion
  have found : At .leftParen ((Draft.opened .functionCall s).takeAs (some .name) .identifier).state := by
    rw [At, State.isAt, Draft.peek_takeAs]
    exact beq_iff_eq.mpr behind
  exact (named.place (yields_argumentList good f _ named.state found) (some .arguments)).yielded rfl
    NodeKind.noConfusion

theorem yields_parenthesized : Yields (At .leftParen) (· == .parenthesized) (parenthesized expression) := by
  intro f s of found
  have inner := (((Lays.opened .parenthesized of).take found rfl).read good (some .expression)).expect .rightParen rfl
  exact inner.yielded rfl NodeKind.noConfusion

theorem yields_list : Yields (At .leftBracket) (· == .list) (list expression) := by
  intro f s of found
  have list := ((Lays.opened .list of).take found rfl).items [.sign, .operand (some .element)] .rightBracket
    (List.mem_cons_self ..) rfl fun d lays => lays.readMany good (List.mem_cons_of_mem _ (List.mem_cons_self ..))
  exact list.yielded rfl NodeKind.noConfusion

theorem yields_mapEntry : Yields Anywhere (· == .mapEntry) (mapEntry expression) := by
  intro f s of _
  have entry := (((Lays.opened .mapEntry of).read good (some .key)).expect .colon rfl).read good (some .value)
  exact entry.yielded rfl NodeKind.noConfusion

theorem yields_map : Yields (At .leftBrace) (· == .map) (map expression) := by
  intro f s of found
  have list := ((Lays.opened .map of).take found rfl).items [.sign, .only (some .entry) .mapEntry] .rightBrace
    (List.mem_cons_self ..) rfl fun d lays =>
      lays.placeMany (yields_mapEntry good f d.state lays.state trivial)
        (List.mem_cons_of_mem _ (List.mem_cons_self ..))
  exact list.yielded rfl NodeKind.noConfusion

theorem yields_interpolation : Yields (At .dollar) (· == .interpolation) (interpolation expression) := by
  intro f s of found
  have inner := ((((Lays.opened .interpolation of).take found rfl).expect .leftParen rfl).read good
    (some .expression)).expect .rightParen rfl
  exact inner.yielded rfl NodeKind.noConfusion

theorem yields_path : Yields (At .slash) (· == .path) (path expression) := by
  intro f s of found
  have inner : Yields (At .dollar) (fun kind => kind == .pathSegment || kind == .interpolation)
      (interpolation expression) := fun f s of found =>
    (yields_interpolation good f s of found).mono fun k same => by rw [beq_iff_eq.mp same]; rfl
  have turn {d : Draft} (lays : Lays f .path ([] ++ NodeKind.layout .path) d) (found : d.isAt .slash = true) :=
    (lays.takeMany found rfl (List.mem_cons_self ..)).slashedPart .pathSegment
      (List.mem_cons_of_mem _ (List.mem_cons_self ..)) inner rfl rfl NodeKind.noConfusion NodeKind.noConfusion
  have segments : Lays f .path (NodeKind.layout .path) ((Draft.opened .path s).loop (pathTurn expression)) :=
    ((Lays.opened .path of).several _).loop (P := (·.isAt .slash = true)) found
      (fun d next lays found => (turn lays found).1 next) fun d next lays found => (turn lays found).2 next
  exact segments.yielded rfl NodeKind.noConfusion

theorem yields_primary : Yields Anywhere NodeKind.isOperand (primary expression) := by
  intro f s of _
  have only {kind : NodeKind} {r : ParseTree × State} (operand : kind.isOperand = true)
      (yielded : Yielded f (· == kind) r) : Yielded f NodeKind.isOperand r :=
    yielded.mono fun k same => by rw [beq_iff_eq.mp same]; exact operand
  have leaf {leaf : NodeKind} (operand : leaf.isOperand = true) (bare : leaf.layout = []) (other : leaf ≠ .comment)
      (noError : leaf ≠ .error) : Yielded f NodeKind.isOperand (leafOf leaf s) :=
    yielded_leafOf of operand bare other noError
  have here {k : TokenKind} (found : s.peek.kind = k) : s.isAt k = true := beq_iff_eq.mpr found
  rw [primary]
  split
  · split
    · rename_i behind
      exact only rfl (yields_functionCall good f s of (beq_iff_eq.mp behind))
    · exact leaf rfl rfl NodeKind.noConfusion NodeKind.noConfusion
  · exact leaf rfl rfl NodeKind.noConfusion NodeKind.noConfusion
  · exact leaf rfl rfl NodeKind.noConfusion NodeKind.noConfusion
  · exact leaf rfl rfl NodeKind.noConfusion NodeKind.noConfusion
  · exact leaf rfl rfl NodeKind.noConfusion NodeKind.noConfusion
  · exact leaf rfl rfl NodeKind.noConfusion NodeKind.noConfusion
  · exact only rfl (yields_parenthesized good f s of (here ‹_›))
  · exact only rfl (yields_list good f s of (here ‹_›))
  · exact only rfl (yields_map good f s of (here ‹_›))
  · exact only rfl (yields_path good f s of (here ‹_›))
  · split
    · exact .of_error of rfl (hasError_placeholder _ _)
    · exact .of_stable stable_stray of (hasError_stray _)

theorem yields_memberField : Yields Anywhere (fun kind => kind == .fieldIdentifier || kind == .functionCall)
    (memberField expression) := by
  intro f s of _
  rw [memberField]
  split
  · split
    · rename_i behind
      exact (yields_functionCall good f s of (beq_iff_eq.mp behind)).mono fun k same => by
        rw [beq_iff_eq.mp same]
        rfl
    · exact yielded_leafOf of rfl rfl NodeKind.noConfusion NodeKind.noConfusion
  · exact .of_error of rfl (hasError_placeholder _ _)

/-- A colon and what may follow it in a range. -/
theorem Lays.rangeTail (lays : Lays f kind ps d) (found : d.isAt .colon = true) :
    Lays f kind (ps ++ [Piece.one .sign] ++ [Piece.maybe (.operand (some .stop))]) (d.rangeTail expression) := by
  have taken := lays.take found rfl
  rw [Draft.rangeTail]
  split
  · exact taken.skip _
  · exact taken.placeMaybe (good f _ taken.state trivial) _

theorem yields_index : Yields Anywhere (fun kind => kind == .range || kind.isOperand) (index expression) := by
  intro f s of _
  have range {r : ParseTree × State} (yielded : Yielded f (· == .range) r) :
      Yielded f (fun kind => kind == .range || kind.isOperand) r :=
    yielded.mono fun k same => by rw [same]; rfl
  rw [index_eq]
  split
  · rename_i colon
    exact range ((((Lays.opened .range of).skip _).rangeTail good colon).yielded rfl NodeKind.noConfusion)
  · have first := good f s of trivial
    split
    · rename_i colon
      have started : Lays f .range _ ((Draft.opened .range (expression s).2).attach (some .start) (expression s).1) :=
        (Lays.opened .range first.state).attach first fun _ _ => Fits.concat_maybe
      have here : ((Draft.opened .range (expression s).2).attach (some .start) (expression s).1).isAt .colon = true := by
        rw [Draft.isAt, State.isAt, Draft.peek_attach]
        exact colon
      exact range ((started.rangeTail good here).yielded rfl NodeKind.noConfusion)
    · exact first.mono fun k operand => by rw [operand, Bool.or_true]

omit good in
/-- A tree that has been read becomes the first child of another one. -/
theorem Yielded.wrapped {kinds : NodeKind → Bool} {r : ParseTree × State} (yielded : Yielded f kinds r)
    (kind : NodeKind) (role : Option Role) :
    Lays f kind ([] ++ [Piece.one ⟨role, kinds⟩]) ((Draft.opened kind r.2).attach role r.1) :=
  (Lays.opened kind yielded.state).attach yielded fun _ _ => Fits.concat_one

omit good in
theorem isAt_wrapped {kind : NodeKind} {r : ParseTree × State} {role : Option Role} {k : TokenKind}
    (found : r.2.isAt k = true) : ((Draft.opened kind r.2).attach role r.1).isAt k = true := by
  rw [Draft.isAt, State.isAt, Draft.peek_attach]
  exact found

omit good in
theorem Yielded.operand {kind : NodeKind} {r : ParseTree × State} (yielded : Yielded f (· == kind) r)
    (operand : kind.isOperand = true) : Yielded f NodeKind.isOperand r :=
  yielded.mono fun k same => by rw [beq_iff_eq.mp same]; exact operand

theorem yielded_postfixTurn (yielded : Yielded f NodeKind.isOperand (d.tree, d.state)) :
    Yielded f NodeKind.isOperand ((postfixTurn expression d).value.tree, (postfixTurn expression d).value.state) := by
  rw [postfixTurn]
  split
  · rename_i dot
    have receiver := (yielded.wrapped .member (some .object)).take (isAt_wrapped dot) rfl
    have access := receiver.place (yields_memberField good f _ receiver.state trivial) (some .field)
    exact (access.yielded rfl NodeKind.noConfusion).operand rfl
  · split
    · rename_i bracket
      have receiver := (yielded.wrapped .indexing (some .object)).take (isAt_wrapped bracket) rfl
      have access := (receiver.place (yields_index good f _ receiver.state trivial) (some .index)).expect
        .rightBracket rfl
      exact (access.yielded rfl NodeKind.noConfusion).operand rfl
    · exact yielded

theorem yields_postfixed : Yields Anywhere NodeKind.isOperand (postfixed expression) := by
  intro f s of _
  exact iterate_keeps (P := fun d : Draft => Yielded f NodeKind.isOperand (d.tree, d.state))
    (yields_primary good f s of trivial) fun d yielded => yielded_postfixTurn good yielded

theorem yields_ternary {unary : Production} (joined : Yields Anywhere NodeKind.isOperand (binary unary)) :
    Yields Anywhere NodeKind.isOperand (ternary unary expression) := by
  intro f s of _
  have first := joined f s of trivial
  rw [ternary]
  dsimp only
  split
  · rename_i question
    have branches := ((((first.wrapped .ternary (some .condition)).take (isAt_wrapped question) rfl).read good
      (some .consequence)).expect .colon rfl).read good (some .alternative)
    exact (branches.yielded rfl NodeKind.noConfusion).operand rfl
  · exact first

theorem yields_unary : Yields (·.isAtUnary = true) NodeKind.isOperand (unary expression) := by
  intro f s of found
  have sign : NodeKind.isPrefixSign (leafKind s.peek.kind) = true := by
    rw [State.isAtUnary, State.isAtAny, List.contains_iff_mem] at found
    simp only [List.mem_cons, List.not_mem_nil, or_false] at found
    rcases found with found | found <;> rw [found] <;> rfl
  have here : (Draft.opened .unary s).isAt s.peek.kind = true := beq_self_eq_true _
  have operand := ((Lays.opened .unary of).takeIn (some .operator) here sign).read good (some .operand)
  exact (operand.yielded rfl NodeKind.noConfusion).operand rfl

end

/-! ## Infix operators -/

/-- What an infix operator says about the tree it makes. -/
theorem of_infixOperator {k : TokenKind} {tier : Tier} (known : infixOperator? k = some (tier, kind)) :
    kind.isOperatorOf (leafKind k) = true ∧ kind.isOperand = true ∧ kind ≠ .comment ∧
      (kind ≠ .typeComparison → kind.layout = NodeKind.layout.joined kind) := by
  unfold infixOperator? at known
  split at known
  all_goals
    cases known
    try exact ⟨rfl, rfl, NodeKind.noConfusion, fun other => by first | rfl | exact absurd rfl other⟩

section

variable {operand : Tier → Production} (good : ∀ tier, Yields Anywhere NodeKind.isOperand (operand tier))
include good

theorem yielded_infixTurn (tier : Tier) (yielded : Yielded f NodeKind.isOperand (d.tree, d.state)) :
    Yielded f NodeKind.isOperand ((infixTurn operand tier d).value.tree, (infixTurn operand tier d).value.state) := by
  rw [infixTurn]
  split
  · rename_i found kind known
    obtain ⟨operator, isOperand, other, layout⟩ := of_infixOperator known
    split
    · have here : (Draft.opened kind d.state).isAt d.state.peek.kind = true := beq_self_eq_true _
      have left := (yielded.wrapped kind (some .left)).takeIn (some .operator) (isAt_wrapped here) operator
      refine (?_ : Yielded f (· == kind) _).operand isOperand
      rw [branch]
      dsimp only
      split
      · rename_i isType
        subst isType
        split
        · exact (left.takeAs (some .right) .typeName rfl NodeKind.noConfusion NodeKind.noConfusion).yielded rfl other
        · have right : Lays f .typeComparison (NodeKind.layout .typeComparison) _ :=
            left.lacking (some .right) .typeName NodeKind.noConfusion
          exact right.yielded rfl other
      · rename_i noType
        exact (left.place (good found f _ left.state trivial) (some .right)).yielded (layout noType) other
    · exact yielded
  · exact yielded

theorem yields_infixed (tier : Tier) : Yields Anywhere NodeKind.isOperand (infixed operand tier) := by
  intro f s of _
  exact iterate_keeps (P := fun d : Draft => Yielded f NodeKind.isOperand (d.tree, d.state))
    (good tier f s of trivial) fun d yielded => yielded_infixTurn good tier yielded

end

theorem yields_loosen {o : Operands} (tier : Tier)
    (good : (∀ t, Yields Anywhere NodeKind.isOperand (o.beside t)) ∧ Yields Anywhere NodeKind.isOperand o.joined) :
    (∀ t, Yields Anywhere NodeKind.isOperand ((o.loosen tier).beside t)) ∧
      Yields Anywhere NodeKind.isOperand (o.loosen tier).joined := by
  have beside : ∀ t, Yields Anywhere NodeKind.isOperand ((o.loosen tier).beside t) := by
    intro t
    rw [Operands.loosen]
    dsimp only
    split
    · exact good.2
    · exact good.1 t
  exact ⟨beside, yields_infixed beside tier⟩

theorem yields_binary {unary : Production} (good : Yields Anywhere NodeKind.isOperand unary) :
    Yields Anywhere NodeKind.isOperand (binary unary) := by
  rw [binary]
  suffices keeps : ∀ (tiers : List Tier) (o : Operands),
      (∀ t, Yields Anywhere NodeKind.isOperand (o.beside t)) ∧ Yields Anywhere NodeKind.isOperand o.joined →
        Yields Anywhere NodeKind.isOperand (tiers.foldl Operands.loosen o).joined from
    keeps _ _ ⟨fun _ => good, good⟩
  intro tiers
  induction tiers with
  | nil => exact fun o good => good.2
  | cons tier rest ih => exact fun o good => ih _ (yields_loosen tier good)

theorem yields_collapse : Yields Anywhere NodeKind.isOperand collapse :=
  fun _ s of _ => .of_stable stable_collapse of (hasError_collapse s)

/-- Expressions and operands are in order whatever nesting is still allowed. -/
theorem yields_expressionAt (budget : Nat) : Yields Anywhere NodeKind.isOperand (expressionAt budget) ∧
    Yields Anywhere NodeKind.isOperand (unaryAt budget) := by
  induction budget with
  | zero =>
    refine ⟨fun f s of _ => yields_collapse f s of trivial, fun f s of _ => ?_⟩
    rw [unaryAt]
    split
    · exact yields_collapse f s of trivial
    · exact yields_postfixed yields_collapse f s of trivial
  | succ budget ih =>
    have nested := yields_ternary ih.1 (yields_binary ih.2)
    refine ⟨fun f s of _ => ?_, fun f s of _ => ?_⟩
    · rw [expressionAt]
      exact nested f s of trivial
    · rw [unaryAt]
      split
      · rename_i found
        exact yields_unary ih.2 f s of found
      · exact yields_postfixed nested f s of trivial

end SecurityRules.Parser
