import SecurityRules.Proofs.Landmark.Expressions
import SecurityRules.Proofs.Nesting.Steps

/-!
# Expressions side by side

One theorem for each production: what the parser with less nesting makes is in step with what the other one makes.
The limit is met in two places, in front of an expression and in front of a prefix operator. Behind a prefix operator
the expression around it is cut off as a whole.
-/

namespace SecurityRules.Parser

variable {f : SourceFile} {limit depth stop : Nat} {isWhole : Bool} {kind : NodeKind} {s s' : State} {d d' : Draft}
  {role : Option Role}

/-- A production of whole expressions and one that is in step with it. -/
structure Nests (f : SourceFile) (limit depth : Nat) (e e' : Production) : Prop where
  reader : Reader f e
  reader' : Reader f e'
  good : Yields Anywhere NodeKind.isOperand e
  inStep : ∀ s s', Level f s s' → ∀ stop, InStep f limit depth true stop (e s) (e' s')

theorem Nests.operand {e e' : Production} (nests : Nests f limit depth e e') {s : State} (of : s.Of f)
    (clean : (e s).1.hasError = false) : (e s).1.kind.isOperand = true :=
  ((nests.good f s of trivial).made clean).1

theorem isWholeIn_inRole (t : ParseTree) (role : Option Role) (parent : NodeKind) :
    (t.inRole role).isWholeIn parent = match role with
      | some .value | some .consequence | some .alternative | some .expression | some .element | some .key
      | some .start | some .stop => true
      | some .condition => parent == .ruleDef
      | some .index => t.kind != .range
      | none => parent == .argumentList && t.isNamed && !t.isExtra
      | _ => false := by
  cases t
  rfl

/-! ## Trees made by drafts -/

theorem InStep.branch {fill fill' : Draft → Draft} (states : Level f s s') (other : kind ≠ .comment)
    (flat : kind.deepens = false) (known : (fill (Draft.opened kind s)).tree.kind = kind)
    (abreast : Abreast f limit kind depth stop s s' (Draft.opened kind s) (Draft.opened kind s') →
      Fine f limit kind depth stop (fill (Draft.opened kind s)) →
      Abreast f limit kind depth stop s s' (fill (Draft.opened kind s)) (fill' (Draft.opened kind s'))) :
    InStep f limit depth false stop (Parser.branch kind fill s) (Parser.branch kind fill' s') :=
  .of_abreast known flat (abreast (.opened states other))

/-! ## Paths -/

/-- Both read the same segment. -/
theorem Level.segment (states : Level f s s') (leaf : NodeKind) :
    Level f (segment leaf s).2 (segment leaf s').2 ∧ (segment leaf s').1 = (segment leaf s).1 := by
  have passed : Level f s.passSegment s'.passSegment := by
    refine iterate_together (R := Level f) (G := fun _ => True) (fun _ _ states => by rw [id, id, states.rest])
      (fun _ _ => trivial) (fun v w states _ => ?_) states.advance trivial
    rw [states.peek, states.isAdjacent]
    split
    · exact .again states.advance states.advance
    · exact .done states
  refine ⟨passed, ?_⟩
  show s'.passSegment.leaf s'.peek.start s'.passSegment.lastStop leaf =
    s.passSegment.leaf s.peek.start s.passSegment.lastStop leaf
  rw [states.peek, passed.lastStop, passed.leaf]

/-- A path goes on for both or for none. -/
theorem Abreast.slashTurn (abreast : Abreast f limit kind depth stop s s' d d') :
    Turn.Paired (fun v w => Abreast f limit kind depth stop s s' v w ∧ v.isAt .slash = true)
      (Abreast f limit kind depth stop s s') (slashTurn d) (slashTurn d') := by
  rw [Parser.slashTurn, Parser.slashTurn, abreast.isAt, abreast.states.isAdjacent]
  split
  · rename_i found
    exact .again ⟨abreast, (Bool.and_eq_true_iff.mp found).1⟩ abreast
  · exact .done abreast

/-- What stands behind a slash. -/
theorem Abreast.slashedPart {opening : TokenKind} {p q : Production} {leaf : NodeKind}
    (abreast : Abreast f limit kind depth stop s s' d d') (isSegment : leaf.isSegment = true)
    (spells : ∀ k, leaf.spells k = isSegmentToken k)
    (fine : Fine f limit kind depth stop (slashedPart opening p leaf d).value)
    (bracketed : d.isAt opening = true → Fine f limit kind depth stop (d.place (some .segment) p) →
      Abreast f limit kind depth stop s s' (d.place (some .segment) p) (d'.place (some .segment) q)) :
    Turn.Paired (fun v w => Abreast f limit kind depth stop s s' v w ∧ v.isAt .slash = true)
      (Abreast f limit kind depth stop s s') (slashedPart opening p leaf d) (slashedPart opening q leaf d') := by
  rw [Parser.slashedPart] at fine ⊢
  rw [Parser.slashedPart, abreast.isAt, abreast.states.peek]
  split
  · rename_i found
    rw [if_pos found, value_slashTurn] at fine
    exact (bracketed found fine).slashTurn
  · split
    · rename_i found
      obtain ⟨states, tree⟩ := abreast.states.segment leaf
      have found' : isSegmentToken d'.state.peek.kind = true := by
        rw [abreast.states.peek]
        exact found
      exact (abreast.attachSame (reads_segment isSegment spells abreast.states.first found)
        (reads_segment isSegment spells abreast.states.second found') states tree (some .segment)).slashTurn
    · exact .done (abreast.lacking (some .segment) (isLeaf_of_isSegment isSegment))

theorem Fine.of_slashedPart {opening : TokenKind} {p : Production} {leaf : NodeKind}
    (fine : Fine f limit kind depth stop (slashedPart opening p leaf d).value) : Fine f limit kind depth stop d := by
  rw [slashedPart] at fine
  split at fine
  · rw [value_slashTurn] at fine
    exact fine.of_place
  · split at fine
    · rw [value_slashTurn] at fine
      exact fine.of_place
    · exact fine.of_lacking

theorem kind_slashedPart (opening : TokenKind) (p : Production) (leaf : NodeKind) (d : Draft) :
    (slashedPart opening p leaf d).value.tree.kind = d.tree.kind := by
  rw [slashedPart]
  split
  · rw [value_slashTurn, Draft.kind_place]
  · split
    · rw [value_slashTurn, Draft.kind_place]
    · exact d.kind_lacking _ _

/-! ## Parts of expressions -/

section

variable {e e' : Production} (nests : Nests f limit depth e e')
include nests

/-- Both read a whole expression. -/
theorem Abreast.nested (abreast : Abreast f limit kind depth stop s s' d d')
    (fine : Fine f limit kind depth stop (d.place role e))
    (known : ∀ t : ParseTree, t.kind.isOperand = true → t.isExtra = false → (t.inRole role).isWholeIn kind = true) :
    Abreast f limit kind depth stop s s' (d.place role e) (d'.place role e') := by
  have reads := nests.reader d.state abreast.states.first
  have clean : (e d.state).1.hasError = false := fine.child_place.1
  refine abreast.read fine reads (nests.reader' d'.state abreast.states.second) (known _ ?_ reads.reading.significant)
    (nests.inStep _ _ abreast.states stop)
  exact nests.operand abreast.states.of clean

theorem inStep_argumentList (states : Level f s s') (found : s.isAt .leftParen = true) :
    InStep f limit depth false stop (argumentList e s) (argumentList e' s') := by
  refine .branch states NodeKind.noConfusion rfl ?_ fun opened fine => ?_
  · rw [Draft.kind_items fun v => v.kind_place none e, Draft.kind_take]
    rfl
  · have taken := opened.takeToken none found TokenKind.noConfusion
    refine taken.items TokenKind.noConfusion ⟨children_take_ne_nil _ none, children_take_ne_nil _ none⟩ fine
      (fun v fine => fine.of_place) fun v w abreast _ fine => ?_
    refine abreast.nested nests fine fun t operand significant => ?_
    have named : t.isNamed = true := (Bool.and_eq_true_iff.mp operand).2
    rw [isWholeIn_inRole, named, significant]
    rfl

theorem inStep_functionCall (states : Level f s s') (spelled : NodeKind.spells .identifier s.peek.kind = true)
    (second : s.peekSecond.kind = .leftParen) :
    InStep f limit depth false stop (functionCall e s) (functionCall e' s') := by
  have ahead : s.rest ≠ [] := by
    intro ended
    rw [State.peek_of_end ended] at spelled
    exact absurd spelled Bool.false_ne_true
  refine .branch states NodeKind.noConfusion rfl ?_ fun opened fine => ?_
  · rw [Draft.kind_place, Draft.kind_takeAs]
    rfl
  · have named := opened.takeAs (some .name) ahead spelled
    have found : ((Draft.opened .functionCall s).takeAs (some .name) .identifier).state.isAt .leftParen = true := by
      rw [State.isAt, Draft.peek_takeAs]
      exact beq_iff_eq.mpr second
    have more := State.rest_of_isAt found TokenKind.noConfusion
    exact named.read fine (reads_argumentList nests.reader named.states.first more)
      (reads_argumentList nests.reader' named.states.second (named.ahead' more)) (isWholeIn_inRole _ _ _)
      (inStep_argumentList nests named.states found)

theorem inStep_parenthesized (states : Level f s s') (found : s.isAt .leftParen = true) :
    InStep f limit depth false stop (parenthesized e s) (parenthesized e' s') := by
  refine .branch states NodeKind.noConfusion rfl ?_ fun opened fine => ?_
  · rw [Draft.kind_expect, Draft.kind_place, Draft.kind_take]
    rfl
  · have taken := opened.takeToken none found TokenKind.noConfusion
    have inner := taken.nested nests fine.of_expect fun t _ _ => isWholeIn_inRole t _ _
    exact inner.expect TokenKind.noConfusion

theorem inStep_list (states : Level f s s') (found : s.isAt .leftBracket = true) :
    InStep f limit depth false stop (list e s) (list e' s') := by
  refine .branch states NodeKind.noConfusion rfl ?_ fun opened fine => ?_
  · rw [Draft.kind_items fun v => v.kind_place (some .element) e, Draft.kind_take]
    rfl
  · have taken := opened.takeToken none found TokenKind.noConfusion
    refine taken.items TokenKind.noConfusion ⟨children_take_ne_nil _ none, children_take_ne_nil _ none⟩ fine
      (fun v fine => fine.of_place) fun v w abreast _ fine => ?_
    exact abreast.nested nests fine fun t _ _ => isWholeIn_inRole t _ _

theorem inStep_mapEntry (states : Level f s s') :
    InStep f limit depth false stop (mapEntry e s) (mapEntry e' s') := by
  refine .branch states NodeKind.noConfusion rfl ?_ fun opened fine => ?_
  · rw [Draft.kind_place, Draft.kind_expect, Draft.kind_place]
    rfl
  · have key := opened.nested nests fine.of_place.of_expect fun t _ _ => isWholeIn_inRole t _ _
    have colon := key.expect (TokenKind.noConfusion : TokenKind.colon ≠ .endOfInput)
    exact colon.nested nests fine fun t _ _ => isWholeIn_inRole t _ _

theorem inStep_map (states : Level f s s') (found : s.isAt .leftBrace = true) :
    InStep f limit depth false stop (map e s) (map e' s') := by
  refine .branch states NodeKind.noConfusion rfl ?_ fun opened fine => ?_
  · rw [Draft.kind_items fun v => v.kind_place (some .entry) (mapEntry e), Draft.kind_take]
    rfl
  · have taken := opened.takeToken none found TokenKind.noConfusion
    refine taken.items TokenKind.noConfusion ⟨children_take_ne_nil _ none, children_take_ne_nil _ none⟩ fine
      (fun v fine => fine.of_place) fun v w abreast filled fine => ?_
    exact abreast.readHollow filled fine (reads_mapEntry nests.reader abreast.states.first)
      (reads_mapEntry nests.reader' abreast.states.second) rfl (isWholeIn_inRole _ _ _)
      (inStep_mapEntry nests abreast.states)

theorem inStep_interpolation (states : Level f s s') (found : s.isAt .dollar = true) :
    InStep f limit depth false stop (interpolation e s) (interpolation e' s') := by
  refine .branch states NodeKind.noConfusion rfl ?_ fun opened fine => ?_
  · rw [Draft.kind_expect, Draft.kind_place, Draft.kind_expect, Draft.kind_take]
    rfl
  · have dollar := opened.takeToken none found TokenKind.noConfusion
    have opening := dollar.expect (TokenKind.noConfusion : TokenKind.leftParen ≠ .endOfInput)
    have inner := opening.nested nests fine.of_expect fun t _ _ => isWholeIn_inRole t _ _
    exact inner.expect TokenKind.noConfusion

theorem inStep_path (states : Level f s s') (found : s.isAt .slash = true) :
    InStep f limit depth false stop (path e s) (path e' s') := by
  refine .branch states NodeKind.noConfusion rfl ?_ fun opened fine => ?_
  · rw [Draft.kind_loop]
    · rfl
    · intro v
      rw [pathTurn_eq, kind_slashedPart, Draft.kind_take]
  · refine iterate_together (R := fun v w => Abreast f limit .path depth stop s s' v w ∧ v.isAt .slash = true)
      (fun _ _ both => by rw [both.1.states.rest]) (fun v fine => ?_) (fun v w both fine => ?_) ⟨opened, found⟩ fine
    · rw [pathTurn_eq] at fine
      exact fine.of_slashedPart.of_take
    · obtain ⟨abreast, slash⟩ := both
      rw [pathTurn_eq] at fine ⊢
      rw [pathTurn_eq]
      have taken := abreast.takeToken none slash TokenKind.noConfusion
      refine taken.slashedPart rfl (fun _ => rfl) fine fun dollar fine => ?_
      have ahead := State.rest_of_isAt dollar TokenKind.noConfusion
      exact taken.read fine (reads_interpolation nests.reader taken.states.first ahead)
        (reads_interpolation nests.reader' taken.states.second (taken.ahead' ahead)) (isWholeIn_inRole _ _ _)
        (inStep_interpolation nests taken.states dollar)

theorem inStep_primary (states : Level f s s') :
    InStep f limit depth false stop (primary e s) (primary e' s') := by
  have leaf : ∀ leaf, InStep f limit depth false stop (leafOf leaf s) (leafOf leaf s') :=
    fun leaf => .of_eq (states.leafOf leaf).1 (states.leafOf leaf).2
  rw [primary, primary, states.peek, states.second_eq]
  split
  · rename_i found
    split
    · rename_i second
      exact inStep_functionCall nests states (by rw [found]; rfl) (beq_iff_eq.mp second)
    · exact leaf _
  · exact leaf _
  · exact leaf _
  · exact leaf _
  · exact leaf _
  · exact leaf _
  · rename_i found
    exact inStep_parenthesized nests states (beq_iff_eq.mpr found)
  · rename_i found
    exact inStep_list nests states (beq_iff_eq.mpr found)
  · rename_i found
    exact inStep_map nests states (beq_iff_eq.mpr found)
  · rename_i found
    exact inStep_path nests states (beq_iff_eq.mpr found)
  · split
    · exact .of_eq states (states.placeholder _)
    · rename_i going
      have ahead : s.rest ≠ [] := by
        refine State.rest_ne_nil fun ended => going ?_
        rw [ended]
        rfl
      exact .of_eq (states.stray ahead).1 (states.stray ahead).2

theorem inStep_memberField (states : Level f s s') :
    InStep f limit depth false stop (memberField e s) (memberField e' s') := by
  rw [memberField, memberField, states.isAt, states.peek, states.second_eq]
  split
  · rename_i found
    have name : s.peek.kind = .identifier ∨ s.peek.kind.isKeyword = true := by
      simpa [State.isAt] using found
    split
    · rename_i second
      refine inStep_functionCall nests states ?_ (beq_iff_eq.mp second)
      simpa [NodeKind.spells] using name
    · exact .of_eq (states.leafOf _).1 (states.leafOf _).2
  · exact .of_eq states (states.placeholder _)

omit nests in
theorem Fine.of_rangeTail (fine : Fine f limit kind depth stop (d.rangeTail e)) : Fine f limit kind depth stop d := by
  rw [Draft.rangeTail] at fine
  split at fine
  · exact fine.of_take
  · exact fine.of_place.of_take

theorem Abreast.rangeTail (abreast : Abreast f limit .range depth stop s s' d d') (found : d.isAt .colon = true)
    (fine : Fine f limit .range depth stop (d.rangeTail e)) :
    Abreast f limit .range depth stop s s' (d.rangeTail e) (d'.rangeTail e') := by
  have taken := abreast.takeToken none found TokenKind.noConfusion
  rw [Draft.rangeTail] at fine ⊢
  rw [Draft.rangeTail, taken.isAtAny]
  split
  · exact taken
  · rename_i more
    rw [if_neg more] at fine
    exact taken.nested nests fine fun t _ _ => isWholeIn_inRole t _ _

omit nests in
theorem kind_rangeTail (d : Draft) (e : Production) : (d.rangeTail e).tree.kind = d.tree.kind := by
  rw [Draft.rangeTail]
  split
  · exact d.kind_take none
  · rw [Draft.kind_place, Draft.kind_take]

/-- A range is no whole expression, what else stands in brackets is. -/
theorem inStep_index (states : Level f s s') :
    InStep f limit depth ((index e s).1.kind != .range) stop (index e s) (index e' s') := by
  rw [index, index, states.isAt]
  split
  · rename_i found
    have known : ((Draft.opened .range s).rangeTail e).tree.kind = .range := kind_rangeTail _ e
    have isRange : ((branch .range (·.rangeTail e) s).1.kind != .range) = false := by
      rw [branch, known]
      rfl
    rw [isRange]
    exact .branch states NodeKind.noConfusion rfl known fun opened fine => opened.rangeTail nests found fine
  · have reads := nests.reader s states.first
    have reads' := nests.reader' s' states.second
    have first := nests.inStep s s' states stop
    have operand := nests.operand states.of
    generalize e s = r at reads first operand ⊢
    generalize e' s' = r' at reads' first ⊢
    obtain ⟨t, u⟩ := r
    obtain ⟨t', u'⟩ := r'
    dsimp only at first operand ⊢
    by_cases colon : u.isAt .colon = true
    · have known : (((Draft.opened .range u).attach (some .start) t).rangeTail e).tree.kind = .range :=
        (kind_rangeTail _ e).trans (Draft.kind_attach _ _ _)
      have isRange :
          ((branch .range (fun d => (d.attach (some .start) t).rangeTail e) u).1.kind != .range) = false := by
        rw [branch, known]
        rfl
      rw [if_pos colon, isRange]
      intro clean cuts
      have fine : Fine f limit .range depth stop (((Draft.opened .range u).attach (some .start) t).rangeTail e) :=
        .of_tree known rfl clean cuts
      obtain ⟨cleanT, cutsT⟩ := (Fine.of_rangeTail fine).child
      rw [isWholeIn_inRole] at cutsT
      obtain ⟨states', same⟩ := first cleanT cutsT
      have wrapped : Abreast f limit .range depth stop s s' ((Draft.opened .range u).attach (some .start) t)
          ((Draft.opened .range u').attach (some .start) t') := by
        refine Abreast.wrapped reads reads' states' (some .start) NodeKind.noConfusion fun shallow => same ?_
        rwa [isWholeIn_inRole] at shallow
      rw [if_pos ((states'.isAt _).trans colon)]
      have whole := wrapped.rangeTail nests colon fine
      exact ⟨whole.states, whole.same_tree known rfl⟩
    · rw [if_neg colon]
      intro clean cuts
      have whole : (t.kind != .range) = true := by
        rw [bne_iff_ne]
        intro isRange
        have := operand clean
        rw [isRange] at this
        cases this
      rw [whole] at cuts ⊢
      obtain ⟨states', same⟩ := first clean cuts
      rw [if_neg (by rw [states'.isAt]; exact colon)]
      exact ⟨states', same⟩

end

/-! ## Operands -/

/-- A tree without errors that the limit cuts well, inside an expression that ends at `stop`. -/
structure WellCut (f : SourceFile) (limit depth stop : Nat) (t : ParseTree) : Prop where
  clean : t.hasError = false
  cuts : CutsWell f limit (t.visits depth false stop)

/-- Operands read side by side from the states `s` and `s'` on. -/
structure Alongside (f : SourceFile) (limit depth stop : Nat) (s s' : State) (d d' : Draft) : Prop where
  reads : Reads f s (d.tree, d.state)
  reads' : Reads f s' (d'.tree, d'.state)
  states : Level f d.state d'.state
  same : Shallow limit (d.tree.visits depth false stop) → d'.tree = d.tree

theorem WellCut.fine (wellCut : WellCut f limit depth stop d.tree) (known : d.tree.kind = kind)
    (flat : kind.deepens = false) : Fine f limit kind depth stop d :=
  .of_tree known flat wellCut.clean wellCut.cuts

theorem Fine.wellCut {c : ParseTree} (fine : Fine f limit kind depth stop (d.attach role c))
    (part : (c.inRole role).isWholeIn kind = false) : WellCut f limit depth stop c := by
  have child := fine.child
  rw [part] at child
  exact ⟨child.1, child.2⟩

theorem Fine.wellCut_place {p : Production} (fine : Fine f limit kind depth stop (d.place role p))
    (part : ((p d.state).1.inRole role).isWholeIn kind = false) : WellCut f limit depth stop (p d.state).1 :=
  Fine.wellCut (d := { d with state := (p d.state).2 }) fine part

theorem Alongside.of_abreast {u u' : State} (abreast : Abreast f limit kind depth stop u u' d d')
    (known : d.tree.kind = kind) (flat : kind.deepens = false) (reads : Reads f s (d.tree, d.state))
    (reads' : Reads f s' (d'.tree, d'.state)) : Alongside f limit depth stop s s' d d' :=
  ⟨reads, reads', abreast.states, abreast.same_tree known flat⟩

/-- Operands become the first children of new trees. -/
theorem Alongside.wrapped (alongside : Alongside f limit depth stop s s' d d') (role : Option Role)
    (other : kind ≠ .comment) (part : (d.tree.inRole role).isWholeIn kind = false) :
    Abreast f limit kind depth stop s s' ((Draft.opened kind d.state).attach role d.tree)
      ((Draft.opened kind d'.state).attach role d'.tree) := by
  refine .wrapped alongside.reads alongside.reads' alongside.states role other fun shallow => alongside.same ?_
  rwa [part] at shallow

/-- A tree with the name behind a dot. -/
def memberOf (e : Production) (d : Draft) : Draft :=
  ((Draft.opened .member d.state).attach (some .object) d.tree).take.place (some .field) (memberField e)

/-- A tree with what stands in brackets behind it. -/
def indexingOf (e : Production) (d : Draft) : Draft :=
  (((Draft.opened .indexing d.state).attach (some .object) d.tree).take.place (some .index) (index e)).expect
    .rightBracket

theorem postfixTurn_eq (e : Production) (d : Draft) : postfixTurn e d =
    if d.isAt .dot then .again (memberOf e d) else if d.isAt .leftBracket then .again (indexingOf e d) else .done d :=
  rfl

theorem kind_memberOf (e : Production) (d : Draft) : (memberOf e d).tree.kind = .member := by
  rw [memberOf, Draft.kind_place, Draft.kind_take, Draft.kind_attach]
  rfl

theorem kind_indexingOf (e : Production) (d : Draft) : (indexingOf e d).tree.kind = .indexing := by
  rw [indexingOf, Draft.kind_expect, Draft.kind_place, Draft.kind_take, Draft.kind_attach]
  rfl

section

variable {e e' : Production} (nests : Nests f limit depth e e')
include nests

theorem Alongside.member (alongside : Alongside f limit depth stop s s' d d') (found : d.isAt .dot = true)
    (wellCut : WellCut f limit depth stop (memberOf e d).tree) :
    Alongside f limit depth stop s s' (memberOf e d) (memberOf e' d') := by
  have ahead := State.rest_of_isAt found TokenKind.noConfusion
  have ahead' : d'.state.rest ≠ [] := by
    rw [alongside.states.rest]
    exact ahead
  have object := alongside.wrapped (some .object) (NodeKind.noConfusion : NodeKind.member ≠ .comment)
    (isWholeIn_inRole _ _ _)
  have dot := object.take none (by rw [Draft.rest_attach]; exact ahead)
  have field := dot.read (wellCut.fine (kind_memberOf e d) rfl) (reader_memberField nests.reader _ dot.states.first)
    (reader_memberField nests.reader' _ dot.states.second) (isWholeIn_inRole _ _ _)
    (inStep_memberField nests dot.states)
  exact .of_abreast field (kind_memberOf e d) rfl (reads_member nests.reader alongside.reads ahead)
    (reads_member nests.reader' alongside.reads' ahead')

theorem Alongside.indexing (alongside : Alongside f limit depth stop s s' d d') (found : d.isAt .leftBracket = true)
    (wellCut : WellCut f limit depth stop (indexingOf e d).tree) :
    Alongside f limit depth stop s s' (indexingOf e d) (indexingOf e' d') := by
  have ahead := State.rest_of_isAt found TokenKind.noConfusion
  have ahead' : d'.state.rest ≠ [] := by
    rw [alongside.states.rest]
    exact ahead
  have object := alongside.wrapped (some .object) (NodeKind.noConfusion : NodeKind.indexing ≠ .comment)
    (isWholeIn_inRole _ _ _)
  have opening := object.take none (by rw [Draft.rest_attach]; exact ahead)
  have inner := opening.read (wellCut.fine (kind_indexingOf e d) rfl).of_expect
    (reader_index nests.reader _ opening.states.first) (reader_index nests.reader' _ opening.states.second)
    (isWholeIn_inRole _ _ _) (inStep_index nests opening.states)
  exact .of_abreast (inner.expect TokenKind.noConfusion) (kind_indexingOf e d) rfl
    (reads_indexing nests.reader alongside.reads ahead) (reads_indexing nests.reader' alongside.reads' ahead')

omit nests in
theorem WellCut.of_postfixTurn (wellCut : WellCut f limit depth stop (postfixTurn e d).value.tree) :
    WellCut f limit depth stop d.tree := by
  rw [postfixTurn_eq] at wellCut
  split at wellCut
  · have fine : Fine f limit .member depth stop (memberOf e d) := wellCut.fine (kind_memberOf e d) rfl
    exact fine.of_place.of_take.wellCut (isWholeIn_inRole _ _ _)
  · split at wellCut
    · have fine : Fine f limit .indexing depth stop (indexingOf e d) := wellCut.fine (kind_indexingOf e d) rfl
      exact fine.of_expect.of_place.of_take.wellCut (isWholeIn_inRole _ _ _)
    · exact wellCut

theorem Alongside.postfixed (states : Level f s s') (wellCut : WellCut f limit depth stop (postfixed e s).1) :
    Alongside f limit depth stop s s' ⟨(postfixed e s).1, (postfixed e s).2⟩
      ⟨(postfixed e' s').1, (postfixed e' s').2⟩ := by
  have back : ∀ v : Draft, WellCut f limit depth stop (postfixTurn e v).value.tree →
      WellCut f limit depth stop v.tree := fun _ => WellCut.of_postfixTurn
  have first : WellCut f limit depth stop (primary e s).1 :=
    back ⟨(primary e s).1, (primary e s).2⟩ (iterate_back (G := fun v : Draft => WellCut f limit depth stop v.tree)
      back wellCut)
  obtain ⟨level, same⟩ := inStep_primary nests states first.clean first.cuts
  refine iterate_together (R := Alongside f limit depth stop s s') (Q := Alongside f limit depth stop s s')
    (G := fun v : Draft => WellCut f limit depth stop v.tree)
    (fun _ _ alongside => by rw [alongside.states.rest]) back (fun v w alongside wellCut => ?_)
    ⟨reader_primary nests.reader s states.first, reader_primary nests.reader' s' states.second, level, same⟩ wellCut
  rw [postfixTurn_eq] at wellCut ⊢
  rw [postfixTurn_eq]
  have isAt : ∀ k, w.isAt k = v.isAt k := alongside.states.isAt
  rw [isAt, isAt]
  split
  · rename_i found
    rw [if_pos found] at wellCut
    have next := alongside.member nests found wellCut
    exact .again next next
  · rename_i none
    rw [if_neg none] at wellCut
    split
    · rename_i found
      rw [if_pos found] at wellCut
      have next := alongside.indexing nests found wellCut
      exact .again next next
    · exact .done alongside

end

end SecurityRules.Parser
