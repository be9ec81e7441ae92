import SecurityRules.Proofs.Nesting.Blocks
import SecurityRules.Proofs.Nesting.Operators
import SecurityRules.Proofs.Nesting.Statements

/-!
# Declarations side by side

An expression past the limit is cut inside its statement, a match body past it is skipped as a whole. Behind either of
them both parsers stand at the same place, and the statements that stay within the limit are the same.
-/

namespace SecurityRules.Parser

open ParseTree (visitsAll)

variable {f : SourceFile} {limit depth stop : Nat} {kind : NodeKind} {s s' : State} {d d' : Draft} {role : Option Role}

/-! ## Headers and names -/

/-- A loop whose turns stay abreast whatever is ahead. -/
theorem Abreast.repeats {turn : Draft → Turn Draft} (abreast : Abreast f limit kind depth stop s s' d d')
    (step : ∀ v w, Abreast f limit kind depth stop s s' v w →
      Turn.Paired (Abreast f limit kind depth stop s s') (Abreast f limit kind depth stop s s') (turn v) (turn w)) :
    Abreast f limit kind depth stop s s' (d.loop turn) (d'.loop turn) :=
  iterate_together (G := fun _ => True) (fun _ _ abreast => by rw [abreast.states.rest]) (fun _ _ => trivial)
    (fun v w abreast _ => step v w abreast) abreast trivial

/-- A token as a leaf of a kind that is spelled like it, or a placeholder. -/
theorem Abreast.takeOr {k : TokenKind} {leaf : NodeKind} (abreast : Abreast f limit kind depth stop s s' d d')
    (role : Option Role) (other : k ≠ .endOfInput) (spelled : leaf.spells k = true) (isLeaf : leaf.isLeaf = true) :
    Abreast f limit kind depth stop s s' (if d.isAt k then d.takeAs role leaf else d.lacking role leaf)
      (if d'.isAt k then d'.takeAs role leaf else d'.lacking role leaf) := by
  rw [abreast.isAt]
  split
  · rename_i found
    refine abreast.takeAs role (State.rest_of_isAt found other) ?_
    rw [State.kind_of_isAt found]
    exact spelled
  · exact abreast.lacking role isLeaf

theorem inStep_rulesVersion (states : Level f s s') (found : s.isAt .kwRulesVersion = true) :
    InStep f limit depth false stop (rulesVersion s) (rulesVersion s') := by
  refine .yielded states NodeKind.noConfusion rfl (yields_rulesVersion f s states.of found) fun opened _ => ?_
  have taken := opened.takeToken none found TokenKind.noConfusion
  have assigned := taken.expect (TokenKind.noConfusion : TokenKind.assign ≠ .endOfInput)
  have version := assigned.takeOr (some .version) (TokenKind.noConfusion : TokenKind.string ≠ .endOfInput)
    (rfl : NodeKind.spells .string .string = true) rfl
  exact version.expect TokenKind.noConfusion

theorem inStep_serviceName (states : Level f s s') (found : s.isAt .identifier = true) :
    InStep f limit depth false stop (serviceName s) (serviceName s') := by
  refine .yielded states NodeKind.noConfusion rfl (yields_serviceName f s states.of trivial) fun opened _ => ?_
  have spelled : ∀ {u : State}, u.peek.kind = .identifier → NodeKind.spells .identifier u.peek.kind = true := by
    intro u kind
    rw [kind]
    rfl
  have first := opened.takeAs none (State.rest_of_isAt found TokenKind.noConfusion)
    (spelled (State.kind_of_isAt found))
  refine first.repeats fun v w abreast => ?_
  rw [serviceNameTurn, serviceNameTurn, abreast.isAt, abreast.states.isAdjacent, abreast.states.second_eq]
  split
  · rename_i more
    obtain ⟨glued, name⟩ := Bool.and_eq_true_iff.mp more
    have dot := abreast.takeToken none (Bool.and_eq_true_iff.mp glued).1 TokenKind.noConfusion
    have kind : v.take.state.peek.kind = .identifier := by
      rw [Draft.peek_take]
      exact beq_iff_eq.mp name
    have ahead : v.take.state.rest ≠ [] := by
      apply State.rest_ne_nil
      rw [kind]
      exact TokenKind.noConfusion
    have next := dot.takeAs none ahead (spelled kind)
    exact .again next next
  · exact .done abreast

/-! ## Match paths -/

/-- Both drafts change their kind, where the kind decides on no child. -/
theorem Abreast.ofKind {other : NodeKind} (abreast : Abreast f limit kind depth stop s s' d d')
    (filled : d.tree.children ≠ [] ∧ d'.tree.children ≠ []) (known : other ≠ .comment)
    (parts : ∀ c : ParseTree, c.isWholeIn other = c.isWholeIn kind) :
    Abreast f limit other depth stop s s' (d.ofKind other) (d'.ofKind other) := by
  have same : ∀ cs, visitsAll other depth stop cs = visitsAll kind depth stop cs := by
    intro cs
    induction cs with
    | nil => rfl
    | cons c rest ih => rw [visitsAll, visitsAll, ih, parts]
  refine ⟨.grown ((abreast.first.grown_of filled.1).ofKind known), .grown ((abreast.second.grown_of filled.2).ofKind
    known), abreast.states, fun shallow => ?_⟩
  have tree := abreast.same (by
    rw [← same]
    simpa [Draft.ofKind] using shallow)
  rw [Draft.ofKind, Draft.ofKind, tree]

theorem inStep_captureSegment (states : Level f s s') (found : s.isAt .leftBrace = true) :
    InStep f limit depth false stop (captureSegment s) (captureSegment s') := by
  have opened : Abreast f limit .singleSegment depth stop s s' (Draft.opened .singleSegment s)
      (Draft.opened .singleSegment s') := .opened states NodeKind.noConfusion
  have named := (opened.takeToken none found TokenKind.noConfusion).takeName (some .name)
  have filled : ∀ u : State, ((Draft.opened .singleSegment u).take.takeName (some .name)).tree.children ≠ [] := by
    intro u
    rw [Draft.takeName]
    split <;> exact children_attach_ne_nil _ _ _
  rw [captureSegment, branch, branch]
  dsimp only
  rw [named.isAt]
  split
  · rename_i assign
    have wide := named.ofKind ⟨filled s, filled s'⟩ (NodeKind.noConfusion : NodeKind.multiSegment ≠ .comment)
      fun _ => rfl
    have sign := (wide.takeToken none assign TokenKind.noConfusion).expect
      (TokenKind.noConfusion : TokenKind.starStar ≠ .endOfInput)
    refine .of_abreast ?_ rfl fun _ => sign.expect TokenKind.noConfusion
    rw [Draft.kind_expect, Draft.kind_expect, Draft.kind_take]
    exact ParseTree.kind_ofKind _ _
  · refine .of_abreast ?_ rfl fun _ => named.expect TokenKind.noConfusion
    rw [Draft.kind_expect, Draft.kind_takeName, Draft.kind_take]
    rfl

/-- A turn of a match path. -/
theorem Abreast.matchPathTurn (abreast : Abreast f limit kind depth stop s s' d d')
    (fine : Fine f limit kind depth stop (matchPathTurn d).value) :
    Turn.Paired (Abreast f limit kind depth stop s s') (Abreast f limit kind depth stop s s') (matchPathTurn d)
      (matchPathTurn d') := by
  have slashed : Abreast f limit kind depth stop s s' (if d.isAt .slash then d.take else d)
      (if d'.isAt .slash then d'.take else d') := by
    rw [abreast.isAt]
    split
    · rename_i found
      exact abreast.takeToken none found TokenKind.noConfusion
    · exact abreast
  rw [matchPathTurn_eq] at fine ⊢
  rw [matchPathTurn_eq]
  refine (slashed.slashedPart rfl (fun _ => rfl) fine fun brace fine => ?_).mono fun _ _ => And.left
  have ahead := State.rest_of_isAt brace TokenKind.noConfusion
  exact slashed.read fine (takes_captureSegment slashed.states.first ahead).1
    (takes_captureSegment slashed.states.second (slashed.ahead' ahead)).1 (isWholeIn_inRole _ _ _)
    (inStep_captureSegment slashed.states brace)

theorem Fine.of_matchPathTurn (fine : Fine f limit kind depth stop (matchPathTurn d).value) :
    Fine f limit kind depth stop d := by
  rw [matchPathTurn_eq] at fine
  have slashed := fine.of_slashedPart
  split at slashed
  · exact slashed.of_take
  · exact slashed

theorem inStep_matchPath (states : Level f s s') :
    InStep f limit depth false stop (matchPath s) (matchPath s') := by
  refine .yielded states NodeKind.noConfusion rfl (yields_matchPath f s states.of trivial) fun opened fine => ?_
  have loop : ∀ {v w : Draft}, Abreast f limit .matchPath depth stop s s' v w →
      Fine f limit .matchPath depth stop (v.loop matchPathTurn) →
      Abreast f limit .matchPath depth stop s s' (v.loop matchPathTurn) (w.loop matchPathTurn) :=
    fun abreast fine => abreast.loop fine (fun _ => Fine.of_matchPathTurn) fun _ _ => Abreast.matchPathTurn
  dsimp only at fine ⊢
  rw [opened.isAt]
  split
  · rename_i slash
    rw [if_pos slash] at fine
    exact loop opened fine
  · rename_i slash
    rw [if_neg slash] at fine
    have lacking := opened.lacking none (rfl : NodeKind.isLeaf (.token .slash) = true)
    rw [lacking.isAtAny]
    split
    · rename_i more
      rw [if_pos more] at fine
      exact loop lacking fine
    · exact lacking

/-! ## Rules and what stands in functions -/

theorem Abreast.optionalSemicolon (abreast : Abreast f limit kind depth stop s s' d d') :
    Abreast f limit kind depth stop s s' d.optionalSemicolon d'.optionalSemicolon := by
  rw [Draft.optionalSemicolon, Draft.optionalSemicolon, abreast.isAt]
  split
  · rename_i found
    exact abreast.takeToken none found TokenKind.noConfusion
  · exact abreast

theorem Fine.of_optionalSemicolon (fine : Fine f limit kind depth stop d.optionalSemicolon) :
    Fine f limit kind depth stop d := by
  rw [Draft.optionalSemicolon] at fine
  split at fine
  · exact fine.of_take
  · exact fine

theorem Abreast.comma (abreast : Abreast f limit kind depth stop s s' d d') :
    Turn.Paired (Abreast f limit kind depth stop s s') (Abreast f limit kind depth stop s s')
      (if d.isAt .comma then Turn.again d.take else .done d)
      (if d'.isAt .comma then Turn.again d'.take else .done d') := by
  rw [abreast.isAt]
  split
  · rename_i found
    have next := abreast.takeToken none found TokenKind.noConfusion
    exact .again next next
  · exact .done abreast

theorem Abreast.methodTurn (abreast : Abreast f limit kind depth stop s s' d d') :
    Turn.Paired (Abreast f limit kind depth stop s s') (Abreast f limit kind depth stop s s') (methodTurn d)
      (methodTurn d') := by
  rw [Parser.methodTurn, Parser.methodTurn, abreast.isAt, abreast.states.peek]
  split
  · rename_i found
    have ahead := State.rest_of_isAt found TokenKind.noConfusion
    refine Abreast.comma ?_
    split
    · refine abreast.takeAs _ ahead ?_
      rw [State.kind_of_isAt found]
      rfl
    · exact abreast.stray ahead
  · exact .done abreast

section

variable {e e' : Production} (nests : Nests f limit depth e e')
include nests

theorem inStep_variableDef (states : Level f s s') (found : s.isAt .kwLet = true) :
    InStep f limit depth false stop (variableDef e s) (variableDef e' s') := by
  refine .yielded states NodeKind.noConfusion rfl (yields_variableDef nests.good f s states.of found)
    fun opened fine => ?_
  have named := (opened.takeToken none found TokenKind.noConfusion).takeName (some .name)
  have assign := named.expect (TokenKind.noConfusion : TokenKind.assign ≠ .endOfInput)
  have value := assign.nested nests fine.of_expect fun t _ _ => isWholeIn_inRole t _ _
  exact value.expect TokenKind.noConfusion

theorem inStep_returnStatement (states : Level f s s') (found : s.isAt .kwReturn = true) :
    InStep f limit depth false stop (returnStatement e s) (returnStatement e' s') := by
  refine .yielded states NodeKind.noConfusion rfl (yields_returnStatement nests.good f s states.of found)
    fun opened fine => ?_
  have word := opened.takeToken none found TokenKind.noConfusion
  exact (word.nested nests fine.of_optionalSemicolon fun t _ _ => isWholeIn_inRole t _ _).optionalSemicolon

theorem inStep_ruleDef (states : Level f s s') (found : s.isAt .kwAllow = true) :
    InStep f limit depth false stop (ruleDef e s) (ruleDef e' s') := by
  refine .yielded states NodeKind.noConfusion rfl (yields_ruleDef nests.good f s states.of found) fun opened fine => ?_
  have fine := fine.of_optionalSemicolon
  refine Abreast.optionalSemicolon ?_
  have word := opened.takeToken none found TokenKind.noConfusion
  have methods : Abreast f limit .ruleDef depth stop s s'
      (if (Draft.opened .ruleDef s).take.isAt .identifier then (Draft.opened .ruleDef s).take.loop methodTurn
        else (Draft.opened .ruleDef s).take.lacking (some .method) .method)
      (if (Draft.opened .ruleDef s').take.isAt .identifier then (Draft.opened .ruleDef s').take.loop methodTurn
        else (Draft.opened .ruleDef s').take.lacking (some .method) .method) := by
    rw [word.isAt]
    split
    · exact word.repeats fun _ _ => Abreast.methodTurn
    · exact word.lacking _ rfl
  generalize (if (Draft.opened .ruleDef s).take.isAt .identifier then (Draft.opened .ruleDef s).take.loop methodTurn
    else (Draft.opened .ruleDef s).take.lacking (some .method) .method) = v at methods fine ⊢
  generalize (if (Draft.opened .ruleDef s').take.isAt .identifier then (Draft.opened .ruleDef s').take.loop methodTurn
    else (Draft.opened .ruleDef s').take.lacking (some .method) .method) = w at methods ⊢
  rw [methods.isAt]
  split
  · rename_i colon
    rw [if_pos colon] at fine
    have condition := (methods.takeToken none colon TokenKind.noConfusion).expect
      (TokenKind.noConfusion : TokenKind.kwIf ≠ .endOfInput)
    exact condition.nested nests fine fun t _ _ => isWholeIn_inRole t _ _
  · exact methods

end

/-! ## Bodies -/

/-- The items of two bodies: to each item of the first one there is one of the second one that preserves it. -/
def ItemsPreserve (f : SourceFile) (limit depth stop : Nat) (item? item?' : TokenKind → Option Production) : Prop :=
  ∀ k p, item? k = some p → ∃ q, item?' k = some q ∧
    ∀ s s', Level f s s' → s.isAt k = true → Preserves f limit depth stop (p s) (q s')

theorem Fine.of_bodyTurn {item? : TokenKind → Option Production}
    (fine : Fine f limit kind depth stop (bodyTurn item? d).value) : Fine f limit kind depth stop d := by
  rw [bodyTurn] at fine
  split at fine
  · exact fine
  · exact fine.of_place

/-- A turn of a body. -/
theorem Guarded.bodyTurn {item? item?' : TokenKind → Option Production}
    (guarded : Guarded f limit kind depth stop s s' d d') (plain : kind ≠ .argumentList)
    (items : ItemsPreserve f limit depth stop item? item?') (reads : ReadsItems f item?) (reads' : ReadsItems f item?')
    (fine : Fine f limit kind depth stop (bodyTurn item? d).value) :
    Turn.Paired (Guarded f limit kind depth stop s s') (Guarded f limit kind depth stop s s') (bodyTurn item? d)
      (bodyTurn item?' d') := by
  rw [Parser.bodyTurn] at fine ⊢
  rw [Parser.bodyTurn, guarded.abreast.isAtAny, guarded.abreast.states.peek]
  split
  · exact .done guarded
  · rename_i going
    rw [if_neg going] at fine
    have ahead : d.state.rest ≠ [] := by
      intro ended
      apply going
      rw [Draft.isAtAny, State.isAtAny, State.peek_of_end ended]
      rfl
    cases known : item? d.state.peek.kind with
    | none =>
      rw [known] at fine
      have fine : Fine f limit kind depth stop (d.place none (skipUntil isBodySync)) := fine
      have clean := fine.child_place.1
      rw [hasError_skipUntil] at clean
      cases clean
    | some p =>
      rw [known] at fine
      obtain ⟨q, known', preserves⟩ := items _ p known
      rw [known']
      have known'' : item?' d'.state.peek.kind = some q := by
        rw [guarded.abreast.states.peek]
        exact known'
      have part : ((p d.state).1.inRole none).isWholeIn kind = false := by
        rw [isWholeIn_inRole]
        simp [plain]
      have next := guarded.place fine (reads _ p guarded.abreast.states.first ahead known)
        (reads' _ q guarded.abreast.states.second (guarded.abreast.ahead' ahead) known'') part
        (preserves _ _ guarded.abreast.states (beq_self_eq_true _))
      exact .again next next

/-- Items in braces. -/
theorem Guarded.block {item? item?' : TokenKind → Option Production}
    (guarded : Guarded f limit kind depth stop s s' d d') (plain : kind ≠ .argumentList)
    (items : ItemsPreserve f limit depth stop item? item?') (reads : ReadsItems f item?) (reads' : ReadsItems f item?')
    (fine : Fine f limit kind depth stop
      (if d.isAt .leftBrace then d.body item? else d.lacking none (.token .leftBrace))) :
    Guarded f limit kind depth stop s s'
      (if d.isAt .leftBrace then d.body item? else d.lacking none (.token .leftBrace))
      (if d'.isAt .leftBrace then d'.body item?' else d'.lacking none (.token .leftBrace)) := by
  rw [guarded.abreast.isAt]
  split
  · rename_i found
    rw [if_pos found] at fine
    have inner : Guarded f limit kind depth stop s s' (d.take.loop (Parser.bodyTurn item?))
        (d'.take.loop (Parser.bodyTurn item?')) :=
      iterate_together (fun _ _ guarded => by rw [guarded.abreast.states.rest]) (fun _ => Fine.of_bodyTurn)
        (fun _ _ guarded fine => guarded.bodyTurn plain items reads reads' fine)
        (guarded.takeToken none found TokenKind.noConfusion) fine.of_expect
    exact inner.expect fine TokenKind.noConfusion
  · rename_i absent
    rw [if_neg absent] at fine
    have clean := fine.clean
    rw [dirty_lacking] at clean
    cases clean

/-! ## Functions -/

theorem inStep_parameter (states : Level f s s') (found : s.isAt .identifier = true) :
    InStep f limit depth false stop (branch .parameter (fun p => p.takeAs none .identifier) s)
      (branch .parameter (fun p => p.takeAs none .identifier) s') := by
  refine .yielded states NodeKind.noConfusion rfl (yields_parameter f s states.of trivial) fun opened _ => ?_
  refine opened.takeAs none (State.rest_of_isAt found TokenKind.noConfusion) ?_
  show NodeKind.spells .identifier s.peek.kind = true
  rw [State.kind_of_isAt found]
  rfl

theorem reads_parameter (place : State.At f s) (found : s.isAt .identifier = true) :
    Reads f s (branch .parameter (fun p => p.takeAs none .identifier) s) := by
  have ahead := State.rest_of_isAt found TokenKind.noConfusion
  refine reads_branch place ahead rfl ((Growing.opened place NodeKind.noConfusion).takeAs none ahead ?_)
  show NodeKind.spells .identifier s.peek.kind = true
  rw [State.kind_of_isAt found]
  rfl

theorem Guarded.comma (guarded : Guarded f limit kind depth stop s s' d d') :
    Turn.Paired (Guarded f limit kind depth stop s s') (Guarded f limit kind depth stop s s')
      (if d.isAt .comma then Turn.again d.take else .done d)
      (if d'.isAt .comma then Turn.again d'.take else .done d') := by
  rw [guarded.abreast.isAt]
  split
  · rename_i found
    have next := guarded.takeToken none found TokenKind.noConfusion
    exact .again next next
  · exact .done guarded

/-- What stands between the commas of a parameter list. -/
def parameterOrStray (d : Draft) : Draft :=
  if d.isAt .identifier then d.place (some .param) (branch .parameter fun p => p.takeAs none .identifier)
  else d.place none stray

theorem parameterTurn_eq (d : Draft) : parameterTurn d =
    if d.isAt .rightParen || d.state.isAtSync then .done d
    else if (parameterOrStray d).isAt .comma then .again (parameterOrStray d).take
    else .done (parameterOrStray d) := rfl

theorem Guarded.parameterOrStray (guarded : Guarded f limit kind depth stop s s' d d')
    (fine : Fine f limit kind depth stop (parameterOrStray d)) :
    Guarded f limit kind depth stop s s' (parameterOrStray d) (parameterOrStray d') := by
  rw [Parser.parameterOrStray] at fine ⊢
  rw [Parser.parameterOrStray, guarded.abreast.isAt]
  split
  · rename_i found
    rw [if_pos found] at fine
    have states := guarded.abreast.states
    refine guarded.place fine (reads_parameter states.first found)
      (reads_parameter states.second ((states.isAt _).trans found)) (isWholeIn_inRole _ _ _) ?_
    exact .of_inStep (inStep_parameter states found) (yields_parameter f _ states.of trivial)
      fun k known => by rw [eq_of_beq known]; rfl
  · rename_i absent
    rw [if_neg absent] at fine
    have clean := fine.child_place.1
    rw [hasError_stray] at clean
    cases clean

theorem Guarded.parameterTurn (guarded : Guarded f limit kind depth stop s s' d d')
    (fine : Fine f limit kind depth stop (parameterTurn d).value) :
    Turn.Paired (Guarded f limit kind depth stop s s') (Guarded f limit kind depth stop s s') (parameterTurn d)
      (parameterTurn d') := by
  rw [parameterTurn_eq] at fine ⊢
  rw [parameterTurn_eq, guarded.abreast.isAt, guarded.abreast.states.isAtSync]
  split
  · exact .done guarded
  · rename_i going
    rw [if_neg going] at fine
    exact (guarded.parameterOrStray fine.of_comma).comma

theorem Fine.of_parameterTurn (fine : Fine f limit kind depth stop (parameterTurn d).value) :
    Fine f limit kind depth stop d := by
  rw [parameterTurn_eq] at fine
  split at fine
  · exact fine
  · have placed := fine.of_comma
    rw [parameterOrStray] at placed
    split at placed
    · exact placed.of_place
    · exact placed.of_place

section

variable {e e' : Production} (nests : Nests f limit depth e e')
include nests

theorem itemsPreserve_functionItem :
    ItemsPreserve f limit depth stop (functionItem? e) (functionItem? e') := by
  intro k p known
  rw [functionItem?.eq_def] at known
  split at known
  · rw [← Option.some.inj known]
    refine ⟨_, rfl, fun s s' states found => ?_⟩
    exact .of_inStep (inStep_variableDef nests states found) (yields_variableDef nests.good f s states.of found)
      fun k known => by rw [eq_of_beq known]; rfl
  · rw [← Option.some.inj known]
    refine ⟨_, rfl, fun s s' states found => ?_⟩
    exact .of_inStep (inStep_returnStatement nests states found)
      (yields_returnStatement nests.good f s states.of found) fun k known => by rw [eq_of_beq known]; rfl
  · cases known

theorem preserves_functionBody (states : Level f s s') :
    Preserves f limit depth stop (functionBody e s) (functionBody e' s') := by
  have yielded := yields_functionBody nests.good f s states.of trivial
  rw [functionBody_eq] at yielded ⊢
  rw [functionBody_eq]
  refine .branch states NodeKind.noConfusion yielded fun opened fine => ?_
  exact opened.block NodeKind.noConfusion (itemsPreserve_functionItem nests) (readsItems_functionItem nests.reader)
    (readsItems_functionItem nests.reader') fine

theorem preserves_functionDef (states : Level f s s') (found : s.isAt .kwFunction = true) :
    Preserves f limit depth stop (functionDef e s) (functionDef e' s') := by
  refine .branch states NodeKind.noConfusion (yields_functionDef nests.good f s states.of found) fun opened fine => ?_
  have word := opened.takeToken none found TokenKind.noConfusion
  have head := fine.of_place
  have paren : ((Draft.opened .functionDef s).take.takeName (some .name)).finds .leftParen = true := by
    by_contra absent
    rw [if_neg absent] at head
    rw [Draft.finds, Bool.or_eq_true, not_or] at absent
    have clean := head.clean
    rw [dirty_expect absent.1] at clean
    cases clean
  dsimp only at fine ⊢
  rw [if_pos paren] at fine head ⊢
  have opening : Fine f limit .functionDef depth stop
      (((Draft.opened .functionDef s).take.takeName (some .name)).expect .leftParen) :=
    Fine.of_parameterTurn (iterate_back (G := Fine f limit .functionDef depth stop) (fun _ => Fine.of_parameterTurn)
      head.of_expect)
  have named := word.takeName opening.of_expect
  have paren' : ((Draft.opened .functionDef s').take.takeName (some .name)).finds .leftParen = true := by
    rw [Draft.finds, named.abreast.isAt, named.abreast.states.isAtSync, named.abreast.states.second_eq]
    exact paren
  rw [if_pos paren']
  have parameters : Guarded f limit .functionDef depth stop s s'
      ((((Draft.opened .functionDef s).take.takeName (some .name)).expect .leftParen).loop parameterTurn)
      ((((Draft.opened .functionDef s').take.takeName (some .name)).expect .leftParen).loop parameterTurn) :=
    iterate_together (fun _ _ guarded => by rw [guarded.abreast.states.rest]) (fun _ => Fine.of_parameterTurn)
      (fun _ _ => Guarded.parameterTurn) (named.expect opening TokenKind.noConfusion) head.of_expect
  have closed := parameters.expect head TokenKind.noConfusion
  exact closed.placeHollow ⟨children_expect_ne_nil _ _, children_expect_ne_nil _ _⟩ fine
    (reads_functionBody nests.reader closed.abreast.states.first)
    (reads_functionBody nests.reader' closed.abreast.states.second) rfl (isWholeIn_inRole _ _ _)
    (preserves_functionBody nests closed.abreast.states)

end

/-! ## Matches and services -/

/-- Bodies that preserve the statements of others. -/
structure Encloses (f : SourceFile) (limit depth : Nat) (p q : Production) : Prop where
  reads : ∀ s, State.At f s → ReadsHollow f s (p s)
  reads' : ∀ s, State.At f s → ReadsHollow f s (q s)
  good : Yields Anywhere (· == .matchBody) p
  preserves : ∀ s s', Level f s s' → ∀ stop, Preserves f limit depth stop (p s) (q s')

theorem preserves_matchDef {p q : Production} (encloses : Encloses f limit depth p q) (states : Level f s s')
    (found : s.isAt .kwMatch = true) : Preserves f limit depth stop (matchDef p s) (matchDef q s') := by
  refine .branch states NodeKind.noConfusion (yields_matchDef encloses.good f s states.of found) fun opened fine => ?_
  have word := opened.takeToken none found TokenKind.noConfusion
  have level := word.abreast.states
  have path := word.placeHollow ⟨children_take_ne_nil _ none, children_take_ne_nil _ none⟩ fine.of_place
    (reads_matchPath level.first) (reads_matchPath level.second) rfl (isWholeIn_inRole _ _ _)
    (.of_inStep (inStep_matchPath level) (yields_matchPath f _ level.of trivial)
      fun k known => by rw [eq_of_beq known]; rfl)
  have level := path.abreast.states
  exact path.placeHollow ⟨children_attach_ne_nil _ _ _, children_attach_ne_nil _ _ _⟩ fine
    (encloses.reads _ level.first) (encloses.reads' _ level.second) rfl (isWholeIn_inRole _ _ _) (encloses.preserves _ _ level stop)

theorem itemsPreserve_matchItem {budget budget' : Nat}
    (encloses : Encloses f limit depth (matchBodyAt budget) (matchBodyAt budget'))
    (nests : Nests f limit depth (expressionAt budget) (expressionAt budget')) :
    ItemsPreserve f limit depth stop (matchItem? budget) (matchItem? budget') := by
  intro k p known
  rw [matchItem?.eq_def] at known
  split at known
  · rw [← Option.some.inj known]
    exact ⟨_, rfl, fun s s' states found => preserves_matchDef encloses states found⟩
  · rw [← Option.some.inj known]
    exact ⟨_, rfl, fun s s' states found => preserves_functionDef nests states found⟩
  · rw [← Option.some.inj known]
    refine ⟨_, rfl, fun s s' states found => ?_⟩
    exact .of_inStep (inStep_ruleDef nests states found) (yields_ruleDef nests.good f s states.of found)
      fun k known => by rw [eq_of_beq known]; rfl
  · cases known

/-- What a match body at the limit leaves, where it starts with its brace. -/
theorem state_skipped (found : s.isAt .leftBrace = true) :
    (matchBodyAt 0 s).2.rest = (skipUntil (fun _ => true) s).2.rest ∧
      (matchBodyAt 0 s).2.lastStop = (skipUntil (fun _ => true) s).2.lastStop := by
  have opens : (Draft.opened .matchBody s).isAt .leftBrace = true := found
  rw [matchBodyAt, branch, if_pos opens]
  exact ⟨Draft.rest_attach _ _ _, Draft.lastStop_attach _ _ _⟩

/-- Both parsers stand at the same place behind a match body, of which the second one reads nothing. -/
theorem Level.skipped {budget : Nat} (states : Level f s s') (clean : (matchBodyAt budget s).1.hasError = false) :
    Level f (matchBodyAt budget s).2 (matchBodyAt 0 s').2 := by
  have reading := ((reads_matchBodyAt budget).1 s states.first).reading
  have place := ((reads_matchBodyAt 0).1 s' states.second).reading.place
  obtain ⟨found, past⟩ := rest_matchBody states.first states.tidy clean
  have found' : s'.isAt .leftBrace = true := (states.isAt _).trans found
  obtain ⟨left, lastStop⟩ := state_skipped found'
  have rest : (matchBodyAt 0 s').2.rest = (matchBodyAt budget s).2.rest := by
    rw [left, rest_skipBlock states.second found', states.rest, past]
  have behind : (matchBodyAt 0 s').2.IsBehindToken f := by
    rw [State.IsBehindToken, lastStop]
    refine (gathered_skipUntil (fun _ => true) states.second).resolve_left fun same => reading.rest_ne clean ?_
    rw [← rest, left, same, states.rest]
  exact ⟨reading.place, place, rest, reading.place.lastStop_eq place (reading.isBehindToken clean) behind rest,
    reading.isLoose states.loose⟩

/-- No statement in a match body at the limit stays within it. -/
theorem preserves_skipped (budget : Nat) (states : Level f s s') :
    Preserves f limit limit stop (matchBodyAt budget s) (matchBodyAt 0 s') := by
  have within : (matchBodyAt budget s).1.hasError = false →
      (Visit.of limit false stop (matchBodyAt budget s).1).within = limit + 1 := by
    intro clean
    have kind := eq_of_beq ((yields_matchBodyAt budget f s states.of trivial).made clean).1
    simp [Visit.of, Visit.within, kind, NodeKind.deepens]
  constructor
  · intro clean _
    refine ⟨states.skipped clean, fun shallow => ?_⟩
    have bound := shallow _ (ParseTree.of_mem_visits limit false stop (matchBodyAt budget s).1)
    rw [within clean] at bound
    exact absurd bound (Nat.not_succ_le_self limit)
  · intro clean _
    refine .of_deep fun v member => ?_
    obtain ⟨c, child, below⟩ := ParseTree.mem_visitsAll.mp member
    have deep := ParseTree.le_within_of_mem_visits below
    have entered : limit + 1 ≤ (Visit.of (Visit.of limit false stop (matchBodyAt budget s).1).within
        (c.isWholeIn (matchBodyAt budget s).1.kind) stop c).within := by
      rw [within clean]
      exact Nat.le_trans (Nat.le_add_right _ _) (Nat.le_add_right _ _)
    exact Nat.le_trans entered deep

theorem hasError_skipped (s : State) : (matchBodyAt 0 s).1.hasError = true := by
  have wrong : ∀ d : Draft, d.isClean = false → d.tree.hasError = true := by
    intro d dirty
    rwa [Draft.isClean, Bool.not_eq_false'] at dirty
  rw [matchBodyAt, branch]
  split
  · exact wrong _ (dirty_attach (hasError_skipUntil _ _))
  · exact wrong _ (dirty_lacking _ _ _)

/-- Match bodies at a level with what is left of the limit there, whatever nesting the other parser allows. -/
theorem encloses_matchBodyAt (budget' budget : Nat) (spent : depth + budget' = limit) :
    Encloses f limit depth (matchBodyAt budget) (matchBodyAt budget') := by
  induction budget' generalizing depth budget with
  | zero =>
    obtain rfl : depth = limit := spent
    exact ⟨(reads_matchBodyAt budget).1, (reads_matchBodyAt 0).1, yields_matchBodyAt budget,
      fun s s' states stop => preserves_skipped budget states⟩
  | succ budget' ih =>
    refine ⟨(reads_matchBodyAt budget).1, (reads_matchBodyAt _).1, yields_matchBodyAt budget,
      fun s s' states stop => ?_⟩
    cases budget with
    | zero =>
      constructor
      all_goals
        intro clean
        rw [hasError_skipped] at clean
        cases clean
    | succ budget =>
      have inner : Encloses f limit (depth + 1) (matchBodyAt budget) (matchBodyAt budget') := ih budget (by omega)
      have nests : Nests f limit (depth + 1) (expressionAt budget) (expressionAt budget') :=
        (nests_expressionAt budget' budget (by omega)).1
      have yielded := yields_matchBodyAt (budget + 1) f s states.of trivial
      rw [matchBodyAt_succ] at yielded ⊢
      rw [matchBodyAt_succ]
      refine .branch states NodeKind.noConfusion yielded fun opened fine => ?_
      exact opened.block NodeKind.noConfusion (itemsPreserve_matchItem inner nests)
        (readsItems_matchItem (reads_matchBodyAt budget)) (readsItems_matchItem (reads_matchBodyAt budget')) fine

theorem preserves_serviceDef (budget : Nat) (states : Level f s s') (found : s.isAt .kwService = true) :
    Preserves f limit 0 stop (serviceDef budget s) (serviceDef limit s') := by
  refine .branch states NodeKind.noConfusion (yields_serviceDef budget f s states.of found) fun opened fine => ?_
  have word := opened.takeToken none found TokenKind.noConfusion
  have encloses : Encloses f limit 0 (matchBodyAt budget) (matchBodyAt limit) :=
    encloses_matchBodyAt limit budget (Nat.zero_add limit)
  have head := fine.of_place
  have name : (Draft.opened .serviceDef s).take.isAt .identifier = true := by
    by_contra absent
    rw [if_neg absent] at head
    have clean := head.clean
    rw [dirty_lacking] at clean
    cases clean
  have level := word.abreast.states
  have name' : (Draft.opened .serviceDef s').take.isAt .identifier = true := (level.isAt _).trans name
  dsimp only at fine ⊢
  rw [if_pos name] at fine head ⊢
  rw [if_pos name']
  have named := word.place head (reads_serviceName level.first name) (reads_serviceName level.second name')
    (isWholeIn_inRole _ _ _) (.of_inStep (inStep_serviceName level name) (yields_serviceName f _ level.of trivial)
      fun k known => by rw [eq_of_beq known]; rfl)
  have level := named.abreast.states
  exact named.placeHollow ⟨children_attach_ne_nil _ _ _, children_attach_ne_nil _ _ _⟩ fine
    (encloses.reads _ level.first) (encloses.reads' _ level.second) rfl (isWholeIn_inRole _ _ _)
    (encloses.preserves _ _ level stop)

end SecurityRules.Parser
