import SecurityRules.Proofs.Grammar.Operators
import SecurityRules.Proofs.Parser.Declarations

/-!
# Declarations follow the grammar

For each production of headers, services, matches, functions and rules, the rule it follows.
-/

namespace SecurityRules.Grammar

theorem starts_body : Starts rules (oneOf [.leftBrace]) (.symbol .body) :=
  Starts.symbol Starts.token.seq.seq

theorem starts_capture : Starts rules (oneOf [.leftBrace]) (.symbol .capture) :=
  Starts.symbol Starts.token.seq.seq.seq

theorem starts_functionBody : Starts rules (oneOf [.leftBrace]) (.symbol .functionBody) :=
  Starts.symbol Starts.token.seq.seq

theorem starts_let : Starts rules (oneOf [.kwLet]) (.symbol .letStatement) :=
  Starts.symbol Starts.token.seq.seq.seq.seq

theorem starts_return : Starts rules (oneOf [.kwReturn]) (.symbol .returnStatement) :=
  Starts.symbol Starts.token.seq.seq

theorem starts_statement : Starts rules (oneOf ([TokenKind.kwLet] ++ [TokenKind.kwReturn]))
    (.symbol .letStatement ||| .symbol .returnStatement) := starts_let.or_append starts_return

theorem starts_match : Starts rules (oneOf [.kwMatch]) (.symbol .matchBlock) :=
  Starts.symbol Starts.token.seq.seq

theorem starts_function : Starts rules (oneOf [.kwFunction]) (.symbol .function) :=
  Starts.symbol Starts.token.seq.seq.seq.seq.seq

theorem starts_rule : Starts rules (oneOf [.kwAllow]) (.symbol .rule) :=
  Starts.symbol Starts.token.seq.seq.seq

theorem starts_item : Starts rules (oneOf ([TokenKind.kwMatch] ++ [TokenKind.kwFunction] ++ [TokenKind.kwAllow]))
    (.symbol .matchBlock ||| .symbol .function ||| .symbol .rule) :=
  (starts_match.or_append starts_function).or_append starts_rule

end SecurityRules.Grammar

namespace SecurityRules.Parser

open Grammar

variable {most : Nat} {ok : List Lexeme → Prop} {s : State} {d : Draft} {expression : Production}

/-! ## Kinds of drafts -/

@[simp] theorem Draft.kind_attach (d : Draft) (role : Option Role) (c : ParseTree) :
    (d.attach role c).tree.kind = d.tree.kind := Parser.kind_attach d role c

@[simp] theorem Draft.kind_place (d : Draft) (role : Option Role) (p : Production) :
    (d.place role p).tree.kind = d.tree.kind := Parser.kind_attach _ role _

@[simp] theorem Draft.kind_takeAs (d : Draft) (role : Option Role) (leaf : NodeKind) :
    (d.takeAs role leaf).tree.kind = d.tree.kind := Parser.kind_attach _ role _

@[simp] theorem Draft.kind_take (d : Draft) (role : Option Role) :
    (d.take role).tree.kind = d.tree.kind := Parser.kind_attach _ role _

@[simp] theorem Draft.kind_lacking (d : Draft) (role : Option Role) (kind : NodeKind) :
    (d.lacking role kind).tree.kind = d.tree.kind := Parser.kind_attach _ role _

@[simp] theorem Draft.kind_expect (d : Draft) (kind : TokenKind) :
    (d.expect kind).tree.kind = d.tree.kind := by
  rw [Draft.expect]
  split
  · exact d.kind_take none
  · split
    · rw [Draft.kind_take, Draft.kind_place]
    · exact d.kind_lacking none _

@[simp] theorem Draft.kind_takeName (d : Draft) (role : Option Role) :
    (d.takeName role).tree.kind = d.tree.kind := by
  rw [Draft.takeName]
  split
  · exact d.kind_takeAs role _
  · exact d.kind_lacking role _

/-- A kind that is no error may be replaced by another. -/
theorem isClean_ofKind {kind : NodeKind} (known : d.tree.kind ≠ .error) (other : kind ≠ .error) :
    (d.ofKind kind).isClean = d.isClean := by
  obtain ⟨⟨k, isMissing, role, extent, children⟩, state⟩ := d
  have known : (k == .error) = false := beq_eq_false_iff_ne.mpr known
  have other : (kind == .error) = false := beq_eq_false_iff_ne.mpr other
  rw [Draft.isClean, Draft.isClean, hasError_eq_any, hasError_eq_any]
  simp only [Draft.ofKind, ParseTree.ofKind, ParseTree.isFlagged, ParseTree.isError, ParseTree.kind,
    ParseTree.isMissing, ParseTree.children, known, other]

theorem Follows.ofKind {kind : NodeKind} {φ : Phrase Symbol} {d' : Draft}
    (follows : Follows most φ ok (d.ofKind kind) d') (known : d.tree.kind ≠ .error) (other : kind ≠ .error) :
    Follows most φ ok d d' where
  earlier := fun clean => by
    rw [← isClean_ofKind known other]
    exact follows.earlier clean
  sound := follows.sound
  complete := fun tidy clean => follows.complete tidy ((isClean_ofKind known other).trans clean)

/-! ## Headers and names -/

/-- A token of a kind as a leaf, or a placeholder for it. -/
theorem Follows.takeOr {role : Option Role} {kind : TokenKind} {leaf missing : NodeKind}
    (other : kind ≠ .endOfInput) (known : leaf ≠ .error) : Follows most (.token kind) ok d
      (if d.isAt kind then d.takeAs role leaf else d.lacking role missing) := by
  split
  · rename_i found
    exact Follows.takeTokenAs role found other known
  · rename_i absent
    exact Follows.dirty (dirty_lacking _ _ _) fun rest derived _ => absent (isAt_of_token derived)

theorem Follows.rulesVersion (found : s.isAt .kwRulesVersion = true) :
    FollowsAt most (.symbol .header) ok s (rulesVersion s) := by
  refine Follows.symbol (Follows.branch ?_ (NodeKind.noConfusion : NodeKind.rulesVersion ≠ .error))
  have keyword : Follows most (.token .kwRulesVersion) anything (Draft.opened .rulesVersion s)
      (Draft.opened .rulesVersion s).take := Follows.takeToken none found TokenKind.noConfusion
  have equals : Follows most (.token .kwRulesVersion ++ .token .assign) anything
      (Draft.opened .rulesVersion s) ((Draft.opened .rulesVersion s).take.expect .assign) :=
    keyword.bind (Follows.expect TokenKind.noConfusion) free_anything
  have version : ∀ v : Draft, Follows most (.token .string) anything v
      (if v.isAt .string then v.takeAs (some .version) .string else v.lacking (some .version) .string) :=
    fun v => Follows.takeOr TokenKind.noConfusion NodeKind.noConfusion
  exact (equals.bind (version _) free_anything).bind (Follows.expect TokenKind.noConfusion) free_anything

/-- The parts of a name go on with a dot that touches the token in front of it. -/
theorem Follows.serviceName (found : s.isAt .identifier = true) :
    FollowsAt most (.token .identifier ++
      .many (.word (fun t => t.kind == .dot && t.isGlued) ++ .token .identifier))
      (headKind · = .leftBrace) s (serviceName s) := by
  refine Follows.branch ?_ (NodeKind.noConfusion : NodeKind.serviceName ≠ .error)
  have first : Follows most (.token .identifier) anything (Draft.opened .serviceName s)
      ((Draft.opened .serviceName s).takeAs none .identifier) :=
    Follows.takeTokenAs none found TokenKind.noConfusion NodeKind.noConfusion
  refine first.bind ?_ free_anything
  have goingOn : ∀ v : Draft, (v.isAt .dot && v.state.isAdjacent &&
      v.state.peekSecond.kind == .identifier) = true ↔ ∃ t u us, v.words = t :: u :: us ∧
        (t.kind == .dot && t.isGlued) = true ∧ u.kind = .identifier := by
    intro v
    rw [Draft.isAt_eq, State.peekSecond_kind]
    cases words : v.state.words with
    | nil => simp [Draft.words, words, headKind]
    | cons t ts =>
      rw [State.isAdjacent_eq words]
      cases ts with
      | nil => simp [Draft.words, words, headKind]
      | cons u us => simp [Draft.words, words, headKind, and_assoc]
  refine Follows.loop (fun ts => ∃ t u us, ts = t :: u :: us ∧ (t.kind == .dot && t.isGlued) = true ∧
    u.kind = .identifier) anything ?_ ?_ Starts.word.seq ?_ ?_ free_anything
  · intro v going
    obtain ⟨t, u, us, words, dot, name⟩ := going
    have taken : Follows most (.word fun t => t.kind == .dot && t.isGlued) anything v v.take :=
      Follows.take none words dot
    refine ⟨v.take.takeAs none .identifier, ?_, taken.bind ?_ free_anything⟩
    · rw [serviceNameTurn, if_pos ((goingOn v).mpr ⟨t, u, us, words, dot, name⟩)]
    · refine Follows.takeTokenAs none ?_ TokenKind.noConfusion NodeKind.noConfusion
      have behind : v.take.words = u :: us := by
        rw [Draft.take, words_takeAs, words]
        rfl
      rw [Draft.isAt_eq, behind, headKind, name]
      rfl
  · intro v stopped
    rw [serviceNameTurn, if_neg fun going => stopped ((goingOn v).mp going)]
  · intro ts us derived
    obtain ⟨vs, dot, name⟩ := derives_seq.mp derived
    obtain ⟨t, rfl, fits⟩ := derives_word.mp dot
    obtain ⟨u, rfl, kind⟩ := derives_token.mp name
    exact ⟨t, u, us, rfl, fits, kind⟩
  · rintro vs ended ⟨t, u, us, rfl, fits, _⟩
    have dot : t.kind = .dot := beq_iff_eq.mp (Bool.and_eq_true_iff.mp fits).1
    exact TokenKind.noConfusion (dot.symm.trans ended)

/-! ## Match paths -/

theorem Follows.captureSegment (found : s.isAt .leftBrace = true) :
    FollowsAt most (.symbol .capture) ok s (captureSegment s) := by
  refine Follows.symbol (Follows.branch ?_ (NodeKind.noConfusion : NodeKind.singleSegment ≠ .error))
  have brace : Follows most (.token .leftBrace) anything (Draft.opened .singleSegment s)
      (Draft.opened .singleSegment s).take := Follows.takeToken none found TokenKind.noConfusion
  have name : Follows most (.token .leftBrace ++ .token .identifier) anything
      (Draft.opened .singleSegment s) ((Draft.opened .singleSegment s).take.takeName (some .name)) :=
    brace.bind (Follows.takeName _) free_anything
  have kind : ((Draft.opened .singleSegment s).take.takeName (some .name)).tree.kind = .singleSegment := by
    rw [Draft.kind_takeName, Draft.kind_take]
    rfl
  generalize (Draft.opened .singleSegment s).take.takeName (some .name) = v at name kind
  have rest : Follows most (.maybe (.token .assign ++ .token .starStar)) (headKind · = .rightBrace) v
      (if v.isAt .assign then (v.ofKind .multiSegment).take.expect .starStar else v) := by
    have starts : Starts rules (oneOf [.assign]) (.token .assign ++ .token .starStar) := Starts.token.seq
    split
    · rename_i found
      refine Follows.maybe_left ?_ fun ended => ?_
      · refine Follows.ofKind ?_ (by rw [kind]; exact NodeKind.noConfusion)
          (NodeKind.noConfusion : NodeKind.multiSegment ≠ .error)
        have equals : Follows most (.token .assign) anything (v.ofKind .multiSegment)
            (v.ofKind .multiSegment).take := Follows.takeToken none found TokenKind.noConfusion
        exact equals.bind (Follows.expect TokenKind.noConfusion) free_anything
      · rw [Draft.isAt_eq, ended] at found
        exact absurd found (by decide)
    · rename_i absent
      rw [Draft.isAt_eq] at absent
      exact Follows.maybe_none (underivable starts (by simpa using absent))
  refine (name.bind rest free_anything).bind (Follows.expect TokenKind.noConfusion) ?_
  intro us vs derived _
  obtain ⟨t, rfl, kind⟩ := derives_token.mp derived
  exact kind

theorem dirty_place {role : Option Role} {p : Production} (wrong : d.isClean = false) :
    (d.place role p).isClean = false := by
  rw [Bool.eq_false_iff]
  intro clean
  rw [Draft.place_eq] at clean
  have kept : d.isClean = true := (clean_of_attach clean).1
  exact Bool.false_ne_true (wrong.symm.trans kept)

/-- A loop keeps the errors that are there before it. -/
theorem dirty_matchPathTurns (wrong : d.isClean = false) : (d.loop matchPathTurn).isClean = false := by
  refine iterate_keeps (P := fun v : Draft => v.isClean = false) wrong fun v wrong => ?_
  rw [matchPathTurn_eq]
  have started : (if v.isAt .slash then v.take else v).isClean = false := by
    split
    · rw [Draft.take, Draft.takeAs]
      exact dirty_place wrong
    · exact wrong
  generalize (if v.isAt .slash then v.take else v) = w at started
  rw [slashedPart]
  split
  · rw [value_slashTurn]
    exact dirty_place started
  · split
    · rw [value_slashTurn]
      exact dirty_place started
    · exact dirty_lacking _ _ _

theorem Follows.matchPath :
    FollowsAt most (.symbol .matchPath) (headKind · = .leftBrace) s (matchPath s) := by
  refine Follows.branch ?_ (NodeKind.noConfusion : NodeKind.matchPath ≠ .error)
  generalize Draft.opened .matchPath s = v
  split
  · rename_i found
    have parts : Follows most (slashed (.symbol .capture ||| .symbol .segment)) anything v
        (v.loop matchPathTurn) := by
      refine Follows.slashLoop (fun w atSlash => ?_) found
      have slash : Follows most (.token .slash) anything w w.take :=
        Follows.takeToken none atSlash TokenKind.noConfusion
      rw [matchPathTurn_eq, if_pos atSlash]
      obtain ⟨next, follows, turns⟩ := Follows.slashedPart (d := w.take)
        ⟨rfl, (NodeKind.noConfusion : NodeKind.collectionSegment ≠ .error)⟩ starts_capture
        Follows.captureSegment
      exact ⟨next, slash.bind follows free_anything, turns⟩
    refine parts.compose (Follows.here : Follows most .empty _ _ _) ?_ ?_
    · intro derived vs same
      obtain ⟨ws, path, ended⟩ := derives_seq.mp derived
      obtain ⟨rfl, _⟩ := derives_stop.mp ended
      obtain rfl := derives_empty.mp same
      exact .symbol path
    · intro short rest derived ended
      have free : Free isGluedSlash rest := by
        intro t head
        obtain ⟨u, us, rfl, kind⟩ := headKind_eq ended TokenKind.noConfusion
        obtain rfl := Option.some.inj head
        rw [isGluedSlash, kind]
        rfl
      exact ⟨rest, trivial, .seq (derives_symbol.mp derived) (derives_stop.mpr ⟨rfl, free⟩),
        fun _ => ⟨Nat.le_trans derived.length_le short, .empty⟩⟩
  · rename_i absent
    refine Follows.dirty ?_ fun rest derived _ => ?_
    · dsimp only
      split
      · exact dirty_matchPathTurns (dirty_lacking _ _ _)
      · exact dirty_lacking _ _ _
    · have starts : Starts rules (oneOf [.slash]) (.symbol .matchPath) :=
        Starts.symbol Starts.token.seq.seq
      have kind := List.mem_singleton.mp (starts.headKind_mem derived)
      rw [Draft.isAt_eq, kind] at absent
      exact absent rfl

/-! ## Functions -/

/-- One parameter of a function, or a token that is none. -/
def parameterItem (d : Draft) : Draft :=
  if d.isAt .identifier then
    d.place (some .param) (branch .parameter fun p => p.takeAs none .identifier)
  else d.place none stray

theorem dirty_stray : (d.place none stray).isClean = false := by
  rw [Draft.place_eq]
  exact dirty_attach (hasError_stray _)

theorem Follows.parameterItem : Follows most (.token .identifier) ok d (parameterItem d) := by
  rw [Parser.parameterItem]
  split
  · rename_i found
    refine Follows.place (Follows.branch ?_ (NodeKind.noConfusion : NodeKind.parameter ≠ .error))
    exact Follows.takeTokenAs none found TokenKind.noConfusion NodeKind.noConfusion
  · rename_i absent
    exact Follows.dirty dirty_stray fun rest derived _ => absent (isAt_of_token derived)

theorem Follows.parameters : Follows most (.maybe (.commaList (.token .identifier)) ++ .token .rightParen)
    ok d ((d.loop parameterTurn).expect .rightParen) := by
  have list : Follows most (.maybe (.commaList (.token .identifier))) (headKind · = .rightParen) d
      (d.loop parameterTurn) := by
    refine Follows.maybeSeparated (fun k => k == .rightParen || (isBodySync k || isTopSync k))
      Parser.parameterItem (fun v => ?_) Starts.token (by decide) (fun v _ => Follows.parameterItem)
      (fun us _ => (trivial : anything us)) fun us ended => ?_
    · rw [parameterTurn, Draft.isAt_eq, State.isAtSync, State.peek_kind]
      rfl
    · rw [ended]
      exact ⟨rfl, TokenKind.noConfusion⟩
  refine list.bind (Follows.expect TokenKind.noConfusion) fun us vs derived _ => ?_
  obtain ⟨t, rfl, kind⟩ := derives_token.mp derived
  exact kind

theorem Follows.variableDef (expressive : Expressive most expression) (found : s.isAt .kwLet = true) :
    FollowsAt most (.symbol .letStatement) ok s (variableDef expression s) := by
  refine Follows.symbol (Follows.branch ?_ (NodeKind.noConfusion : NodeKind.variableDef ≠ .error))
  generalize opened : Draft.opened .variableDef s = v
  have keyword : Follows most (.token .kwLet) anything v v.take :=
    Follows.takeToken none (opened ▸ found) TokenKind.noConfusion
  have name : Follows most (.token .kwLet ++ .token .identifier) anything v (v.take.takeName (some .name)) :=
    keyword.bind (Follows.takeName _) free_anything
  have equals : Follows most (.token .kwLet ++ .token .identifier ++ .token .assign) anything v
      ((v.take.takeName (some .name)).expect .assign) :=
    name.bind (Follows.expect TokenKind.noConfusion) free_anything
  exact (equals.bind (Follows.nested expressive _) free_anything).bind
    (Follows.expect TokenKind.noConfusion) (free_token (by decide))

/-- The tokens behind an item of a body. -/
def itemEnds : List TokenKind := [.kwMatch, .kwFunction, .kwAllow, .kwLet, .kwReturn, .rightBrace]

theorem free_itemEnds {kinds : List TokenKind} {ts : List Lexeme}
    (apart : itemEnds.all (fun k => !kinds.contains k) = true) (ended : headKind ts ∈ itemEnds) :
    Free (oneOf kinds) ts :=
  Free.of_headKind ((Bool.not_eq_true' _).mp (List.all_eq_true.mp apart _ ended))

/-- A semicolon that may be left out. -/
theorem Follows.optionalSemicolon : Follows most (.maybe (.token .semicolon)) (headKind · ∈ itemEnds) d
    d.optionalSemicolon := by
  rw [Draft.optionalSemicolon]
  split
  · rename_i found
    refine (Follows.takeToken none found TokenKind.noConfusion).maybe_left fun ended => ?_
    rw [Draft.isAt_eq, beq_iff_eq] at found
    rw [found] at ended
    exact absurd ended (by decide)
  · rename_i absent
    exact Follows.maybe_none fun rest derived => absent (isAt_of_token derived)

/-- In front of a semicolon or of the end of an item. -/
theorem free_optionalSemicolon {kinds : List TokenKind}
    (apart : (TokenKind.semicolon :: itemEnds).all (fun k => !kinds.contains k) = true) (us vs : List Lexeme)
    (derived : Derives rules (.maybe (.token .semicolon)) us vs) (ended : headKind vs ∈ itemEnds) :
    Free (oneOf kinds) us := by
  obtain ⟨semicolon, others⟩ := Bool.and_eq_true_iff.mp (List.all_cons.symm.trans apart)
  rcases derives_maybe.mp derived with found | rfl
  · obtain ⟨t, rfl, kind⟩ := derives_token.mp found
    refine Free.of_headKind ?_
    rw [headKind, kind]
    exact (Bool.not_eq_true' _).mp semicolon
  · exact free_itemEnds others ended

theorem Follows.returnStatement (expressive : Expressive most expression) (found : s.isAt .kwReturn = true) :
    FollowsAt most (.symbol .returnStatement) (headKind · ∈ itemEnds) s (returnStatement expression s) := by
  refine Follows.symbol (Follows.branch ?_ (NodeKind.noConfusion : NodeKind.returnStatement ≠ .error))
  have keyword : Follows most (.token .kwReturn) anything (Draft.opened .returnStatement s)
      (Draft.opened .returnStatement s).take := Follows.takeToken none found TokenKind.noConfusion
  exact (keyword.bind (Follows.nested expressive _) free_anything).bind Follows.optionalSemicolon
    (free_optionalSemicolon (by decide))

/-! ## Bodies -/

/-- Items in braces. -/
theorem Follows.body {kinds : List TokenKind} {φ : Phrase Symbol} {item? : TokenKind → Option Production}
    (found : d.isAt .leftBrace = true) (starts : Starts rules (oneOf kinds) φ)
    (known : kinds.all (fun k => itemEnds.contains k && k != .rightBrace && (item? k).isSome) = true)
    (follows : ∀ s : State, ∀ p, item? s.peek.kind = some p →
      FollowsAt most φ (headKind · ∈ itemEnds) s (p s)) :
    Follows (most + 1) (.token .leftBrace ++ .many φ ++ .token .rightBrace) ok d (d.body item?) := by
  have known : ∀ kind ∈ kinds, kind ∈ itemEnds ∧ kind ≠ .rightBrace ∧ (item? kind).isSome = true := by
    intro kind member
    simpa [and_assoc] using List.all_eq_true.mp known kind member
  have opening : Follows (most + 1) (.token .leftBrace) anything d d.take :=
    Follows.takeToken none found TokenKind.noConfusion
  have items : Follows most (.many φ) (headKind · = .rightBrace) d.take (d.take.loop (bodyTurn item?)) := by
    refine Follows.loop (fun ts => headKind ts ≠ .rightBrace ∧ headKind ts ≠ .endOfInput)
      (headKind · ∈ itemEnds) ?_ ?_ starts ?_ (fun vs ended going => going.1 ended) ?_
    · intro v going
      have turned : bodyTurn item? v =
          .again (v.place none ((item? v.state.peek.kind).getD (skipUntil isBodySync))) := by
        rw [bodyTurn, Draft.isAtAny, State.isAtAny, State.peek_kind, if_neg]
        simpa using going
      refine ⟨_, turned, ?_⟩
      cases item : item? v.state.peek.kind with
      | some p => exact Follows.place (follows v.state p item)
      | none =>
        refine Follows.dirty ?_ fun rest derived _ => ?_
        · rw [Draft.place_eq]
          exact dirty_attach (hasError_skipUntil _ _)
        · rw [State.peek_kind] at item
          have found := (known _ (starts.headKind_mem derived)).2.2
          rw [item] at found
          exact Bool.false_ne_true found
    · intro v stopped
      rw [bodyTurn, Draft.isAtAny, State.isAtAny, State.peek_kind, if_pos]
      have stopped : headKind v.state.words ≠ .rightBrace → headKind v.state.words = .endOfInput := by
        simpa using stopped
      simpa [or_iff_not_imp_left] using stopped
    · intro ts us derived
      have member := starts.headKind_mem derived
      obtain ⟨item, other, _⟩ := known _ member
      refine ⟨other, fun ended => ?_⟩
      rw [ended] at item
      exact absurd item (by decide)
    · intro us vs derived ended
      rcases derives_many.mp derived with rfl | ⟨ws, first, _⟩
      · rw [ended]
        decide
      · exact (known _ (starts.headKind_mem first)).1
  refine (opening.bind_shorter items Starts.token free_anything).bind (Follows.expect TokenKind.noConfusion) ?_
  intro us vs derived _
  obtain ⟨t, rfl, kind⟩ := derives_token.mp derived
  exact kind

theorem Follows.functionBody (expressive : Expressive most expression) :
    FollowsAt (most + 1) (.symbol .functionBody) ok s (functionBody expression s) := by
  refine Follows.symbol (Follows.branch ?_ (NodeKind.noConfusion : NodeKind.functionBody ≠ .error))
  generalize Draft.opened .functionBody s = v
  split
  · rename_i found
    refine Follows.body found starts_statement rfl fun s p item => ?_
    have ahead : ∀ {kind : TokenKind}, s.peek.kind = kind →
        headKind (Draft.opened .sourceFile s).words = kind :=
      fun found => (State.peek_kind s).symm.trans found
    split at item
    · rename_i found
      rw [← Option.some.inj item]
      exact Follows.leftOf (Follows.variableDef expressive (beq_iff_eq.mpr found)) starts_return
        (by rw [ahead found]; rfl)
    · rename_i found
      rw [← Option.some.inj item]
      exact Follows.rightOf (Follows.returnStatement expressive (beq_iff_eq.mpr found)) starts_let
        (by rw [ahead found]; rfl)
    · cases item
  · rename_i absent
    refine Follows.dirty (dirty_lacking _ _ _) fun rest derived _ => ?_
    have kind := List.mem_singleton.mp (starts_functionBody.headKind_mem (derives_symbol.mpr derived))
    rw [Draft.isAt_eq, kind] at absent
    exact absent rfl

theorem Follows.functionDef (expressive : Expressive most expression) (found : s.isAt .kwFunction = true) :
    FollowsAt (most + 1) (.symbol .function) ok s (functionDef expression s) := by
  refine Follows.symbol (Follows.branch ?_ (NodeKind.noConfusion : NodeKind.functionDef ≠ .error))
  have keyword : Follows (most + 1) (.token .kwFunction) anything (Draft.opened .functionDef s)
      (Draft.opened .functionDef s).take := Follows.takeToken none found TokenKind.noConfusion
  have name : Follows (most + 1) (.token .kwFunction ++ .token .identifier) anything (Draft.opened .functionDef s)
      ((Draft.opened .functionDef s).take.takeName (some .name)) :=
    keyword.bind (Follows.takeName _) free_anything
  dsimp only
  generalize (Draft.opened .functionDef s).take.takeName (some .name) = v at name ⊢
  have parameters : Follows (most + 1) (.token .leftParen ++
      (.maybe (.commaList (.token .identifier)) ++ .token .rightParen)) anything v
      (if v.finds .leftParen then ((v.expect .leftParen).loop parameterTurn).expect .rightParen
        else v.expect .leftParen) := by
    have opening : Follows (most + 1) (.token .leftParen) anything v (v.expect .leftParen) :=
      Follows.expect TokenKind.noConfusion
    by_cases found : v.isAt .leftParen = true
    · rw [Draft.finds, found, Bool.true_or, if_pos rfl]
      exact opening.bind Follows.parameters free_anything
    · have wrong : (v.expect .leftParen).isClean = false := dirty_expect found
      refine Follows.dirty ?_ fun rest derived _ => ?_
      · split
        · rw [Bool.eq_false_iff]
          intro clean
          have list : Follows (most + 1) _ anything (v.expect .leftParen) _ := Follows.parameters
          exact Bool.false_ne_true (wrong.symm.trans (list.earlier clean))
        · exact wrong
      · obtain ⟨us, opened, _⟩ := derives_seq.mp derived
        exact found (isAt_of_token opened)
  refine Follows.bind (name.bind parameters free_anything).assoc.assoc ?_ free_anything
  exact Follows.place (Follows.functionBody expressive)

/-! ## Rules -/

/-- One operation of a rule, or a word that names none. -/
def methodItem (d : Draft) : Draft :=
  if isMethod d.state.peek.text then d.takeAs (some .method) .method else d.place none stray

theorem starts_operation : Starts rules (oneOf [.identifier]) (.word isOperation) := by
  refine Starts.word.mono fun t fits => ?_
  obtain ⟨kind, _⟩ := Bool.and_eq_true_iff.mp fits
  simpa [oneOf] using kind

theorem Follows.methodItem (found : headKind d.words = .identifier) :
    Follows most (.word isOperation) ok d (methodItem d) := by
  obtain ⟨t, us, words, kind⟩ := headKind_eq found TokenKind.noConfusion
  have operation : isOperation t = isMethod d.state.peek.text := by
    rw [isOperation, kind, State.peek_text words]
    rfl
  rw [Parser.methodItem]
  split
  · rename_i known
    exact Follows.takeAs _ words (operation.trans known) NodeKind.noConfusion
  · rename_i unknown
    refine Follows.dirty dirty_stray fun rest derived _ => ?_
    obtain ⟨u, split, fits⟩ := derives_word.mp derived
    obtain ⟨rfl, _⟩ := List.cons.inj (words.symm.trans split)
    exact unknown (operation.symm.trans fits)

theorem Follows.methods : Follows most (.commaList (.word isOperation)) (Free (oneOf [.identifier, .comma])) d
    (if d.isAt .identifier then d.loop methodTurn else d.lacking (some .method) .method) := by
  split
  · rename_i found
    rw [Draft.isAt_eq] at found
    refine Follows.separated (fun k => !(k == .identifier)) Parser.methodItem (fun v => ?_) starts_operation
      (by decide) (fun v going => ?_) (fun us _ => (trivial : anything us)) (fun us free => ?_) ?_
    · rw [methodTurn, Draft.isAt_eq]
      cases headKind v.words == .identifier <;> rfl
    · exact Follows.methodItem (beq_iff_eq.mp ((Bool.not_eq_false' _).mp going))
    · have other := free.headKind_not_mem (by decide)
      exact ⟨by simpa using fun kind => other (by rw [kind]; decide), fun kind => other (by rw [kind]; decide)⟩
    · rw [found]
      rfl
  · rename_i absent
    refine Follows.dirty (dirty_lacking _ _ _) fun rest derived _ => ?_
    obtain ⟨us, first, _⟩ := derives_commaList.mp derived
    have kind := List.mem_singleton.mp (starts_operation.headKind_mem first)
    rw [Draft.isAt_eq, kind] at absent
    exact absent rfl

/-- The tokens that go on a rule. -/
def ruleEnds : List TokenKind := [TokenKind.identifier, .comma] ++ ([TokenKind.colon] ++ expressionEnds)

theorem Follows.condition (expressive : Expressive most expression) :
    Follows most (.maybe (.token .colon ++ .token .kwIf ++ .symbol .expression)) (Free (oneOf ruleEnds)) d
      (if d.isAt .colon then (d.take.expect .kwIf).place (some .condition) expression else d) := by
  split
  · rename_i found
    refine Follows.maybe_left ?_ fun free => ?_
    · have colon : Follows most (.token .colon) anything d d.take :=
        Follows.takeToken none found TokenKind.noConfusion
      have opening : Follows most (.token .colon ++ .token .kwIf) anything d (d.take.expect .kwIf) :=
        colon.bind (Follows.expect TokenKind.noConfusion) free_anything
      have whole := opening.bind (Follows.nested expressive (some .condition)) free_anything
      refine whole.mono (Nat.le_refl _) fun rest free => ?_
      exact (free_append.mp (free_append.mp free).2).2
    · have other := free.headKind_not_mem (by decide)
      rw [Draft.isAt_eq, beq_iff_eq] at found
      rw [found] at other
      exact other (by decide)
  · rename_i absent
    rw [Draft.isAt_eq] at absent
    exact Follows.maybe_none (underivable (Starts.token.seq.seq : Starts rules (oneOf [.colon]) _)
      (by simpa using absent))

theorem Follows.ruleDef (expressive : Expressive most expression) (found : s.isAt .kwAllow = true) :
    FollowsAt most (.symbol .rule) (headKind · ∈ itemEnds) s (ruleDef expression s) := by
  refine Follows.symbol (Follows.branch ?_ (NodeKind.noConfusion : NodeKind.ruleDef ≠ .error))
  have keyword : Follows most (.token .kwAllow) anything (Draft.opened .ruleDef s)
      (Draft.opened .ruleDef s).take := Follows.takeToken none found TokenKind.noConfusion
  have starts : Starts rules (oneOf [.colon]) (.token .colon ++ .token .kwIf ++ .symbol .expression) :=
    Starts.token.seq.seq
  refine ((keyword.bind Follows.methods free_anything).bind (Follows.condition expressive) ?_).bind
    Follows.optionalSemicolon (free_optionalSemicolon (by decide))
  intro us vs derived free
  exact (free_append.mp free).1.of_opens derived (Opens.maybe starts) (oneOf_apart (by decide))

/-! ## Matches and services -/

theorem Follows.matchDef {body : Production}
    (reads : ∀ s, FollowsAt most (.symbol .body) ok s (body s)) (found : s.isAt .kwMatch = true) :
    FollowsAt most (.symbol .matchBlock) ok s (matchDef body s) := by
  refine Follows.symbol (Follows.branch ?_ (NodeKind.noConfusion : NodeKind.matchDef ≠ .error))
  have keyword : Follows most (.token .kwMatch) anything (Draft.opened .matchDef s)
      (Draft.opened .matchDef s).take := Follows.takeToken none found TokenKind.noConfusion
  refine (keyword.bind (Follows.place Follows.matchPath) free_anything).bind (Follows.place (reads _)) ?_
  intro us vs derived _
  exact List.mem_singleton.mp (starts_body.headKind_mem derived)

theorem follows_matchBodyAt (budget : Nat) : ∀ ok s, FollowsAt budget (.symbol .body) ok s
    (matchBodyAt budget s) := by
  induction budget with
  | zero =>
    intro ok s
    refine Follows.exhausted ?_ fun rest derived _ => ?_
    · rw [matchBodyAt]
      show (if (Draft.opened .matchBody s).isAt .leftBrace then
        (Draft.opened .matchBody s).place none (skipUntil fun _ => true)
        else (Draft.opened .matchBody s).lacking none (.token .leftBrace)).isClean = false
      split
      · exact dirty_attach (hasError_skipUntil _ _)
      · exact dirty_lacking _ _ _
    · exact Nat.lt_of_le_of_lt (Nat.zero_le _) (starts_body _ _ derived).1
  | succ budget ih =>
    intro ok s
    rw [matchBodyAt]
    refine Follows.symbol (Follows.branch ?_ (NodeKind.noConfusion : NodeKind.matchBody ≠ .error))
    generalize Draft.opened .matchBody s = v
    split
    · rename_i found
      refine Follows.body found starts_item rfl fun s p item => ?_
      have ahead : ∀ {kind : TokenKind}, s.peek.kind = kind →
          headKind (Draft.opened .sourceFile s).words = kind :=
        fun found => (State.peek_kind s).symm.trans found
      have expressive := expressive_expressionAt budget
      split at item
      · rename_i found
        rw [← Option.some.inj item]
        refine Follows.leftOf (Follows.leftOf ?_ starts_function ?_) starts_rule ?_
        · exact Follows.matchDef (ih _) (beq_iff_eq.mpr found)
        · rw [ahead found]
          rfl
        · rw [ahead found]
          rfl
      · rename_i found
        rw [← Option.some.inj item]
        refine Follows.leftOf (Follows.rightOf ?_ starts_match ?_) starts_rule ?_
        · exact (Follows.functionDef expressive (beq_iff_eq.mpr found)).mono (Nat.le_succ _) fun _ => id
        · rw [ahead found]
          rfl
        · rw [ahead found]
          rfl
      · rename_i found
        rw [← Option.some.inj item]
        refine Follows.rightOf ?_ (starts_match.or_append starts_function) ?_
        · exact Follows.ruleDef expressive (beq_iff_eq.mpr found)
        · rw [ahead found]
          rfl
      · cases item
    · rename_i absent
      refine Follows.dirty (dirty_lacking _ _ _) fun rest derived _ => ?_
      have kind := List.mem_singleton.mp (starts_body.headKind_mem (derives_symbol.mpr derived))
      rw [Draft.isAt_eq, kind] at absent
      exact absent rfl

theorem Follows.serviceDef (budget : Nat) (found : s.isAt .kwService = true) :
    FollowsAt budget (.symbol .service) ok s (serviceDef budget s) := by
  refine Follows.symbol (Follows.branch ?_ (NodeKind.noConfusion : NodeKind.serviceDef ≠ .error))
  have keyword : Follows budget (.token .kwService) anything (Draft.opened .serviceDef s)
      (Draft.opened .serviceDef s).take := Follows.takeToken none found TokenKind.noConfusion
  dsimp only
  generalize (Draft.opened .serviceDef s).take = v at keyword ⊢
  have name : Follows budget (.token .identifier ++
      .many (.word (fun t => t.kind == .dot && t.isGlued) ++ .token .identifier)) (headKind · = .leftBrace) v
      (if v.isAt .identifier then v.place (some .name) Parser.serviceName
        else v.lacking (some .name) .serviceName) := by
    split
    · rename_i found
      exact Follows.place (Follows.serviceName found)
    · rename_i absent
      refine Follows.dirty (dirty_lacking _ _ _) fun rest derived _ => ?_
      obtain ⟨us, first, _⟩ := derives_seq.mp derived
      exact absent (isAt_of_token first)
  refine (keyword.bind name free_anything).bind (Follows.place (follows_matchBodyAt budget _ _)) ?_
  intro us vs derived _
  exact List.mem_singleton.mp (starts_body.headKind_mem derived)

end SecurityRules.Parser
