import SecurityRules.Proofs.Mirror.Expressions
import SecurityRules.Proofs.Recovery.Steps

/-!
# Expressions up to a place where texts part

An expression that ends in front of the place ends there in both texts. One that ends at the place ends with the brace
of a map; then it matters that neither text goes on with what could be part of it.
-/

namespace SecurityRules.Parser

open Grammar

/-- The tokens that go on neither an expression nor the statement that it completes. -/
def isSilent (k : TokenKind) : Bool :=
  !([.dot, .leftBracket, .question, .semicolon] : List TokenKind).contains k && (infixOperator? k).isNone

namespace Parting

variable (σ : Parting)

/-- Neither text goes on with what could be part of an expression. -/
def Quiet : Prop := headKind σ.ahead ∈ itemEnds ∧ isSilent (headKind σ.ahead') = true

/-- A production of expressions: only behind a brace may it reach the place, and if the texts are quiet there. -/
def Carried (p : Production) : Prop :=
  σ.Carries (σ.final = .rightBrace → σ.Quiet) (σ.final = .rightBrace ∧ σ.Quiet) p

variable {σ} {s s' : State} {d d' : Draft} {needs gives : Prop} {expression p : Production} {g : Draft → Draft}
  {closing : TokenKind}

/-- A production that ends with a token that is known. -/
theorem CarriesAt.carried {last : TokenKind}
    (carries : σ.CarriesAt (σ.final = .rightBrace → σ.Quiet) ((σ.final = .rightBrace → σ.Quiet) ∧ σ.final = last) p s)
    (known : last.isFence = true → last = .rightBrace) :
    σ.CarriesAt (σ.final = .rightBrace → σ.Quiet) (σ.final = .rightBrace ∧ σ.Quiet) p s :=
  carries.mono id fun needed given => by
    have brace := given.2.trans (known (given.2 ▸ σ.fence))
    exact ⟨brace, needed brace⟩

theorem final_ne {k : TokenKind} (other : k.isFence = false) (same : needs ∧ σ.final = k) : False := by
  have fence := σ.fence
  rw [same.2, other] at fence
  cases fence

/-- A production that ends with a token that is no brace or semicolon. -/
theorem CarriesAt.closed {last : TokenKind} (carries : σ.CarriesAt needs (needs ∧ σ.final = last) p s)
    (other : last.isFence = false) : σ.CarriesAt needs gives p s :=
  carries.mono id fun _ known => (final_ne other known).elim

theorem CarriesAt.never (carries : σ.CarriesAt needs False p s) : σ.CarriesAt needs gives p s :=
  carries.mono id fun _ never => never.elim

theorem TurnAt.comma : σ.TurnAt False needs False (fun d => if d.isAt .comma then .again d.take else .done d) d := by
  refine .ite (fun _ grows inner => StepAt.isAt grows inner.inner .comma) (fun found => ?_) fun _ => .stop d
  have kind : d.state.peek.kind = .comma := beq_iff_eq.mp found
  exact .again (.takeOther none (kind ▸ rfl))

theorem StepAt.items (closing : TokenKind) (item : ∀ d, σ.StepAt False False g d) :
    σ.StepAt needs (needs ∧ σ.final = closing) (·.items closing g) d := by
  refine andThen (loopInside (fun d => ?_) d) (expect closing)
  refine .ite (fun d' grows inner => ?_) (fun _ => .done .here) fun _ => .behind (.done (item d)) .comma
  rw [isAt grows inner.inner, grows.state.kind inner.inner]

/-! ## Segments of paths -/

end Parting

/-- The text of tokens that touch each other, from an offset in front of them on. -/
theorem text_run {f : SourceFile} {v : State} (start : Nat) (of : v.Of f) (low : start ≤ v.lastStop) :
    let run := iterate id
      (fun s : State => if isSegmentToken s.peek.kind && s.isAdjacent then .again s.advance else .done s) v
    run.Of f ∧ f.bytesBetween start run.lastStop =
      f.bytesBetween start v.lastStop ++ (v.words.takeWhile isGluedSegment).flatMap Lexeme.text := by
  have goes : ∀ v : State, (isSegmentToken v.peek.kind && v.isAdjacent) = true → ∃ t us, v.words = t :: us ∧
      isGluedSegment t = true ∧ v.rest ≠ [] ∧ v.peek.start = v.lastStop := by
    intro v going
    obtain ⟨t, head, fits⟩ := gluedSegment_iff.mp going
    obtain ⟨us, words⟩ := List.head?_eq_some_iff.mp head
    obtain ⟨found, adjacent⟩ := Bool.and_eq_true_iff.mp going
    exact ⟨t, us, words, fits, rest_of_isSegmentToken found, beq_iff_eq.mp adjacent⟩
  dsimp only
  fun_induction iterate id (fun s : State =>
    if isSegmentToken s.peek.kind && s.isAdjacent then Turn.again s.advance else .done s) v with
  | case1 v next found =>
    split at found
    · cases found
    · rename_i stopped
      rw [← Turn.done.inj found]
      refine ⟨of, ?_⟩
      cases words : v.words with
      | nil => simp
      | cons t us =>
        rw [List.takeWhile_cons_of_neg, List.flatMap_nil, List.append_nil]
        exact fun glued => stopped (gluedSegment_iff.mpr ⟨t, by rw [words]; rfl, glued⟩)
  | case2 v next found shorter ih =>
    split at found
    · rename_i going
      obtain rfl := Turn.again.inj found
      obtain ⟨t, us, words, fits, ahead, adjacent⟩ := goes v going
      obtain ⟨forward, spelled⟩ := of.spelled_peek
      rw [adjacent] at forward spelled
      have stop := lastStop_advance ahead
      obtain ⟨ofRun, text⟩ := ih of.advance (by omega)
      refine ⟨ofRun, ?_⟩
      rw [text, stop, ← f.bytesBetween_append low forward, spelled, State.words_advance, words,
        List.takeWhile_cons_of_pos fits, List.flatMap_cons, State.peek_text words, List.append_assoc, List.tail_cons]
    · cases found
  | case3 v next found longer =>
    split at found
    · rename_i going
      obtain rfl := Turn.again.inj found
      obtain ⟨-, -, -, -, ahead, -⟩ := goes v going
      exact absurd (by rw [id, id, ← Parting.length_advance ahead]; exact Nat.lt_succ_self _) longer
    · cases found

/-- The text of a segment is that of its words. -/
theorem text_passSegment {f : SourceFile} {s : State} {t : Lexeme} {us : List Lexeme} (of : s.Of f)
    (words : s.words = t :: us) : s.passSegment.Of f ∧ f.bytesBetween s.peek.start s.passSegment.lastStop =
      t.text ++ (us.takeWhile isGluedSegment).flatMap Lexeme.text := by
  have ahead : s.rest ≠ [] := by
    rintro ended
    rw [State.words, ended] at words
    cases words
  obtain ⟨forward, spelled⟩ := of.spelled_peek
  have stop := lastStop_advance ahead
  obtain ⟨ofRun, text⟩ := text_run s.peek.start of.advance (by omega)
  refine ⟨ofRun, ?_⟩
  rw [State.passSegment, text, stop, spelled, State.peek_text words, State.words_advance, words]
  rfl

namespace Parting

theorem takeWhile_append_of_last {α : Type} {p : α → Bool} {ws : List α} {t : α} (us : List α) (last : ws.getLast? = some t)
    (stops : p t = false) : (ws ++ us).takeWhile p = ws.takeWhile p ∧ (ws ++ us).dropWhile p = ws.dropWhile p ++ us ∧
      (ws.dropWhile p).getLast? = some t := by
  induction ws with
  | nil => cases last
  | cons w ws ih =>
    by_cases goes : p w = true
    · rcases ws with _ | ⟨v, ws⟩
      · rw [List.getLast?_singleton] at last
        rw [Option.some.inj last, stops] at goes
        cases goes
      · rw [List.getLast?_cons_cons] at last
        obtain ⟨taken, left, final⟩ := ih last
        rw [List.cons_append, List.takeWhile_cons_of_pos goes, List.takeWhile_cons_of_pos goes,
          List.dropWhile_cons_of_pos goes, List.dropWhile_cons_of_pos goes, taken]
        exact ⟨rfl, left, final⟩
    · rw [List.cons_append, List.takeWhile_cons_of_neg goes, List.takeWhile_cons_of_neg goes,
        List.dropWhile_cons_of_neg goes, List.dropWhile_cons_of_neg goes]
      exact ⟨rfl, rfl, last⟩

variable {σ : Parting} {s s' : State} {d d' : Draft} {needs gives : Prop} {expression p : Production}
  {g : Draft → Draft} {closing : TokenKind}

theorem length_passSegment (found : isSegmentToken s.peek.kind = true) :
    s.passSegment.rest.length < s.rest.length := by
  have ahead := List.length_pos_iff.mpr (rest_of_isSegmentToken found)
  rw [← State.length_words, ← State.length_words, (words_passSegment s).1]
  have dropped := (List.dropWhile_sublist isGluedSegment (l := s.words.tail)).length_le
  rw [List.length_tail] at dropped
  rw [← State.length_words] at ahead
  omega

theorem isFence_of_isSegmentToken {k : TokenKind} (isSegment : isSegmentToken k = true) : k.isFence = false := by
  cases k <;> first | rfl | cases isSegment

/-- A segment ends with a token that is no brace or semicolon. -/
theorem CarriesAt.segment {leaf : NodeKind} (other : leaf ≠ .comment) (found : isSegmentToken s.peek.kind = true) :
    σ.CarriesAt needs False (segment leaf) s where
  less := Nat.le_of_lt (length_passSegment found)
  enters := fun _ stands => stands.inner_of_lt (length_passSegment found)
  same := fun _ stands s' same => by
    have inner := stands.inner_of_lt (v := s.passSegment) (length_passSegment found)
    obtain ⟨t, ws, words, words', final⟩ := same.next inner
    obtain ⟨last, ending⟩ : ∃ last, ws.getLast? = some last := by
      cases ws with
      | nil =>
        have fence := isFence_of_isSegmentToken found
        rw [State.peek_kind, words] at fence
        have fence : t.kind.isFence = false := fence
        rw [final t rfl, σ.fence] at fence
        cases fence
      | cons u ws => exact ⟨_, List.getLast?_eq_some_getLast (List.cons_ne_nil u ws)⟩
    have kind : last.kind = σ.final := final last (by rw [List.getLast?_cons, ending]; rfl)
    have stops : isGluedSegment last = false := by
      rw [Bool.eq_false_iff]
      intro glued
      have fence := isFence_of_isSegmentToken (Bool.and_eq_true_iff.mp glued).1
      rw [kind, σ.fence] at fence
      cases fence
    obtain ⟨taken, left, final'⟩ := takeWhile_append_of_last σ.ahead ending stops
    obtain ⟨taken', left', -⟩ := takeWhile_append_of_last σ.ahead' ending stops
    obtain ⟨of, text⟩ := text_passSegment same.first words
    obtain ⟨of', text'⟩ := text_passSegment same.second words'
    have behind : s.passSegment.words = ws.dropWhile isGluedSegment ++ σ.ahead := by
      rw [(words_passSegment s).1, words]
      exact left
    have behind' : s'.passSegment.words = ws.dropWhile isGluedSegment ++ σ.ahead' := by
      rw [(words_passSegment s').1, words']
      exact left'
    refine ⟨⟨.leaf leaf false none ?_, beq_eq_false_iff_ne.mpr other, of, of', _, behind, behind', ?_⟩, .inl ?_⟩
    · show σ.first.bytesBetween s.peek.start s.passSegment.lastStop =
        σ.second.bytesBetween s'.peek.start s'.passSegment.lastStop
      rw [text, text', taken, taken']
    · intro u ends
      rw [final'] at ends
      rw [← Option.some.inj ends, kind]
    · show σ.ahead.length < s.passSegment.rest.length
      have filled : 0 < (ws.dropWhile isGluedSegment).length := by
        rw [List.length_pos_iff]
        rintro none
        rw [none] at final'
        cases final'
      rw [← State.length_words, behind, List.length_append]
      omega

theorem TurnAt.slashTurn (d : Draft) : σ.TurnAt False needs False slashTurn d where
  less := by rw [value_slashTurn]
  back := by rw [value_slashTurn]; exact id
  same := fun _ _ inner d' grows => by
    have both : (d.isAt .slash && d.state.isAdjacent) = (d'.isAt .slash && d'.state.isAdjacent) := by
      rw [StepAt.isAt grows inner.inner, grows.state.isAdjacent inner.inner]
    rw [value_slashTurn, value_slashTurn, Parser.slashTurn, Parser.slashTurn, ← both]
    refine ⟨grows, ?_, inner⟩
    split <;> rfl

theorem TurnAt.slashedPart {opening : TokenKind} {bracketed : Production} {leaf : NodeKind}
    (carries : d.isAt opening = true → σ.CarriesAt needs False bracketed d.state) (other : leaf ≠ .comment) :
    σ.TurnAt False needs False (slashedPart opening bracketed leaf) d := by
  refine .ite (fun d' grows inner => StepAt.isAt grows inner.inner opening)
    (fun found => .behind (.done (.place (some .segment) (carries found))) (.slashTurn _)) fun _ => ?_
  refine .ite (fun d' grows inner => ?_)
    (fun found => .behind (.done (.place (some .segment) (.segment other found))) (.slashTurn _))
    fun _ => .done (.lacking (some .segment) leaf)
  rw [grows.state.kind inner.inner]

/-- If it makes no error, something is read behind the slash. -/
theorem enters_slashedPart {opening : TokenKind} {bracketed : Production} {leaf : NodeKind}
    (carries : d.isAt opening = true → σ.CarriesAt needs False bracketed d.state) (other : leaf ≠ .comment)
    (clean : (slashedPart opening bracketed leaf d).value.isClean = true)
    (stands : σ.Stands needs (slashedPart opening bracketed leaf d).value.state) : σ.Inner d.state := by
  rw [Parser.slashedPart] at clean stands
  split at clean
  · rename_i found
    rw [if_pos found, value_slashTurn] at stands
    rw [value_slashTurn] at clean
    exact (StepAt.place (some .segment) (carries found)).enters clean stands
  · rename_i absent
    rw [if_neg absent] at stands
    split at clean
    · rename_i found
      rw [if_pos found, value_slashTurn] at stands
      rw [value_slashTurn] at clean
      exact (StepAt.place (some .segment) (.segment other found)).enters clean stands
    · have wrong := dirty_lacking d (some .segment) leaf
      rw [Turn.value, wrong] at clean
      cases clean

/-! ## Expressions -/

section

variable (carried : σ.Carried expression)
include carried

/-- An expression that something else follows. -/
theorem Carried.nested (role : Option Role) (d : Draft) : σ.StepAt False False (·.place role expression) d :=
  .place role (carried d.state).inside

theorem Carried.argumentList (s : State) :
    σ.CarriesAt needs (needs ∧ σ.final = .rightParen) (argumentList expression) s :=
  .branch NodeKind.noConfusion ((StepAt.take none).inside.andThen (.items .rightParen (carried.nested none)))

theorem Carried.functionCall (s : State) :
    σ.CarriesAt needs (needs ∧ σ.final = .rightParen) (functionCall expression) s :=
  .branch NodeKind.noConfusion
    ((StepAt.takeAs (some .name) NodeKind.noConfusion).inside.andThen (.place (some .arguments) (carried.argumentList _)))

theorem Carried.parenthesized (s : State) :
    σ.CarriesAt needs (needs ∧ σ.final = .rightParen) (parenthesized expression) s :=
  .branch NodeKind.noConfusion
    (((StepAt.take none).inside.andThen (carried.nested (some .expression) _)).andThen (.expect .rightParen))

theorem Carried.list (s : State) : σ.CarriesAt needs (needs ∧ σ.final = .rightBracket) (list expression) s :=
  .branch NodeKind.noConfusion
    ((StepAt.take none).inside.andThen (.items .rightBracket (carried.nested (some .element))))

theorem Carried.mapEntry (s : State) : σ.CarriesAt False False (mapEntry expression) s :=
  .branch NodeKind.noConfusion
    (((carried.nested (some .key) _).andThen (StepAt.expect .colon).inside).andThen (carried.nested (some .value) _))

theorem Carried.map (s : State) : σ.CarriesAt needs (needs ∧ σ.final = .rightBrace) (map expression) s :=
  .branch NodeKind.noConfusion
    ((StepAt.take none).inside.andThen (.items .rightBrace fun d => .place (some .entry) (carried.mapEntry d.state)))

theorem Carried.interpolation (s : State) :
    σ.CarriesAt needs (needs ∧ σ.final = .rightParen) (interpolation expression) s :=
  .branch NodeKind.noConfusion
    ((((StepAt.take none).inside.andThen (StepAt.expect .leftParen).inside).andThen
      (carried.nested (some .expression) _)).andThen (.expect .rightParen))

/-- A path ends with a token that is no brace or semicolon. -/
theorem Carried.path (s : State) : σ.CarriesAt needs False (path expression) s := by
  have bracketed (d : Draft) : d.isAt .dollar = true → σ.CarriesAt needs False (Parser.interpolation expression) d.state :=
    fun _ => (carried.interpolation d.state).closed rfl
  have part (d : Draft) :
      σ.TurnAt False needs False (slashedPart .dollar (Parser.interpolation expression) .pathSegment) d.take :=
    .slashedPart (bracketed d.take) NodeKind.noConfusion
  have turns (d : Draft) : σ.TurnAt False needs False (pathTurn expression) d := by
    rw [funext (pathTurn_eq expression)]
    exact .behindInner (StepAt.take none).inside (part d) (enters_slashedPart (bracketed d.take) NodeKind.noConfusion)
  -- The first turn takes the slash.
  refine .branch NodeKind.noConfusion (.loop turns fun clean stands => ?_)
  exact (StepAt.take none).inside.enters ((part _).back clean)
    (enters_slashedPart (bracketed _) NodeKind.noConfusion clean stands).stands

end

/-- A token that is no brace or semicolon is not the one in front of the place. -/
theorem CarriesAt.plainLeaf {leaf : NodeKind} (other : leaf ≠ .comment) (plain : s.peek.kind.isFence = false) :
    σ.CarriesAt needs gives (Parser.leafOf leaf) s :=
  (leafOf other).closed plain

/-- A name, or a call if a parenthesis follows. -/
def named (expression : Production) (leaf : NodeKind) : Production := fun s =>
  if s.peekSecond.kind == .leftParen then functionCall expression s else leafOf leaf s

/-- An expression without operators, given its first token. -/
def primaryAt (expression : Production) : TokenKind → Production
  | .identifier => named expression .identifier
  | .number => leafOf .number
  | .string => leafOf .string
  | .kwTrue | .kwFalse => leafOf .boolean
  | .kwNull => leafOf .null
  | .leftParen => Parser.parenthesized expression
  | .leftBracket => Parser.list expression
  | .leftBrace => Parser.map expression
  | .slash => Parser.path expression
  | kind =>
    if isExpressionStop kind || kind == .question then fun s => (s.placeholder .identifier, s) else stray

theorem primary_eq (expression : Production) (s : State) :
    primary expression s = primaryAt expression s.peek.kind s := by
  rw [primary]
  generalize s.peek.kind = kind
  cases kind <;> rfl

section

variable (carried : σ.Carried expression)
include carried

theorem Carried.named {leaf : NodeKind} (other : leaf ≠ .comment) (plain : s.peek.kind.isFence = false) :
    σ.CarriesAt needs False (named expression leaf) s :=
  .ite (fun s' same inner => by rw [same.second_kind inner plain])
    (fun _ => (carried.functionCall s).closed rfl) fun _ => .plainLeaf other plain

theorem Carried.primary : σ.Carried (primary expression) := by
  intro s
  suffices first : σ.CarriesAt (σ.final = .rightBrace → σ.Quiet) (σ.final = .rightBrace ∧ σ.Quiet)
      (primaryAt expression s.peek.kind) s by
    refine first.congr (primary_eq expression s) fun s' same inner => ?_
    rw [primary_eq, same.kind inner]
  rw [primaryAt.eq_def]
  split
  · rename_i kind
    exact (carried.named NodeKind.noConfusion (kind ▸ rfl)).never
  · rename_i kind
    exact .plainLeaf NodeKind.noConfusion (kind ▸ rfl)
  · rename_i kind
    exact .plainLeaf NodeKind.noConfusion (kind ▸ rfl)
  · rename_i kind
    exact .plainLeaf NodeKind.noConfusion (kind ▸ rfl)
  · rename_i kind
    exact .plainLeaf NodeKind.noConfusion (kind ▸ rfl)
  · rename_i kind
    exact .plainLeaf NodeKind.noConfusion (kind ▸ rfl)
  · exact (carried.parenthesized s).closed rfl
  · exact (carried.list s).closed rfl
  · exact (carried.map s).carried fun _ => rfl
  · exact (carried.path s).never
  · split
    · exact .placeholder .identifier
    · exact .of_error (CarriesAt.stray s : σ.CarriesAt False False stray s).less (hasError_stray s)

theorem Carried.memberField (s : State) : σ.CarriesAt needs False (memberField expression) s := by
  refine .ite (fun s' same inner => ?_) (fun found => ?_) fun _ => .placeholder .fieldIdentifier
  · rw [same.isAt inner, same.kind inner]
  · refine carried.named NodeKind.noConfusion ?_
    rw [State.isAt] at found
    generalize s.peek.kind = kind at found
    cases kind <;> first | rfl | cases found

theorem Carried.rangeTail (d : Draft) : σ.StepAt False False (·.rangeTail expression) d := by
  have tail (d : Draft) : σ.StepAt False False
      (fun d => if d.isAtAny [.rightBracket, .endOfInput] then d else d.place (some .stop) expression) d :=
    .ite (fun _ grows inner => grows.state.isAtAny inner _) (fun _ => .here) fun _ => carried.nested (some .stop) d
  exact (StepAt.take none).inside.andThen (tail d.take)

theorem Carried.index (s : State) : σ.CarriesAt False False (index expression) s := by
  rw [funext (index_eq expression)]
  refine .ite (fun s' same inner => same.isAt inner .colon)
    (fun _ => .branch NodeKind.noConfusion (carried.rangeTail _)) fun _ => ?_
  exact (carried s).inside.followedAt .colon False.elim
    fun d => .wrapped .range NodeKind.noConfusion (some .start) carried.rangeTail

omit carried in
/-- At a quiet place neither text goes on with a given token. -/
theorem Quiet.other (quiet : σ.Quiet) {k : TokenKind} (goesOn : isSilent k = false) (inner : k ∉ itemEnds) :
    (headKind σ.ahead == k) = (headKind σ.ahead' == k) := by
  have first : (headKind σ.ahead == k) = false := beq_eq_false_iff_ne.mpr fun same => inner (same ▸ quiet.1)
  have second : (headKind σ.ahead' == k) = false := by
    rw [beq_eq_false_iff_ne]
    intro same
    have silent := quiet.2
    rw [same, goesOn] at silent
    cases silent
  rw [first, second]

omit carried in
theorem Quiet.operator (quiet : σ.Quiet) :
    infixOperator? (headKind σ.ahead) = infixOperator? (headKind σ.ahead') := by
  have first : infixOperator? (headKind σ.ahead) = none := by
    have ends := quiet.1
    generalize headKind σ.ahead = k at ends
    revert k
    decide
  have second : infixOperator? (headKind σ.ahead') = none :=
    Option.isNone_iff_eq_none.mp (Bool.and_eq_true_iff.mp quiet.2).2
  rw [first, second]

theorem Carried.postfixTurn (d : Draft) :
    σ.TurnAt (σ.final = .rightBrace ∧ σ.Quiet) (σ.final = .rightBrace → σ.Quiet) (σ.final = .rightBrace ∧ σ.Quiet)
      (postfixTurn expression) d := by
  refine .ite (fun _ grows known => grows.state.decides (· == .dot) known fun held => held.2.other rfl (by decide))
    (fun _ => .again ?_) fun _ => ?_
  · exact .wrapped .member NodeKind.noConfusion (some .object) fun d =>
      (StepAt.take none).inside.andThen (.place (some .field) (carried.memberField _).never)
  refine .ite (fun _ grows known => grows.state.decides (· == .leftBracket) known fun held => held.2.other rfl (by decide))
    (fun _ => .again ?_) fun _ => .stop d
  exact .wrapped .indexing NodeKind.noConfusion (some .object) fun d =>
    ((StepAt.take none).inside.andThen (.place (some .index) (carried.index _))).andThen
      ((StepAt.expect .rightBracket).mono id fun _ known => (final_ne rfl known).elim)

theorem Carried.postfixed : σ.Carried (postfixed expression) :=
  fun s => (carried.primary s).followed (TurnAt.loop carried.postfixTurn _)

end

/-! ## Operators -/

theorem Carried.rightOf (carried : σ.Carried p) (kind : NodeKind) : σ.Carried (rightOf p kind) := by
  intro s
  rw [Parser.rightOf]
  split
  · refine .ite (fun s' same inner => same.isAt inner .identifier) (fun found => ?_) fun _ => .placeholder .typeName
    have kind : s.peek.kind = .identifier := beq_iff_eq.mp found
    exact .plainLeaf NodeKind.noConfusion (kind ▸ rfl)
  · exact carried s

theorem Carried.joinedOf (carried : σ.Carried p) {kind : NodeKind} (other : kind ≠ .comment) (d : Draft) :
    σ.StepAt (σ.final = .rightBrace → σ.Quiet) (σ.final = .rightBrace ∧ σ.Quiet) (joinedOf p kind) d :=
  .wrapped kind other (some .left) fun _ =>
    (StepAt.take (some .operator)).inside.andThen (.place (some .right) (carried.rightOf kind _))

theorem infixOperator?_ne_comment {k : TokenKind} {tier : Tier} {kind : NodeKind}
    (known : infixOperator? k = some (tier, kind)) : kind ≠ .comment := by
  cases k <;> simp only [infixOperator?, reduceCtorEq, Option.some.injEq, Prod.mk.injEq] at known
  all_goals
    obtain ⟨-, rfl⟩ := known
    exact NodeKind.noConfusion

theorem Carried.infixed {operand : Tier → Production} (carried : ∀ tier, σ.Carried (operand tier)) (tier : Tier) :
    σ.Carried (infixed operand tier) := by
  refine fun s => (carried tier s).followed (TurnAt.loop (fun d => ?_) _)
  rw [infixTurn_eq_operatorTurn]
  refine .byKind (fun found d => operatorTurn operand tier d found) infixOperator? (·.2.operator) ?_
  cases known : infixOperator? d.state.peek.kind with
  | none => exact .stop d
  | some found =>
    simp only [operatorTurn]
    split
    · exact .again ((carried found.1).joinedOf (infixOperator?_ne_comment known) d)
    · exact .stop d

/-- Operands joined by the operators of some tiers. -/
theorem Carried.joined (carried : σ.Carried p) (tiers : List Tier) :
    σ.Carried (tiers.foldl Operands.loosen { beside := fun _ => p, joined := p }).joined := by
  suffices folded : ∀ o : Operands, (∀ tier, σ.Carried (o.beside tier)) → σ.Carried o.joined →
      σ.Carried (tiers.foldl Operands.loosen o).joined from folded _ (fun _ => carried) carried
  induction tiers with
  | nil => exact fun _ _ joined => joined
  | cons tier rest ih =>
    intro o beside joined
    have next : ∀ t, σ.Carried ((o.loosen tier).beside t) := by
      intro t
      show σ.Carried (if t = tier then o.joined else o.beside t)
      split
      · exact joined
      · exact beside t
    exact ih _ next (.infixed next tier)

theorem Carried.ternary (carried : σ.Carried p) (nested : σ.Carried expression) : σ.Carried (ternary p expression) := by
  intro s
  rw [funext (ternary_eq p expression)]
  refine (carried.joined Tier.tightestFirst s).followedAt .question (fun held => held.2.other rfl (by decide)) fun d => ?_
  exact .wrapped .ternary NodeKind.noConfusion (some .condition) fun _ =>
    ((((StepAt.take none).inside.andThen (nested.nested (some .consequence) _)).andThen (StepAt.expect .colon).inside).andThen
      (.place (some .alternative) (nested _)))

theorem Carried.unary (carried : σ.Carried p) : σ.Carried (unary p) := fun _ =>
  .branch NodeKind.noConfusion ((StepAt.take (some .operator)).inside.andThen (.place (some .operand) (carried _)))

/-! ## All expressions -/

/-- What collapses is an error. -/
theorem Carried.collapse : σ.Carried collapse := fun s =>
  .of_error (less_gathered draft_collapseTurn s) (hasError_collapse s)

theorem carried_expressionAt (budget : Nat) : σ.Carried (expressionAt budget) ∧ σ.Carried (unaryAt budget) := by
  induction budget with
  | zero =>
    refine ⟨.collapse, fun s => ?_⟩
    exact .ite (fun s' same inner => same.isAtAny inner _) (fun _ => Carried.collapse s) fun _ => Carried.collapse.postfixed s
  | succ budget ih =>
    obtain ⟨expression, unary⟩ := ih
    refine ⟨unary.ternary expression, fun s => ?_⟩
    exact .ite (fun s' same inner => same.isAtAny inner _) (fun _ => unary.unary s)
      fun _ => (unary.ternary expression).postfixed s

end Parting

end SecurityRules.Parser
