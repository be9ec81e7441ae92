import SecurityRules.Proofs.Nesting.Blocks
import SecurityRules.Proofs.Trivia.Expressions

/-!
# Stray statements

What a body does not know is gathered up to the next item. A run of tokens that ends with a semicolon, has its braces
in pairs and shows no start of an item outside them is gathered as a whole, whatever follows.
-/

namespace SecurityRules.Parser

open Grammar

/-- Braces opened minus braces closed. -/
def openBraces (ks : List TokenKind) : Int := ks.count .leftBrace - ks.count .rightBrace

theorem openBraces_append (ks ls : List TokenKind) : openBraces (ks ++ ls) = openBraces ks + openBraces ls := by
  rw [openBraces, openBraces, openBraces, List.count_append, List.count_append]
  omega

/-- The kinds of tokens of a statement that no match body knows: it starts like no item of one, its braces are in
pairs, and it ends with its first semicolon outside braces, in front of which no other statement starts there. -/
structure IsStray (ks : List TokenKind) : Prop where
  first : ∀ k ∈ ks.head?, k ∉ ([.kwMatch, .kwFunction, .kwAllow, .rightBrace] : List TokenKind)
  balanced : openBraces ks = 0
  /-- No more braces are closed than opened so far. -/
  nested : ∀ before, before <+: ks → 0 ≤ openBraces before
  last : ks.getLast? = some .semicolon
  inner : ∀ before k after, ks = before ++ k :: after → before ≠ [] → after ≠ [] → openBraces before = 0 →
    k ∉ ([.semicolon, .kwMatch, .kwFunction, .kwAllow, .kwLet, .kwReturn, .rightBrace] : List TokenKind)
  single : ks.head? = some .semicolon → ks = [.semicolon]

/-- The same, token by token. -/
theorem isStray_iff {ks : List TokenKind} : IsStray ks ↔
    (∀ k ∈ ks.head?, k ∉ ([.kwMatch, .kwFunction, .kwAllow, .rightBrace] : List TokenKind)) ∧ openBraces ks = 0 ∧
      ks.getLast? = some .semicolon ∧ (ks.head? = some .semicolon → ks = [.semicolon]) ∧
      ∀ n < ks.length, 0 ≤ openBraces (ks.take n) ∧
        (0 < n ∧ n + 1 < ks.length ∧ openBraces (ks.take n) = 0 → ∀ k ∈ ks[n]?,
          k ∉ ([.semicolon, .kwMatch, .kwFunction, .kwAllow, .kwLet, .kwReturn, .rightBrace] : List TokenKind)) := by
  constructor
  · intro stray
    refine ⟨stray.first, stray.balanced, stray.last, stray.single, fun n inside => ?_⟩
    refine ⟨stray.nested _ (List.take_prefix n ks), ?_⟩
    rintro ⟨started, going, outside⟩ k here
    obtain ⟨_, rfl⟩ := List.getElem?_eq_some_iff.mp here
    refine stray.inner (ks.take n) ks[n] (ks.drop (n + 1)) ?_ ?_ ?_ outside
    · rw [List.getElem_cons_drop, List.take_append_drop]
    · simpa using ⟨Nat.ne_of_gt started, List.ne_nil_of_length_pos (Nat.zero_lt_of_lt inside)⟩
    · simpa using going
  · rintro ⟨first, balanced, last, single, each⟩
    refine ⟨first, balanced, fun before initial => ?_, last, fun before k after split started going outside => ?_, single⟩
    · obtain ⟨after, rfl⟩ := initial
      cases after with
      | nil => simpa using Int.le_of_eq balanced.symm
      | cons k after => simpa using (each before.length (by simp)).1
    · subst split
      have here := (each before.length (by simp)).2 ⟨List.length_pos_iff.mpr started,
        by simpa using List.length_pos_iff.mpr going, by simpa using outside⟩
      simpa using here

instance (ks : List TokenKind) : Decidable (IsStray ks) := decidable_of_iff' _ isStray_iff

/-- The kinds of tokens from inside a stray statement on, with some braces open. -/
def Ends (depth : Nat) : List TokenKind → Prop
  | [] => False
  | k :: ks =>
    if ks = [] then k = .semicolon ∧ depth = 0
    else (depth = 0 → isBodySync k = false ∧ k ≠ .semicolon) ∧ Ends (braceDepth depth k) ks

theorem openBraces_singleton (depth : Nat) {k : TokenKind} (room : 0 ≤ (depth : Int) + openBraces [k]) :
    (depth : Int) + openBraces [k] = braceDepth depth k := by
  have opening : openBraces [.leftBrace] = 1 := rfl
  have closing : openBraces [.rightBrace] = -1 := rfl
  unfold braceDepth
  split
  · rw [opening]
    rfl
  · omega
  · rename_i left right
    have neither : openBraces [k] = 0 := by
      rw [openBraces, List.count_eq_zero.mpr (by simpa using Ne.symm left),
        List.count_eq_zero.mpr (by simpa using Ne.symm right)]
      rfl
    rw [neither, Int.add_zero]

theorem isBodySync_eq_false {k : TokenKind} (present : k ≠ .endOfInput) (other :
    k ∉ ([.semicolon, .kwMatch, .kwFunction, .kwAllow, .kwLet, .kwReturn, .rightBrace] : List TokenKind)) :
    isBodySync k = false := by
  cases k <;> first | rfl | exact absurd (by decide) other | exact absurd rfl present

/-- A stray statement ends well from any token on but the first one. -/
theorem IsStray.ends {ks : List TokenKind} (stray : IsStray ks) (real : ∀ k ∈ ks, k ≠ .endOfInput) {depth : Nat}
    {before after : List TokenKind} (split : ks = before ++ after) (started : before ≠ []) (going : after ≠ [])
    (opened : openBraces before = depth) : Ends depth after := by
  induction after generalizing before depth with
  | nil => exact absurd rfl going
  | cons k after ih =>
    rw [Ends]
    split
    · rename_i final
      have last := stray.last
      have balanced := stray.balanced
      rw [split, final] at last balanced
      rw [List.getLast?_concat] at last
      obtain rfl := Option.some.inj last
      rw [openBraces_append, opened] at balanced
      refine ⟨rfl, ?_⟩
      simpa [openBraces] using balanced
    · rename_i further
      have next : (depth : Int) + openBraces [k] = braceDepth depth k := by
        refine openBraces_singleton depth ?_
        rw [← opened, ← openBraces_append]
        exact stray.nested _ ⟨after, by rw [split]; simp⟩
      have shifted : ks = (before ++ [k]) ++ after := by
        rw [split, List.append_assoc]
        rfl
      refine ⟨fun outside => ?_, ih shifted (by simp) further ?_⟩
      · have other := stray.inner before k after split started further (by rw [opened, outside]; rfl)
        have present := real k (by rw [split]; simp)
        exact ⟨isBodySync_eq_false present other, fun semicolon => other (semicolon ▸ List.mem_cons_self ..)⟩
      · rw [openBraces_append, opened, next]

/-! ## Gathering -/

/-- A token of a stray statement in the tree. -/
def leafShape (t : Lexeme) : Shape := .node (leafKind t.kind) false none t.text []

variable {f : SourceFile} {s : State} {d : Draft} {js us : List Lexeme} {t : Lexeme}

/-- A token that is taken becomes a leaf. -/
theorem significant_take (of : d.state.Of f) (words : d.words = t :: us) :
    (d.take).state.Of f ∧ (d.take).words = us ∧ (d.take).tree.kind = d.tree.kind ∧
      (d.take).tree.isMissing = d.tree.isMissing ∧ (d.take).tree.role = d.tree.role ∧
      (d.take).tree.children ≠ [] ∧
      (d.take).tree.significant.map (ParseTree.shape f) = d.tree.significant.map (ParseTree.shape f) ++ [leafShape t] := by
  rw [Draft.words] at words
  have ahead : d.state.peek.kind = t.kind := by
    rw [State.peek_kind, words]
    rfl
  generalize taken : leafOf (leafKind d.state.peek.kind) d.state = r
  have attached := attached_attach ⟨d.tree, r.2⟩ none r.1
  have same : (⟨d.tree, r.2⟩ : Draft).attach none r.1 = d.take := by
    rw [← taken, Draft.take, Draft.takeAs, Draft.place_eq]
  rw [same] at attached
  have behind : r.2 = d.state.advance := by rw [← taken]; rfl
  have ofBehind : r.2.Of f := behind ▸ of.advance
  have significant : (r.1.inRole none).isExtra = false := by
    rw [ParseTree.isExtra_inRole, ← taken]
    exact beq_eq_false_iff_ne.mpr (leafKind_ne _)
  refine ⟨attached.state_of ofBehind, ?_, attached.kind, attached.isMissing, attached.role, attached.children_ne_nil, ?_⟩
  · rw [attached.words]
    show r.2.words = us
    rw [behind, State.words_advance, words, List.tail_cons]
  · rw [attached.significant_eq ofBehind significant, List.map_append, List.map_singleton, ← taken]
    have text : f.bytesBetween d.state.peek.start d.state.peek.stop = t.text := by
      rw [of.spelled_peek.2, State.peek_text words]
    show _ ++ [Shape.node (leafKind d.state.peek.kind) false none (f.bytesBetween d.state.peek.start d.state.peek.stop) []] = _
    rw [text, ahead]
    rfl

/-- What has been gathered of a stray statement so far, of which some tokens are still ahead. -/
structure Gathering (f : SourceFile) (s : State) (js us : List Lexeme) (n : Nested) : Prop where
  grown : n.draft.tree.children ≠ []
  state : n.draft.state.Of f
  words : n.draft.words = us
  shape : n.draft.tree.shape f = .node .error false none [] (js.map leafShape)

/-- One more token. -/
theorem Gathering.take {n : Nested} {depth : Nat} (gathering : Gathering f s js (t :: us) n) :
    Gathering f s (js ++ [t]) us ⟨depth, n.draft.take⟩ := by
  obtain ⟨of, words, kind, isMissing, role, grown, parts⟩ := significant_take gathering.state gathering.words
  have shape := gathering.shape
  rw [ParseTree.shape_eq, if_neg (by simpa using gathering.grown)] at shape
  obtain ⟨kind', isMissing', role', -, parts'⟩ := Shape.node.inj shape
  refine ⟨grown, of, words, ?_⟩
  rw [ParseTree.shape_eq, if_neg (by simpa using grown), kind, isMissing, role, kind', isMissing', role', parts, parts',
    List.map_append, List.map_singleton]

/-- The first token is gathered whatever it is. -/
theorem Gathering.first {depth : Nat} (of : s.Of f) (words : s.words = t :: us) :
    Gathering f s [t] us ⟨depth, (Draft.opened .error s).take⟩ := by
  obtain ⟨of, words, kind, isMissing, role, grown, parts⟩ := significant_take (d := Draft.opened .error s) of words
  refine ⟨grown, of, words, ?_⟩
  rw [ParseTree.shape_eq, if_neg (by simpa using grown), kind, isMissing, role, parts]
  rfl

theorem shorter_take {us : List Lexeme} (words : d.words = t :: us) : d.take.state.rest.length < d.state.rest.length := by
  refine Draft.take_shorter ?_ none
  rintro ended
  rw [Draft.words, State.words, ended] at words
  cases words

theorem skipTurn_eq (stop : TokenKind → Bool) {n : Nested} (going : n.draft.isAt .endOfInput = false)
    (on : (n.depth == 0 && !n.draft.isBare && stop n.draft.state.peek.kind) = false) :
    skipTurn stop n =
      if braceDepth n.depth n.draft.state.peek.kind == 0 && n.draft.state.peek.kind == .semicolon then
        .done ⟨braceDepth n.depth n.draft.state.peek.kind, n.draft.take⟩
      else .again ⟨braceDepth n.depth n.draft.state.peek.kind, n.draft.take⟩ := by
  rw [skipTurn, if_neg (by simp [going]), if_neg (by simp [on])]
  rfl

theorem isAt_end_eq_false (of : d.state.Of f) (words : d.words = t :: us) : d.isAt .endOfInput = false := by
  rw [Draft.isAt, State.isAt, beq_eq_false_iff_ne]
  intro ended
  have rest := of.rest_of_end ended
  rw [Draft.words, State.words, rest] at words
  cases words

theorem iterate_done {α : Type} {stateOf : α → State} {turn : α → Turn α} {v w : α} (done : turn v = .done w) :
    iterate stateOf turn v = w := by
  rw [iterate, done]

theorem iterate_again {α : Type} {stateOf : α → State} {turn : α → Turn α} {v w : α} (again : turn v = .again w)
    (shorter : (stateOf w).rest.length < (stateOf v).rest.length) :
    iterate stateOf turn v = iterate stateOf turn w := by
  rw [iterate, again]
  exact if_pos shorter

/-- Behind its first token a stray statement is gathered up to its end. -/
theorem Gathering.finish {n : Nested} {ls : List Lexeme} (gathering : Gathering f s js (ls ++ us) n)
    (ends : Ends n.depth (ls.map (·.kind))) :
    Gathering f s (js ++ ls) us (iterate (·.draft.state) (skipTurn isBodySync) n) := by
  induction ls generalizing js n with
  | nil => exact absurd ends (by simp [Ends])
  | cons t ls ih =>
    have words : n.draft.words = t :: (ls ++ us) := gathering.words
    have kind : n.draft.state.peek.kind = t.kind := by
      rw [State.peek_kind]
      exact congrArg headKind words
    have going := isAt_end_eq_false gathering.state words
    have grown : n.draft.isBare = false := by simpa [Draft.isBare] using gathering.grown
    rw [List.map_cons, Ends] at ends
    by_cases final : ls = []
    · -- The last token is a semicolon outside braces.
      rw [final, List.map_nil, if_pos rfl] at ends
      have turn := skipTurn_eq isBodySync going (by rw [kind, ends.1]; simp [isBodySync])
      rw [kind, ends.1, ends.2] at turn
      rw [iterate_done turn, final]
      rw [final] at gathering
      exact gathering.take
    · rw [if_neg (by simpa using final)] at ends
      have turn := skipTurn_eq isBodySync going (by
        rw [kind, grown, Bool.not_false, Bool.and_true, Bool.and_eq_false_iff, beq_eq_false_iff_ne]
        exact or_iff_not_imp_left.mpr fun outside => (ends.1 (not_not.mp outside)).1)
      rw [kind, if_neg ?_] at turn
      · have next := ih (n := ⟨braceDepth n.depth t.kind, n.draft.take⟩) gathering.take ends.2
        rw [iterate_again turn (shorter_take words)]
        rwa [List.append_assoc] at next
      · rw [Bool.and_eq_true, beq_iff_eq, beq_iff_eq]
        rintro ⟨outside, semicolon⟩
        rw [semicolon] at outside
        exact (ends.1 outside).2 semicolon

theorem exists_of_mem_lexemes {stop : Nat} {ts : List Token} {u : Lexeme} (member : u ∈ lexemes stop ts) :
    ∃ t ∈ ts, u.kind = t.kind ∧ u.text = t.text := by
  induction ts generalizing stop with
  | nil => cases member
  | cons t ts ih =>
    rw [lexemes] at member
    rcases List.mem_cons.mp member with rfl | later
    · exact ⟨t, List.mem_cons_self .., rfl, rfl⟩
    · obtain ⟨v, inside, same⟩ := ih later
      exact ⟨v, List.mem_cons_of_mem t inside, same⟩

/-- A stray statement becomes one error with its tokens as leaves. -/
theorem skipUntil_stray (of : s.Of f) (words : s.words = js ++ us) (stray : IsStray (js.map (·.kind))) :
    (skipUntil isBodySync s).1.shape f = .node .error false none [] (js.map leafShape) ∧
      (skipUntil isBodySync s).2.Of f ∧ (skipUntil isBodySync s).2.words = us := by
  have gathered : Gathering f s js us (iterate (·.draft.state) (skipTurn isBodySync) ⟨0, Draft.opened .error s⟩) := by
    cases js with
    | nil => exact absurd stray.last (by simp)
    | cons t ls =>
      have kind : s.peek.kind = t.kind := by
        rw [State.peek_kind, words]
        rfl
      have going : (Draft.opened .error s).isAt .endOfInput = false := isAt_end_eq_false (d := Draft.opened .error s) of words
      have turn := skipTurn_eq isBodySync (n := ⟨0, Draft.opened .error s⟩) going rfl
      have first (depth : Nat) : Gathering f s [t] (ls ++ us) ⟨depth, (Draft.opened .error s).take⟩ := .first of words
      rw [show (Draft.opened .error s).state.peek.kind = t.kind from kind] at turn
      by_cases single : t.kind = .semicolon
      · -- The statement is a semicolon alone.
        have alone : ls = [] := by
          have alone := stray.single (congrArg some single)
          rw [List.map_cons, single, List.cons.injEq] at alone
          exact List.map_eq_nil_iff.mp alone.2
        rw [single] at turn
        subst alone
        rw [iterate_done turn]
        exact first _
      · rw [if_neg (by simp [single])] at turn
        rw [iterate_again turn (shorter_take (d := Draft.opened .error s) words)]
        have going : ls.map (·.kind) ≠ [] := by
          intro none
          have last := stray.last
          rw [List.map_cons, none] at last
          exact single (Option.some.inj last)
        refine (first _).finish (stray.ends (fun k member => ?_) rfl (List.cons_ne_nil t.kind []) going ?_)
        · obtain ⟨u, ahead, same⟩ := List.mem_map.mp member
          obtain ⟨v, token, kind, -⟩ := exists_of_mem_lexemes (words ▸ List.mem_append_left us ahead : u ∈ s.words)
          rw [← same, kind]
          exact of.kinds v token
        · have room := stray.nested [t.kind] ⟨ls.map (·.kind), rfl⟩
          have opened := openBraces_singleton 0 (k := t.kind) (by simpa using room)
          simpa using opened
  rw [skipUntil, Nested.toError, if_neg (by simpa [Draft.isBare] using gathered.grown)]
  exact ⟨gathered.shape, gathered.state, gathered.words⟩

end SecurityRules.Parser
