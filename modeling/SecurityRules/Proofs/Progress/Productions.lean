import SecurityRules.Proofs.Depth.Counter

/-!
# Productions that only go on

The parser never goes back: behind a production it has some of the tokens ahead that were ahead in front of it. What is
nested in a production is read further on, and where the production takes a token first, behind that token. What nested
productions would read anywhere else does not matter.
-/

namespace SecurityRules.Parser

/-! ## Where the parser has got to -/

namespace State

/-- From `s` the parser can have come to `v`: of the tokens ahead some are left. -/
structure Onward (s v : State) : Prop where
  file : v.file = s.file
  rest : v.rest <:+ s.rest

/-- From `s` the parser has come to `v` and has taken the next token, if there was one. -/
structure Behind (s v : State) : Prop where
  file : v.file = s.file
  rest : v.rest <:+ s.rest.tail

/-- From `s` the parser has come to `v` and has taken tokens. -/
structure Beyond (s v : State) : Prop extends Onward s v where
  fewer : v.rest.length < s.rest.length

variable {s v w : State}

theorem Onward.of_eq (file : v.file = s.file) (rest : v.rest = s.rest) : s.Onward v := ⟨file, ⟨[], rest⟩⟩

theorem Onward.refl (s : State) : s.Onward s := .of_eq rfl rfl

theorem Onward.trans (first : s.Onward v) (second : v.Onward w) : s.Onward w :=
  ⟨second.file.trans first.file, second.rest.trans first.rest⟩

theorem Onward.length_le (onward : s.Onward v) : v.rest.length ≤ s.rest.length := onward.rest.length_le

theorem Behind.onward (behind : s.Behind v) : s.Onward v := ⟨behind.file, behind.rest.trans (List.tail_suffix _)⟩

theorem Behind.trans (first : s.Behind v) (second : v.Onward w) : s.Behind w :=
  ⟨second.file.trans first.file, second.rest.trans first.rest⟩

theorem length_tail_lt (ahead : s.rest ≠ []) : s.rest.tail.length < s.rest.length := by
  rw [List.length_tail]
  exact Nat.sub_lt (List.length_pos_iff.mpr ahead) Nat.zero_lt_one

theorem Behind.beyond (behind : s.Behind v) (ahead : s.rest ≠ []) : s.Beyond v :=
  ⟨behind.onward, Nat.lt_of_le_of_lt behind.rest.length_le (length_tail_lt ahead)⟩

theorem Onward.beyond (first : s.Onward v) (second : v.Beyond w) : s.Beyond w :=
  ⟨first.trans second.toOnward, Nat.lt_of_lt_of_le second.fewer first.length_le⟩

theorem behind_advance (s : State) : s.Behind s.advance := by
  rw [State.advance]
  split
  · rename_i ended
    have same : s.rest = s.rest.tail := by simp [ended]
    exact ⟨rfl, ⟨[], same⟩⟩
  · rename_i t rest shape
    have same : rest = s.rest.tail := by simp [shape]
    exact ⟨rfl, ⟨[], same⟩⟩

end State

open State (Onward Behind Beyond)

/-- All that draft steps do besides reading leaves the input ahead alone. -/
theorem Draft.onward_attach (d : Draft) (role : Option Role) (c : ParseTree) : d.state.Onward (d.attach role c).state :=
  .of_eq (d.file_attach role c) (d.rest_attach role c)

theorem Draft.onward_place {d : Draft} (role : Option Role) {p : Production} (onward : d.state.Onward (p d.state).2) :
    d.state.Onward (d.place role p).state :=
  onward.trans (Draft.onward_attach ⟨d.tree, (p d.state).2⟩ role _)

theorem Draft.behind_place {d : Draft} (role : Option Role) {p : Production} (behind : d.state.Behind (p d.state).2) :
    d.state.Behind (d.place role p).state :=
  behind.trans (Draft.onward_attach ⟨d.tree, (p d.state).2⟩ role _)

theorem Draft.behind_takeAs (d : Draft) (role : Option Role) (kind : NodeKind) :
    d.state.Behind (d.takeAs role kind).state := Draft.behind_place role d.state.behind_advance

theorem Draft.behind_take (d : Draft) (role : Option Role) : d.state.Behind (d.take role).state :=
  d.behind_takeAs role _

/-! ## Steps that agree -/

section Agree

variable {α β γ : Type} {stateOf : α → State} {next : β → State} {last : γ → State} {o : State} {n : Nat}

/-- Wherever fewer than `n` of the tokens that are ahead of `o` are left, two steps do the same and go on. -/
structure Agree (stateOf : α → State) (next : β → State) (o : State) (n : Nat) (g f : α → β) : Prop where
  meets : ∀ a, o.Onward (stateOf a) → (stateOf a).rest.length < n → g a = f a ∧ (stateOf a).Onward (next (f a))

/-- Wherever fewer than `n` of the tokens that are ahead of `o` are left behind the next one, two steps do the same and
take that token. -/
structure AgreeTaking (stateOf : α → State) (next : β → State) (o : State) (n : Nat) (g f : α → β) : Prop where
  meets : ∀ a, o.Onward (stateOf a) → (stateOf a).rest.tail.length < n → g a = f a ∧ (stateOf a).Behind (next (f a))

theorem AgreeTaking.agree {g f : α → β} (taking : AgreeTaking stateOf next o n g f) : Agree stateOf next o n g f := by
  constructor
  intro a onward fewer
  have less : (stateOf a).rest.tail.length ≤ (stateOf a).rest.length := (List.tail_suffix _).length_le
  obtain ⟨same, behind⟩ := taking.meets a onward (Nat.lt_of_le_of_lt less fewer)
  exact ⟨same, behind.onward⟩

namespace Agree

variable {g f g' f' : α → β} {c : α → Bool}

theorem refl (onward : ∀ a, (stateOf a).Onward (next (f a))) : Agree stateOf next o n f f :=
  ⟨fun a _ _ => ⟨rfl, onward a⟩⟩

theorem andThen {h k : β → γ} (first : Agree stateOf next o n g f) (second : Agree next last o n h k) :
    Agree stateOf last o n (fun a => h (g a)) (fun a => k (f a)) := by
  constructor
  intro a onward fewer
  obtain ⟨same, further⟩ := first.meets a onward fewer
  obtain ⟨same', further'⟩ := second.meets (f a) (onward.trans further) (Nat.lt_of_le_of_lt further.length_le fewer)
  exact ⟨(congrArg h same).trans same', further.trans further'⟩

theorem ite (yes : Agree stateOf next o n g f) (no : Agree stateOf next o n g' f') :
    Agree stateOf next o n (fun a => if c a then g a else g' a) (fun a => if c a then f a else f' a) := by
  constructor
  intro a onward fewer
  split
  · exact yes.meets a onward fewer
  · exact no.meets a onward fewer

/-- A step for each kind of the next token. -/
theorem byKind {g f : TokenKind → α → β} (steps : ∀ kind, Agree stateOf next o n (g kind) (f kind)) :
    Agree stateOf next o n (fun a => g (stateOf a).peek.kind a) (fun a => f (stateOf a).peek.kind a) :=
  ⟨fun a => (steps _).meets a⟩

/-- Where it is known that there is a next token, a step that takes it first may read one token more. -/
theorem iteTaking (ahead : ∀ a, c a = true → (stateOf a).rest ≠ []) (yes : AgreeTaking stateOf next o n g f)
    (no : Agree stateOf next o (n + 1) g' f') :
    Agree stateOf next o (n + 1) (fun a => if c a then g a else g' a) (fun a => if c a then f a else f' a) := by
  constructor
  intro a onward fewer
  split
  · rename_i holds
    have less := Nat.lt_of_lt_of_le (State.length_tail_lt (ahead a holds)) (Nat.le_of_lt_succ fewer)
    obtain ⟨same, behind⟩ := yes.meets a onward less
    exact ⟨same, behind.onward⟩
  · exact no.meets a onward fewer

/-- The induction is on the turns of a loop; what is behind a turn is further on. -/
theorem iterate {u t : α → Turn α} (turn : Agree stateOf (fun t => stateOf t.value) o n u t) :
    Agree stateOf stateOf o n (iterate stateOf u) (iterate stateOf t) := by
  constructor
  intro a onward fewer
  fun_induction Parser.iterate stateOf t a with
  | case1 a next found =>
    obtain ⟨same, further⟩ := turn.meets a onward fewer
    rw [found] at same further
    exact ⟨by rw [Parser.iterate, same], further⟩
  | case2 a next found shorter ih =>
    obtain ⟨same, further⟩ := turn.meets a onward fewer
    rw [found] at same further
    obtain ⟨same', further'⟩ := ih (onward.trans further) (Nat.lt_trans shorter fewer)
    refine ⟨?_, further.trans further'⟩
    rw [Parser.iterate, same]
    exact (if_pos shorter).trans same'
  | case3 a next found longer =>
    obtain ⟨same, further⟩ := turn.meets a onward fewer
    rw [found] at same further
    refine ⟨?_, further⟩
    rw [Parser.iterate, same]
    exact if_neg longer

end Agree

namespace AgreeTaking

variable {g f : α → β}

theorem refl (behind : ∀ a, (stateOf a).Behind (next (f a))) : AgreeTaking stateOf next o n f f :=
  ⟨fun a _ _ => ⟨rfl, behind a⟩⟩

theorem andThen {h k : β → γ} (first : AgreeTaking stateOf next o n g f) (second : Agree next last o n h k) :
    AgreeTaking stateOf last o n (fun a => h (g a)) (fun a => k (f a)) := by
  constructor
  intro a onward fewer
  obtain ⟨same, behind⟩ := first.meets a onward fewer
  obtain ⟨same', further⟩ :=
    second.meets (f a) (onward.trans behind.onward) (Nat.lt_of_le_of_lt behind.rest.length_le fewer)
  exact ⟨(congrArg h same).trans same', behind.trans further⟩

/-- A loop whose first turn takes a token. -/
theorem iterate {u t : α → Turn α} (first : AgreeTaking stateOf (fun t => stateOf t.value) o n u t) :
    AgreeTaking stateOf stateOf o n (iterate stateOf u) (iterate stateOf t) := by
  constructor
  intro a onward fewer
  obtain ⟨same, behind⟩ := first.meets a onward fewer
  rw [Parser.iterate, Parser.iterate, same]
  cases found : t a with
  | done next =>
    rw [found] at behind
    exact ⟨rfl, behind⟩
  | again next =>
    rw [found] at behind
    obtain ⟨same', further⟩ := first.agree.iterate.meets next (onward.trans behind.onward)
      (Nat.lt_of_le_of_lt behind.rest.length_le fewer)
    dsimp only
    split
    · exact ⟨same', behind.trans further⟩
    · exact ⟨rfl, behind⟩

end AgreeTaking

end Agree

/-- Productions that agree. -/
abbrev Agrees (o : State) (n : Nat) (q p : Production) : Prop := Agree id Prod.snd o n q p

/-- Productions that agree and take a token. -/
abbrev AgreesTaking (o : State) (n : Nat) (q p : Production) : Prop := AgreeTaking id Prod.snd o n q p

/-- Steps of a draft that agree. -/
abbrev AgreesStep (o : State) (n : Nat) (g f : Draft → Draft) : Prop := Agree Draft.state Draft.state o n g f

/-- Steps of a draft that agree and take a token. -/
abbrev AgreesStepTaking (o : State) (n : Nat) (g f : Draft → Draft) : Prop :=
  AgreeTaking Draft.state Draft.state o n g f

/-- Turns of a loop that agree. -/
abbrev AgreesTurn (o : State) (n : Nat) (u t : Draft → Turn Draft) : Prop :=
  Agree Draft.state (fun t => t.value.state) o n u t

variable {o : State} {n : Nat}

/-! ## Steps of a draft -/

section

variable {q p : Production} {g f : Draft → Draft}

theorem agrees_here : AgreesStep o n (fun d => d) (fun d => d) := .refl fun d => .refl d.state

/-- What is added to a draft is the tree that is read, and the state behind it stays. -/
def Draft.adding (d : Draft) (role : Option Role) (r : ParseTree × State) : Draft :=
  ({ d with state := r.2 } : Draft).attach role r.1

theorem Agree.place (role : Option Role) (agree : Agrees o n q p) :
    AgreesStep o n (·.place role q) (·.place role p) := by
  constructor
  intro d onward fewer
  obtain ⟨same, further⟩ := agree.meets d.state onward fewer
  exact ⟨congrArg (d.adding role) same, Draft.onward_place role further⟩

theorem AgreeTaking.place (role : Option Role) (taking : AgreesTaking o n q p) :
    AgreesStepTaking o n (·.place role q) (·.place role p) := by
  constructor
  intro d onward fewer
  obtain ⟨same, behind⟩ := taking.meets d.state onward fewer
  exact ⟨congrArg (d.adding role) same, Draft.behind_place role behind⟩

theorem taking_takeAs (role : Option Role) (kind : NodeKind) :
    AgreesStepTaking o n (·.takeAs role kind) (·.takeAs role kind) := .refl fun d => d.behind_takeAs role kind

theorem taking_take (role : Option Role) : AgreesStepTaking o n (·.take role) (·.take role) :=
  .refl fun d => d.behind_take role

theorem agrees_lacking (role : Option Role) (kind : NodeKind) :
    AgreesStep o n (·.lacking role kind) (·.lacking role kind) := .refl fun d => d.onward_attach role _

theorem agrees_takeName (role : Option Role) : AgreesStep o n (·.takeName role) (·.takeName role) :=
  .ite (taking_takeAs role _).agree (agrees_lacking role _)

theorem agrees_ofKind (kind : NodeKind) : AgreesStep o n (·.ofKind kind) (·.ofKind kind) := .refl fun d => .refl d.state

theorem Agree.branch (kind : NodeKind) (step : AgreesStep o n g f) : Agrees o n (branch kind g) (branch kind f) := by
  constructor
  intro s onward fewer
  obtain ⟨same, further⟩ := step.meets (Draft.opened kind s) onward fewer
  exact ⟨congrArg (fun d : Draft => (d.tree, d.state)) same, further⟩

theorem AgreeTaking.branch (kind : NodeKind) (step : AgreesStepTaking o n g f) :
    AgreesTaking o n (branch kind g) (branch kind f) := by
  constructor
  intro s onward fewer
  obtain ⟨same, behind⟩ := step.meets (Draft.opened kind s) onward fewer
  exact ⟨congrArg (fun d : Draft => (d.tree, d.state)) same, behind⟩

/-- A new draft that begins with the tree read so far. -/
theorem AgreeTaking.wrapped (kind : NodeKind) (role : Option Role) (step : AgreesStepTaking o n g f) :
    AgreesStepTaking o n (fun d => g ((Draft.opened kind d.state).attach role d.tree))
      (fun d => f ((Draft.opened kind d.state).attach role d.tree)) := by
  constructor
  intro d onward fewer
  have attached := (Draft.opened kind d.state).onward_attach role d.tree
  have rest : ((Draft.opened kind d.state).attach role d.tree).state.rest = d.state.rest := Draft.rest_attach ..
  obtain ⟨same, behind⟩ := step.meets _ (onward.trans attached) (by rw [rest]; exact fewer)
  exact ⟨same, behind.file.trans attached.file, by rw [← rest]; exact behind.rest⟩

/-- A draft that goes on from the tree that is read. -/
theorem AgreeTaking.onPair (step : AgreesStepTaking o n g f) :
    AgreeTaking Prod.snd Prod.snd o n (fun r : ParseTree × State => ((g ⟨r.1, r.2⟩).tree, (g ⟨r.1, r.2⟩).state))
      (fun r => ((f ⟨r.1, r.2⟩).tree, (f ⟨r.1, r.2⟩).state)) := by
  constructor
  intro r onward fewer
  obtain ⟨same, behind⟩ := step.meets ⟨r.1, r.2⟩ onward fewer
  exact ⟨congrArg (fun d : Draft => (d.tree, d.state)) same, behind⟩

theorem Agree.onPair (step : AgreesStep o n g f) :
    Agree Prod.snd Prod.snd o n (fun r : ParseTree × State => ((g ⟨r.1, r.2⟩).tree, (g ⟨r.1, r.2⟩).state))
      (fun r => ((f ⟨r.1, r.2⟩).tree, (f ⟨r.1, r.2⟩).state)) := by
  constructor
  intro r onward fewer
  obtain ⟨same, further⟩ := step.meets ⟨r.1, r.2⟩ onward fewer
  exact ⟨congrArg (fun d : Draft => (d.tree, d.state)) same, further⟩

theorem agrees_pair : Agree Prod.snd Prod.snd o n (fun r : ParseTree × State => r) (fun r => r) :=
  .refl fun r => .refl r.2

end

/-! ## Turns of a loop -/

section

variable {u t : Draft → Turn Draft} {g f : Draft → Draft}

theorem Agree.again (step : AgreesStep o n g f) : AgreesTurn o n (fun d => .again (g d)) (fun d => .again (f d)) := by
  constructor
  intro d onward fewer
  obtain ⟨same, further⟩ := step.meets d onward fewer
  exact ⟨congrArg Turn.again same, further⟩

theorem AgreeTaking.again (step : AgreesStepTaking o n g f) :
    AgreeTaking Draft.state (fun t => t.value.state) o n (fun d => Turn.again (g d)) (fun d => .again (f d)) := by
  constructor
  intro d onward fewer
  obtain ⟨same, behind⟩ := step.meets d onward fewer
  exact ⟨congrArg Turn.again same, behind⟩

theorem agrees_done : AgreesTurn o n (fun d => .done d) (fun d => .done d) := .refl fun d => .refl d.state

theorem Agree.loop (turn : AgreesTurn o n u t) : AgreesStep o n (·.loop u) (·.loop t) := turn.iterate

end

/-! ## Input that does not fit -/

theorem agrees_stray : Agrees o n stray stray := .branch .error (.ite agrees_here (taking_take none).agree)

theorem agrees_expect (kind : TokenKind) : AgreesStep o n (·.expect kind) (·.expect kind) :=
  .ite (taking_take none).agree (.ite ((Agree.place none agrees_stray).andThen (taking_take none).agree)
    (agrees_lacking none _))

/-- Tokens are gathered by turns that take one or leave the draft as it is. -/
theorem agrees_gathered {turn : Nested → Turn Nested}
    (onward : ∀ n : Nested, n.draft.state.Onward (turn n).value.draft.state) :
    Agrees o n (fun s => (iterate (·.draft.state) turn ⟨0, Draft.opened .error s⟩).toError)
      (fun s => (iterate (·.draft.state) turn ⟨0, Draft.opened .error s⟩).toError) := by
  refine .refl fun s => ?_
  rw [state_toError]
  have looped : Agree (fun n : Nested => n.draft.state) (fun n => n.draft.state) s (s.rest.length + 1)
      (iterate (·.draft.state) turn) (iterate (·.draft.state) turn) := .iterate (.refl onward)
  exact (looped.meets ⟨0, Draft.opened .error s⟩ (.refl s) (Nat.lt_succ_self _)).2

theorem onward_skipTurn (stop : TokenKind → Bool) (n : Nested) :
    n.draft.state.Onward (skipTurn stop n).value.draft.state := by
  have taken := (n.draft.behind_take none).onward
  simp only [skipTurn]
  split
  · exact .refl _
  · split
    · exact .refl _
    · split
      all_goals
        split
        · exact taken
        · exact taken

theorem onward_collapseTurn (n : Nested) : n.draft.state.Onward (collapseTurn n).value.draft.state := by
  simp only [collapseTurn]
  split
  · exact .refl _
  · split
    · exact .refl _
    · exact (n.draft.behind_take none).onward

theorem agrees_skipUntil (stop : TokenKind → Bool) : Agrees o n (skipUntil stop) (skipUntil stop) :=
  agrees_gathered (onward_skipTurn stop)

theorem agrees_collapse : Agrees o n collapse collapse := agrees_gathered onward_collapseTurn

/-! ## Leaves and segments -/

theorem taking_leafOf (kind : NodeKind) : AgreesTaking o n (leafOf kind) (leafOf kind) :=
  .refl fun s => s.behind_advance

theorem agrees_placeholder (kind : NodeKind) :
    Agrees o n (fun s => (s.placeholder kind, s)) (fun s => (s.placeholder kind, s)) := .refl fun s => .refl s

/-- One turn of a run of adjacent segment tokens. -/
def segmentTurn (s : State) : Turn State :=
  if isSegmentToken s.peek.kind && s.isAdjacent then .again s.advance else .done s

theorem onward_segmentTurn (s : State) : s.Onward (segmentTurn s).value := by
  rw [segmentTurn]
  split
  · exact s.behind_advance.onward
  · exact .refl s

theorem taking_segment (kind : NodeKind) : AgreesTaking o n (segment kind) (segment kind) := by
  refine .refl fun s => ?_
  have looped : Agree id id s.advance (s.advance.rest.length + 1) (iterate id segmentTurn) (iterate id segmentTurn) :=
    .iterate (.refl onward_segmentTurn)
  exact s.behind_advance.trans (looped.meets s.advance (.refl _) (Nat.lt_succ_self _)).2

theorem agrees_serviceName : Agrees o n serviceName serviceName := by
  have turn : AgreesTurn o n serviceNameTurn serviceNameTurn :=
    .ite ((taking_take none).andThen (taking_takeAs none .identifier).agree).agree.again agrees_done
  exact .branch .serviceName ((taking_takeAs none .identifier).agree.andThen turn.loop)

theorem agrees_slashTurn : AgreesTurn o n slashTurn slashTurn := .ite (Agree.again agrees_here) agrees_done

theorem agrees_slashedPart {opening : TokenKind} {q p : Production} (leaf : NodeKind) (bracketed : Agrees o n q p) :
    AgreesTurn o n (slashedPart opening q leaf) (slashedPart opening p leaf) :=
  .ite ((bracketed.place _).andThen agrees_slashTurn)
    (.ite (((taking_segment leaf).place _).agree.andThen agrees_slashTurn)
      ((agrees_lacking _ _).andThen agrees_done))

theorem taking_captureSegment : AgreesTaking o n captureSegment captureSegment := by
  have several : AgreesStep o n (fun d => ((d.ofKind .multiSegment).take).expect .starStar)
      (fun d => ((d.ofKind .multiSegment).take).expect .starStar) :=
    ((agrees_ofKind .multiSegment).andThen (taking_take none).agree).andThen (agrees_expect .starStar)
  have optional := Agree.ite (c := (·.isAt .assign)) several agrees_here
  have step := (((taking_take none).andThen (agrees_takeName (some .name))).andThen optional).andThen
    (agrees_expect .rightBrace)
  exact step.branch .singleSegment

theorem agrees_matchPathTurn : AgreesTurn o n matchPathTurn matchPathTurn := by
  rw [funext matchPathTurn_eq]
  exact (Agree.ite (c := (·.isAt .slash)) (taking_take none).agree agrees_here).andThen
    (agrees_slashedPart .collectionSegment taking_captureSegment.agree)

theorem agrees_matchPath : Agrees o n matchPath matchPath :=
  .branch .matchPath (.ite (Agree.loop agrees_matchPathTurn) ((agrees_lacking none _).andThen
    (.ite (c := (·.isAtAny [.identifier, .leftBrace])) (Agree.loop agrees_matchPathTurn) agrees_here)))

/-! ## Expressions -/

/-- A comma that leads on. -/
theorem agrees_comma : AgreesTurn o n (fun d : Draft => if d.isAt .comma then .again d.take else .done d)
    (fun d : Draft => if d.isAt .comma then .again d.take else .done d) :=
  .ite (taking_take none).agree.again agrees_done

theorem Agree.items {g f : Draft → Draft} (closing : TokenKind) (item : AgreesStep o n g f) :
    AgreesStep o n (·.items closing g) (·.items closing f) := by
  have turn : AgreesTurn o n (itemTurn closing g) (itemTurn closing f) :=
    .ite agrees_done (item.andThen agrees_comma)
  exact turn.loop.andThen (agrees_expect closing)

namespace Agree

variable {q p : Production} (agree : Agrees o n q p)
include agree

theorem argumentList : AgreesTaking o n (argumentList q) (argumentList p) :=
  .branch .argumentList ((taking_take none).andThen (items .rightParen (agree.place none)))

theorem functionCall : AgreesTaking o n (functionCall q) (functionCall p) :=
  .branch .functionCall ((taking_takeAs _ .identifier).andThen (agree.argumentList.agree.place _))

theorem parenthesized : AgreesTaking o n (parenthesized q) (parenthesized p) :=
  .branch .parenthesized (((taking_take none).andThen (agree.place _)).andThen (agrees_expect .rightParen))

theorem list : AgreesTaking o n (list q) (list p) :=
  .branch .list ((taking_take none).andThen (items .rightBracket (agree.place _)))

theorem mapEntry : Agrees o n (mapEntry q) (mapEntry p) :=
  .branch .mapEntry (((agree.place _).andThen (agrees_expect .colon)).andThen (agree.place _))

theorem map : AgreesTaking o n (map q) (map p) :=
  .branch .map ((taking_take none).andThen (items .rightBrace (agree.mapEntry.place _)))

theorem interpolation : AgreesTaking o n (interpolation q) (interpolation p) :=
  .branch .interpolation ((((taking_take none).andThen (agrees_expect .leftParen)).andThen (agree.place _)).andThen
    (agrees_expect .rightParen))

theorem path : AgreesTaking o n (path q) (path p) :=
  .branch .path (AgreeTaking.iterate
    ((taking_take none).andThen (agrees_slashedPart .pathSegment agree.interpolation.agree)))

/-- What is nested in a primary expression is read behind its first token. -/
theorem primary : Agrees o (n + 1) (primary q) (primary p) := by
  constructor
  intro s onward fewer
  have behind {q' p' : Production} (taking : AgreesTaking o n q' p') (ahead : s.rest ≠ []) :
      q' s = p' s ∧ s.Onward (p' s).2 := by
    have less := Nat.lt_of_lt_of_le (State.length_tail_lt ahead) (Nat.le_of_lt_succ fewer)
    obtain ⟨same, behind⟩ := taking.meets s onward less
    exact ⟨same, behind.onward⟩
  have opened {kind : TokenKind} (found : s.peek.kind = kind) (other : kind ≠ .endOfInput) : s.rest ≠ [] :=
    State.rest_ne_nil (by rw [found]; exact other)
  rw [Parser.primary, Parser.primary]
  split
  · rename_i found
    split
    · exact behind agree.functionCall (opened found TokenKind.noConfusion)
    · exact (taking_leafOf _).agree.meets s onward fewer
  · exact (taking_leafOf _).agree.meets s onward fewer
  · exact (taking_leafOf _).agree.meets s onward fewer
  · exact (taking_leafOf _).agree.meets s onward fewer
  · exact (taking_leafOf _).agree.meets s onward fewer
  · exact (taking_leafOf _).agree.meets s onward fewer
  · rename_i found
    exact behind agree.parenthesized (opened found TokenKind.noConfusion)
  · rename_i found
    exact behind agree.list (opened found TokenKind.noConfusion)
  · rename_i found
    exact behind agree.map (opened found TokenKind.noConfusion)
  · rename_i found
    exact behind agree.path (opened found TokenKind.noConfusion)
  · split
    · exact (agrees_placeholder _).meets s onward fewer
    · exact agrees_stray.meets s onward fewer

theorem memberField : Agrees o n (memberField q) (memberField p) :=
  .ite (c := fun s : State => s.isAt .identifier || s.peek.kind.isKeyword)
    (.ite (c := fun s : State => s.peekSecond.kind == .leftParen) agree.functionCall.agree (taking_leafOf _).agree)
    (agrees_placeholder _)

theorem rangeTail : AgreesStepTaking o n (·.rangeTail q) (·.rangeTail p) :=
  (taking_take none).andThen
    (.ite (c := fun d : Draft => d.isAtAny [.rightBracket, .endOfInput]) agrees_here (agree.place _))

theorem index : Agrees o n (index q) (index p) := by
  rw [funext (index_eq q), funext (index_eq p)]
  have range := agree.andThen (.ite (c := fun r => r.2.isAt .colon)
    (agree.rangeTail.wrapped .range (some .start)).onPair.agree agrees_pair)
  exact .ite (c := (·.isAt .colon)) (agree.rangeTail.branch .range).agree range

theorem memberOf : AgreesStepTaking o n (memberOf q) (memberOf p) :=
  ((taking_take none).andThen (agree.memberField.place _)).wrapped .member (some .object)

theorem indexingOf : AgreesStepTaking o n (indexingOf q) (indexingOf p) :=
  (((taking_take none).andThen (agree.index.place _)).andThen (agrees_expect .rightBracket)).wrapped .indexing
    (some .object)

theorem postfixTurn : AgreesTurn o (n + 1) (postfixTurn q) (postfixTurn p) :=
  .iteTaking (fun _ found => State.rest_of_isAt found TokenKind.noConfusion) agree.memberOf.again
    (.iteTaking (fun _ found => State.rest_of_isAt found TokenKind.noConfusion) agree.indexingOf.again agrees_done)

theorem postfixed : Agrees o (n + 1) (postfixed q) (postfixed p) := agree.primary.andThen agree.postfixTurn.loop.onPair

end Agree

/-! ## Operators -/

section

variable {q p : Production} {operand operand' : Tier → Production}

theorem Agree.rightOf (agree : Agrees o n q p) (kind : NodeKind) : Agrees o n (rightOf q kind) (rightOf p kind) := by
  rw [Parser.rightOf, Parser.rightOf]
  split
  · exact .ite (c := (·.isAt .identifier)) (taking_leafOf _).agree (agrees_placeholder _)
  · exact agree

theorem Agree.joinedOf (agree : Agrees o n q p) (kind : NodeKind) :
    AgreesStepTaking o n (joinedOf q kind) (joinedOf p kind) :=
  ((taking_take _).andThen ((agree.rightOf kind).place _)).wrapped kind (some .left)

theorem agrees_infixTurn (agree : ∀ tier, Agrees o n (operand tier) (operand' tier)) (tier : Tier) :
    AgreesTurn o n (infixTurn operand tier) (infixTurn operand' tier) := by
  rw [infixTurn_eq_operatorTurn, infixTurn_eq_operatorTurn]
  refine Agree.byKind (g := fun k d => operatorTurn operand tier d (infixOperator? k))
    (f := fun k d => operatorTurn operand' tier d (infixOperator? k)) fun k => ?_
  cases infixOperator? k with
  | none => exact agrees_done
  | some found =>
    simp only [operatorTurn]
    split
    · exact ((agree _).joinedOf _).agree.again
    · exact agrees_done

theorem agrees_infixed (agree : ∀ tier, Agrees o n (operand tier) (operand' tier)) (tier : Tier) :
    Agrees o n (infixed operand tier) (infixed operand' tier) :=
  (agree tier).andThen (agrees_infixTurn agree tier).loop.onPair

/-- The operands of the operators of some tiers, and what is joined by them. -/
def operandsOf (unary : Production) (tiers : List Tier) : Operands :=
  tiers.foldl Operands.loosen { beside := fun _ => unary, joined := unary }

theorem Agree.operands (agree : Agrees o n q p) (tiers : List Tier) :
    (∀ tier, Agrees o n ((operandsOf q tiers).beside tier) ((operandsOf p tiers).beside tier)) ∧
      Agrees o n (operandsOf q tiers).joined (operandsOf p tiers).joined := by
  suffices folded : ∀ l l' : Operands, (∀ tier, Agrees o n (l.beside tier) (l'.beside tier)) →
      Agrees o n l.joined l'.joined →
        (∀ tier, Agrees o n ((tiers.foldl Operands.loosen l).beside tier)
          ((tiers.foldl Operands.loosen l').beside tier)) ∧
          Agrees o n (tiers.foldl Operands.loosen l).joined (tiers.foldl Operands.loosen l').joined from
    folded _ _ (fun _ => agree) agree
  induction tiers with
  | nil => exact fun _ _ beside joined => ⟨beside, joined⟩
  | cons tier rest ih =>
    intro l l' beside joined
    have next : ∀ t, Agrees o n ((l.loosen tier).beside t) ((l'.loosen tier).beside t) := by
      intro t
      show Agrees o n (if t = tier then l.joined else l.beside t) (if t = tier then l'.joined else l'.beside t)
      split
      · exact joined
      · exact beside t
    exact ih _ _ next (agrees_infixed next tier)

/-- The operands of a condition start with it; its branches stand behind the question mark. -/
theorem Agree.ternary {u v : Production} (unary : Agrees o (n + 1) u v) (expression : Agrees o n q p) :
    Agrees o (n + 1) (ternary u q) (ternary v p) := by
  rw [funext (ternary_eq u q), funext (ternary_eq v p)]
  have branches : AgreesStepTaking o n (ternaryOf q) (ternaryOf p) :=
    ((((taking_take none).andThen (expression.place _)).andThen (agrees_expect .colon)).andThen
      (expression.place _)).wrapped .ternary (some .condition)
  exact (unary.operands Tier.tightestFirst).2.andThen
    (.iteTaking (c := fun r => r.2.isAt .question) (fun _ found => State.rest_of_isAt found TokenKind.noConfusion)
      branches.onPair agrees_pair)

theorem Agree.unary (agree : Agrees o n q p) : AgreesTaking o n (unary q) (unary p) :=
  .branch .unary ((taking_take _).andThen (agree.place _))

end

/-! ## Declarations -/

theorem taking_rulesVersion : AgreesTaking o n rulesVersion rulesVersion := by
  have version : AgreesStep o n
      (fun d => if d.isAt .string then d.takeAs (some .version) .string else d.lacking (some .version) .string)
      (fun d => if d.isAt .string then d.takeAs (some .version) .string else d.lacking (some .version) .string) :=
    .ite (taking_takeAs _ _).agree (agrees_lacking _ _)
  have step := (((taking_take none).andThen (agrees_expect .assign)).andThen version).andThen (agrees_expect .semicolon)
  exact step.branch .rulesVersion

theorem agrees_parameterTurn : AgreesTurn o n parameterTurn parameterTurn :=
  .ite (c := fun d => d.isAt .rightParen || d.state.isAtSync) agrees_done
    ((Agree.ite (c := (·.isAt .identifier))
      (Agree.place _ (.branch .parameter (taking_takeAs none .identifier).agree))
      (Agree.place none agrees_stray)).andThen agrees_comma)

theorem agrees_methodTurn : AgreesTurn o n methodTurn methodTurn :=
  .ite (c := (·.isAt .identifier))
    ((Agree.ite (c := fun d => isMethod d.state.peek.text) (taking_takeAs _ _).agree
      (Agree.place none agrees_stray)).andThen agrees_comma) agrees_done

theorem agrees_optionalSemicolon : AgreesStep o n (·.optionalSemicolon) (·.optionalSemicolon) :=
  .ite (taking_take none).agree agrees_here

/-- Items in braces agree if the items of each kind do. -/
theorem agrees_bodyTurn {i j : TokenKind → Option Production}
    (items : ∀ kind, Option.Rel (Agrees o n) (i kind) (j kind)) :
    AgreesTurn o n (bodyTurn i) (bodyTurn j) := by
  have item : ∀ kind, Agrees o n ((i kind).getD (skipUntil isBodySync)) ((j kind).getD (skipUntil isBodySync)) := by
    intro kind
    have both := items kind
    generalize i kind = i?, j kind = j? at both
    cases both with
    | none => exact agrees_skipUntil _
    | some agree => exact agree
  exact .ite (c := (·.isAtAny [.rightBrace, .endOfInput])) agrees_done
    (Agree.byKind (g := fun kind d => d.place none ((i kind).getD (skipUntil isBodySync)))
      (f := fun kind d => d.place none ((j kind).getD (skipUntil isBodySync))) fun kind => (item kind).place none).again

theorem taking_body {i j : TokenKind → Option Production} (items : ∀ kind, Option.Rel (Agrees o n) (i kind) (j kind)) :
    AgreesStepTaking o n (·.body i) (·.body j) :=
  ((taking_take none).andThen (agrees_bodyTurn items).loop).andThen (agrees_expect .rightBrace)

namespace Agree

variable {q p : Production} (agree : Agrees o n q p)
include agree

theorem variableDef : AgreesTaking o n (variableDef q) (variableDef p) :=
  .branch .variableDef (((((taking_take none).andThen (agrees_takeName (some .name))).andThen
    (agrees_expect .assign)).andThen (agree.place _)).andThen (agrees_expect .semicolon))

theorem returnStatement : AgreesTaking o n (returnStatement q) (returnStatement p) :=
  .branch .returnStatement (((taking_take none).andThen (agree.place _)).andThen agrees_optionalSemicolon)

theorem functionItem (kind : TokenKind) : Option.Rel (Agrees o n) (functionItem? q kind) (functionItem? p kind) := by
  rw [functionItem?.eq_def, functionItem?.eq_def]
  split
  · exact .some agree.variableDef.agree
  · exact .some agree.returnStatement.agree
  · exact .none

theorem functionBody : Agrees o n (functionBody q) (functionBody p) :=
  .branch .functionBody (.ite (taking_body agree.functionItem).agree (agrees_lacking none _))

theorem functionDef : AgreesTaking o n (functionDef q) (functionDef p) := by
  have parameters : AgreesStep o n
      (fun d => if d.finds .leftParen then ((d.expect .leftParen).loop parameterTurn).expect .rightParen
        else d.expect .leftParen)
      (fun d => if d.finds .leftParen then ((d.expect .leftParen).loop parameterTurn).expect .rightParen
        else d.expect .leftParen) :=
    .ite (((agrees_expect .leftParen).andThen (Agree.loop agrees_parameterTurn)).andThen (agrees_expect .rightParen))
      (agrees_expect .leftParen)
  exact .branch .functionDef ((((taking_take none).andThen (agrees_takeName (some .name))).andThen parameters).andThen
    (agree.functionBody.place (some .body)))

theorem ruleDef : AgreesTaking o n (ruleDef q) (ruleDef p) := by
  have methods : AgreesStep o n
      (fun d => if d.isAt .identifier then d.loop methodTurn else d.lacking (some .method) .method)
      (fun d => if d.isAt .identifier then d.loop methodTurn else d.lacking (some .method) .method) :=
    .ite (Agree.loop agrees_methodTurn) (agrees_lacking _ _)
  have condition : AgreesStep o n
      (fun d => if d.isAt .colon then (d.take.expect .kwIf).place (some .condition) q else d)
      (fun d => if d.isAt .colon then (d.take.expect .kwIf).place (some .condition) p else d) :=
    .ite (((taking_take none).agree.andThen (agrees_expect .kwIf)).andThen (agree.place _)) agrees_here
  exact .branch .ruleDef ((((taking_take none).andThen methods).andThen condition).andThen agrees_optionalSemicolon)

theorem matchDef : AgreesTaking o n (matchDef q) (matchDef p) :=
  .branch .matchDef (((taking_take none).andThen (Agree.place (some .path) agrees_matchPath)).andThen
    (agree.place (some .body)))

theorem serviceOf : AgreesTaking o n (serviceOf q) (serviceOf p) :=
  .branch .serviceDef (((taking_take none).andThen (.ite (c := (·.isAt .identifier))
    (Agree.place (some .name) agrees_serviceName) (agrees_lacking (some .name) .serviceName))).andThen
      (agree.place (some .body)))

omit agree in
theorem bodyItem {body body' : Production} (bodies : Agrees o n body body') (agree : Agrees o n q p)
    (kind : TokenKind) : Option.Rel (Agrees o n) (bodyItem? body q kind) (bodyItem? body' p kind) := by
  rw [bodyItem?.eq_def, bodyItem?.eq_def]
  split
  · exact .some bodies.matchDef.agree
  · exact .some agree.functionDef.agree
  · exact .some agree.ruleDef.agree
  · exact .none

end Agree

theorem agrees_closedBody : Agrees o n closedBody closedBody :=
  .branch .matchBody (Agree.place none (agrees_skipUntil _))

theorem agrees_bodiless : Agrees o n (branch .matchBody (·.lacking none (.token .leftBrace)))
    (branch .matchBody (·.lacking none (.token .leftBrace))) := .branch .matchBody (agrees_lacking none _)

end SecurityRules.Parser
