import SecurityRules.Proofs.Server.Timers
import SecurityRules.Proofs.Text.Fields

/-!
# Input that arrives in pieces

Where one message ends and the next begins does not depend on how the input is cut into pieces, and handling a message
does not look at the input behind it.
-/

namespace SecurityRules.Server

/-! ## Frames -/

namespace Frame

theorem payload_append {size : Nat} {s p rest : Bytes} (whole : payload size s = .message p rest) (more : Bytes) :
    payload size (s ++ more) = .message p (rest ++ more) := by
  rw [payload] at whole
  split at whole
  · cases whole
  · rename_i enough
    cases whole
    have enough : size ≤ s.length := Nat.le_of_not_lt enough
    rw [payload, if_neg (by rw [List.length_append]; omega), List.take_append_of_le_length enough,
      List.drop_append_of_le_length enough]

/-- What one header line says of the rest of the input. -/
def readLine (known : Option Nat) (line rest : Bytes) : FrameRead :=
  if (dropLineEnd line).isEmpty then
    match known with
    | none => .failed .noLength
    | some size => payload size rest
  else
    match lengthOf (dropLineEnd line) known with
    | .error e => .failed e
    | .ok known => read known rest

theorem read_of_cut {known : Option Nat} {s line rest : Bytes} (cut : Bytes.cut? 0x0A s = some (line, rest)) :
    read known s = readLine known line rest := by
  rw [read]
  split
  · rename_i uncut
    rw [cut] at uncut
    cases uncut
  · rename_i cut'
    cases cut.symm.trans cut'
    rfl

theorem read_of_uncut {known : Option Nat} {s : Bytes} (uncut : Bytes.cut? 0x0A s = none) :
    read known s = .needHeader := by
  rw [read]
  split
  · rfl
  · rename_i cut
    rw [uncut] at cut
    cases cut

/-- What is settled about the head of the input stays so when more input arrives. -/
theorem read_append (known : Option Nat) (s more : Bytes) :
    (∀ p rest, read known s = .message p rest → read known (s ++ more) = .message p (rest ++ more)) ∧
      ∀ e, read known s = .failed e → read known (s ++ more) = .failed e := by
  induction size : s.length using Nat.strongRecOn generalizing known s with
  | ind n ih =>
    subst size
    cases cut : Bytes.cut? 0x0A s with
    | none =>
      rw [read_of_uncut cut]
      exact ⟨fun _ _ found => (by cases found), fun _ failed => (by cases failed)⟩
    | some found =>
      obtain ⟨line, rest⟩ := found
      rw [read_of_cut cut, read_of_cut (Bytes.cut?_append cut more)]
      unfold readLine
      split
      · cases known with
        | none => exact ⟨fun _ _ found => (by cases found), fun _ failed => failed⟩
        | some size =>
          dsimp only
          refine ⟨fun p behind whole => payload_append whole more, fun e failed => ?_⟩
          rw [payload] at failed
          split at failed <;> cases failed
      · cases lengthOf (dropLineEnd line) known with
        | error e => exact ⟨fun _ _ found => (by cases found), fun _ failed => failed⟩
        | ok known => exact ih rest.length (length_lt_of_cut? cut) known rest rfl

/-- The input is a sequence of framed messages with these payloads, and nothing else. -/
inductive Carries : Bytes → List Bytes → Prop
  | done : Carries [] []
  | message {s payload rest : Bytes} {payloads : List Bytes} (head : next s = .message payload rest)
    (behind : Carries rest payloads) : Carries s (payload :: payloads)

theorem next_nil : next [] = .needHeader := read_of_uncut rfl

/-- The payloads of a sequence of framed messages, read one after the other. -/
def payloads? : (fuel : Nat) → Bytes → Option (List Bytes)
  | 0, _ => none
  | fuel + 1, s =>
    if s.isEmpty then some []
    else
      match next s with
      | .message payload rest => (payloads? fuel rest).map (payload :: ·)
      | _ => none

theorem Carries.of_payloads? {fuel : Nat} {s : Bytes} {payloads : List Bytes}
    (found : payloads? fuel s = some payloads) :
    Carries s payloads := by
  induction fuel generalizing s payloads with
  | zero => cases found
  | succ fuel ih =>
    rw [payloads?] at found
    split at found
    · rename_i empty
      cases found
      rw [List.isEmpty_iff.mp empty]
      exact .done
    · split at found
      · rename_i payload rest head
        obtain ⟨later, behind, rfl⟩ := Option.map_eq_some_iff.mp found
        exact .message head (ih behind)
      · cases found

/-- As much of a sequence of messages as has arrived: its first message is complete, or none is. -/
theorem Carries.arrived {s more : Bytes} {payloads : List Bytes} (carries : Carries (s ++ more) payloads) :
    (∃ payload rest later, next s = .message payload rest ∧ payloads = payload :: later ∧
      Carries (rest ++ more) later) ∨
      (next s = .needHeader ∨ ∃ got missing, next s = .needPayload got missing) := by
  cases head : next s with
  | message payload rest =>
    have whole := (read_append none s more).1 payload rest head
    generalize joined : s ++ more = whole' at carries
    cases carries with
    | done =>
      obtain ⟨rfl, rfl⟩ := List.append_eq_nil_iff.mp joined
      cases next_nil.symm.trans head
    | message head' behind =>
      subst joined
      cases whole.symm.trans head'
      exact Or.inl ⟨_, _, _, rfl, rfl, behind⟩
  | failed e =>
    have whole := (read_append none s more).2 e head
    generalize joined : s ++ more = whole' at carries
    cases carries with
    | done =>
      obtain ⟨rfl, rfl⟩ := List.append_eq_nil_iff.mp joined
      cases next_nil.symm.trans head
    | message head' _ =>
      subst joined
      cases whole.symm.trans head'
  | needHeader => exact Or.inr (Or.inl rfl)
  | needPayload got missing => exact Or.inr (Or.inr ⟨got, missing, rfl⟩)

theorem length_lt_of_read {known : Option Nat} {s p rest : Bytes} (found : read known s = .message p rest) :
    rest.length < s.length := by
  induction size : s.length using Nat.strongRecOn generalizing known s with
  | ind n ih =>
    subst size
    cases cut : Bytes.cut? 0x0A s with
    | none =>
      rw [read_of_uncut cut] at found
      cases found
    | some pieces =>
      obtain ⟨line, behind⟩ := pieces
      have shorter := length_lt_of_cut? cut
      rw [read_of_cut cut] at found
      unfold readLine at found
      split at found
      · cases known with
        | none => cases found
        | some size =>
          dsimp only at found
          rw [payload] at found
          split at found
          · cases found
          · cases found
            rw [List.length_drop]
            omega
      · cases line' : lengthOf (dropLineEnd line) known with
        | error e =>
          rw [line'] at found
          cases found
        | ok known =>
          rw [line'] at found
          exact Nat.lt_trans (ih behind.length shorter found rfl) shorter

end Frame

namespace Session

/-! ## Handling does not look at the input behind a message -/

/-- The session with the input of another one, going on as long as that one. -/
def around (s t : Session) : Session :=
  { s with input := t.input, isCanceled := t.isCanceled, stopped := t.stopped }

/-- What is done, in a session with other input. -/
def Outcome.around (o : Outcome) (t : Session) : Outcome := (o.1.around t, o.2)

variable {s : Session} (t : Session)

theorem current_around (uri : Bytes) :
    (s.around t).current uri = ((s.current uri).1.around t, (s.current uri).2) := by
  unfold current document? around
  dsimp only
  cases s.documents.lookup uri with
  | none => rfl
  | some d =>
    dsimp only
    cases (s.store.get? uri).filter fun kept => kept.version == d.revision.toInt with
    | none => rfl
    | some kept => rfl

theorem applyLimit_around (limit : Option Int) :
    (s.around t).applyLimit limit = ((s.applyLimit limit).1.around t, (s.applyLimit limit).2) := by
  unfold applyLimit around
  cases limit with
  | none => rfl
  | some n =>
    dsimp only
    split <;> rfl

theorem applyPolicy_around (name : Option Bytes) :
    (s.around t).applyPolicy name = ((s.applyPolicy name).1.around t, (s.applyPolicy name).2) := by
  unfold applyPolicy around
  cases name with
  | none => rfl
  | some name =>
    dsimp only
    cases ScopePolicy.ofName? name with
    | none => rfl
    | some policy =>
      dsimp only
      split <;> rfl

theorem applySettings_around (value : Json) :
    (s.around t).applySettings value = ((s.applySettings value).1.around t, (s.applySettings value).2) := by
  unfold applySettings
  cases Settings.ofJson? value with
  | none => rfl
  | some settings =>
    have traced : { s.around t with trace := settings.trace.getD (s.around t).trace } =
        { s with trace := settings.trace.getD s.trace }.around t := rfl
    dsimp only
    rw [traced, applyLimit_around]
    dsimp only
    rw [applyPolicy_around]
    dsimp only
    split <;> rfl

theorem onSetUp_around (m : Message) : (s.around t).onSetUp m = Outcome.around (s.onSetUp m) t := by
  unfold onSetUp
  cases m.params with
  | none => rfl
  | some params =>
    dsimp only
    cases initialOptions? params with
    | none => rfl
    | some given =>
      cases given with
      | none => rfl
      | some options =>
        dsimp only
        rw [applySettings_around]
        rfl

theorem onConfigure_around (m : Message) : (s.around t).onConfigure m = Outcome.around (s.onConfigure m) t := by
  unfold onConfigure
  split
  · dsimp only
    rw [applySettings_around]
    dsimp only
    split <;> rfl
  · rfl

theorem onOpen_around (p : OpenParams) : (s.around t).onOpen p = Outcome.around (s.onOpen p) t := by
  unfold onOpen
  split <;> rfl

theorem onChange_around (p : ChangeParams) : (s.around t).onChange p = Outcome.around (s.onChange p) t := by
  unfold onChange document? around
  dsimp only
  cases s.documents.lookup p.uri <;> rfl

theorem onSave_around (p : SaveParams) : (s.around t).onSave p = Outcome.around (s.onSave p) t := by
  unfold onSave document? around
  dsimp only
  cases s.documents.lookup p.uri with
  | none => rfl
  | some d =>
    dsimp only
    cases p.text.filter (· != d.text) <;> rfl

theorem onClose_around (uri : Bytes) : (s.around t).onClose uri = Outcome.around (s.onClose uri) t := by
  rw [onClose_eq, onClose_eq]
  rfl

theorem onMarks_around (m : Message) (uri : Bytes) :
    (s.around t).onMarks m uri = Outcome.around (s.onMarks m uri) t := by
  unfold onMarks
  rw [current_around]
  rfl

theorem onOutline_around (m : Message) (uri : Bytes) :
    (s.around t).onOutline m uri = Outcome.around (s.onOutline m uri) t := by
  unfold onOutline
  rw [current_around]
  rfl

theorem onDefinition_around (m : Message) (p : PositionParams) :
    (s.around t).onDefinition m p = Outcome.around (s.onDefinition m p) t := by
  unfold onDefinition
  rw [current_around]
  have traced : (s.around t).trace = s.trace := rfl
  rw [traced]
  cases s.trace <;> rfl

theorem withParams_around {α : Type} {m : Message} {read : Json → Option α} {go go' : α → Outcome}
    (goes : ∀ params, go' params = (go params).around t) :
    (s.around t).withParams m read go' = Outcome.around (s.withParams m read go) t := by
  unfold withParams
  cases m.params.bind read with
  | none => rfl
  | some params => exact goes params

theorem answering_around {α : Type} {m : Message} {read : Json → Option α} {go go' : α → Outcome}
    (goes : ∀ params, go' params = (go params).around t) :
    (s.around t).answering m read go' = Outcome.around (s.answering m read go) t := by
  unfold answering
  cases m.params.bind read with
  | none => rfl
  | some params => exact goes params

theorem perform_around (m : Message) (method : Method) :
    (s.around t).perform m method = Outcome.around (s.perform m method) t := by
  cases method with
  | setUp => exact onSetUp_around t m
  | ready | shutDown | exit => rfl
  | configure => exact onConfigure_around t m
  | opened => exact withParams_around t (onOpen_around t)
  | changed => exact withParams_around t (onChange_around t)
  | saved => exact withParams_around t (onSave_around t)
  | closed => exact withParams_around t (onClose_around t)
  | marks => exact answering_around t (onMarks_around t m)
  | definition => exact answering_around t (onDefinition_around t m)
  | outline => exact answering_around t (onOutline_around t m)

theorem handlePayload_around (payload : Bytes) :
    (s.around t).handlePayload payload = Outcome.around (s.handlePayload payload) t := by
  unfold handlePayload
  cases (Json.parse? payload).bind Message.ofJson? with
  | none => rfl
  | some m =>
    dsimp only
    split
    · rfl
    · unfold handle
      cases method? m.method with
      | some method =>
        dsimp only
        rw [perform_around]
        rfl
      | none =>
        dsimp only
        cases m.id <;> rfl

theorem publishOne_around (uri : Bytes) (d : OpenDocument) :
    (s.around t).publishOne uri d = ((s.publishOne uri d).1.around t, (s.publishOne uri d).2) := by
  have analyzed : (s.around t).analyze uri d = ((s.analyze uri d).1.around t, (s.analyze uri d).2) := rfl
  have marked : ((s.analyze uri d).1.around t).markPublished uri =
      ((s.analyze uri d).1.markPublished uri).map (·.around t) := by
    unfold markPublished document? around
    dsimp only
    split <;> rfl
  unfold publishOne
  rw [analyzed]
  dsimp only
  split
  · rfl
  · rw [marked]
    cases (s.analyze uri d).1.markPublished uri <;> rfl

theorem publishAll_around (pending : List (Bytes × OpenDocument)) :
    (s.around t).publishAll pending = ((s.publishAll pending).1.around t, (s.publishAll pending).2) := by
  induction pending generalizing s with
  | nil => rfl
  | cons entry rest ih =>
    unfold publishAll
    rw [publishOne_around]
    dsimp only
    rw [ih]

theorem timeOut_around (number : UInt64) (canceled : t.isCanceled = s.isCanceled) :
    (s.around t).timeOut number = ((s.timeOut number).1.around t, (s.timeOut number).2) := by
  have canceled : (s.around t).isCanceled = s.isCanceled := canceled
  have latest : (s.around t).latestTimer = s.latestTimer := rfl
  unfold timeOut
  rw [canceled, latest]
  split
  · exact publishAll_around (s := s.collect.2) t s.collect.1
  · rfl

theorem settle_of_pending {number : UInt64} (running : s.stopped = none) (pending : s.pendingTimer = some number) :
    s.settle = { s with pendingTimer := none }.timeOut number := by
  unfold settle
  split
  · rename_i number' _ pending'
    cases pending.symm.trans pending'
    rfl
  · rename_i idle
    exact absurd pending (idle number running)

/-- A timer runs out while the session goes on. -/
theorem fire_around (number : UInt64) (running : s.stopped = none) (running' : t.stopped = none)
    (canceled : t.isCanceled = s.isCanceled) :
    (s.around t).fire number = ((s.fire number).1.around t, (s.fire number).2) := by
  have same : (s.around t).pendingTimer = s.pendingTimer := rfl
  unfold fire
  rw [same]
  split
  · rename_i pending
    rw [settle_of_pending running pending, settle_of_pending (s := s.around t) running' pending]
    exact timeOut_around (s := { s with pendingTimer := none }) t number canceled
  · exact timeOut_around t number canceled

end Session

end SecurityRules.Server
