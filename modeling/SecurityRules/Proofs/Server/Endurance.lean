import Mathlib.Data.List.TakeWhile
import SecurityRules.Proofs.Server.Input

/-!
# Which payloads end a session

A session that is never asked to exit ends with its input unless one of four notifications has not the parameters it
must have. Whatever else a payload holds, the session goes on behind it, and what it cannot understand leaves it as it
was.
-/

namespace SecurityRules.Server

/-! ## What a session gets -/

/-- What a session gets from outside: a piece of its input, or a timer that runs out. -/
inductive Arrival where
  | piece (bytes : Bytes)
  | timer (number : UInt64)

/-- All of the input. -/
def inputOf : List Arrival → Bytes
  | [] => []
  | .piece bytes :: rest => bytes ++ inputOf rest
  | .timer _ :: rest => inputOf rest

/-- The timers that run out. -/
def timersAmong : List Arrival → List UInt64
  | [] => []
  | .piece _ :: rest => timersAmong rest
  | .timer number :: rest => number :: timersAmong rest

/-- The payloads that are handled. -/
def payloadsMet : List Happening → List Bytes
  | [] => []
  | .payload bytes :: rest => bytes :: payloadsMet rest
  | .timer _ :: rest => payloadsMet rest

/-- The timers that run out between them. -/
def timersMet : List Happening → List UInt64
  | [] => []
  | .payload _ :: rest => timersMet rest
  | .timer number :: rest => number :: timersMet rest

theorem payloadsMet_append (before behind : List Happening) :
    payloadsMet (before ++ behind) = payloadsMet before ++ payloadsMet behind := by
  induction before with
  | nil => rfl
  | cons h rest ih => cases h <;> simp [payloadsMet, ih]

theorem timersMet_append (before behind : List Happening) :
    timersMet (before ++ behind) = timersMet before ++ timersMet behind := by
  induction before with
  | nil => rfl
  | cons h rest ih => cases h <;> simp [timersMet, ih]

theorem payloadsMet_payloads (payloads : List Bytes) : payloadsMet (payloads.map .payload) = payloads := by
  induction payloads with
  | nil => rfl
  | cons payload rest ih => exact congrArg (payload :: ·) ih

theorem timersMet_payloads (payloads : List Bytes) : timersMet (payloads.map .payload) = [] := by
  induction payloads with
  | nil => rfl
  | cons payload rest ih => exact ih

/-! ## What a payload asks for -/

/-- Whether the parameters of a message have the shape that its method asks for. -/
def Message.isReadable (m : Message) : Session.Method → Bool
  | .setUp => m.params.all fun params =>
    (initialOptions? params).any fun options => options.all fun value => (Settings.ofJson? value).isSome
  | .configure => (m.params.bind changedSettings?).any fun settings =>
    settings.all fun value => (Settings.ofJson? value).isSome
  | .opened => (m.params.bind OpenParams.ofJson?).isSome
  | .changed => (m.params.bind ChangeParams.ofJson?).isSome
  | .saved => (m.params.bind SaveParams.ofJson?).isSome
  | .closed => (m.params.bind closedUri?).isSome
  | .marks | .outline => (m.params.bind requestUri?).isSome
  | .definition => (m.params.bind PositionParams.ofJson?).isSome
  | .ready | .shutDown | .exit => true

/-- The notifications that tell of a document of the editor. -/
def Session.Method.tells : Session.Method → Bool
  | .opened | .changed | .saved | .closed => true
  | .setUp | .ready | .shutDown | .exit | .configure | .marks | .definition | .outline => false

/-- The message that a payload is, with its method, if that is known. -/
def request? (payload : Bytes) : Option (Message × Session.Method) :=
  ((Json.parse? payload).bind Message.ofJson?).bind fun m => (Session.method? m.method).map fun method => (m, method)

/-- Whether a payload is a message with a known method and parameters of the right shape. -/
def isUnderstood (payload : Bytes) : Bool := (request? payload).any fun (m, method) => m.isReadable method

/-- Whether a payload tells of a document with parameters of a wrong shape. -/
def misinforms (payload : Bytes) : Bool :=
  (request? payload).any fun (m, method) => method.tells && !m.isReadable method

theorem not_isUnderstood_of_misinforms {payload : Bytes} (wrong : misinforms payload = true) :
    isUnderstood payload = false := by
  rw [misinforms] at wrong
  rw [isUnderstood]
  cases asked : request? payload with
  | none => rfl
  | some asked' =>
    rw [asked, Option.any_some, Bool.and_eq_true, Bool.not_eq_true'] at wrong
    exact wrong.2

theorem methodOf?_eq (payload : Bytes) : methodOf? payload = (request? payload).map (·.2) := by
  rw [methodOf?, request?]
  cases (Json.parse? payload).bind Message.ofJson? with
  | none => rfl
  | some m => cases known : Session.method? m.method <;> simp [known]

namespace Session

variable {s t : Session} {m : Message}

/-! ## One payload -/

theorem withParams_of_unreadable {α : Type} {read : Json → Option α} {go : α → Outcome}
    (unreadable : (m.params.bind read).isSome = false) : s.withParams m read go = (s, [], some .badParams) := by
  have refused : m.params.bind read = none := by simpa using unreadable
  rw [withParams, refused]

theorem answering_of_unreadable {α : Type} {read : Json → Option α} {go : α → Outcome}
    (unreadable : (m.params.bind read).isSome = false) :
    s.answering m read go = s.sending (errorResponse m.id .invalidParams) := by
  have refused : m.params.bind read = none := by simpa using unreadable
  rw [answering, refused]

theorem applySettings_of_unreadable {value : Json} (unreadable : (Settings.ofJson? value).isSome = false) :
    s.applySettings value = (s, false, [logged ("ignoring settings: " ++ jsonComplaint)]) := by
  have refused : Settings.ofJson? value = none := by simpa using unreadable
  rw [applySettings, refused]

theorem onSetUp_of_unreadable (unreadable : m.isReadable .setUp = false) : (s.onSetUp m).1 = s := by
  rw [Message.isReadable] at unreadable
  rw [onSetUp]
  cases given : m.params with
  | none => rfl
  | some params =>
    rw [given, Option.all_some] at unreadable
    dsimp only
    cases read : initialOptions? params with
    | none => rfl
    | some options =>
      rw [read, Option.any_some] at unreadable
      cases options with
      | none => rfl
      | some value =>
        dsimp only
        rw [applySettings_of_unreadable unreadable]

theorem onConfigure_of_unreadable (unreadable : m.isReadable .configure = false) : (s.onConfigure m).1 = s := by
  rw [Message.isReadable] at unreadable
  rw [onConfigure]
  cases read : m.params.bind changedSettings? with
  | none => rfl
  | some settings =>
    rw [read, Option.any_some] at unreadable
    cases settings with
    | none => rfl
    | some value =>
      dsimp only
      rw [applySettings_of_unreadable unreadable]
      rfl

/-- A message that cannot be read changes nothing, whatever its method. -/
theorem perform_of_unreadable {method : Method} (unreadable : m.isReadable method = false) :
    (s.perform m method).1 = s := by
  cases method with
  | setUp => exact onSetUp_of_unreadable unreadable
  | configure => exact onConfigure_of_unreadable unreadable
  | opened | changed | saved | closed =>
    rw [perform, withParams_of_unreadable unreadable]
  | marks | definition | outline =>
    rw [perform, answering_of_unreadable unreadable]
    rfl
  | ready | shutDown | exit => cases unreadable

/-- What is not understood changes nothing, be it no message at all, a message with a method that nobody knows or one
whose parameters have a wrong shape. -/
theorem handlePayload_of_not_understood {payload : Bytes} (unclear : isUnderstood payload = false) :
    (s.handlePayload payload).1 = s := by
  rw [isUnderstood, request?] at unclear
  rw [handlePayload]
  cases read : (Json.parse? payload).bind Message.ofJson? with
  | none => rfl
  | some m =>
    rw [read, Option.bind_some] at unclear
    dsimp only
    split
    · rfl
    · rw [handle]
      cases known : method? m.method with
      | none =>
        dsimp only
        split <;> rfl
      | some method =>
        rw [known, Option.map_some, Option.any_some] at unclear
        exact perform_of_unreadable unclear

theorem stop_withParams {α : Type} {read : Json → Option α} {go : α → Outcome}
    (goes : ∀ params, (go params).2.2 = none) :
    (s.withParams m read go).2.2 = if !(m.params.bind read).isSome then some .badParams else none := by
  rw [withParams]
  cases m.params.bind read with
  | none => rfl
  | some params => exact goes params

theorem stop_answering {α : Type} {read : Json → Option α} {go : α → Outcome}
    (goes : ∀ params, (go params).2.2 = none) : (s.answering m read go).2.2 = none := by
  rw [answering]
  split
  · rfl
  · exact goes _

/-- Apart from a request to exit, only a notification about a document ends the session. -/
theorem stop_perform {method : Method} (goesOn : method ≠ .exit) :
    (s.perform m method).2.2 = if method.tells && !m.isReadable method then some .badParams else none := by
  cases method with
  | setUp =>
    rw [perform, onSetUp]
    dsimp only
    split <;> rfl
  | ready | shutDown => rfl
  | exit => exact absurd rfl goesOn
  | configure =>
    rw [perform, onConfigure]
    split <;> rfl
  | opened => exact stop_withParams fun p => by rw [onOpen]; split <;> rfl
  | changed => exact stop_withParams fun p => by rw [onChange]; dsimp only; split <;> rfl
  | saved => exact stop_withParams fun p => by rw [onSave]; split <;> [rfl; (split <;> rfl)]
  | closed => exact stop_withParams fun uri => by rw [onClose_eq]
  | marks => exact stop_answering fun _ => rfl
  | definition => exact stop_answering fun p => by rw [onDefinition]; dsimp only; split <;> rfl
  | outline => exact stop_answering fun _ => rfl

theorem stop_handlePayload {payload : Bytes} (goesOn : methodOf? payload ≠ some .exit) :
    (s.handlePayload payload).2.2 = if misinforms payload then some .badParams else none := by
  rw [methodOf?_eq, request?] at goesOn
  rw [misinforms, request?, handlePayload]
  cases read : (Json.parse? payload).bind Message.ofJson? with
  | none => rfl
  | some m =>
    rw [read, Option.bind_some] at goesOn
    rw [Option.bind_some]
    dsimp only
    split
    · rename_i nameless
      rw [List.isEmpty_iff.mp nameless]
      rfl
    · rw [handle]
      cases known : method? m.method with
      | none =>
        dsimp only
        split <;> rfl
      | some method =>
        rw [known] at goesOn
        exact stop_perform fun exit => goesOn (congrArg some exit)

/-! ## A whole session -/

/-- Takes what comes from outside, one thing after the other. -/
def get (s : Session) : List Arrival → Session × List Effect
  | [] => (s, [])
  | .piece bytes :: rest =>
    let (t, effects) := s.receive bytes
    let (u, more) := t.get rest
    (u, effects ++ more)
  | .timer number :: rest =>
    let (t, effects) := s.fire number
    let (u, more) := t.get rest
    (u, effects ++ more)

/-- Handles payloads and timers, one after the other. -/
def meetAll (s : Session) : List Happening → Session × List Effect
  | [] => (s, [])
  | .payload bytes :: rest =>
    let (t, effects, _) := s.handlePayload bytes
    let (u, more) := t.meetAll rest
    (u, effects ++ more)
  | .timer number :: rest =>
    let (t, effects) := s.fire number
    let (u, more) := t.meetAll rest
    (u, effects ++ more)

/-- The open documents with their texts and revisions. -/
def texts (s : Session) : List (Bytes × Bytes × Int32) := s.documents.map fun (uri, d) => (uri, d.text, d.revision)

theorem meetAll_append (before behind : List Happening) : s.meetAll (before ++ behind) =
    (((s.meetAll before).1.meetAll behind).1, (s.meetAll before).2 ++ ((s.meetAll before).1.meetAll behind).2) := by
  induction before generalizing s with
  | nil => rfl
  | cons h rest ih =>
    cases h <;> simp [meetAll, ih]

/-- A session that goes on. -/
structure GoesOn (s : Session) : Prop where
  running : s.stopped = none
  live : s.isCanceled = false

/-- Handling a payload leaves what is around it. -/
theorem handlePayload_within (payload : Bytes) : (s.handlePayload payload).1.around s = (s.handlePayload payload).1 :=
  (congrArg Prod.fst (handlePayload_around (s := s) s payload)).symm

theorem fire_within (goesOn : s.GoesOn) (number : UInt64) : (s.fire number).1.around s = (s.fire number).1 :=
  (congrArg Prod.fst (fire_around (s := s) s number goesOn.running goesOn.running rfl)).symm

theorem GoesOn.around (goesOn : t.GoesOn) (s : Session) : (s.around t).GoesOn := ⟨goesOn.running, goesOn.live⟩

theorem GoesOn.handlePayload (goesOn : s.GoesOn) (payload : Bytes) : (s.handlePayload payload).1.GoesOn :=
  handlePayload_within payload ▸ goesOn.around _

theorem GoesOn.fire (goesOn : s.GoesOn) (number : UInt64) : (s.fire number).1.GoesOn :=
  fire_within goesOn number ▸ goesOn.around _

theorem meetAll_around (goesOn : s.GoesOn) (goesOn' : t.GoesOn) (happenings : List Happening) :
    (s.around t).meetAll happenings = ((s.meetAll happenings).1.around t, (s.meetAll happenings).2) := by
  induction happenings generalizing s with
  | nil => rfl
  | cons h rest ih =>
    cases h with
    | payload bytes =>
      rw [meetAll, meetAll, handlePayload_around]
      dsimp only [Outcome.around]
      rw [ih (goesOn.handlePayload bytes)]
    | timer number =>
      rw [meetAll, meetAll, fire_around t number goesOn.running goesOn'.running
        (goesOn'.live.trans goesOn.live.symm)]
      dsimp only
      rw [ih (goesOn.fire number)]

theorem meetAll_within (goesOn : s.GoesOn) (happenings : List Happening) :
    (s.meetAll happenings).1.around s = (s.meetAll happenings).1 :=
  (congrArg Prod.fst (meetAll_around (s := s) goesOn goesOn happenings)).symm

theorem GoesOn.meetAll (goesOn : s.GoesOn) (happenings : List Happening) : (s.meetAll happenings).1.GoesOn :=
  meetAll_within goesOn happenings ▸ goesOn.around _

/-- What is left of the input holds no complete message. -/
def Waits (s : Session) : Prop :=
  Frame.next s.input = .needHeader ∨ ∃ got missing, Frame.next s.input = .needPayload got missing

/-- A session that has done nothing but meet these happenings, whatever input it has left. -/
structure Serves (first : Session) (happenings : List Happening) (done : Session × List Effect) : Prop where
  state : done.1 = (first.meetAll happenings).1.around done.1
  effects : done.2 = (first.meetAll happenings).2
  goesOn : done.1.GoesOn

/-- A session that a payload has ended when it had met these happenings. -/
structure Ended (first : Session) (happenings : List Happening) (t : Session) : Prop where
  stopped : t.stopped = some .badParams
  texts : t.texts = (first.meetAll happenings).1.texts

variable {before behind : List Happening} {done done' : Session × List Effect}

theorem Serves.around_iff (goesOn : s.GoesOn) (goesOn' : t.GoesOn) :
    (s.around t).Serves behind done ↔ s.Serves behind done := by
  have same := meetAll_around goesOn goesOn' behind
  constructor
  · rintro ⟨state, effects, goesOn⟩
    rw [same] at state effects
    exact ⟨state, effects, goesOn⟩
  · rintro ⟨state, effects, goesOn⟩
    refine ⟨?_, ?_, goesOn⟩
    · rw [same]
      exact state
    · rw [same]
      exact effects

theorem Ended.around_iff {u : Session} (goesOn : s.GoesOn) (goesOn' : t.GoesOn) :
    (s.around t).Ended behind u ↔ s.Ended behind u := by
  have same := meetAll_around goesOn goesOn' behind
  constructor
  · rintro ⟨stopped, texts⟩
    rw [same] at texts
    exact ⟨stopped, texts⟩
  · rintro ⟨stopped, texts⟩
    refine ⟨stopped, ?_⟩
    rw [same]
    exact texts

theorem Serves.trans (goesOn : s.GoesOn) (serves : s.Serves before done) (serves' : done.1.Serves behind done') :
    s.Serves (before ++ behind) (done'.1, done.2 ++ done'.2) := by
  rw [serves.state, around_iff (goesOn.meetAll before) serves.goesOn] at serves'
  refine ⟨?_, ?_, serves'.goesOn⟩
  · rw [meetAll_append]
    exact serves'.state
  · rw [meetAll_append, serves.effects, serves'.effects]

theorem Serves.ended {u : Session} (goesOn : s.GoesOn) (serves : s.Serves before done)
    (ended : done.1.Ended behind u) : s.Ended (before ++ behind) u := by
  rw [serves.state, Ended.around_iff (goesOn.meetAll before) serves.goesOn] at ended
  refine ⟨ended.stopped, ?_⟩
  rw [meetAll_append]
  exact ended.texts

/-! ## Timers -/

theorem texts_fire (number : UInt64) : (s.fire number).1.texts = s.texts := by
  have flushed (s : Session) : s.flush.1.texts = s.texts := by
    unfold flush texts
    dsimp only
    rw [documents_publishAll]
    simp [collect]
  have timedOut (s : Session) (number : UInt64) : (s.timeOut number).1.texts = s.texts := by
    unfold timeOut
    split
    · exact flushed s
    · rfl
  unfold fire settle
  split
  · split
    · exact timedOut _ _
    · rfl
  · exact timedOut s number

theorem stopped_fire (number : UInt64) : (s.fire number).1.stopped = s.stopped := by
  have timedOut (s : Session) (number : UInt64) : (s.timeOut number).1.stopped = s.stopped :=
    congrArg (fun done => done.1.stopped) (timeOut_around (s := s) s number rfl)
  unfold fire settle
  split
  · split
    · exact timedOut _ _
    · rfl
  · exact timedOut s number

/-- What ends a session ends it for good. -/
theorem Ended.get {first : Session} (ended : first.Ended before t) (arrivals : List Arrival) :
    first.Ended before (t.get arrivals).1 := by
  induction arrivals generalizing t with
  | nil => exact ended
  | cons a rest ih =>
    cases a with
    | piece bytes =>
      have idle : t.receive bytes = (t, []) := by rw [receive, ended.stopped]
      rw [Session.get, idle]
      exact ih ended
    | timer number =>
      exact ih ⟨(stopped_fire number).trans ended.stopped, (texts_fire number).trans ended.texts⟩

/-! ## Input -/

/-- What handling the payload at the head of the input comes to. -/
theorem stepPayload_cases {payload : Bytes} (rest : Bytes) (goesOn : s.GoesOn)
    (stays : methodOf? payload ≠ some .exit) :
    if misinforms payload then
      s.Ended [] (stepPayload { s with input := rest } payload).1
    else
      s.Serves [.payload payload] (stepPayload { s with input := rest } payload) ∧
        (stepPayload { s with input := rest } payload).1.input = rest := by
  have started : ({ s with input := rest } : Session) = s.around { s with input := rest } := rfl
  rw [stepPayload, started, handlePayload_around]
  dsimp only [Outcome.around]
  rw [stop_handlePayload stays]
  split
  · rename_i wrong
    rw [handlePayload_of_not_understood (not_isUnderstood_of_misinforms wrong)]
    exact ⟨rfl, rfl⟩
  · have live : ((s.handlePayload payload).1.around { s with input := rest }).isCanceled = false := goesOn.live
    dsimp only
    rw [live, if_neg Bool.false_ne_true]
    exact ⟨⟨rfl, (List.append_nil _).symm, goesOn.running, goesOn.live⟩, rfl⟩

theorem drain_of_stopped {stop : Stop} (stopped : s.stopped = some stop) (fuel : Nat) : drain fuel s = (s, []) := by
  cases fuel with
  | zero => rfl
  | succ fuel => rw [drain, stopped]

theorem drain_of_waits (waits : s.Waits) (fuel : Nat) : drain fuel s = (s, []) := by
  cases fuel with
  | zero => rfl
  | succ fuel =>
    rw [drain]
    split
    · rfl
    · rcases waits with head | ⟨got, missing, head⟩ <;> rw [head]

theorem drain_of_message {payload rest : Bytes} (running : s.stopped = none)
    (head : Frame.next s.input = .message payload rest) (fuel : Nat) :
    drain (fuel + 1) s = ((drain fuel (stepPayload { s with input := rest } payload).1).1,
      (stepPayload { s with input := rest } payload).2 ++
        (drain fuel (stepPayload { s with input := rest } payload).1).2) := by
  rw [drain]
  split
  · rename_i stopped
    cases running.symm.trans stopped
  · rw [head]

/-- The session handles the complete messages of its input up to the first that misinforms. -/
theorem drain_carries (fuel : Nat) {more : Bytes} {payloads : List Bytes} (goesOn : s.GoesOn)
    (carries : Frame.Carries (s.input ++ more) payloads) (stays : ∀ p ∈ payloads, methodOf? p ≠ some .exit)
    (enough : s.input.length < fuel) : ∃ handled later, payloads = handled ++ later ∧
      (∀ p ∈ handled, misinforms p = false) ∧
      (s.Serves (handled.map .payload) (drain fuel s) ∧ (drain fuel s).1.Waits ∧
          Frame.Carries ((drain fuel s).1.input ++ more) later ∨
        s.Ended (handled.map .payload) (drain fuel s).1 ∧ ∃ p rest, later = p :: rest ∧ misinforms p = true) := by
  induction fuel generalizing s payloads with
  | zero => cases enough
  | succ fuel ih =>
    rcases carries.arrived with ⟨payload, rest, later, head, rfl, behind⟩ | waits
    · have shorter := Frame.length_lt_of_read head
      have step := stepPayload_cases rest goesOn (stays payload List.mem_cons_self)
      rw [drain_of_message goesOn.running head]
      split at step
      · rename_i wrong
        rw [drain_of_stopped step.stopped]
        exact ⟨[], payload :: later, rfl, by simp, Or.inr ⟨step, payload, later, rfl, wrong⟩⟩
      · rename_i right
        obtain ⟨serves, left⟩ := step
        obtain ⟨handled, later', rfl, fine, goes⟩ := ih serves.goesOn (left.symm ▸ behind)
          (fun p member => stays p (List.mem_cons_of_mem _ member)) (by rw [left]; omega)
        refine ⟨payload :: handled, later', rfl, ?_, ?_⟩
        · rintro p (_ | ⟨_, member⟩)
          · exact Bool.eq_false_iff.mpr right
          · exact fine p member
        · rcases goes with ⟨serves', waits, rest⟩ | ⟨ended, wrong⟩
          · exact Or.inl ⟨serves.trans goesOn serves', waits, rest⟩
          · exact Or.inr ⟨serves.ended goesOn ended, wrong⟩
    · have waits : s.Waits := waits
      rw [drain_of_waits waits]
      exact ⟨[], payloads, rfl, by simp, Or.inl ⟨⟨rfl, rfl, goesOn⟩, waits, carries⟩⟩

theorem Waits.carries_eq {payloads : List Bytes} (waits : s.Waits) (carries : Frame.Carries s.input payloads) :
    s.input = [] ∧ payloads = [] := by
  rw [Waits] at waits
  generalize s.input = input at *
  cases carries with
  | done => exact ⟨rfl, rfl⟩
  | message head _ =>
    rcases waits with waits | ⟨_, _, waits⟩ <;> cases waits.symm.trans head

/-- What a session has met when all of its input has arrived. -/
theorem get_carries {arrivals : List Arrival} {payloads : List Bytes} (goesOn : s.GoesOn) (waits : s.Waits)
    (carries : Frame.Carries (s.input ++ inputOf arrivals) payloads)
    (stays : ∀ p ∈ payloads, methodOf? p ≠ some .exit) : ∃ happenings,
      payloadsMet happenings = payloads.takeWhile (fun p => !misinforms p) ∧
      ((∀ p ∈ payloads, misinforms p = false) ∧ timersMet happenings = timersAmong arrivals ∧
          s.Serves happenings (s.get arrivals) ∧ (s.get arrivals).1.input = [] ∨
        (∃ p ∈ payloads, misinforms p = true) ∧ s.Ended happenings (s.get arrivals).1) := by
  induction arrivals generalizing s payloads with
  | nil =>
    rw [inputOf, List.append_nil] at carries
    obtain ⟨empty, rfl⟩ := waits.carries_eq carries
    exact ⟨[], rfl, Or.inl ⟨by simp, rfl, ⟨rfl, rfl, goesOn⟩, empty⟩⟩
  | cons a rest ih =>
    cases a with
    | piece bytes =>
      rw [inputOf, ← List.append_assoc] at carries
      have received : s.receive bytes =
          drain (s.input.length + bytes.length + 1) (s.around { s with input := s.input ++ bytes }) := by
        rw [receive, goesOn.running]
        rfl
      have goesOn' : ({ s with input := s.input ++ bytes } : Session).GoesOn := ⟨goesOn.running, goesOn.live⟩
      obtain ⟨handled, later, rfl, fine, goes⟩ := drain_carries (s.input.length + bytes.length + 1)
        (goesOn'.around s) carries stays (by simp [around])
      rw [← received] at goes
      rw [List.takeWhile_append_of_pos (by simpa using fine)]
      rcases goes with ⟨serves, waits', carries'⟩ | ⟨ended, p, later', rfl, wrong⟩
      · rw [Serves.around_iff goesOn goesOn'] at serves
        obtain ⟨happenings, met, goes⟩ := ih serves.goesOn waits' carries'
          fun p member => stays p (List.mem_append_right _ member)
        refine ⟨handled.map .payload ++ happenings, ?_, ?_⟩
        · rw [payloadsMet_append, payloadsMet_payloads, met]
        · rcases goes with ⟨fine', timers, serves', empty⟩ | ⟨⟨p, member, wrong⟩, ended⟩
          · refine Or.inl ⟨?_, ?_, serves.trans goesOn serves', empty⟩
            · intro p member
              exact (List.mem_append.mp member).elim (fine p) (fine' p)
            · rw [timersMet_append, timersMet_payloads, timers]
              rfl
          · exact Or.inr ⟨⟨p, List.mem_append_right _ member, wrong⟩, serves.ended goesOn ended⟩
      · rw [Ended.around_iff goesOn goesOn'] at ended
        refine ⟨handled.map .payload, ?_, Or.inr ⟨⟨p, by simp, wrong⟩, ended.get rest⟩⟩
        rw [payloadsMet_payloads, List.takeWhile_cons_of_neg (by simp [wrong]), List.append_nil]
    | timer number =>
      have within := fire_within goesOn number
      have same : (s.fire number).1.input = s.input := by rw [← within]; rfl
      have waits' : (s.fire number).1.Waits := by rw [Waits, same]; exact waits
      have serves : s.Serves [.timer number] (s.fire number) :=
        ⟨rfl, (List.append_nil _).symm, goesOn.fire number⟩
      obtain ⟨happenings, met, goes⟩ := ih (goesOn.fire number) waits' (by rw [same]; exact carries) stays
      refine ⟨.timer number :: happenings, met, ?_⟩
      rcases goes with ⟨fine, timers, serves', empty⟩ | ⟨wrong, ended⟩
      · exact Or.inl ⟨fine, congrArg (number :: ·) timers, serves.trans goesOn serves', empty⟩
      · exact Or.inr ⟨wrong, serves.ended goesOn ended⟩

/-- A session that is never asked to exit and gets nothing but framed messages, in whatever pieces they arrive and
whatever timers run out between them, ends with its input, having handled all payloads, unless one of them misinforms;
the first one that does ends it. What is not understood leaves the session as it was. -/
theorem ends_with_input (options : AnalysisOptions) (maxDiagnostics : Int) (trace : Bool) (arrivals : List Arrival)
    (payloads : List Bytes) (carries : Frame.Carries (inputOf arrivals) payloads)
    (stays : ∀ p ∈ payloads, methodOf? p ≠ some .exit) :
    let first := start options maxDiagnostics trace
    let done := first.get arrivals
    done.1.close.stopped = some (if payloads.any misinforms then .badParams else .endOfInput) ∧
      (∃ happenings, payloadsMet happenings = payloads.takeWhile (fun p => !misinforms p) ∧
        done.1.texts = (first.meetAll happenings).1.texts ∧
        (payloads.any misinforms = false →
          payloadsMet happenings = payloads ∧ timersMet happenings = timersAmong arrivals ∧
            done = first.meetAll happenings)) ∧
      ∀ (s : Session) (p : Bytes), isUnderstood p = false → (s.handlePayload p).1 = s := by
  have goesOn : (start options maxDiagnostics trace).GoesOn := ⟨rfl, rfl⟩
  obtain ⟨happenings, met, goes⟩ := get_carries goesOn (Or.inl Frame.next_nil) carries stays
  dsimp only
  refine ⟨?_, ⟨happenings, met, ?_⟩, fun s p unclear => handlePayload_of_not_understood unclear⟩
  · rcases goes with ⟨fine, -, serves, empty⟩ | ⟨wrong, ended⟩
    · have fine : payloads.any misinforms = false := by simpa using fine
      rw [fine, close, serves.goesOn.running, empty, Frame.next_nil]
      rfl
    · have wrong : payloads.any misinforms = true := by simpa using wrong
      rw [wrong, close, ended.stopped]
      exact ended.stopped
  · rcases goes with ⟨fine, timers, serves, empty⟩ | ⟨wrong, ended⟩
    · have same : (start options maxDiagnostics trace).get arrivals =
          (start options maxDiagnostics trace).meetAll happenings := by
        refine Prod.ext ?_ serves.effects
        rw [serves.state, around, empty, serves.goesOn.running, serves.goesOn.live]
        exact meetAll_within goesOn happenings
      refine ⟨congrArg (fun done => done.1.texts) same, fun _ => ⟨?_, timers, same⟩⟩
      rw [met, List.takeWhile_eq_self_iff.mpr (by simpa using fine)]
    · have wrong : payloads.any misinforms = true := by simpa using wrong
      exact ⟨ended.texts, fun fine => by rw [wrong] at fine; cases fine⟩

/-- What is no message, a document that is opened, a request with a wrong shape, and one with an unknown method. -/
def samplePayloads : List Bytes :=
  ["no message",
    "\x7b\"method\":\"textDocument/didOpen\"," ++
      "\"params\":\x7b\"textDocument\":\x7b\"uri\":\"a\",\"text\":\"b\"\x7d\x7d\x7d",
    "\x7b\"id\":1,\"method\":\"textDocument/definition\",\"params\":[]\x7d",
    "\x7b\"id\":2,\"method\":\"textDocument/rename\"\x7d"]

/-- They arrive in two pieces, with a timer between them. -/
def sampleArrivals : List Arrival :=
  let input := samplePayloads.flatMap Frame.write
  [.piece (input.take 150), .timer 1, .piece (input.drop 150)]

theorem ends_with_input_sampleArrivals :
    Frame.Carries (inputOf sampleArrivals) samplePayloads ∧ (∀ p ∈ samplePayloads, methodOf? p ≠ some .exit) ∧
      ((start {} 0 false).get sampleArrivals).1.close.stopped = some .endOfInput := by
  have read : Frame.payloads? 5 (inputOf sampleArrivals) = some samplePayloads := by decide +kernel
  have stays : ∀ p ∈ samplePayloads, methodOf? p ≠ some .exit := by decide +kernel
  refine ⟨.of_payloads? read, stays,
    (ends_with_input {} 0 false sampleArrivals samplePayloads (.of_payloads? read) stays).1.trans ?_⟩
  decide +kernel

/-- A notification without parameters. -/
def barePayload : Bytes := "\x7b\"jsonrpc\":\"2.0\",\"method\":\"textDocument/didOpen\"\x7d"

/-- It ends a session that nobody asked to exit. -/
theorem not_endOfInput : ¬ ∀ (arrivals : List Arrival) (payloads : List Bytes),
    Frame.Carries (inputOf arrivals) payloads → (∀ p ∈ payloads, methodOf? p ≠ some .exit) →
      ((start {} 0 false).get arrivals).1.close.stopped = some .endOfInput := by
  intro always
  have read : Frame.payloads? 2 (inputOf [.piece (Frame.write barePayload)]) = some [barePayload] := by decide +kernel
  have ended := always _ _ (.of_payloads? read) (by decide +kernel)
  exact absurd ended (by decide +kernel)

end Session

end SecurityRules.Server
