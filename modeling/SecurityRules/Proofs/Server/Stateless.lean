import SecurityRules.Proofs.Server.Refinement

/-!
# A session refines a server without memory

One event after the other: what the session sends is what has to be sent, and then it has handled one more event.
-/

namespace SecurityRules.Server

/-! ## Actions -/

section

variable {options : AnalysisOptions} {first : Profile} {past : List Event} {s : Session} {m : Message}

theorem profileOf_message {action : Action} (known : m.action? = some action) :
    profileOf first (.message m :: past) =
      (action.settings?.map (profileOf first past).take).getD (profileOf first past) := by
  simp only [profileOf, Event.action?, known, Option.bind_some]
  cases action.settings? <;> rfl

/-- Only a message that closes a document changes whether diagnostics of it are shown. -/
theorem isShown_message {action : Action} (known : m.action? = some action)
    (keeps : ∀ uri, action ≠ .closed uri) (uri : Bytes) :
    isShown first uri (.message m :: past) = isShown first uri past := by
  rw [isShown, known]
  cases action with
  | closed name => exact absurd rfl (keeps name)
  | setUp | configure | opened | changed | saved | marks | outline => rfl

/-- A message about no document changes none. -/
theorem Refines.settings (refines : Refines options first past s) {action : Action}
    (known : m.action? = some action) (bare : action.uri? = none) {value : Json}
    (given : action.settings? = Settings.ofJson? value) :
    (s.applySettings value).2.1 = renews first (.message m) past ∧
      sentAmong (s.applySettings value).2.2 = [] ∧
      (s.applySettings value).1.latestTimer = timersOf first past ∧
      ∀ pending, Refines options first (.message m :: past) { (s.applySettings value).1 with
        latestTimer := timersOf first (.message m :: past), pendingTimer := pending } := by
  apply refines.settle
  · rw [← given]
    exact profileOf_message known
  · intro uri
    rw [copyOf_message known]
    cases action <;> first | rfl | cases bare
  · intro uri
    rw [Event.touches, Event.action?, known]
    cases action <;> first | rfl | cases bare
  · refine isShown_message known fun uri same => ?_
    subst same
    cases bare

theorem Refines.setUp (refines : Refines options first past s) {given : Option Json}
    (known : m.action? = some (.setUp given)) : Obeys options first past m (s.act m (.setUp given)) := by
  have schedules : schedules first (.message m) past = false := by
    simp [schedules, Event.action?, known]
  cases given with
  | none =>
    refine ⟨rfl, ?_, refines.stay rfl refines.caches (copyOf_message known) ?_ (profileOf_message known)
      schedules (isShown_message known (by simp))⟩
    · simp [Answers, known, Session.act, Session.sending, response_eq]
    · simp [Event.touches, Event.action?, known]
  | some value =>
    obtain ⟨again, silent, timers, next⟩ := refines.settings known rfl rfl
    refine ⟨rfl, ?_, ?_⟩
    · simp [Answers, known, Session.act, silent, response_eq]
    · have settled := next (s.applySettings value).1.pendingTimer
      rw [timersOf, schedules, if_neg Bool.false_ne_true, ← timers] at settled
      exact settled

theorem Refines.configure (refines : Refines options first past s) {given : Option Json}
    (known : m.action? = some (.configure given)) : Obeys options first past m (s.act m (.configure given)) := by
  have schedules : schedules first (.message m) past = renews first (.message m) past := by
    simp [schedules, Event.action?, known]
  cases given with
  | none =>
    have profile : profileOf first (.message m :: past) = profileOf first past := profileOf_message known
    have stays : renews first (.message m) past = false := by
      simp [renews, profile]
    refine ⟨rfl, ?_, refines.stay rfl refines.caches (copyOf_message known) ?_ profile (schedules.trans stays)
      (isShown_message known (by simp))⟩
    · simp [Answers, known, Session.act, Session.quietly]
    · simp [Event.touches, Event.action?, known]
  | some value =>
    obtain ⟨again, silent, timers, next⟩ := refines.settings known rfl rfl
    refine ⟨rfl, ?_, ?_⟩
    · simp [Answers, known, Session.act, silent]
    · simp only [Session.act, again]
      rw [timersOf, schedules, ← timers] at next
      cases renewed : renews first (.message m) past with
      | true =>
        rw [renewed] at next
        exact next (some _)
      | false =>
        rw [renewed] at next
        exact next (s.applySettings value).1.pendingTimer

theorem Refines.opened (refines : Refines options first past s) (unworn : ∀ uri, Unworn uri (.message m :: past))
    {p : OpenParams} (known : m.action? = some (.opened p)) : Obeys options first past m (s.act m (.opened p)) := by
  let old := (s.document? p.uri).getD {}
  have acted : s.act m (.opened p) = (s.touch p.uri
      { old with text := p.text, version := p.version, revision := old.revision + 1 }).quietly := by
    simp [Session.act, Session.onOpen, Session.name_of_opened known, old]
  have mirrors := refines.mirrors.act known
  rw [acted] at mirrors ⊢
  refine ⟨rfl, ?_, refines.touch mirrors (unworn p.uri) ?_ (profileOf_message known) ?_
    (isShown_message known (by simp)) ?_⟩
  · simp [Answers, known, Session.quietly]
  · simp [Event.touches, Event.action?, known]
  · simp [schedules, Event.action?, known]
  · intro d found
    left
    simp only [old, found, Option.getD_some]

/-- Nothing happens to a document that is not open. -/
theorem Refines.absent (refines : Refines options first past s) {action : Action} {uri : Bytes}
    {change : Copy → Copy} (absent : s.document? uri = none) (known : m.action? = some action)
    (edit : ∀ name old, action.edit name old = if uri = name then old.map change else old)
    (touches : ∀ name, (Event.message m).touches name = (uri == name))
    (schedules : schedules first (.message m) past = (copyOf uri past).isSome)
    (bare : action.settings? = none) (keeps : ∀ name, action ≠ .closed name) :
    Refines options first (.message m :: past) s := by
  have nothing : copyOf uri past = none := by
    rw [← Option.isNone_iff_eq_none, ← Option.not_isSome, ← refines.mirrors.isSome_eq, absent]
    rfl
  refine refines.stay rfl refines.caches ?_ ?_ ?_ ?_ (isShown_message known keeps)
  · intro name
    rw [copyOf_message known, edit]
    split
    · rename_i same
      rw [← same, nothing]
      rfl
    · rfl
  · intro name isOpen
    rw [touches, beq_eq_false_iff_ne]
    rintro rfl
    rw [nothing] at isOpen
    cases isOpen
  · rw [profileOf_message known, bare]
    rfl
  · rw [schedules, nothing]
    rfl

theorem Refines.changed (refines : Refines options first past s) (unworn : ∀ uri, Unworn uri (.message m :: past))
    {p : ChangeParams} (known : m.action? = some (.changed p)) : Obeys options first past m (s.act m (.changed p)) := by
  have answers : Answers options first past (.message m) [] := by
    simp [Answers, known]
  have touches : ∀ name, (Event.message m).touches name = (p.uri == name) := by
    simp [Event.touches, Event.action?, known]
  have schedules : schedules first (.message m) past = (copyOf p.uri past).isSome := by
    simp [schedules, Event.action?, known]
  have mirrors := refines.mirrors.act known
  rw [Session.act, Session.onChange] at mirrors ⊢
  dsimp only at mirrors ⊢
  cases found : s.document? p.uri with
  | none =>
    refine ⟨rfl, ?_, refines.absent found known (fun _ _ => rfl) touches schedules rfl (by simp)⟩
    rw [sentAmong_traced]
    exact answers
  | some d =>
    rw [found] at mirrors
    refine ⟨rfl, ?_, refines.touch mirrors (unworn p.uri) touches (profileOf_message known) ?_
      (isShown_message known (by simp)) ?_⟩
    · rw [sentAmong_traced]
      exact answers
    · rw [schedules, ← refines.mirrors.isSome_eq, found]
      rfl
    · intro old there
      left
      obtain rfl := Option.some.inj (found.symm.trans there)
      rfl

theorem Refines.saved (refines : Refines options first past s) (unworn : ∀ uri, Unworn uri (.message m :: past))
    {p : SaveParams} (known : m.action? = some (.saved p)) : Obeys options first past m (s.act m (.saved p)) := by
  have answers : Answers options first past (.message m) [] := by
    simp [Answers, known]
  have touches : ∀ name, (Event.message m).touches name = (p.uri == name) := by
    simp [Event.touches, Event.action?, known]
  have schedules : schedules first (.message m) past = (copyOf p.uri past).isSome := by
    simp [schedules, Event.action?, known]
  have mirrors := refines.mirrors.act known
  rw [Session.act, Session.onSave] at mirrors ⊢
  cases found : s.document? p.uri with
  | none => exact ⟨rfl, answers, refines.absent found known (fun _ _ => rfl) touches schedules rfl (by simp)⟩
  | some d =>
    rw [found] at mirrors
    have schedules : Server.schedules first (.message m) past = true := by
      rw [schedules, ← refines.mirrors.isSome_eq, found]
      rfl
    have shown : ∀ name, isShown first name (.message m :: past) = isShown first name past :=
      isShown_message known (by simp)
    dsimp only at mirrors ⊢
    cases different : p.text.filter (· != d.text) with
    | some text =>
      rw [different] at mirrors
      refine ⟨rfl, answers,
        refines.touch mirrors (unworn p.uri) touches (profileOf_message known) schedules shown fun old there => Or.inl ?_⟩
      obtain rfl := Option.some.inj (found.symm.trans there)
      rfl
    | none =>
      rw [different] at mirrors
      refine ⟨rfl, answers,
        refines.touch mirrors (unworn p.uri) touches (profileOf_message known) schedules shown fun old there => Or.inr ?_⟩
      obtain rfl := Option.some.inj (found.symm.trans there)
      exact ⟨rfl, rfl⟩

/-- A question about a document is answered by what an analysis of its text tells, if the answer does not depend
on the number of the analysis. -/
theorem Refines.asked (refines : Refines options first past s) {action : Action}
    (known : m.action? = some action) (edit : ∀ name old, action.edit name old = old)
    (touches : ∀ name, (Event.message m).touches name = false)
    (schedules : schedules first (.message m) past = false)
    (bare : action.settings? = none) (keeps : ∀ name, action ≠ .closed name) (uri : Bytes) :
    ∃ store document, s.current uri = ({ s with store }, document) ∧
      Refines options first (.message m :: past) { s with store } ∧
      ∀ {α : Type} (tell : Document → α), (∀ d version, tell { d with version } = tell d) →
        document.map tell = (copyOf uri past).map fun c => tell (freshOf options first uri past c) := by
  obtain ⟨store, current, kept, caches⟩ := Session.current_eq refines.caches uri
  refine ⟨store, _, current, refines.stay kept caches ?_ (fun name _ => touches name) ?_ schedules
    (isShown_message known keeps), fun tell same => ?_⟩
  · intro name
    rw [copyOf_message known, edit]
  · rw [profileOf_message known, bare]
    rfl
  · cases found : s.document? uri with
    | none =>
      have closed := refines.mirrors.isSome_eq uri
      rw [found, Option.isSome_none] at closed
      rw [Option.not_isSome_iff_eq_none.mp (ne_true_of_eq_false closed.symm)]
      rfl
    | some d =>
      obtain ⟨c, copied, like⟩ := refines.mirrors.exists_copy found
      rw [copied, Option.map_some, Option.map_some, Option.map_some, refines.analysis_eq like, same]

theorem Refines.marks (refines : Refines options first past s) {uri : Bytes}
    (known : m.action? = some (.marks uri)) : Obeys options first past m (s.act m (.marks uri)) := by
  obtain ⟨store, document, current, next, told⟩ := refines.asked known (fun _ _ => rfl)
    (by simp [Event.touches, Event.action?, known]) (by simp [schedules, Event.action?, known]) rfl (by simp) uri
  rw [Session.act, Session.onMarks, current]
  refine ⟨rfl, ?_, next⟩
  simp only [Answers, known, marksOf, ← told wordsOf fun _ _ => rfl]
  rfl

theorem Refines.outline (refines : Refines options first past s) {uri : Bytes}
    (known : m.action? = some (.outline uri)) : Obeys options first past m (s.act m (.outline uri)) := by
  obtain ⟨store, document, current, next, told⟩ := refines.asked known (fun _ _ => rfl)
    (by simp [Event.touches, Event.action?, known]) (by simp [schedules, Event.action?, known]) rfl (by simp) uri
  rw [Session.act, Session.onOutline, current]
  refine ⟨rfl, ?_, next⟩
  simp only [Answers, known, outlineOf,
    ← told (fun d => symbolValues d.file d.outline) fun _ _ => rfl]
  rfl

/-! ## Events -/

theorem Refines.act (refines : Refines options first past s) (unworn : ∀ uri, Unworn uri (.message m :: past))
    {action : Action} (known : m.action? = some action) : Obeys options first past m (s.act m action) := by
  cases action with
  | setUp => exact refines.setUp known
  | configure => exact refines.configure known
  | opened => exact refines.opened unworn known
  | changed => exact refines.changed unworn known
  | saved => exact refines.saved unworn known
  | closed => exact refines.close known
  | marks => exact refines.marks known
  | outline => exact refines.outline known

/-- Timers other than the latest one do nothing. -/
theorem Refines.late (refines : Refines options first past s) {number : UInt64}
    (late : number ≠ timersOf first past) : Refines options first (.timer number :: past) s where
  ordered := refines.ordered
  mirrors := refines.mirrors.mono (fun _ => rfl) fun _ => rfl
  touched := by
    intro uri d found
    rw [isTouched, if_neg late]
    exact refines.touched uri d found
  policy := refines.policy
  limit := refines.limit
  caches := refines.caches
  shown := by
    intro uri
    rw [isShown, if_neg late]
    exact refines.shown uri
  timers := refines.timers
  live := refines.live

/-- One event takes a session that refines the past to one that refines the longer past. -/
theorem Refines.react (refines : Refines options first past s) {e : Event} (wellFormed : e.IsWellFormed)
    (unworn : ∀ uri, Unworn uri (e :: past)) :
    (s.react e).2.2 = none ∧ Answers options first past e (sentAmong (s.react e).2.1) ∧
      Refines options first (e :: past) (s.react e).1 := by
  cases e with
  | message m =>
    obtain ⟨action, known, -⟩ := wellFormed
    obtain ⟨news, handled, silent⟩ := s.handle_eq known
    obtain ⟨goes, answers, next⟩ := refines.act unworn known
    rw [Session.react, handled]
    refine ⟨goes, ?_, next⟩
    rw [sentAmong_append, silent]
    exact answers
  | timer number =>
    rw [Session.react, Session.timeOut, refines.live, refines.timers]
    by_cases latest : number = timersOf first past
    · simp only [latest, decide_true, Bool.not_false, Bool.and_self, if_true]
      rw [← latest]
      obtain ⟨answers, next⟩ := refines.flush latest
      exact ⟨trivial, answers, next⟩
    · simp only [latest, decide_false, Bool.false_and, Bool.false_eq_true, if_false]
      refine ⟨trivial, ?_, refines.late latest⟩
      rw [Answers, if_neg latest]
      rfl

theorem Refines.run (refines : Refines options first past s) {events : List Event}
    (wellFormed : ∀ e ∈ events, e.IsWellFormed) (unworn : ∀ uri, Unworn uri (events.reverse ++ past)) :
    Answered options first past events ((s.run events).map fun done => sentAmong done.2.1) ∧
      ∀ done ∈ s.run events, done.2.2 = none := by
  induction events generalizing past s with
  | nil => exact ⟨.done, by simp [Session.run]⟩
  | cons e rest ih =>
    rw [List.reverse_cons, List.append_assoc] at unworn
    obtain ⟨goes, answers, next⟩ := refines.react (wellFormed e (List.mem_cons_self ..))
      fun uri => (unworn uri).of_suffix (List.suffix_append _ _)
    obtain ⟨later, goesOn⟩ := ih next (fun e member => wellFormed e (List.mem_cons_of_mem _ member)) unworn
    refine ⟨.next answers later, ?_⟩
    rw [Session.run, List.forall_mem_cons]
    exact ⟨goes, goesOn⟩

end

/-- The settings that a session starts with. -/
def firstProfile (options : AnalysisOptions) (maxDiagnostics : Int) : Profile where
  policy := options.policy
  limit := if maxDiagnostics ≤ 0 then Session.defaultMaxDiagnostics else maxDiagnostics

theorem refines_start (options : AnalysisOptions) (maxDiagnostics : Int) (trace : Bool) :
    Refines options (firstProfile options maxDiagnostics) [] (Session.start options maxDiagnostics trace) where
  ordered := List.Pairwise.nil
  mirrors := mirrors_start options maxDiagnostics trace
  touched := fun _ _ found => by cases found
  policy := rfl
  limit := rfl
  caches := Caches.empty options
  shown := fun _ => ⟨fun member => (by cases member), fun shown => (by cases shown)⟩
  timers := rfl
  live := rfl

/-- A session answers a sequence of events as if it kept nothing but the events, and does not end. No document may get
more texts, without being closed, than a machine word counts. -/
theorem run_answered (options : AnalysisOptions) (maxDiagnostics : Int) (trace : Bool) (events : List Event)
    (wellFormed : ∀ e ∈ events, e.IsWellFormed) (unworn : ∀ uri, Unworn uri events.reverse) :
    Answered options (firstProfile options maxDiagnostics) [] events
        (((Session.start options maxDiagnostics trace).run events).map fun done => sentAmong done.2.1) ∧
      ∀ done ∈ (Session.start options maxDiagnostics trace).run events, done.2.2 = none :=
  (refines_start options maxDiagnostics trace).run wellFormed (by simpa using unworn)

/-- An editor opens a document in which a function is called that is not defined, asks about it before and after the
timer runs out, and closes it. -/
def sampleEvents : List Event :=
  let document : Json := .object [("uri", .string "a"), ("languageId", .string "r"), ("version", .number "3"),
    ("text", .string "service a \x7b function é() \x7b return g(); \x7d \x7d")]
  let named : Json := .object [("textDocument", document)]
  [.message ⟨none, "textDocument/didOpen", some named⟩,
    .message ⟨some (.string "x"), "textDocument/semanticTokens/full", some named⟩, .timer 1,
    .message ⟨some (.number "7"), "textDocument/documentSymbol", some named⟩,
    .message ⟨none, "textDocument/didClose", some named⟩]

/-- What the editor is sent at each of them. -/
def sampleAnswers : List (List Bytes) :=
  [[],
    ["\x7b\"jsonrpc\":\"2.0\",\"id\":\"x\",\"result\":\x7b\"data\":[0,0,7,5,0,0,8,1,9,0,0,4,8,5,0,0,9,1,6,1,0,6,6,5,0," ++
      "0,7,1,6,0]\x7d\x7d"],
    ["\x7b\"jsonrpc\":\"2.0\",\"method\":\"textDocument/publishDiagnostics\",\"params\":\x7b\"uri\":\"a\"," ++
      "\"version\":3,\"diagnostics\":[\x7b\"range\":\x7b\"start\":\x7b\"line\":0,\"character\":34\x7d," ++
      "\"end\":\x7b\"line\":0,\"character\":37\x7d\x7d,\"severity\":1,\"code\":\"SEM3005\"," ++
      "\"source\":\"firerules\",\"message\":\"No function definition found\"\x7d]\x7d\x7d"],
    ["\x7b\"jsonrpc\":\"2.0\",\"id\":7,\"result\":[\x7b\"name\":\"é\",\"detail\":\"()\",\"kind\":12," ++
      "\"range\":\x7b\"start\":\x7b\"line\":0,\"character\":12\x7d,\"end\":\x7b\"line\":0,\"character\":40\x7d\x7d," ++
      "\"selectionRange\":\x7b\"start\":\x7b\"line\":0,\"character\":21\x7d," ++
      "\"end\":\x7b\"line\":0,\"character\":22\x7d\x7d\x7d]\x7d"],
    ["\x7b\"jsonrpc\":\"2.0\",\"method\":\"textDocument/publishDiagnostics\",\"params\":\x7b\"uri\":\"a\"," ++
      "\"diagnostics\":[]\x7d\x7d"]]

theorem run_answered_sampleEvents :
    let sent := ((Session.start {} 0 false).run sampleEvents).map fun done => sentAmong done.2.1
    (∀ e ∈ sampleEvents, e.IsWellFormed) ∧ (∀ uri, Unworn uri sampleEvents.reverse) ∧
      sent.map (·.map Json.compact) = sampleAnswers ∧ Answered {} (firstProfile {} 0) [] sampleEvents sent ∧
      ∀ done ∈ (Session.start {} 0 false).run sampleEvents, done.2.2 = none :=
  have wellFormed : ∀ e ∈ sampleEvents, e.IsWellFormed := by decide +kernel
  have unworn : ∀ uri, Unworn uri sampleEvents.reverse := fun _ => unworn_of_length (by decide)
  ⟨wellFormed, unworn, by decide +kernel, run_answered {} 0 false sampleEvents wellFormed unworn⟩

/-! ## A count that starts again -/

/-- The last answer is the one to the last event, behind all others. -/
theorem Answered.last {options : AnalysisOptions} {first : Profile} {past front : List Event} {s : Session} {e : Event}
    (answered : Answered options first past (front ++ [e])
      ((s.run (front ++ [e])).map fun done => sentAmong done.2.1)) :
    Answers options first (front.reverse ++ past) e
      (sentAmong ((front.foldl (fun s e => (s.react e).1) s).react e).2.1) := by
  induction front generalizing past s with
  | nil =>
    cases answered with
    | next now _ => exact now
  | cons a rest ih =>
    cases answered with
    | next now later =>
      rw [List.reverse_cons, List.append_assoc]
      exact ih later

theorem isWellFormed_wornMessages (n : Nat) :
    ∀ e ∈ (Session.wornMessages n).map Event.message ++ [.message (asking "u")], e.IsWellFormed := by
  have opening := action?_opening Session.earlierText
  have changing (text : Bytes) := action?_changing text
  have named : some (Bytes.ofString "u") ≠ some [] := by decide
  intro e member
  rw [List.mem_append, List.mem_map, Session.wornMessages] at member
  rcases member with ⟨m, member, rfl⟩ | member
  · rw [List.mem_cons, List.mem_append, List.mem_cons, List.mem_singleton] at member
    rcases member with rfl | same | rfl | rfl
    · exact ⟨_, opening, named⟩
    · rw [List.eq_of_mem_replicate same]
      exact ⟨_, changing _, named⟩
    · exact ⟨_, action?_asking, named⟩
    · exact ⟨_, changing _, named⟩
  · rw [List.mem_singleton.mp member]
    exact ⟨_, action?_asking, named⟩

/-- The outline that is told is that of the analysis that is kept, if it counts as newer. -/
theorem Session.Holds.tell {s : Session} {text : Bytes} {revision : Int32} {kept : Document}
    (holds : s.Holds text revision) (stored : s.store.get? "u" = some kept) (newer : revision.toInt < kept.version) :
    sentAmong (s.handle (asking "u")).2.1 =
      [answerTo (asking "u") (.array (symbolValues kept.file kept.outline))] := by
  obtain ⟨news, handled, silent⟩ := s.handle_eq action?_asking
  obtain ⟨version, found⟩ := holds.found
  rw [handled, sentAmong_append, silent, act, onOutline, current_of_newer found stored newer]
  rfl

/-- When a document gets more texts than a machine word counts, the outline of an earlier text is told. -/
theorem not_run_answered : ¬ ∀ events : List Event, (∀ e ∈ events, e.IsWellFormed) →
    Answered {} (firstProfile {} 0) [] events
      (((Session.start {} 0 false).run events).map fun done => sentAmong done.2.1) := by
  intro always
  let messages := Session.wornMessages 2147483646
  have answers := (always _ (isWellFormed_wornMessages 2147483646)).last
  have state : (messages.map Event.message).foldl (fun s e => (s.react e).1) (Session.start {} 0 false) =
      messages.foldl (fun s m => (s.handle m).1) (Session.start {} 0 false) := List.foldl_map
  obtain ⟨holds, store⟩ := Session.holds_wornMessages 2147483646
  have mirrors := Session.mirrors_foldl (mirrors_start {} 0 false) messages
  rw [state] at answers
  generalize messages.foldl (fun s m => (s.handle m).1) (Session.start {} 0 false) = s at *
  generalize (messages.map Event.message).reverse ++ [] = past at *
  -- The analysis that is kept is that of the earlier text, in which something is declared.
  have stored : s.store.get? "u" = some ((Session.wornDocument 2147483646).analysis {} "u") := by
    rw [store]
    exact (get?_keep _).trans (if_pos rfl)
  have told := holds.tell stored (by decide)
  have declared : ((Session.wornDocument 2147483646).analysis {} "u").outline.isEmpty = false := by decide +kernel
  -- The copy of the editor has the later one, in which nothing is.
  obtain ⟨version, found⟩ := holds.found
  obtain ⟨c, copied, same⟩ := mirrors.exists_copy found
  have later : c.text = Session.laterText := (eq_of_copy same).1
  have nothing : ∀ policy, (Document.analyze "u" 0 (SourceFile.inMemory (FileUri.displayPath "u") Session.laterText)
      { policy }).outline = [] := by
    intro policy
    rw [← List.isEmpty_iff]
    cases policy <;> decide +kernel
  have reacted : (s.react (.message (asking "u"))).2.1 = (s.handle (asking "u")).2.1 := rfl
  simp only [Answers, action?_asking, outlineOf, copied, Option.map_some, Option.getD_some, freshOf, later, nothing,
    reacted, told] at answers
  cases outline : ((Session.wornDocument 2147483646).analysis {} "u").outline with
  | nil =>
    rw [outline] at declared
    cases declared
  | cons symbol rest =>
    rw [outline] at answers
    simp [answerTo, symbolValues] at answers

end SecurityRules.Server
