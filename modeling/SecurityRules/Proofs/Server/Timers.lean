import SecurityRules.Proofs.Server.Copies

/-!
# No document waits without a timer

Whatever payloads arrive and whatever timers run out, the latest timer is pending as long as a document has changed, and
it tells of all of them. Shutting down ends this, and so does setting up while documents are open.
-/

namespace SecurityRules.Server

/-- What a session meets, one thing at a time: a payload of any bytes, or a timer that runs out. -/
inductive Happening where
  | payload (bytes : Bytes)
  | timer (number : UInt64)

/-- The event that something met is, if a session can read it. -/
def Happening.event? : Happening → Option Event
  | .payload bytes => ((Json.parse? bytes).bind Message.ofJson?).map .message
  | .timer number => some (.timer number)

/-- The method that a payload asks for, if it is a message with a known one. -/
def methodOf? (payload : Bytes) : Option Session.Method :=
  ((Json.parse? payload).bind Message.ofJson?).bind fun m => Session.method? m.method

/-- A message as an editor writes it. -/
def Message.write (m : Message) : Bytes :=
  let params := (m.params.map fun params => (Bytes.ofString "params", params)).toList
  Json.compact (.object ((m.id.map fun id => (Bytes.ofString "id", id)).toList ++
    (Bytes.ofString "method", .string m.method) :: params))

namespace Session

/-- A timer runs out. If it is the one that is pending, it is so no longer. -/
def fire (s : Session) (number : UInt64) : Session × List Effect :=
  if s.pendingTimer = some number then s.settle else s.timeOut number

/-- The session behind something that it met. -/
def meet (s : Session) : Happening → Session
  | .payload bytes => (s.handlePayload bytes).1
  | .timer number => (s.fire number).1

/-- Whether a payload shuts the session down, or sets it up while documents are open. -/
def isDisturbedBy (s : Session) : Happening → Bool
  | .payload bytes =>
    match methodOf? bytes with
    | some .shutDown => true
    | some .setUp => !s.documents.isEmpty
    | _ => false
  | .timer _ => false

/-- Nothing of what a session meets disturbs it. -/
def IsUndisturbed (s : Session) : List Happening → Prop
  | [] => True
  | h :: rest => s.isDisturbedBy h = false ∧ (s.meet h).IsUndisturbed rest

instance decidableIsUndisturbed : (s : Session) → (happenings : List Happening) → Decidable (s.IsUndisturbed happenings)
  | _, [] => .isTrue trivial
  | s, h :: rest =>
    have := decidableIsUndisturbed (s.meet h) rest
    inferInstanceAs (Decidable (_ ∧ _))

/-- A session in which no change waits without a timer. -/
structure Watched (s : Session) : Prop where
  ordered : Ordered s.documents
  caches : Caches s.store s.documents
  live : s.isCanceled = false
  running : s.stopped = none
  latest : ∀ number, s.pendingTimer = some number → number = s.latestTimer
  dirty : ∀ uri d, s.document? uri = some d → d.isDirty = true → s.pendingTimer = some s.latestTimer

variable {s : Session} {uri : Bytes} {d : OpenDocument} {number : UInt64}

theorem watched_start (options : AnalysisOptions) (maxDiagnostics : Int) (trace : Bool) :
    (start options maxDiagnostics trace).Watched where
  ordered := List.Pairwise.nil
  caches := Caches.empty options
  live := rfl
  running := rfl
  latest _ pending := by cases pending
  dirty _ _ found := by cases found

/-! ## Messages -/

theorem Watched.withStore (watched : s.Watched) {store : DocumentStore} (caches : Caches store s.documents) :
    Watched { s with store } where
  ordered := watched.ordered
  caches := caches
  live := watched.live
  running := watched.running
  latest := watched.latest
  dirty := watched.dirty

theorem Watched.current (watched : s.Watched) (uri : Bytes) : (s.current uri).1.Watched := by
  obtain ⟨store, current, -, caches⟩ := current_eq watched.caches uri
  rw [current]
  exact watched.withStore caches

/-- A change starts a timer. -/
theorem Watched.touch (watched : s.Watched) (follows : ∀ old, s.document? uri = some old → d.Follows old)
    (counts : (s.touch uri d).Counts uri) : (s.touch uri d).Watched := by
  have documents : (s.touch uri d).documents = insertNamed uri { d with isDirty := true } s.documents :=
    insertDocument_eq uri _ _
  refine ⟨?_, ?_, watched.live, watched.running, fun number pending => (Option.some.inj pending).symm, fun _ _ _ _ => rfl⟩
  · rw [documents]
    exact watched.ordered.insertNamed
  · rw [documents]
    exact watched.caches.insert (precedes_of_counts follows counts)

/-- Closing a document takes its analysis out of the store with it. -/
theorem Watched.onClose (watched : s.Watched) (uri : Bytes) : (s.onClose uri).1.Watched := by
  rw [onClose_eq]
  refine ⟨watched.ordered.sublist List.filter_sublist, watched.caches.remove, watched.live, watched.running,
    watched.latest, fun name d found isDirty => ?_⟩
  replace found := lookup_remove.symm.trans found
  split at found
  · cases found
  · exact watched.dirty name d found isDirty

theorem Watched.deals (watched : s.Watched) {closing : Option Bytes} {t : Session} {sent : List Json}
    (deals : s.Deals closing t sent) (counts : ∀ uri, t.Counts uri) : t.Watched := by
  cases deals with
  | keeps => exact watched
  | asks uri => exact watched.current uri
  | touches uri d follows => exact watched.touch follows (counts uri)
  | closes uri => exact watched.onClose uri

/-- New settings make all documents wait, so they need a timer of their own. -/
theorem Watched.applySettings (watched : s.Watched) (value : Json) :
    (s.documents = [] → (s.applySettings value).1.Watched) ∧
      (if (s.applySettings value).2.1 then (s.applySettings value).1.schedule else (s.applySettings value).1).Watched := by
  obtain ⟨trace, store, effects, next, documents, -, applied, marked, -, caches, -⟩ :=
    applySettings_eq watched.caches value
  have ordered : Ordered documents := by
    rw [marked]
    split
    · exact ordered_marked watched.ordered true
    · exact watched.ordered
  rw [applied]
  dsimp only
  constructor
  · intro empty
    have none : documents = [] := by
      rw [marked]
      split
      · rw [dirtyAll, empty]
        rfl
      · exact empty
    refine ⟨ordered, caches, watched.live, watched.running, watched.latest, fun name d found => ?_⟩
    rw [document?, none] at found
    cases found
  · cases again : next != s.profile with
    | true =>
      exact ⟨ordered, caches, watched.live, watched.running, fun number pending => (Option.some.inj pending).symm,
        fun _ _ _ _ => rfl⟩
    | false =>
      rw [again] at marked
      refine ⟨ordered, caches, watched.live, watched.running, watched.latest, fun name d found => ?_⟩
      rw [document?, marked] at found
      exact watched.dirty name d found

theorem Watched.onSetUp (watched : s.Watched) (empty : s.documents = []) (m : Message) :
    (s.onSetUp m).1.Watched := by
  rw [Session.onSetUp]
  split
  · exact watched
  · exact watched
  · rename_i options _
    exact (watched.applySettings options).1 empty

theorem Watched.onConfigure (watched : s.Watched) (m : Message) : (s.onConfigure m).1.Watched := by
  rw [Session.onConfigure]
  split
  · rename_i settings _
    exact (watched.applySettings settings).2
  · exact watched

theorem Watched.perform (watched : s.Watched) {m : Message} {method : Method} (known : method? m.method = some method)
    (goesOn : method ≠ .shutDown) (empty : method = .setUp → s.documents = [])
    (counts : ∀ uri, (s.perform m method).1.Counts uri) : (s.perform m method).1.Watched := by
  cases about : method.isAboutDocument with
  | true => exact watched.deals (s.perform_deals known about) counts
  | false =>
    cases method with
    | setUp => exact watched.onSetUp (empty rfl) m
    | configure => exact watched.onConfigure m
    | shutDown => exact absurd rfl goesOn
    | ready | exit => exact watched
    | _ => cases about

/-- A payload is handled as the message that it is. -/
theorem fst_handlePayload (s : Session) (payload : Bytes) : (s.handlePayload payload).1 =
    ((Json.parse? payload).bind Message.ofJson?).elim s fun m => (s.handle m).1 := by
  rw [handlePayload]
  cases (Json.parse? payload).bind Message.ofJson? with
  | none => rfl
  | some m =>
    dsimp only
    split
    · rename_i nameless
      have unknown : method? m.method = none := by rw [List.isEmpty_iff.mp nameless]; rfl
      rw [Option.elim_some, handle, unknown]
      dsimp only
      split <;> rfl
    · rfl

theorem Watched.handlePayload (watched : s.Watched) {payload : Bytes}
    (undisturbed : s.isDisturbedBy (.payload payload) = false)
    (counts : ∀ uri, (s.handlePayload payload).1.Counts uri) : (s.handlePayload payload).1.Watched := by
  rw [isDisturbedBy, methodOf?] at undisturbed
  rw [fst_handlePayload] at counts ⊢
  cases read : (Json.parse? payload).bind Message.ofJson? with
  | none => exact watched
  | some m =>
    rw [read, Option.bind_some] at undisturbed
    rw [read, Option.elim_some, handle] at counts
    rw [Option.elim_some, handle]
    dsimp only at counts ⊢
    cases known : method? m.method with
    | none =>
      dsimp only
      split <;> exact watched
    | some method =>
      rw [known] at undisturbed counts
      dsimp only at undisturbed counts ⊢
      refine watched.perform known ?_ ?_ counts
      · rintro rfl
        cases undisturbed
      · rintro rfl
        simpa using undisturbed

/-! ## Timers -/

/-- A timer that is not the latest one changes nothing. -/
theorem Watched.fire_of_ne (watched : s.Watched) (late : number ≠ s.latestTimer) : s.fire number = (s, []) := by
  rw [fire, if_neg fun pending => late (watched.latest number pending), timeOut]
  simp [late]

theorem Watched.fire_latest (watched : s.Watched) : ∃ pending,
    s.fire s.latestTimer = (flush { s with pendingTimer := pending }) ∧ ∀ number, pending = some number →
      number = s.latestTimer := by
  rw [fire]
  split
  · rename_i pending
    refine ⟨none, ?_, by simp⟩
    rw [settle, watched.running, pending]
    simp [timeOut, watched.live]
  · refine ⟨s.pendingTimer, ?_, watched.latest⟩
    show s.timeOut s.latestTimer = s.flush
    simp [timeOut, watched.live]

/-- The latest timer tells of all documents that have changed, and none of them waits any longer. -/
theorem Watched.flushes (watched : s.Watched) :
    (s.fire s.latestTimer).1.Watched ∧
      (∀ uri d, (s.fire s.latestTimer).1.document? uri = some d → d.isDirty = false) ∧
      sentAmong (s.fire s.latestTimer).2 =
        (s.documents.filter fun (_, d) => d.isDirty).map fun entry => s.news entry.1 entry.2 := by
  obtain ⟨pending, fired, latest⟩ := watched.fire_latest
  obtain ⟨store, published, effects, flushed, -, caches, -, sent⟩ :=
    flush_eq (s := { s with pendingTimer := pending }) watched.ordered watched.caches
  rw [fired, flushed]
  have clean : ∀ uri d, (s.documents.map fun (uri, d) => (uri, { d with isDirty := false })).lookup uri = some d →
      d.isDirty = false := by
    intro uri d found
    rw [lookup_marked] at found
    obtain ⟨old, -, rfl⟩ := Option.map_eq_some_iff.mp found
    rfl
  refine ⟨⟨ordered_marked watched.ordered false, caches, watched.live, watched.running, latest,
    fun uri d found isDirty => ?_⟩, clean, sent⟩
  rw [clean uri d found] at isDirty
  cases isDirty

theorem Watched.meet (watched : s.Watched) {h : Happening} (undisturbed : s.isDisturbedBy h = false)
    (counts : ∀ uri, (s.meet h).Counts uri) : (s.meet h).Watched := by
  cases h with
  | payload bytes => exact watched.handlePayload undisturbed counts
  | timer number =>
    rw [Session.meet]
    by_cases latest : number = s.latestTimer
    · rw [latest]
      exact watched.flushes.1
    · rw [watched.fire_of_ne latest]
      exact watched

theorem clean_fire (s : Session) (number : UInt64) (uri : Bytes) :
    ((s.fire number).1.document? uri).map OpenDocument.clean = (s.document? uri).map OpenDocument.clean := by
  rw [fire]
  split
  · rw [settle]
    split
    · exact clean_timeOut _ _ uri
    · rfl
  · exact s.clean_timeOut number uri

theorem Mirrors.meet {past : List Event} (mirrors : s.Mirrors past) (h : Happening) :
    (s.meet h).Mirrors (h.event?.toList ++ past) := by
  cases h with
  | payload bytes =>
    rw [Session.meet, fst_handlePayload, Happening.event?]
    cases (Json.parse? bytes).bind Message.ofJson? with
    | none => exact mirrors
    | some m => exact mirrors.handle m
  | timer number => exact mirrors.mono (s.clean_fire number) fun _ => rfl

theorem Watched.foldl_meet {past : List Event} {happenings : List Happening} (watched : s.Watched)
    (mirrors : s.Mirrors past) (undisturbed : s.IsUndisturbed happenings)
    (unworn : ∀ uri, Unworn uri (happenings.reverse.filterMap Happening.event? ++ past)) :
    (happenings.foldl Session.meet s).Watched := by
  induction happenings generalizing s past with
  | nil => exact watched
  | cons h rest ih =>
    rw [List.reverse_cons, List.filterMap_append, List.append_assoc] at unworn
    have mirrors' := mirrors.meet h
    have one : [h].filterMap Happening.event? = h.event?.toList := by
      cases found : h.event? <;> simp [found]
    rw [one] at unworn
    have counts := fun uri => mirrors'.counts ((unworn uri).of_suffix (List.suffix_append _ _))
    exact ih (watched.meet undisturbed.1 counts) mirrors' undisturbed.2 unworn

/-- If a document has changed then a timer is pending and it is the latest one; when the latest timer runs out, the
session tells of every document that has changed and none waits any longer; when another timer runs out, nothing happens.
No document may get more texts, without being closed, than a machine word counts. -/
theorem dirty_watched (options : AnalysisOptions) (maxDiagnostics : Int) (trace : Bool) (happenings : List Happening)
    (undisturbed : (start options maxDiagnostics trace).IsUndisturbed happenings)
    (unworn : ∀ uri, Unworn uri (happenings.reverse.filterMap Happening.event?)) {s : Session}
    (reached : happenings.foldl Session.meet (start options maxDiagnostics trace) = s) :
    (∀ uri d, s.document? uri = some d → d.isDirty = true → s.pendingTimer = some s.latestTimer) ∧
      sentAmong (s.fire s.latestTimer).2 =
        (s.documents.filter fun (_, d) => d.isDirty).map (fun entry => s.news entry.1 entry.2) ∧
      (∀ uri d, (s.fire s.latestTimer).1.document? uri = some d → d.isDirty = false) ∧
      ∀ number, number ≠ s.latestTimer → s.fire number = (s, []) := by
  have watched : s.Watched := by
    rw [← reached]
    refine (watched_start options maxDiagnostics trace).foldl_meet (mirrors_start options maxDiagnostics trace)
      undisturbed ?_
    simpa using unworn
  obtain ⟨-, clean, told⟩ := watched.flushes
  exact ⟨watched.dirty, told, clean, fun number late => watched.fire_of_ne late⟩

/-- An editor opens a document, sends what is no message and what has the wrong shape, and a late timer runs out. -/
def sampleHappenings : List Happening :=
  [.payload "\x7b\"method\":\"textDocument/didOpen\",\"params\":\x7b\"textDocument\":\x7b\"uri\":\"a\",\"text\":\"allow read;\"\x7d\x7d\x7d",
    .payload "no message", .payload "\x7b\"method\":\"textDocument/didChange\",\"params\":[]\x7d", .timer 0]

theorem dirty_watched_sampleHappenings :
    (start {} 0 false).IsUndisturbed sampleHappenings ∧
      (∀ uri, Unworn uri (sampleHappenings.reverse.filterMap Happening.event?)) ∧
      let s := sampleHappenings.foldl Session.meet (start {} 0 false)
      (s.document? "a").map (·.isDirty) = some true ∧ s.pendingTimer = some s.latestTimer ∧
        (sentAmong (s.fire s.latestTimer).2).length = 1 ∧ s.fire 0 = (s, []) := by
  have undisturbed : (start {} 0 false).IsUndisturbed sampleHappenings := by decide +kernel
  have unworn : ∀ uri, Unworn uri (sampleHappenings.reverse.filterMap Happening.event?) := fun uri =>
    unworn_of_length (Nat.lt_of_le_of_lt (List.length_filterMap_le ..) (by decide))
  obtain ⟨-, told, -, late⟩ := dirty_watched {} 0 false sampleHappenings undisturbed unworn rfl
  refine ⟨undisturbed, unworn, by decide +kernel, ?_, ?_, late 0 (by decide +kernel)⟩
  · decide +kernel
  · rw [told]
    decide +kernel

/-! ## A count that starts again -/

set_option maxRecDepth 20000 in
theorem read_write_wornMessages (n : Nat) :
    ∀ m ∈ wornMessages n, (Json.parse? m.write).bind Message.ofJson? = some m := by
  have opening : (Json.parse? (opening "u" earlierText).write).bind Message.ofJson? =
      some (opening "u" earlierText) := by with_unfolding_all rfl
  have changing : (Json.parse? (changing "u" earlierText).write).bind Message.ofJson? =
      some (changing "u" earlierText) := by with_unfolding_all rfl
  have asking : (Json.parse? (asking "u").write).bind Message.ofJson? = some (asking "u") := by with_unfolding_all rfl
  have changing' : (Json.parse? (Server.changing "u" laterText).write).bind Message.ofJson? =
      some (Server.changing "u" laterText) := by with_unfolding_all rfl
  intro m member
  rw [wornMessages, List.mem_cons, List.mem_append, List.mem_cons, List.mem_singleton] at member
  rcases member with rfl | same | rfl | rfl
  · exact opening
  · rw [List.eq_of_mem_replicate same]
    exact changing
  · exact asking
  · exact changing'

theorem foldl_meet_write {messages : List Message}
    (read : ∀ m ∈ messages, (Json.parse? m.write).bind Message.ofJson? = some m) :
    (messages.map fun m => Happening.payload m.write).foldl Session.meet s =
      messages.foldl (fun s m => (s.handle m).1) s := by
  induction messages generalizing s with
  | nil => rfl
  | cons m rest ih =>
    have met : s.meet (.payload m.write) = (s.handle m).1 := by
      rw [Session.meet, fst_handlePayload, read m List.mem_cons_self, Option.elim_some]
    rw [List.map_cons, List.foldl_cons, List.foldl_cons, met]
    exact ih fun m member => read m (List.mem_cons_of_mem _ member)

theorem isUndisturbed_of_forall {happenings : List Happening}
    (undisturbed : ∀ h ∈ happenings, ∀ s : Session, s.isDisturbedBy h = false) : s.IsUndisturbed happenings := by
  induction happenings generalizing s with
  | nil => trivial
  | cons h rest ih =>
    rw [List.forall_mem_cons] at undisturbed
    exact ⟨undisturbed.1 s, ih undisturbed.2⟩

theorem isUndisturbed_wornMessages (n : Nat) :
    (start {} 0 false).IsUndisturbed ((wornMessages n).map fun m => .payload m.write) := by
  refine isUndisturbed_of_forall fun h inside s => ?_
  obtain ⟨m, member, rfl⟩ := List.mem_map.mp inside
  rw [isDisturbedBy, methodOf?, read_write_wornMessages n m member, Option.bind_some]
  rw [wornMessages, List.mem_cons, List.mem_append, List.mem_cons, List.mem_singleton] at member
  rcases member with rfl | same | rfl | rfl
  · rfl
  · rw [List.eq_of_mem_replicate same]
    rfl
  · rfl
  · rfl

/-- Nothing is told of a document if what is kept of it counts as newer. -/
theorem Holds.fire {text : Bytes} {revision : Int32} {kept : Document} (holds : s.Holds text revision)
    (stored : s.store.get? "u" = some kept) (newer : revision.toInt < kept.version) :
    sentAmong (s.fire s.latestTimer).2 = [] := by
  obtain ⟨version, documents⟩ := holds.documents
  have collected : (collect { s with pendingTimer := none }).1 = [(Bytes.ofString "u", ⟨text, version, revision, true⟩)] := by
    rw [collect, documents]
    rfl
  have stale : ((collect { s with pendingTimer := none }).2.analyze "u" ⟨text, version, revision, true⟩).2.2 = false := by
    rcases (collect { s with pendingTimer := none }).2.analyze_cases "u" ⟨text, version, revision, true⟩ with
      ⟨_, -, -, same⟩ | ⟨notNewer, -⟩
    · rw [same]
    · exact absurd (notNewer kept stored) (Int.not_le.mpr newer)
  obtain ⟨effects, published, silent⟩ := publishOne_of_stale stale
  have latest : s.fire s.latestTimer = flush { s with pendingTimer := none } := by
    rw [Session.fire, if_pos holds.pending, settle, holds.running, holds.pending]
    simp [timeOut, holds.live]
  rw [latest, flush]
  dsimp only
  rw [collected, publishAll, published]
  dsimp only
  rw [publishAll, List.append_nil]
  exact silent

/-- When a document gets more texts than a machine word counts, it is looked at and not told of. -/
theorem not_dirty_watched : ¬ ∀ (happenings : List Happening) (s : Session),
    (start {} 0 false).IsUndisturbed happenings → happenings.foldl Session.meet (start {} 0 false) = s →
      sentAmong (s.fire s.latestTimer).2 =
        (s.documents.filter fun (_, d) => d.isDirty).map fun entry => s.news entry.1 entry.2 := by
  intro always
  let happenings := (wornMessages 2147483646).map fun m => Happening.payload m.write
  obtain ⟨holds, store⟩ := holds_wornMessages 2147483646
  have met : happenings.foldl Session.meet (start {} 0 false) = _ :=
    foldl_meet_write (read_write_wornMessages 2147483646)
  have told := always happenings _ (isUndisturbed_wornMessages 2147483646) met
  generalize (wornMessages 2147483646).foldl (fun s m => (s.handle m).1) (start {} 0 false) = s at *
  have stored : s.store.get? "u" = some ((wornDocument 2147483646).analysis {} "u") := by
    rw [store]
    exact (get?_keep _).trans (if_pos rfl)
  obtain ⟨version, documents⟩ := holds.documents
  rw [holds.fire stored (by decide), documents] at told
  cases told

end Session

end SecurityRules.Server
