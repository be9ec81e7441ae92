import SecurityRules.Proofs.Server.Copies

/-!
# A session answers as if it kept nothing

Whatever the session keeps between events, its answers are those told from the past.
-/

namespace SecurityRules.Server

theorem response_eq (m : Message) (result : Json) : response m.id result = answerTo m result := rfl

theorem publication_eq (uri : Bytes) (version : Int) (items : List Json) :
    publication uri version items = notice uri version items := by
  have fits : (nearestWord version).toNat = min version.toNat 4294967295 :=
    UInt32.toNat_ofNat_of_lt' (Nat.lt_of_le_of_lt (Nat.min_le_right ..) (by decide))
  rw [publication, notice]
  split
  · rw [Json.ofWord, fits]
    rfl
  · rfl

/-- A session that has handled the events of the past. -/
structure Refines (options : AnalysisOptions) (first : Profile) (past : List Event) (s : Session) : Prop where
  ordered : Ordered s.documents
  mirrors : s.Mirrors past
  touched : ∀ uri d, s.document? uri = some d → d.isDirty = isTouched first uri past
  policy : s.store.options = { options with policy := (profileOf first past).policy }
  limit : s.maxDiagnostics = (profileOf first past).limit
  caches : Caches s.store s.documents
  shown : ∀ uri, uri ∈ s.published ↔ isShown first uri past = true
  timers : s.latestTimer = timersOf first past
  live : s.isCanceled = false

section

variable {options : AnalysisOptions} {first : Profile} {past : List Event} {s : Session} {uri : Bytes}
  {d : OpenDocument}

/-- An analysis of the session is the fresh one, but for the number it carries. -/
theorem Refines.analysis_eq (refines : Refines options first past s) {c : Copy} (same : c.document = d.clean) :
    d.analysis s.store.options uri = { freshOf options first uri past c with version := d.revision.toInt } := by
  rw [refines.policy, freshOf, (eq_of_copy same).1]
  rfl

theorem Refines.news_eq (refines : Refines options first past s) {c : Copy} (same : c.document = d.clean) :
    s.news uri d = newsOf options first uri past c := by
  rw [Session.news, refines.analysis_eq same, refines.limit, publication_eq, newsOf, (eq_of_copy same).2.1]
  rfl

theorem Refines.isDue_iff (refines : Refines options first past s) :
    isDue first uri past = true ↔ uri ∈ (s.documents.filter fun (_, d) => d.isDirty).map (·.1) := by
  rw [isDue, Bool.and_eq_true, ← refines.mirrors.isSome_eq]
  constructor
  · rintro ⟨isOpen, touched⟩
    cases found : s.document? uri with
    | none =>
      rw [found] at isOpen
      cases isOpen
    | some d =>
      have member := refines.ordered.lookup_eq_some.mp found
      rw [← refines.touched uri d found] at touched
      exact List.mem_map.mpr ⟨(uri, d), List.mem_filter.mpr ⟨member, touched⟩, rfl⟩
  · intro member
    obtain ⟨⟨name, d⟩, inside, rfl⟩ := List.mem_map.mp member
    obtain ⟨member, isDirty⟩ := List.mem_filter.mp inside
    have found : s.document? name = some d := refines.ordered.lookup_eq_some.mpr member
    rw [found, ← refines.touched name d found]
    exact ⟨rfl, isDirty⟩

/-- The latest timer tells of all documents that are due. -/
theorem Refines.flush (refines : Refines options first past s) {number : UInt64}
    (latest : number = timersOf first past) :
    Answers options first past (.timer number) (sentAmong s.flush.2) ∧
      Refines options first (.timer number :: past) s.flush.1 := by
  have ordered := refines.ordered
  obtain ⟨store, published, effects, flushed, kept, caches', told, sent⟩ := Session.flush_eq ordered refines.caches
  rw [flushed]
  constructor
  · have sorted : Ordered s.collect.1 := ordered.sublist List.filter_sublist
    have told : ∀ entry ∈ s.collect.1, ((fun uri => (copyOf uri past).map (newsOf options first uri past)) ∘
        Prod.fst) entry = some (s.news entry.1 entry.2) := by
      intro entry member
      have found := ordered.lookup_eq_some.mpr (List.mem_filter.mp member).1
      obtain ⟨c, copied, same⟩ := refines.mirrors.exists_copy found
      rw [Function.comp_apply, copied, refines.news_eq same]
      rfl
    rw [Answers, if_pos latest]
    refine ⟨s.collect.1.map Prod.fst, sorted, fun uri => refines.isDue_iff.symm, ?_⟩
    rw [List.filterMap_map]
    exact sent.trans (List.filterMap_eq_map_iff_forall_eq_some.mpr told).symm
  · have lookup : ∀ uri, s.collect.2.document? uri = (s.document? uri).map fun d => { d with isDirty := false } :=
      fun uri => lookup_marked false uri s.documents
    refine ⟨ordered_marked ordered false, ?_, fun uri d found => ?_, ?_,
      refines.limit, caches', fun uri => ?_, refines.timers, refines.live⟩
    · refine refines.mirrors.mono (fun uri => Eq.trans (congrArg _ (lookup uri)) ?_) fun _ => rfl
      rw [Option.map_map]
      rfl
    · have found := (lookup uri).symm.trans found
      obtain ⟨old, _, rfl⟩ := Option.map_eq_some_iff.mp found
      simp [isTouched, latest]
    · exact kept.trans refines.policy
    · refine (told uri).trans ?_
      rw [isShown, if_pos latest, Bool.or_eq_true, refines.isDue_iff]
      exact or_congr Iff.rfl (refines.shown uri)

/-! ## Messages about documents -/

/-- What an action must do: it goes on, says what has to be said, and has then handled one more message. -/
def Obeys (options : AnalysisOptions) (first : Profile) (past : List Event) (m : Message) (done : Session.Outcome) :
    Prop :=
  done.2.2 = none ∧ Answers options first past (.message m) (sentAmong done.2.1) ∧
    Refines options first (.message m :: past) done.1

theorem isTouched_message (m : Message) (uri : Bytes)
    (profile : profileOf first (.message m :: past) = profileOf first past) :
    isTouched first uri (.message m :: past) =
      ((Event.message m).touches uri || isTouched first uri past) := by
  simp [isTouched, renews, profile]

/-- A message that changes no document and asks for no timer. The session may keep more analyses than before. -/
theorem Refines.stay (refines : Refines options first past s) {m : Message} {store : DocumentStore}
    (kept : store.options = s.store.options) (caches : Caches store s.documents)
    (copies : ∀ uri, copyOf uri (.message m :: past) = copyOf uri past)
    (touches : ∀ uri, (copyOf uri past).isSome = true → (Event.message m).touches uri = false)
    (profile : profileOf first (.message m :: past) = profileOf first past)
    (schedules : schedules first (.message m) past = false)
    (shown : ∀ uri, isShown first uri (.message m :: past) = isShown first uri past) :
    Refines options first (.message m :: past) { s with store } where
  ordered := refines.ordered
  mirrors := refines.mirrors.mono (fun _ => rfl) copies
  touched := by
    intro uri d found
    have isOpen : (copyOf uri past).isSome = true := by
      have found : s.document? uri = some d := found
      rw [← refines.mirrors.isSome_eq, found]
      rfl
    rw [isTouched_message m uri profile, touches uri isOpen, Bool.false_or]
    exact refines.touched uri d found
  policy := by
    rw [profile]
    exact kept.trans refines.policy
  limit := refines.limit.trans (congrArg _ profile.symm)
  caches := caches
  shown := by
    intro uri
    rw [shown]
    exact refines.shown uri
  timers := by
    rw [timersOf, schedules]
    exact refines.timers
  live := refines.live

/-- A message that puts another text into a document and asks for a timer. -/
theorem Refines.touch (refines : Refines options first past s) {m : Message}
    (mirrors : (s.touch uri d).Mirrors (.message m :: past)) (unworn : Unworn uri (.message m :: past))
    (touches : ∀ name, (Event.message m).touches name = (uri == name))
    (profile : profileOf first (.message m :: past) = profileOf first past)
    (schedules : schedules first (.message m) past = true)
    (shown : ∀ name, isShown first name (.message m :: past) = isShown first name past)
    (follows : ∀ old, s.document? uri = some old → d.Follows old) :
    Refines options first (.message m :: past) (s.touch uri d) := by
  refine ⟨?_, mirrors, fun name found there => ?_, ?_, ?_, ?_, fun name => ?_, ?_, refines.live⟩
  · show Ordered (Session.insertDocument uri { d with isDirty := true } s.documents)
    rw [insertDocument_eq]
    exact refines.ordered.insertNamed
  · rw [isTouched_message m name profile, touches]
    rw [Session.document?_touch] at there
    by_cases same : name = uri
    · rw [if_pos same] at there
      rw [← Option.some.inj there, same, beq_self_eq_true, Bool.true_or]
    · rw [if_neg same] at there
      rw [beq_eq_false_iff_ne.mpr (Ne.symm same), Bool.false_or]
      exact refines.touched name found there
  · rw [profile]
    exact refines.policy
  · rw [profile]
    exact refines.limit
  · show Caches s.store (Session.insertDocument uri { d with isDirty := true } s.documents)
    rw [insertDocument_eq]
    exact refines.caches.insert (Session.precedes_of_counts follows (mirrors.counts unworn))
  · rw [shown]
    exact refines.shown name
  · rw [timersOf, schedules, ← refines.timers]
    rfl

/-- A document that is closed is forgotten. -/
theorem Refines.close (refines : Refines options first past s) {m : Message}
    (known : m.action? = some (.closed uri)) : Obeys options first past m (s.onClose uri) := by
  have profile : profileOf first (.message m :: past) = profileOf first past := by
    simp [profileOf, Event.action?, known, Action.settings?]
  have state := congrArg Prod.fst (s.onClose_eq uri)
  refine ⟨?_, ?_, ?_⟩
  · rw [Session.onClose_eq]
  · simp only [Answers, known]
    rw [Session.sent_onClose, publication_eq]
    simp only [refines.shown]
  · refine ⟨?_, refines.mirrors.act known, fun name d found => ?_, ?_, ?_, ?_, fun name => ?_, ?_, ?_⟩
    · rw [state]
      exact refines.ordered.sublist List.filter_sublist
    · rw [Session.document?_onClose] at found
      split at found
      · cases found
      · rw [isTouched_message m name profile]
        simp only [Event.touches, Event.action?, known, Bool.false_or]
        exact refines.touched name d found
    · rw [state, profile]
      exact refines.policy
    · rw [state, profile]
      exact refines.limit
    · rw [state]
      exact refines.caches.remove
    · rw [state, isShown]
      simp only [known, List.mem_filter, bne_iff_ne, ne_eq]
      by_cases same : name = uri
      · simp [same]
      · rw [if_neg (Ne.symm same), refines.shown]
        simp [same]
    · rw [state, timersOf]
      simp only [schedules, Event.action?, known]
      exact refines.timers
    · rw [state]
      exact refines.live

/-! ## Settings -/

/-- Settings are taken over, and documents are touched if these are new ones. -/
theorem Refines.settle (refines : Refines options first past s) {m : Message} {value : Json}
    (profile : profileOf first (.message m :: past) =
      ((Settings.ofJson? value).map (profileOf first past).take).getD (profileOf first past))
    (copies : ∀ uri, copyOf uri (.message m :: past) = copyOf uri past)
    (touches : ∀ uri, (Event.message m).touches uri = false)
    (shown : ∀ uri, isShown first uri (.message m :: past) = isShown first uri past) :
    (s.applySettings value).2.1 = renews first (.message m) past ∧
      sentAmong (s.applySettings value).2.2 = [] ∧
      (s.applySettings value).1.latestTimer = timersOf first past ∧
      ∀ pending, Refines options first (.message m :: past) { (s.applySettings value).1 with
        latestTimer := timersOf first (.message m :: past), pendingTimer := pending } := by
  obtain ⟨trace, store, effects, next, documents, news, applied, looked, kept, caches, silent⟩ :=
    Session.applySettings_eq refines.caches value
  have old : s.profile = profileOf first past := by
    rw [Session.profile, refines.policy, refines.limit]
  rw [old, ← profile] at news
  have again : (next != s.profile) = renews first (.message m) past := by
    rw [news, old]
    rfl
  rw [again] at looked
  rw [applied]
  refine ⟨again, silent, refines.timers, fun pending => ?_⟩
  have lookup : ∀ uri, documents.lookup uri = (s.document? uri).map fun d =>
      { d with isDirty := renews first (.message m) past || d.isDirty } := by
    intro uri
    rw [looked]
    cases renews first (.message m) past with
    | true => exact lookup_marked true uri s.documents
    | false =>
      simp [Session.document?]
  refine ⟨?_, ?_, fun uri d found => ?_, ?_, ?_, caches, fun uri => ?_, rfl, refines.live⟩
  · show Ordered documents
    rw [looked]
    split
    · exact ordered_marked refines.ordered true
    · exact refines.ordered
  · refine refines.mirrors.mono (fun uri => (congrArg _ (lookup uri)).trans ?_) copies
    rw [Option.map_map]
    rfl
  · have found : documents.lookup uri = some d := found
    rw [lookup] at found
    obtain ⟨d, there, rfl⟩ := Option.map_eq_some_iff.mp found
    simp [isTouched, touches, refines.touched uri d there]
  · refine kept.trans ?_
    rw [refines.policy, news]
  · exact congrArg Profile.limit news
  · rw [shown]
    exact refines.shown uri

end

end SecurityRules.Server
