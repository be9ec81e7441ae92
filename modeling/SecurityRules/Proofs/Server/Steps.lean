import Mathlib.Data.List.Basic
import SecurityRules.Proofs.Server.Cache
import SecurityRules.Proofs.Server.History

/-!
# What a session does in one go

Telling of documents, and taking over settings.
-/

namespace SecurityRules.Server

/-! ## What is sent -/

@[simp] theorem sentAmong_nil : sentAmong [] = [] := rfl

@[simp] theorem sentAmong_append (effects more : List Effect) :
    sentAmong (effects ++ more) = sentAmong effects ++ sentAmong more := List.filterMap_append

@[simp] theorem sentAmong_send (message : Json) (rest : List Effect) :
    sentAmong (.send message :: rest) = message :: sentAmong rest := rfl

@[simp] theorem sentAmong_logged (text : Bytes) (rest : List Effect) :
    sentAmong (Session.logged text :: rest) = sentAmong rest := rfl

@[simp] theorem sentAmong_traced (s : Session) (text : Bytes) : sentAmong (s.traced text) = [] := by
  unfold Session.traced
  split <;> rfl

namespace Session

/-! ## Publishing -/

variable {s : Session} {uri : Bytes} {d : OpenDocument}

/-- What is told of a document of the session. -/
def news (s : Session) (uri : Bytes) (d : OpenDocument) : Json :=
  publication uri d.version ((listedDiagnostics (d.analysis s.store.options uri) s.maxDiagnostics).1.map
    (diagnosticValue (d.analysis s.store.options uri).file))

theorem markPublished_eq_some_iff {t : Session} : s.markPublished uri = some t ↔
    (s.document? uri).isSome = true ∧ { s with published := insertName uri s.published } = t := by
  rw [markPublished, Option.ite_none_right_eq_some, Option.some.injEq]

theorem publishOne_of_stale (stale : (s.analyze uri d).2.2 = false) :
    ∃ effects, s.publishOne uri d = ((s.analyze uri d).1, effects) ∧ sentAmong effects = [] := by
  rw [publishOne]
  dsimp only
  rw [stale]
  exact ⟨_, rfl, sentAmong_traced _ _⟩

theorem publishOne_of_closed (current : (s.analyze uri d).2.2 = true)
    (closed : (s.analyze uri d).1.markPublished uri = none) :
    ∃ effects, s.publishOne uri d = ((s.analyze uri d).1, effects) ∧ sentAmong effects = [] := by
  rw [publishOne]
  dsimp only
  rw [current, closed]
  exact ⟨_, rfl, sentAmong_traced _ _⟩

theorem publishOne_of_open {t : Session} (current : (s.analyze uri d).2.2 = true)
    (marked : (s.analyze uri d).1.markPublished uri = some t) :
    ∃ effects, s.publishOne uri d = (t, effects) ∧ sentAmong effects =
      [publication uri d.version ((listedDiagnostics (s.analyze uri d).2.1 s.maxDiagnostics).1.map
        (diagnosticValue (s.analyze uri d).2.1.file))] := by
  rw [publishOne]
  dsimp only
  rw [current, marked]
  refine ⟨_, rfl, ?_⟩
  rw [sentAmong_append, sentAmong_traced]
  rfl

theorem publishOne_eq (caches : Caches s.store s.documents)
    (found : s.document? uri = some { d with isDirty := false }) : ∃ store effects,
      s.publishOne uri d = ({ s with store, published := insertName uri s.published }, effects) ∧
        store.options = s.store.options ∧ Caches store s.documents ∧ sentAmong effects = [s.news uri d] := by
  have analyzed : s.analyze uri d = s.analyze uri { d with isDirty := false } := rfl
  rw [analyze_eq caches found] at analyzed
  have current : (s.analyze uri d).2.2 = true := by rw [analyzed]
  have isOpen : (s.document? uri).isSome = true := by rw [found]; rfl
  obtain ⟨effects, published, sent⟩ := publishOne_of_open current (markPublished_eq_some_iff.mpr ⟨isOpen, rfl⟩)
  rw [analyzed] at published sent
  exact ⟨_, effects, published, rfl, caches.keep found, sent⟩

/-- Documents are told of in the order in which they are given. -/
theorem publishAll_eq {pending : List (Bytes × OpenDocument)} (caches : Caches s.store s.documents)
    (inside : ∀ entry ∈ pending, s.document? entry.1 = some { entry.2 with isDirty := false }) :
    ∃ store published effects, s.publishAll pending = ({ s with store, published }, effects) ∧
      store.options = s.store.options ∧ Caches store s.documents ∧
      (∀ name, name ∈ published ↔ name ∈ pending.map (·.1) ∨ name ∈ s.published) ∧
      sentAmong effects = pending.map fun entry => s.news entry.1 entry.2 := by
  induction pending generalizing s with
  | nil => exact ⟨s.store, s.published, [], rfl, rfl, caches, by simp, rfl⟩
  | cons entry rest ih =>
    obtain ⟨uri, d⟩ := entry
    obtain ⟨store, effects, one, options, caches', sent⟩ :=
      publishOne_eq caches (inside (uri, d) (List.mem_cons_self ..))
    obtain ⟨store', published, more, all, options', caches'', told, sent'⟩ :=
      ih (s := { s with store, published := insertName uri s.published }) caches'
        fun entry member => inside entry (List.mem_cons_of_mem _ member)
    refine ⟨store', published, effects ++ more, ?_, options'.trans options, caches'', ?_, ?_⟩
    · unfold publishAll
      rw [one]
      dsimp only
      rw [all]
    · intro name
      rw [told, List.map_cons, List.mem_cons, mem_insertName]
      rw [or_assoc]
      exact or_left_comm
    · rw [sentAmong_append, sent, sent', List.map_cons]
      simp [news, options]

/-- A run that nobody interrupts tells of all documents that have changed, in order. -/
theorem flush_eq (ordered : Ordered s.documents) (caches : Caches s.store s.documents) :
    ∃ store published effects, s.flush = ({ s.collect.2 with store, published }, effects) ∧
      store.options = s.store.options ∧ Caches store s.collect.2.documents ∧
      (∀ name, name ∈ published ↔ name ∈ s.collect.1.map (·.1) ∨ name ∈ s.published) ∧
      sentAmong effects = s.collect.1.map fun entry => s.news entry.1 entry.2 := by
  have inside : ∀ entry ∈ s.collect.1,
      s.collect.2.document? entry.1 = some { entry.2 with isDirty := false } := by
    intro entry member
    have found := ordered.lookup_eq_some.mpr (List.mem_filter.mp member).1
    refine (lookup_marked false entry.1 s.documents).trans ?_
    rw [found]
    rfl
  have marked : Caches s.collect.2.store s.collect.2.documents := caches.mark false
  exact publishAll_eq marked inside

/-- Telling of documents leaves them as they are. -/
theorem documents_publishAll (pending : List (Bytes × OpenDocument)) :
    (s.publishAll pending).1.documents = s.documents := by
  induction pending generalizing s with
  | nil => rfl
  | cons entry rest ih =>
    have one : (s.publishOne entry.1 entry.2).1.documents = s.documents := by
      unfold publishOne markPublished
      dsimp only
      split
      · rfl
      · split
        · rfl
        · rename_i marked
          split at marked
          · cases marked
            rfl
          · cases marked
    exact ih.trans one

/-! ## Settings -/

/-- The settings of a session that diagnostics depend on. -/
def profile (s : Session) : Profile := ⟨s.store.options.policy, s.maxDiagnostics⟩

theorem applyLimit_eq (s : Session) (limit : Option Int) :
    s.applyLimit limit = ({ s with maxDiagnostics := (limit.filter (0 < ·)).getD s.maxDiagnostics },
      decide ((limit.filter (0 < ·)).getD s.maxDiagnostics ≠ s.maxDiagnostics)) := by
  unfold applyLimit
  cases limit with
  | none => simp
  | some n =>
    by_cases positive : 0 < n
    · by_cases same : n = s.maxDiagnostics
      · subst same
        simp [Option.filter, positive]
      · simp [Option.filter, positive, same]
    · simp [Option.filter, positive]

/-- A policy that is new makes the session forget what it analysed. -/
theorem applyPolicy_eq (caches : Caches s.store s.documents) (name : Option Bytes) : ∃ store effects,
    s.applyPolicy name = ({ s with store },
        decide ((name.bind ScopePolicy.ofName?).getD s.store.options.policy ≠ s.store.options.policy), effects) ∧
      store.options =
        { s.store.options with policy := (name.bind ScopePolicy.ofName?).getD s.store.options.policy } ∧
      Caches store s.documents ∧ sentAmong effects = [] := by
  unfold applyPolicy
  cases name with
  | none => exact ⟨s.store, [], by simp, rfl, caches, rfl⟩
  | some name =>
    cases read : ScopePolicy.ofName? name with
    | none =>
      refine ⟨s.store, [logged ("ignoring settings: " ++ ScopePolicy.unknownMessage name)], ?_,
        by simp [read], caches, rfl⟩
      simp [read]
    | some policy =>
      by_cases same : policy = s.store.options.policy
      · exact ⟨s.store, [], by simp [read, same], by simp [read, same], caches, rfl⟩
      · exact ⟨{ options := { s.store.options with policy } }, [], by simp [read, same, withPolicy],
          by simp [read], Caches.empty _, rfl⟩

/-- Settings that change the profile make the session look at all documents again. -/
theorem applySettings_eq (caches : Caches s.store s.documents) (value : Json) :
    ∃ trace store effects next documents,
      next = ((Settings.ofJson? value).map s.profile.take).getD s.profile ∧
      s.applySettings value = ({ s with trace, store, maxDiagnostics := next.limit, documents },
        next != s.profile, effects) ∧
      documents = (if next != s.profile then s.dirtyAll.documents else s.documents) ∧
      store.options = { s.store.options with policy := next.policy } ∧
      Caches store documents ∧ sentAmong effects = [] := by
  unfold applySettings
  cases read : Settings.ofJson? value with
  | none =>
    refine ⟨s.trace, s.store, [logged ("ignoring settings: " ++ jsonComplaint)], s.profile, s.documents, rfl, ?_,
      by simp, rfl, caches, rfl⟩
    simp [profile]
  | some settings =>
    let next := s.profile.take settings
    obtain ⟨store, effects, applied, kept, caches', silent⟩ :=
      applyPolicy_eq (s := { s with trace := settings.trace.getD s.trace, maxDiagnostics := next.limit })
        caches settings.policy
    refine ⟨settings.trace.getD s.trace, store, effects, next, _, rfl, ?_, rfl, kept, ?_, silent⟩
    · dsimp only
      rw [applyLimit_eq]
      dsimp only
      have applied' := applied
      dsimp only [next, Profile.take, profile] at applied'
      rw [applied']
      have again : (decide ((settings.maxDiagnostics.filter (0 < ·)).getD s.maxDiagnostics ≠ s.maxDiagnostics) ||
          decide ((settings.policy.bind ScopePolicy.ofName?).getD s.store.options.policy ≠
            s.store.options.policy)) = (next != s.profile) := by
        rw [Bool.eq_iff_iff, Bool.or_eq_true, decide_eq_true_iff, decide_eq_true_iff, bne_iff_ne]
        simp only [next, Profile.take, profile, ne_eq, Profile.mk.injEq, not_and_or]
        exact or_comm
      dsimp only
      rw [again]
      cases next != s.profile <;> rfl
    · cases next != s.profile with
      | true => exact caches'.mark true
      | false => exact caches'

end Session

end SecurityRules.Server
