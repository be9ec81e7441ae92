import SecurityRules.Proofs.DocumentStore.Update

/-!
# The analyses that a session keeps

Each kept analysis belongs to an open document. It may be of an earlier text, but then its revision tells, as long as
revisions grow.
-/

namespace SecurityRules.Server

/-! ## Revisions -/

/-- A document as a message may make it from an earlier one: with another text it gets the next revision. -/
def OpenDocument.Follows (d old : OpenDocument) : Prop :=
  d.revision = old.revision + 1 ∨ d.revision = old.revision ∧ d.text = old.text

/-- A document as it may have been before. Its text is the same unless its revision has grown. -/
def OpenDocument.Precedes (old d : OpenDocument) : Prop :=
  old.revision < d.revision ∨ old.revision = d.revision ∧ old.text = d.text

theorem OpenDocument.Precedes.refl (d : OpenDocument) : d.Precedes d := Or.inr ⟨rfl, rfl⟩

theorem OpenDocument.Precedes.trans {d e f : OpenDocument} (first : d.Precedes e) (second : e.Precedes f) :
    d.Precedes f := by
  rcases first with less | ⟨revision, text⟩
  · rcases second with less' | ⟨revision', -⟩
    · exact Or.inl (Int32.lt_trans less less')
    · exact Or.inl (revision' ▸ less)
  · rw [Precedes, revision, text]
    exact second

theorem OpenDocument.Precedes.revision_le {old d : OpenDocument} (precedes : old.Precedes d) :
    old.revision.toInt ≤ d.revision.toInt := by
  rcases precedes with less | ⟨revision, -⟩
  · exact Int.le_of_lt (Int32.lt_iff_toInt_lt.mp less)
  · exact Int.le_of_eq (congrArg Int32.toInt revision)

/-- The word behind another one is greater, unless the count has started again. -/
theorem lt_succ_of_pos {n : Int32} (positive : 0 < n + 1) : n < n + 1 := by
  have least := n.le_toInt
  have greatest := n.toInt_lt
  rw [Int32.lt_iff_toInt_lt, Int32.toInt_add, Int.bmod_def] at *
  simp only [Int32.toInt_zero, Int32.toInt_one] at *
  omega

theorem OpenDocument.Follows.precedes {old d : OpenDocument} (follows : d.Follows old) (positive : 0 < d.revision) :
    old.Precedes d := by
  rcases follows with next | ⟨revision, text⟩
  · rw [next] at positive
    rw [Precedes, next]
    exact Or.inl (lt_succ_of_pos positive)
  · exact Or.inr ⟨revision.symm, text.symm⟩

/-- The revision of a document, if it is open, counts from one and has not started again. -/
def Session.Counts (uri : Bytes) (s : Session) : Prop := ∀ d, s.document? uri = some d → 0 < d.revision

/-! ## Kept analyses -/

/-- The analysis of the text that a document has. -/
def OpenDocument.analysis (options : AnalysisOptions) (uri : Bytes) (d : OpenDocument) : Document :=
  Document.analyze uri d.revision.toInt (SourceFile.inMemory (FileUri.displayPath uri) d.text) options

/-- Documents in which no revision is older than the analysis kept of it, and which have not changed since an
analysis of the same revision. -/
def Caches (store : DocumentStore) (documents : List (Bytes × OpenDocument)) : Prop :=
  ∀ uri kept, store.get? uri = some kept → ∃ d, documents.lookup uri = some d ∧ kept.version ≤ d.revision.toInt ∧
    (kept.version = d.revision.toInt → kept = d.analysis store.options uri)

/-- Keeps an analysis. -/
def keep (store : DocumentStore) (uri : Bytes) (d : OpenDocument) : DocumentStore :=
  { store with documents := DocumentStore.insertEntry uri (d.analysis store.options uri) store.documents }

variable {store : DocumentStore} {documents : List (Bytes × OpenDocument)} {uri : Bytes} {d : OpenDocument}

theorem get?_keep (other : Bytes) : (keep store uri d).get? other =
    if other = uri then some (d.analysis store.options uri) else store.get? other :=
  DocumentStore.get?_put

theorem Caches.keep (caches : Caches store documents) (found : documents.lookup uri = some d) :
    Caches (keep store uri d) documents := by
  intro other kept
  rw [get?_keep]
  split
  · rename_i same
    intro this
    obtain rfl := Option.some.inj this
    subst same
    exact ⟨d, found, Int.le_refl _, fun _ => rfl⟩
  · exact caches other kept

theorem Caches.empty (options : AnalysisOptions) : Caches { options } documents := by
  intro uri kept found
  simp [DocumentStore.get?] at found

/-- A document may change if its revision grows with it. -/
theorem Caches.insert (caches : Caches store documents)
    (grows : ∀ old, documents.lookup uri = some old → old.Precedes d) :
    Caches store (insertNamed uri d documents) := by
  intro other kept stored
  obtain ⟨old, found, older, fresh⟩ := caches other kept stored
  rw [lookup_insertNamed]
  split
  · rename_i same
    subst same
    refine ⟨d, rfl, ?_⟩
    rcases grows old found with newer | ⟨revision, text⟩
    · rw [Int32.lt_iff_toInt_lt] at newer
      refine ⟨by omega, fun equal => ?_⟩
      omega
    · rw [← revision]
      refine ⟨older, fun equal => ?_⟩
      rw [fresh equal, OpenDocument.analysis, OpenDocument.analysis, revision, text]
  · exact ⟨old, found, older, fresh⟩

theorem Caches.remove (caches : Caches store documents) :
    Caches (store.remove uri) (documents.filter fun (name, _) => name != uri) := by
  intro other kept stored
  rw [DocumentStore.get?_remove] at stored
  split at stored
  · cases stored
  · rename_i differs
    obtain ⟨old, found, older, fresh⟩ := caches other kept stored
    refine ⟨old, ?_, older, fresh⟩
    rw [lookup_remove, if_neg differs]
    exact found

theorem lookup_marked (isDirty : Bool) (uri : Bytes) (documents : List (Bytes × OpenDocument)) :
    (documents.map fun (uri, d) => (uri, { d with isDirty })).lookup uri =
      (documents.lookup uri).map fun d => { d with isDirty } :=
  lookup_mapped fun d : OpenDocument => { d with isDirty }

theorem ordered_marked (ordered : Ordered documents) (isDirty : Bool) :
    Ordered (documents.map fun (uri, d) => (uri, { d with isDirty })) :=
  ordered.mapped fun d : OpenDocument => { d with isDirty }

/-- Nothing depends on which documents have to be looked at. -/
theorem Caches.mark (caches : Caches store documents) (isDirty : Bool) :
    Caches store (documents.map fun (uri, d) => (uri, { d with isDirty })) := by
  intro uri kept stored
  obtain ⟨old, found, older, fresh⟩ := caches uri kept stored
  refine ⟨{ old with isDirty }, ?_, older, fresh⟩
  rw [lookup_marked, found]
  rfl

namespace Session

variable {s : Session}

/-- An analysis is kept if none is kept that is newer. -/
theorem analyze_of_notNewer (notNewer : ∀ kept, s.store.get? uri = some kept → kept.version ≤ d.revision.toInt) :
    s.analyze uri d = ({ s with store := Server.keep s.store uri d }, d.analysis s.store.options uri, true) := by
  rw [analyze, DocumentStore.update_of_notNewer notNewer]
  rfl

/-- An analysis either finds a newer one or is kept. -/
theorem analyze_cases (s : Session) (uri : Bytes) (d : OpenDocument) :
    (∃ kept, s.store.get? uri = some kept ∧ d.revision.toInt < kept.version ∧ s.analyze uri d = (s, kept, false)) ∨
    (∀ kept, s.store.get? uri = some kept → kept.version ≤ d.revision.toInt) ∧
      s.analyze uri d = ({ s with store := Server.keep s.store uri d }, d.analysis s.store.options uri, true) := by
  rcases s.store.update_cases uri d.revision.toInt (FileUri.displayPath uri) d.text with
    ⟨kept, found, newer, same⟩ | ⟨notNewer, -⟩
  · have differs : (kept.version == d.revision.toInt) = false := beq_eq_false_iff_ne.mpr (Int.ne_of_gt newer)
    rw [analyze, same]
    exact Or.inl ⟨kept, found, newer, by simp [differs]⟩
  · exact Or.inr ⟨notNewer, analyze_of_notNewer notNewer⟩

/-- Analysing a document as it is gives the analysis of its text. -/
theorem analyze_eq (caches : Caches s.store s.documents) (found : s.document? uri = some d) :
    s.analyze uri d = ({ s with store := Server.keep s.store uri d }, d.analysis s.store.options uri, true) := by
  refine analyze_of_notNewer fun kept stored => ?_
  obtain ⟨old, same, older, _⟩ := caches uri kept stored
  obtain rfl := Option.some.inj (same.symm.trans found)
  exact older

/-- A newer analysis that is kept is handed out in place of the one asked for. -/
theorem current_of_newer {kept : Document} (found : s.document? uri = some d) (stored : s.store.get? uri = some kept)
    (newer : d.revision.toInt < kept.version) : s.current uri = (s, some kept) := by
  have other : (some kept).filter (fun kept => kept.version == d.revision.toInt) = none := by
    simp [Int.ne_of_gt newer]
  rw [current, found]
  dsimp only
  rw [stored, other]
  rcases s.analyze_cases uri d with ⟨kept', stored', -, analyzed⟩ | ⟨notNewer, -⟩
  · cases stored.symm.trans stored'
    dsimp only
    rw [analyzed]
  · exact absurd (notNewer kept stored) (Int.not_le.mpr newer)

/-- The analysis asked for is that of the text the document has now. -/
theorem current_eq (caches : Caches s.store s.documents) (uri : Bytes) : ∃ store,
    s.current uri = ({ s with store }, (s.document? uri).map (·.analysis s.store.options uri)) ∧
      store.options = s.store.options ∧ Caches store s.documents := by
  rw [current]
  cases found : s.document? uri with
  | none => exact ⟨s.store, rfl, rfl, caches⟩
  | some d =>
    dsimp only
    cases stored : (s.store.get? uri).filter fun kept => kept.version == d.revision.toInt with
    | none =>
      refine ⟨Server.keep s.store uri d, ?_, rfl, caches.keep found⟩
      dsimp only
      rw [analyze_eq caches found]
      rfl
    | some kept =>
      obtain ⟨inside, current⟩ := Option.filter_eq_some_iff.mp stored
      obtain ⟨old, same, _, fresh⟩ := caches uri kept inside
      obtain rfl := Option.some.inj (same.symm.trans found)
      refine ⟨s.store, ?_, rfl, caches⟩
      dsimp only
      rw [fresh (beq_iff_eq.mp current)]
      rfl

end Session

end SecurityRules.Server
