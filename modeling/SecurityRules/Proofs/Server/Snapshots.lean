import SecurityRules.Proofs.Server.Traffic

/-!
# What is handed out of a document

Runs may analyse a text that has changed since it was collected, but then the store tells by the revision. This goes wrong
when a document is closed while a run still awaits it: revisions are counted from the start again when it is opened the
next time, and the run leaves an analysis of a text of the time before. It also goes wrong when revisions are no longer
counted by a machine word.
-/

namespace SecurityRules.Server

variable {options : AnalysisOptions} {s t : Session} {uri name : Bytes} {old d : OpenDocument}

/-- A document that is open under its name, as it is or may have been before. -/
def Session.Knows (s : Session) (uri : Bytes) (old : OpenDocument) : Prop :=
  ∃ d, s.document? uri = some d ∧ old.Precedes d

/-- What is kept of a document is the analysis of what it is or may have been before. -/
structure Session.Faithful (options : AnalysisOptions) (uri : Bytes) (s : Session) : Prop where
  ordered : Ordered s.documents
  options_eq : s.store.options = options
  kept : ∀ x, s.store.get? uri = some x → ∃ old, s.Knows uri old ∧ x = old.analysis options uri

namespace Session

theorem knows_touch (follows : ∀ old, s.document? name = some old → d.Follows old)
    (counts : (s.touch name d).Counts uri) (knows : s.Knows uri old) : (s.touch name d).Knows uri old := by
  obtain ⟨e, found, precedes⟩ := knows
  by_cases same : uri = name
  · subst same
    refine ⟨{ d with isDirty := true }, ?_, precedes.trans (precedes_of_counts follows counts e found)⟩
    rw [document?_touch, if_pos rfl]
  · refine ⟨e, ?_, precedes⟩
    rw [document?_touch, if_neg same]
    exact found

theorem knows_onClose (other : name ≠ uri) (knows : s.Knows uri old) : (s.onClose name).1.Knows uri old := by
  obtain ⟨d, found, precedes⟩ := knows
  refine ⟨d, ?_, precedes⟩
  rw [document?_onClose, if_neg (Ne.symm other)]
  exact found

theorem knows_collect (knows : s.Knows uri old) : s.collect.2.Knows uri old := by
  obtain ⟨d, found, precedes⟩ := knows
  refine ⟨{ d with isDirty := false }, ?_, precedes⟩
  rw [document?_collect, found]
  rfl

/-! ## The store -/

/-- An update with what the document is or may have been before. -/
theorem Faithful.analyze (faithful : s.Faithful options uri) (known : name = uri → s.Knows uri old) :
    (s.analyze name old).1.Faithful options uri := by
  rcases s.analyze_cases name old with ⟨kept, -, -, same⟩ | ⟨-, kept⟩
  · rw [same]
    exact faithful
  · rw [kept]
    refine ⟨faithful.ordered, faithful.options_eq, fun x => ?_⟩
    dsimp only
    rw [get?_keep]
    split
    · rename_i equal
      subst equal
      rw [faithful.options_eq]
      rintro ⟨⟩
      exact ⟨old, known rfl, rfl⟩
    · exact faithful.kept x

theorem Faithful.current (faithful : s.Faithful options uri) (name : Bytes) :
    (s.current name).1.Faithful options uri := by
  rw [Session.current]
  cases found : s.document? name with
  | none => exact faithful
  | some d =>
    dsimp only
    split
    · exact faithful
    · refine faithful.analyze fun same => ⟨d, ?_, .refl d⟩
      rw [← same]
      exact found

/-- The analysis that is handed out is that of the text as it is. -/
theorem Faithful.snd_current (faithful : s.Faithful options uri) (found : s.document? uri = some d) :
    (s.current uri).2 = some (d.analysis options uri) := by
  have precedes : ∀ x, s.store.get? uri = some x →
      ∃ old : OpenDocument, old.Precedes d ∧ x = old.analysis options uri := by
    intro x inside
    obtain ⟨old, ⟨e, there, precedes⟩, analyzed⟩ := faithful.kept x inside
    obtain rfl := Option.some.inj (found.symm.trans there)
    exact ⟨old, precedes, analyzed⟩
  rw [Session.current, found]
  dsimp only
  cases stored : (s.store.get? uri).filter fun kept => kept.version == d.revision.toInt with
  | some kept =>
    obtain ⟨inside, current⟩ := Option.filter_eq_some_iff.mp stored
    obtain ⟨old, precedes, rfl⟩ := precedes kept inside
    have revision : old.revision = d.revision := Int32.toInt_inj.mp (beq_iff_eq.mp current)
    rcases precedes with less | ⟨-, text⟩
    · rw [revision] at less
      exact absurd less Int32.lt_irrefl
    · rw [OpenDocument.analysis, OpenDocument.analysis, revision, text]
  | none =>
    have notNewer : ∀ kept, s.store.get? uri = some kept → kept.version ≤ d.revision.toInt := by
      intro kept inside
      obtain ⟨old, precedes, rfl⟩ := precedes kept inside
      exact precedes.revision_le
    dsimp only
    rw [analyze_of_notNewer notNewer, faithful.options_eq]

/-! ## Messages -/

/-- Documents may change if nothing that is or may have been before gets lost. -/
theorem Faithful.mono (faithful : s.Faithful options uri) (ordered : Ordered t.documents) (store : t.store = s.store)
    (knows : ∀ old, s.Knows uri old → t.Knows uri old) : t.Faithful options uri where
  ordered := ordered
  options_eq := by
    rw [store]
    exact faithful.options_eq
  kept x inside := by
    rw [store] at inside
    obtain ⟨old, known, analyzed⟩ := faithful.kept x inside
    exact ⟨old, knows old known, analyzed⟩

theorem Faithful.collect (faithful : s.Faithful options uri) : s.collect.2.Faithful options uri :=
  faithful.mono (ordered_marked faithful.ordered false) rfl fun _ knows => knows_collect knows

theorem Faithful.onClose (faithful : s.Faithful options uri) (name : Bytes) :
    (s.onClose name).1.Faithful options uri := by
  rw [onClose_eq]
  refine ⟨faithful.ordered.sublist List.filter_sublist, faithful.options_eq, fun x => ?_⟩
  dsimp only
  rw [DocumentStore.get?_remove]
  split
  · rintro ⟨⟩
  · rename_i other
    intro inside
    obtain ⟨old, known, analyzed⟩ := faithful.kept x inside
    have knows := knows_onClose (Ne.symm other) known
    rw [onClose_eq] at knows
    exact ⟨old, knows, analyzed⟩

theorem Faithful.deals (faithful : s.Faithful options uri) {closing : Option Bytes} {sent : List Json}
    (deals : s.Deals closing t sent) (counts : t.Counts uri) :
    t.Faithful options uri ∧ (closing ≠ some uri → ∀ old, s.Knows uri old → t.Knows uri old) := by
  cases deals with
  | keeps => exact ⟨faithful, fun _ _ knows => knows⟩
  | asks name =>
    refine ⟨faithful.current name, fun _ old knows => ?_⟩
    obtain ⟨store, current⟩ := s.fst_current name
    rw [current]
    exact knows
  | touches name d follows =>
    have knows : ∀ old, s.Knows uri old → (s.touch name d).Knows uri old := fun _ => knows_touch follows counts
    refine ⟨faithful.mono ?_ rfl knows, fun _ => knows⟩
    have documents : (s.touch name d).documents = insertNamed name { d with isDirty := true } s.documents :=
      insertDocument_eq name _ _
    rw [documents]
    exact faithful.ordered.insertNamed
  | closes name =>
    refine ⟨faithful.onClose name, fun other _ => knows_onClose fun same => other ?_⟩
    rw [same]

end Session

/-! ## Runs -/

/-- The message that a step handles. -/
def Label.event? : Label → Option Event
  | .handled m _ => some (.message m)
  | _ => none

namespace Traffic

variable {p q : Traffic} {l : Label} {past : List Label}

/-- What is kept of a document and what runs have yet to analyse is what it is or may have been before. -/
structure Faithful (options : AnalysisOptions) (uri : Bytes) (p : Traffic) : Prop where
  session : p.session.Faithful options uri
  awaited : ∀ r ∈ p.runs, ∀ old, (uri, old) ∈ r.pending → p.session.Knows uri old

theorem faithful_start (options : AnalysisOptions) (maxDiagnostics : Int) (trace : Bool) (uri : Bytes) :
    (start options maxDiagnostics trace).Faithful options uri where
  session := ⟨List.Pairwise.nil, rfl, fun _ found => by cases found⟩
  awaited _ member := by cases member

/-- A document is closed only when no run awaits it. -/
def closesUnawaited (uri : Bytes) (p : Traffic) (l : Label) : Bool :=
  !l.closes uri || p.runs.all fun r => !r.awaits uri

/-- Whatever a run analyses it has awaited. -/
theorem Faithful.advances {earlier later : List Run} {r : Run} {next : Option Run}
    (faithful : Faithful options uri ⟨s, earlier ++ r :: later⟩) (advances : r.Advances s t l next) :
    Faithful options uri ⟨t, earlier ++ (next.toList ++ later)⟩ := by
  obtain ⟨session, awaited⟩ := faithful
  cases advances with
  | collects =>
    refine ⟨session.collect, forall_mem_goOn awaited
      (fun _ known old member => Session.knows_collect (known old member)) ?_⟩
    rintro _ ⟨⟩ - old member
    have inside := session.ordered.lookup_eq_some.mpr (List.mem_filter.mp member).1
    exact Session.knows_collect ⟨old, inside, .refl old⟩
  | ends => exact ⟨session, forall_mem_goOn awaited (fun _ known => known) (by simp)⟩
  | @analyzes limit name d pending _ | @discards limit name d pending _ =>
    refine ⟨session.analyze fun same => ?_, forall_mem_goOn awaited (fun _ known => known) ?_⟩
    · exact awaited (.ready limit ((name, d) :: pending)) (by simp) d (by simp [same, Run.pending])
    · rintro _ ⟨⟩ known old member
      exact known old (List.mem_cons_of_mem _ member)
  | marks =>
    refine ⟨session.mono session.ordered rfl fun _ knows => knows, forall_mem_goOn awaited (fun _ known => known) ?_⟩
    rintro _ ⟨⟩ known
    exact known
  | skips | tells =>
    refine ⟨session, forall_mem_goOn awaited (fun _ known => known) ?_⟩
    rintro _ ⟨⟩ known
    exact known

theorem Faithful.step (faithful : p.Faithful options uri) (step : Step p l q) (fits : closesUnawaited uri p l = true)
    (counts : q.session.Counts uri) : q.Faithful options uri := by
  cases step with
  | @handle s runs m method known about goesOn =>
    obtain ⟨session, knows⟩ := faithful.session.deals (s.handle_deals known about) counts
    refine ⟨session, fun r member old pending => ?_⟩
    by_cases closes : m.closes? = some uri
    · -- No run awaits a document that is closed.
      have unawaited : ∀ r ∈ runs, r.awaits uri = false := by
        simpa [closesUnawaited, Label.closes, closes] using fits
      have nothing := unawaited r member
      rw [Run.awaits, List.any_eq_false] at nothing
      exact absurd (beq_self_eq_true uri) (nothing _ pending)
    · exact knows closes old (faithful.awaited r member old pending)
  | @fire s runs number pending =>
    refine ⟨faithful.session.mono faithful.session.ordered rfl fun _ knows => knows,
      forall_mem_fire faithful.awaited fun old pending => ?_⟩
    cases pending
  | @goOn s earlier later r => exact faithful.advances (r.advances s)

/-- Nothing but messages changes the texts of documents. -/
theorem mirrors_step (mirrors : p.session.Mirrors (past.filterMap Label.event?)) (step : Step p l q) :
    q.session.Mirrors ((l :: past).filterMap Label.event?) := by
  cases step with
  | @handle s runs m method known about goesOn => exact mirrors.handle m
  | @fire s runs number pending => exact mirrors
  | @goOn s earlier later r =>
    have advances := r.advances s
    generalize r.advance s = step at advances ⊢
    obtain ⟨t, l, next⟩ := step
    cases advances with
    | collects => exact mirrors.of_clean s.clean_collect
    | ends | analyzes | discards | marks | skips | tells => exact mirrors

theorem mirrors_reached {allowed : Traffic → Label → Bool} (mirrors : p.session.Mirrors [])
    (reached : Past allowed p past q) : q.session.Mirrors (past.filterMap Label.event?) := by
  induction reached with
  | here => exact mirrors
  | step _ now _ ih => exact mirrors_step ih now

theorem Faithful.reached (faithful : p.Faithful options uri) (mirrors : p.session.Mirrors [])
    (reached : Past (closesUnawaited uri) p past q) (unworn : Unworn uri (past.filterMap Label.event?)) :
    q.Faithful options uri := by
  induction reached with
  | here => exact faithful
  | @step past q r l before now fits ih =>
    have counts := (mirrors_step (mirrors_reached mirrors before) now).counts unworn
    refine (ih ?_).step now fits counts
    rw [List.filterMap_cons] at unworn
    split at unworn
    · exact unworn
    · exact unworn.of_suffix (List.suffix_cons _ _)

/-- As long as a document is closed only when no run awaits it, and does not get more texts in between than a machine word
counts, what is handed out of it is the analysis of its text. -/
theorem current_analysis (options : AnalysisOptions) (maxDiagnostics : Int) (trace : Bool) (uri : Bytes)
    (reached : Past (closesUnawaited uri) (start options maxDiagnostics trace) past p)
    (unworn : Unworn uri (past.filterMap Label.event?)) (found : p.session.document? uri = some d) :
    (p.session.current uri).2 = some (d.analysis options uri) :=
  ((faithful_start options maxDiagnostics trace uri).reached (mirrors_start options maxDiagnostics trace) reached
    unworn).session.snd_current found

/-- A document is closed when no run awaits it, though one has an analysis of it in hand, and opened with another text,
which is changed while the next run takes it up. -/
def lateChange : List Move :=
  [.handle (opening "u" "service a \x7b\x7d"), .fire, .goOn 0, .handle (changing "u" "service b \x7b\x7d"), .goOn 0,
    .handle (closing "u"), .handle (opening "u" "service c \x7b\x7d"), .fire, .goOn 0,
    .handle (changing "u" "service d \x7b\x7d"), .goOn 0]

theorem current_analysis_lateChange : ∃ past p d,
    Past (closesUnawaited "u") (start {} 0 false) past p ∧ Unworn "u" (past.filterMap Label.event?) ∧
      p.runs.length = 2 ∧ p.session.document? "u" = some d ∧
      (p.session.store.get? "u").map (·.version) = some (d.revision.toInt - 1) ∧
      (p.session.current "u").2 = some (d.analysis {} "u") := by
  have played : (play? (closesUnawaited "u") ([], start {} 0 false) lateChange).any (fun (past, p) =>
      past.length < 20 && (p.runs.length = 2 && (p.session.document? "u").any fun d =>
        (p.session.store.get? "u").map (·.version) = some (d.revision.toInt - 1))) = true := by decide +kernel
  obtain ⟨⟨past, p⟩, played, facts⟩ := (Option.any_eq_true _ _).mp played
  obtain ⟨short, facts⟩ := (Bool.and_eq_true _ _).mp facts
  obtain ⟨running, facts⟩ := (Bool.and_eq_true _ _).mp facts
  obtain ⟨d, found, older⟩ := (Option.any_eq_true _ _).mp facts
  have reached := Past.here.play played
  have unworn : Unworn "u" (past.filterMap Label.event?) := by
    refine unworn_of_length (Nat.lt_of_le_of_lt (List.length_filterMap_le ..) ?_)
    exact Nat.lt_trans (of_decide_eq_true short) (by decide)
  exact ⟨past, p, d, reached, unworn, of_decide_eq_true running, found, of_decide_eq_true older,
    current_analysis {} 0 false "u" reached unworn found⟩

/-- A document is closed while a run awaits it, and opened with another text. -/
def lateUpdate : List Move :=
  [.handle (opening "u" "service a \x7b\x7d"), .handle (changing "u" "service b \x7b"), .fire, .goOn 0,
    .handle (closing "u"), .goOn 0, .handle (opening "u" "service c \x7b\x7d")]

/-- Without a bound on when a document is closed, what is handed out may be the analysis of a text of an earlier time. -/
theorem current_stale : ¬ ∀ uri past p d, Past (fun _ _ => true) (start {} 0 false) past p →
    p.session.document? uri = some d → (p.session.current uri).2 = some (d.analysis {} uri) := by
  intro always
  have played : (play? (fun _ _ => true) ([], start {} 0 false) lateUpdate).any (fun (_, p) =>
      (p.session.document? "u").any fun d => (p.session.current "u").2.map (·.file.content) !=
        some (d.analysis {} "u").file.content) = true := by decide +kernel
  obtain ⟨⟨past, p⟩, played, facts⟩ := (Option.any_eq_true _ _).mp played
  obtain ⟨d, found, other⟩ := (Option.any_eq_true _ _).mp facts
  have same := always "u" past p d (Past.here.play played) found
  simp [same] at other

end Traffic

end SecurityRules.Server
