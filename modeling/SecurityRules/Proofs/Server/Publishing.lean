import SecurityRules.Proofs.Server.Traffic

/-!
# What the editor is told of a document

When a document is closed its diagnostics are taken back, and they become no older while it is open. Both go wrong when
something comes in between the steps that a run takes to tell of a document: it may be closed when it was found open a
moment ago, and a newer run may tell of it first.
-/

namespace SecurityRules.Server

variable {s t : Session} {uri name : Bytes} {d : OpenDocument} {l : Label} {past : List Label}

/-! ## Diagnostics that are taken back -/

theorem latestNews_cons (uri : Bytes) (l : Label) (past : List Label) :
    latestNews uri (l :: past) = (l.messages.reverse.findSome? (newsOf? uri)).or (latestNews uri past) := by
  rw [latestNews, List.flatMap_cons, List.findSome?_append]
  rfl

theorem latestNews_of_silent (silent : ∀ message ∈ l.messages, newsOf? uri message = none) :
    latestNews uri (l :: past) = latestNews uri past := by
  rw [latestNews_cons, List.findSome?_eq_none_iff.mpr fun message member => silent message (List.mem_reverse.mp member)]
  rfl

theorem latestNews_of_quiet (quiet : l.messages = []) : latestNews uri (l :: past) = latestNews uri past :=
  latestNews_of_silent fun message member => by
    rw [quiet] at member
    cases member

theorem latestNews_publication {name : Bytes} {version : Int} {items : List Json}
    (only : l.messages = [publication name version items]) :
    latestNews uri (l :: past) = if name = uri then some items else latestNews uri past := by
  rw [latestNews_cons, only, List.reverse_singleton, List.findSome?_singleton, newsOf?_publication]
  split <;> rfl

namespace Traffic

variable {p q : Traffic} {runs earlier later : List Run} {r : Run} {next : Option Run} {m : Message} {sent : List Json}

/-- Diagnostics are shown only of open documents. As long as none are shown of a document no run tells of it next, and
what was told of it last was empty. -/
structure Cleared (uri : Bytes) (past : List Label) (p : Traffic) : Prop where
  isOpen : uri ∈ p.session.published → (p.session.document? uri).isSome = true
  unsent : uri ∉ p.session.published → ∀ r ∈ p.runs, r.sends uri = false
  empty : uri ∉ p.session.published → ∀ items, latestNews uri past = some items → items = []

theorem cleared_start (options : AnalysisOptions) (maxDiagnostics : Int) (trace : Bool) (uri : Bytes) :
    Cleared uri [] (start options maxDiagnostics trace) where
  isOpen member := by cases member
  unsent _ _ member := by cases member
  empty _ _ told := by cases told

/-- A document is closed only when no run tells of it next. -/
def closesUnsent (uri : Bytes) (p : Traffic) (l : Label) : Bool :=
  !l.closes uri || p.runs.all fun r => !r.sends uri

/-- Nothing is told or taken back of the document, and no run finds it open. -/
theorem Cleared.mono (cleared : Cleared uri past ⟨s, runs⟩) {runs' : List Run}
    (shown : uri ∈ t.published ↔ uri ∈ s.published)
    (isOpen : (s.document? uri).isSome = true → (t.document? uri).isSome = true)
    (silent : latestNews uri (l :: past) = latestNews uri past)
    (fewer : ∀ r ∈ runs', r.sends uri = true → ∃ r ∈ runs, r.sends uri = true) : Cleared uri (l :: past) ⟨t, runs'⟩ where
  isOpen inside := isOpen (cleared.isOpen (shown.mp inside))
  unsent outside r member := by
    rw [Bool.eq_false_iff]
    intro sends
    obtain ⟨r, member, sends⟩ := fewer r member sends
    rw [cleared.unsent (mt shown.mpr outside) r member] at sends
    cases sends
  empty outside := by
    rw [silent]
    exact cleared.empty (mt shown.mpr outside)

theorem Cleared.deals (cleared : Cleared uri past ⟨s, runs⟩) {closing : Option Bytes} (deals : s.Deals closing t sent)
    (apart : closing = some uri → ∀ r ∈ runs, r.sends uri = false) :
    Cleared uri (.handled m sent :: past) ⟨t, runs⟩ := by
  have same : ∀ r ∈ runs, r.sends uri = true → ∃ r ∈ runs, r.sends uri = true := fun r member sends => ⟨r, member, sends⟩
  cases deals with
  | keeps silent =>
    exact cleared.mono Iff.rfl id (latestNews_of_silent fun message member => silent message member uri) same
  | asks name silent =>
    obtain ⟨store, current⟩ := s.fst_current name
    rw [current]
    exact cleared.mono Iff.rfl id (latestNews_of_silent fun message member => silent message member uri) same
  | touches name d follows =>
    refine cleared.mono Iff.rfl (fun isOpen => ?_) (latestNews_of_quiet rfl) same
    rw [s.document?_touch]
    split
    · rfl
    · exact isOpen
  | closes name =>
    rw [Session.sent_onClose]
    by_cases equal : name = uri
    · subst equal
      refine ⟨fun shown => ?_, fun _ => apart rfl, fun _ items => ?_⟩
      · exact absurd rfl ((s.mem_published_onClose name name).mp shown).2
      · split
        · rw [latestNews_publication (l := .handled m [_]) rfl, if_pos rfl]
          rintro ⟨⟩
          rfl
        · rename_i hidden
          rw [latestNews_of_quiet (l := .handled m []) rfl]
          exact cleared.empty hidden items
    · refine cleared.mono ?_ (fun isOpen => ?_) ?_ same
      · rw [s.mem_published_onClose]
        exact and_iff_left (Ne.symm equal)
      · rw [s.document?_onClose, if_neg (Ne.symm equal)]
        exact isOpen
      · split
        · exact (latestNews_publication (l := .handled m [_]) rfl).trans (if_neg equal)
        · exact latestNews_of_quiet rfl

/-- A run that tells of a document has noted that its diagnostics are shown. -/
theorem Cleared.advances (cleared : Cleared uri past ⟨s, earlier ++ r :: later⟩) (advances : r.Advances s t l next) :
    Cleared uri (l :: past) ⟨t, earlier ++ (next.toList ++ later)⟩ := by
  cases advances with
  | collects =>
    refine cleared.mono Iff.rfl (fun isOpen => ?_) (latestNews_of_quiet rfl) (exists_mem_goOn ?_)
    · rw [s.document?_collect, Option.isSome_map]
      exact isOpen
    · rintro _ ⟨⟩ ⟨⟩
  | ends => exact cleared.mono Iff.rfl id (latestNews_of_quiet rfl) (exists_mem_goOn (by simp))
  | analyzes | discards | skips =>
    refine cleared.mono Iff.rfl id (latestNews_of_quiet rfl) (exists_mem_goOn ?_)
    rintro _ ⟨⟩ ⟨⟩
  | @marks limit name d document pending isOpen =>
    by_cases same : name = uri
    · subst same
      have shown : name ∈ Session.insertName name s.published := mem_insertName.mpr (Or.inl rfl)
      exact ⟨fun _ => isOpen, fun hidden => absurd shown hidden, fun hidden => absurd shown hidden⟩
    · refine cleared.mono ?_ id (latestNews_of_quiet rfl) (exists_mem_goOn ?_)
      · rw [mem_insertName]
        exact or_iff_right (Ne.symm same)
      · rintro _ ⟨⟩ sends
        exact absurd (beq_iff_eq.mp sends) same
  | @tells limit name d document pending =>
    by_cases same : name = uri
    · subst same
      have shown : name ∈ s.published := by
        by_contra hidden
        have idle := cleared.unsent hidden (.marked limit name d document pending) (by simp)
        exact beq_eq_false_iff_ne.mp idle rfl
      exact ⟨cleared.isOpen, fun hidden => absurd shown hidden, fun hidden => absurd shown hidden⟩
    · refine cleared.mono Iff.rfl id ((latestNews_publication rfl).trans (if_neg same)) (exists_mem_goOn ?_)
      rintro _ ⟨⟩ ⟨⟩

theorem Cleared.step (cleared : Cleared uri past p) (step : Step p l q) (fits : closesUnsent uri p l = true) :
    Cleared uri (l :: past) q := by
  cases step with
  | @handle s runs m method known about goesOn =>
    refine cleared.deals (s.handle_deals known about) fun closes => ?_
    simpa [closesUnsent, Label.closes, closes] using fits
  | @fire s runs number pending =>
    refine cleared.mono Iff.rfl id (latestNews_of_quiet rfl)
      (forall_mem_fire (fun x member sends => ⟨x, member, sends⟩) ?_)
    rintro ⟨⟩
  | @goOn s earlier later r => exact cleared.advances (r.advances s)

theorem Cleared.reached (reached : Past (closesUnsent uri) p past q) (cleared : Cleared uri [] p) : Cleared uri past q := by
  induction reached with
  | here => exact cleared
  | step _ now fits ih => exact ih.step now fits

/-! ## Revisions that grow -/

/-- What was told of a document, and what runs have in hand of it, is kept or something newer is, and no run has an older
revision in hand than was told. -/
structure InOrder (uri : Bytes) (past : List Label) (p : Traffic) : Prop where
  pairwise : (toldRevisions uri past).Pairwise fun later earlier => earlier ≤ later
  kept : ∀ n ∈ toldRevisions uri past, p.session.store.KeepsFrom uri n
  inHand : ∃ n, ∀ r ∈ p.runs, ∀ d, r.inHand? = some (uri, d) →
    d.revision.toInt = n ∧ p.session.store.KeepsFrom uri n ∧ ∀ told ∈ toldRevisions uri past, told ≤ n

theorem inOrder_start (options : AnalysisOptions) (maxDiagnostics : Int) (trace : Bool) (uri : Bytes) :
    InOrder uri [] (start options maxDiagnostics trace) where
  pairwise := List.Pairwise.nil
  kept _ member := by cases member
  inHand := ⟨0, fun _ member => by cases member⟩

/-- A document is neither closed nor analysed while a run has an analysis of it in hand. -/
def tellsUndisturbed (uri : Bytes) (p : Traffic) (l : Label) : Bool :=
  !(l.closes uri || l.analyzes uri) || p.runs.all fun r => !r.tells uri

theorem inHand?_ne_of_tells {r : Run} (idle : r.tells uri = false) (d : OpenDocument) : r.inHand? ≠ some (uri, d) := by
  intro inHand
  rw [Run.tells, inHand] at idle
  exact absurd (beq_self_eq_true uri) (Bool.eq_false_iff.mp idle)

theorem keepsFrom_analyze {n : Int} (keeps : s.store.KeepsFrom uri n) (name : Bytes) (d : OpenDocument) :
    (s.analyze name d).1.store.KeepsFrom uri n :=
  keeps.update name d.revision.toInt (FileUri.displayPath name) d.text

/-- An analysis that is told of is the newest one. -/
theorem keepsFrom_analyze_self (current : (s.analyze uri d).2.2 = true) :
    (s.analyze uri d).1.store.KeepsFrom uri d.revision.toInt ∧
      ∀ n, s.store.KeepsFrom uri n → n ≤ d.revision.toInt := by
  rcases s.analyze_cases uri d with ⟨kept, -, -, same⟩ | ⟨notNewer, kept⟩
  · rw [same] at current
    cases current
  · rw [kept]
    refine ⟨⟨d.analysis s.store.options uri, ?_, Int.le_refl d.revision.toInt⟩, ?_⟩
    · exact (get?_keep uri).trans (if_pos rfl)
    · rintro n ⟨kept, found, least⟩
      exact Int.le_trans least (notNewer kept found)

theorem keepsFrom_deals {closing : Option Bytes} {n : Int} (deals : s.Deals closing t sent) (other : closing ≠ some uri)
    (keeps : s.store.KeepsFrom uri n) : t.store.KeepsFrom uri n := by
  cases deals with
  | keeps => exact keeps
  | asks name =>
    rw [Session.current]
    split
    · exact keeps
    · split
      · exact keeps
      · exact keepsFrom_analyze keeps name _
  | touches => exact keeps
  | closes name =>
    obtain ⟨kept, found, least⟩ := keeps
    refine ⟨kept, ?_, least⟩
    rw [Session.onClose_eq]
    dsimp only
    rw [DocumentStore.get?_remove, if_neg fun same => other (congrArg some same.symm)]
    exact found

/-- Nothing is told, nothing newer gets lost, and no run takes anything new in hand. -/
theorem InOrder.mono (inOrder : InOrder uri past ⟨s, runs⟩) {runs' : List Run}
    (same : toldRevisions uri (l :: past) = toldRevisions uri past)
    (keeps : ∀ n, s.store.KeepsFrom uri n → t.store.KeepsFrom uri n)
    (fewer : ∀ d, ∀ r ∈ runs', r.inHand? = some (uri, d) → ∃ r ∈ runs, r.inHand? = some (uri, d)) :
    InOrder uri (l :: past) ⟨t, runs'⟩ := by
  obtain ⟨pairwise, kept, n, inHand⟩ := inOrder
  rw [← same] at pairwise kept inHand
  refine ⟨pairwise, fun n told => keeps n (kept n told), n, fun r member d having => ?_⟩
  obtain ⟨r, member, having⟩ := fewer d r member having
  obtain ⟨revision, there, told⟩ := inHand r member d having
  exact ⟨revision, keeps n there, told⟩

theorem InOrder.deals (inOrder : InOrder uri past ⟨s, runs⟩) (deals : s.Deals m.closes? t sent)
    (apart : m.closes? = some uri → ∀ r ∈ runs, r.tells uri = false) :
    InOrder uri (.handled m sent :: past) ⟨t, runs⟩ := by
  by_cases closes : m.closes? = some uri
  · have nothing : toldRevisions uri (.handled m sent :: past) = [] := by
      simp [toldRevisions, Label.closes, closes]
    refine ⟨by simp [nothing], by simp [nothing], 0, fun r member d inHand => ?_⟩
    exact absurd inHand (inHand?_ne_of_tells (apart closes r member) d)
  · have same : toldRevisions uri (.handled m sent :: past) = toldRevisions uri past := by
      simp [toldRevisions, Label.closes, closes]
    exact inOrder.mono same (fun n => keepsFrom_deals deals closes) fun d r member having => ⟨r, member, having⟩

theorem InOrder.advances (inOrder : InOrder uri past ⟨s, earlier ++ r :: later⟩) (advances : r.Advances s t l next)
    (apart : l.analyzes uri = true → ∀ x ∈ earlier ++ r :: later, x.tells uri = false) :
    InOrder uri (l :: past) ⟨t, earlier ++ (next.toList ++ later)⟩ := by
  cases advances with
  | collects | skips =>
    refine inOrder.mono rfl (fun _ keeps => keeps) fun d => exists_mem_goOn ?_
    rintro _ ⟨⟩ ⟨⟩
  | ends => exact inOrder.mono rfl (fun _ keeps => keeps) fun d => exists_mem_goOn (by simp)
  | marks =>
    refine inOrder.mono rfl (fun _ keeps => keeps) fun d => exists_mem_goOn ?_
    rintro _ ⟨⟩ having
    exact having
  | @discards limit name d pending stale =>
    refine inOrder.mono rfl (fun _ keeps => keepsFrom_analyze keeps name d) fun e => exists_mem_goOn ?_
    rintro _ ⟨⟩ ⟨⟩
  | @analyzes limit name d pending current =>
    by_cases same : name = uri
    · -- Until now no run had an analysis of the document in hand, so this one is the only one.
      subst same
      obtain ⟨keeps, newest⟩ := keepsFrom_analyze_self current
      refine ⟨inOrder.pairwise, fun n told => keepsFrom_analyze (inOrder.kept n told) name d, d.revision.toInt, ?_⟩
      have idle := apart (by simp [Label.analyzes])
      refine forall_mem_goOn (P := fun x => x.tells name = false) idle (fun x idle e having => ?_) ?_
      · exact absurd having (inHand?_ne_of_tells idle e)
      · rintro _ ⟨⟩ - e having
        obtain rfl : d = e := congrArg Prod.snd (Option.some.inj having)
        exact ⟨rfl, keeps, fun n told => newest n (inOrder.kept n told)⟩
    · refine inOrder.mono rfl (fun _ keeps => keepsFrom_analyze keeps name d) fun e => exists_mem_goOn ?_
      rintro _ ⟨⟩ having
      exact absurd (congrArg Prod.fst (Option.some.inj having)) same
  | @tells limit name d document pending =>
    by_cases same : name = uri
    · subst same
      obtain ⟨pairwise, kept, n, inHand⟩ := inOrder
      have told : ∀ news, toldRevisions name (.told name d.revision.toInt news :: past) =
          d.revision.toInt :: toldRevisions name past :=
        fun news => if_pos rfl
      obtain ⟨rfl, keeps, older⟩ := inHand (.marked limit name d document pending) (by simp) d rfl
      have older' : ∀ m ∈ d.revision.toInt :: toldRevisions name past, m ≤ d.revision.toInt :=
        List.forall_mem_cons.mpr ⟨Int.le_refl _, older⟩
      refine ⟨?_, ?_, d.revision.toInt, ?_⟩
      · rw [told]
        exact List.pairwise_cons.mpr ⟨older, pairwise⟩
      · rw [told]
        exact List.forall_mem_cons.mpr ⟨keeps, kept⟩
      · rw [told]
        refine forall_mem_goOn inHand (fun x before e having => ?_) ?_
        · obtain ⟨revision, there, -⟩ := before e having
          exact ⟨revision, there, older'⟩
        · rintro _ ⟨⟩ - e ⟨⟩
    · refine inOrder.mono (if_neg same) (fun _ keeps => keeps) fun e => exists_mem_goOn ?_
      rintro _ ⟨⟩ ⟨⟩

theorem InOrder.step (inOrder : InOrder uri past p) (step : Step p l q) (fits : tellsUndisturbed uri p l = true) :
    InOrder uri (l :: past) q := by
  cases step with
  | @handle s runs m method known about goesOn =>
    refine inOrder.deals (s.handle_deals known about) fun closes => ?_
    simpa [tellsUndisturbed, Label.closes, closes] using fits
  | @fire s runs number pending =>
    refine inOrder.mono rfl (fun _ keeps => keeps) fun d => forall_mem_fire (fun x member having => ⟨x, member, having⟩) ?_
    rintro ⟨⟩
  | @goOn s earlier later r =>
    refine inOrder.advances (r.advances s) fun analyzes x member => ?_
    rw [tellsUndisturbed, analyzes, Bool.or_true, Bool.not_true, Bool.false_or, List.all_eq_true] at fits
    simpa using fits x member

theorem InOrder.reached (reached : Past (tellsUndisturbed uri) p past q) (inOrder : InOrder uri [] p) :
    InOrder uri past q := by
  induction reached with
  | here => exact inOrder
  | step _ now fits ih => exact ih.step now fits

/-! ## Both -/

/-- If a document is closed only when no run tells of it next, then what was told of it last is empty when it is not open.
If it is neither closed nor analysed while a run has an analysis of it in hand, then the revisions that are told of grow
until it is closed. -/
theorem cleared_and_inOrder (options : AnalysisOptions) (maxDiagnostics : Int) (trace : Bool) (uri : Bytes)
    (past : List Label) (p : Traffic) :
    (Past (closesUnsent uri) (start options maxDiagnostics trace) past p → p.session.document? uri = none →
      ∀ items, latestNews uri past = some items → items = []) ∧
    (Past (tellsUndisturbed uri) (start options maxDiagnostics trace) past p →
      (toldRevisions uri past).Pairwise fun later earlier => earlier ≤ later) := by
  constructor
  · intro reached closed
    have cleared := (cleared_start options maxDiagnostics trace uri).reached reached
    refine cleared.empty fun shown => ?_
    have isOpen := cleared.isOpen shown
    rw [closed] at isOpen
    cases isOpen
  · intro reached
    exact ((inOrder_start options maxDiagnostics trace uri).reached reached).pairwise

/-- A document is told of, changed, and closed while a run awaits it. -/
def closedInTime : List Move :=
  [.handle (opening "u" "service a \x7b"), .fire, .goOn 0, .goOn 0, .goOn 0, .goOn 0,
    .handle (changing "u" "service b \x7b\x7d"), .fire, .goOn 0, .handle (closing "u"), .goOn 0, .goOn 0]

/-- A run tells of a document that has changed, and another one tells of what it is now. -/
def toldInTurn : List Move :=
  [.handle (opening "u" "service a \x7b"), .fire, .goOn 0, .handle (changing "u" "service b \x7b\x7d"), .fire, .goOn 0,
    .goOn 1, .goOn 1, .goOn 1, .goOn 0, .goOn 0, .goOn 0]

theorem cleared_and_inOrder_inTime :
    (∃ past p, Past (closesUnsent "u") (start {} 0 false) past p ∧ p.session.document? "u" = none ∧
      (past.any fun l => l.messages.any fun message => (newsOf? "u" message).any (!·.isEmpty)) = true ∧
      (latestNews "u" past).isSome = true ∧ ∀ items, latestNews "u" past = some items → items = []) ∧
    ∃ past p, Past (tellsUndisturbed "u") (start {} 0 false) past p ∧ toldRevisions "u" past = [2, 1] ∧
      (toldRevisions "u" past).Pairwise fun later earlier => earlier ≤ later := by
  constructor
  · have played : (play? (closesUnsent "u") ([], start {} 0 false) closedInTime).any (fun (past, p) =>
        (p.session.document? "u").isNone &&
          (past.any fun l => l.messages.any fun message => (newsOf? "u" message).any (!·.isEmpty)) &&
          (latestNews "u" past).isSome) = true := by decide +kernel
    obtain ⟨⟨past, p⟩, played, facts⟩ := (Option.any_eq_true _ _).mp played
    simp only [Bool.and_eq_true, Option.isNone_iff_eq_none] at facts
    obtain ⟨⟨closed, told⟩, news⟩ := facts
    have reached := Past.here.play played
    exact ⟨past, p, reached, closed, told, news, (cleared_and_inOrder {} 0 false "u" past p).1 reached closed⟩
  · have played : (play? (tellsUndisturbed "u") ([], start {} 0 false) toldInTurn).any (fun (past, _) =>
        toldRevisions "u" past = [2, 1]) = true := by decide +kernel
    obtain ⟨⟨past, p⟩, played, facts⟩ := (Option.any_eq_true _ _).mp played
    have reached := Past.here.play played
    exact ⟨past, p, reached, of_decide_eq_true facts, (cleared_and_inOrder {} 0 false "u" past p).2 reached⟩

/-- A run finds a document open, it is closed, and the run tells of it. -/
def toldLate : List Move :=
  [.handle (opening "u" "service a \x7b"), .fire, .goOn 0, .goOn 0, .goOn 0, .handle (closing "u"), .goOn 0]

/-- A newer run tells of a document before an older one does. -/
def overtaken : List Move :=
  [.handle (opening "u" "service a \x7b"), .fire, .goOn 0, .goOn 0, .goOn 0, .handle (changing "u" "service b \x7b\x7d"),
    .fire, .goOn 0, .goOn 0, .goOn 0, .goOn 0, .goOn 1]

/-- A run analyses and tells of a text from before the document was closed, and what it is now is refused for its
revision. -/
def shownLate : List Move :=
  [.handle (opening "u" "service a \x7b\x7d"), .handle (changing "u" "service b \x7b"), .fire, .goOn 0,
    .handle (closing "u"), .handle (opening "u" "service c \x7b\x7d"), .goOn 0, .goOn 0, .goOn 0, .goOn 0,
    .fire, .goOn 0, .goOn 0, .goOn 0]

/-- Without a bound on what comes in between, diagnostics may be told after a document is closed, become older, and stay
when it is opened again with a text that has none. -/
theorem outlived_and_overtaken :
    (¬ ∀ uri past p, Past (fun _ _ => true) (start {} 0 false) past p → p.session.document? uri = none →
      ∀ items, latestNews uri past = some items → items = []) ∧
    (¬ ∀ uri past p, Past (fun _ _ => true) (start {} 0 false) past p →
      (toldRevisions uri past).Pairwise fun later earlier => earlier ≤ later) ∧
    ¬ ∀ uri past p d, Past (fun _ _ => true) (start {} 0 false) past p → p.runs = [] → p.session.pendingTimer = none →
      p.session.document? uri = some d → (d.analysis {} uri).diagnostics = [] →
      ∀ items, latestNews uri past = some items → items = [] := by
  refine ⟨fun always => ?_, fun always => ?_, fun always => ?_⟩
  · have played : (play? (fun _ _ => true) ([], start {} 0 false) toldLate).any (fun (past, p) =>
        (p.session.document? "u").isNone && (latestNews "u" past).any (!·.isEmpty)) = true := by decide +kernel
    obtain ⟨⟨past, p⟩, played, facts⟩ := (Option.any_eq_true _ _).mp played
    simp only [Bool.and_eq_true, Option.isNone_iff_eq_none] at facts
    obtain ⟨items, told, shown⟩ := (Option.any_eq_true _ _).mp facts.2
    rw [always "u" past p (Past.here.play played) facts.1 items told] at shown
    cases shown
  · have played : (play? (fun _ _ => true) ([], start {} 0 false) overtaken).any (fun (past, _) =>
        toldRevisions "u" past = [1, 2]) = true := by decide +kernel
    obtain ⟨⟨past, p⟩, played, facts⟩ := (Option.any_eq_true _ _).mp played
    have pairwise := always "u" past p (Past.here.play played)
    rw [of_decide_eq_true facts] at pairwise
    simp at pairwise
  · have played : (play? (fun _ _ => true) ([], start {} 0 false) shownLate).any (fun (past, p) =>
        p.runs.isEmpty && p.session.pendingTimer.isNone && ((p.session.document? "u").any fun d =>
          (d.analysis {} "u").diagnostics.isEmpty) && (latestNews "u" past).any (!·.isEmpty)) = true := by
      decide +kernel
    obtain ⟨⟨past, p⟩, played, facts⟩ := (Option.any_eq_true _ _).mp played
    simp only [Bool.and_eq_true, List.isEmpty_iff, Option.isNone_iff_eq_none, Option.any_eq_true] at facts
    obtain ⟨⟨⟨idle, quiet⟩, d, found, clean⟩, items, told, shown⟩ := facts
    rw [always "u" past p d (Past.here.play played) idle quiet found clean items told] at shown
    cases shown

end Traffic

end SecurityRules.Server
