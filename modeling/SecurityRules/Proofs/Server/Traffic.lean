import SecurityRules.Proofs.Server.Copies

/-!
# Telling of documents while messages are handled

Messages are handled one at a time, but a run that a timer has started goes on beside them, and several runs may be under
way. A run collects the documents that have changed. Then it takes them one after the other: it analyses the document,
looks whether it is still open, and tells the editor what was found. Anything may happen between these steps. Only messages
about documents are looked at here, so the settings are the same throughout.
-/

namespace SecurityRules.Server

/-- How far a run has come. -/
inductive Run where
  | started
  /-- The first of these documents is to be analysed next. -/
  | ready (limit : Int) (pending : List (Bytes × OpenDocument))
  /-- A document is analysed, and not known to be still open. -/
  | analyzed (limit : Int) (uri : Bytes) (d : OpenDocument) (document : Document)
    (pending : List (Bytes × OpenDocument))
  /-- The document was still open, and the editor is to be told of it next. -/
  | marked (limit : Int) (uri : Bytes) (d : OpenDocument) (document : Document)
    (pending : List (Bytes × OpenDocument))

/-- What can be seen of a step. -/
inductive Label where
  | handled (m : Message) (sent : List Json)
  | fired
  | collected
  | analyzed (uri : Bytes)
  | looked (uri : Bytes)
  | told (uri : Bytes) (revision : Int) (news : Json)
  | ended

namespace Run

/-- The documents that a run has collected and not yet analysed. -/
def pending : Run → List (Bytes × OpenDocument)
  | started => []
  | ready _ pending | analyzed _ _ _ _ pending | marked _ _ _ _ pending => pending

/-- Whether a run is still to analyse a document. -/
def awaits (uri : Bytes) (r : Run) : Bool := r.pending.any fun (name, _) => name == uri

/-- The document that a run has analysed and not yet told of, as it was collected. -/
def inHand? : Run → Option (Bytes × OpenDocument)
  | analyzed _ uri d _ _ | marked _ uri d _ _ => some (uri, d)
  | _ => none

/-- Whether a run has analysed a document and not yet told of it. -/
def tells (uri : Bytes) (r : Run) : Bool := r.inHand?.any fun (name, _) => name == uri

/-- Whether a run has found a document open and tells of it next. -/
def sends (uri : Bytes) : Run → Bool
  | marked _ name _ _ _ => name == uri
  | _ => false

/-- The next step of a run, with what becomes of it. -/
def advance (s : Session) : Run → Session × Label × Option Run
  | started => (s.collect.2, .collected, some (ready s.maxDiagnostics s.collect.1))
  | ready _ [] => (s, .ended, none)
  | ready limit ((uri, d) :: pending) =>
    let (s, document, isCurrent) := s.analyze uri d
    (s, .analyzed uri, some (if isCurrent then analyzed limit uri d document pending else ready limit pending))
  | analyzed limit uri d document pending =>
    match s.markPublished uri with
    | some s => (s, .looked uri, some (marked limit uri d document pending))
    | none => (s, .looked uri, some (ready limit pending))
  | marked limit uri d document pending =>
    (s, .told uri d.revision.toInt
      (publication uri d.version ((listedDiagnostics document limit).1.map (diagnosticValue document.file))),
      some (ready limit pending))

end Run

/-- A session and the runs that are under way. -/
structure Traffic where
  session : Session
  runs : List Run

namespace Traffic

/-- No run is under way. -/
def start (options : AnalysisOptions) (maxDiagnostics : Int) (trace : Bool) : Traffic where
  session := .start options maxDiagnostics trace
  runs := []

/-- What happens next. -/
inductive Step : Traffic → Label → Traffic → Prop
  /-- A message about a document is handled, and the session goes on. -/
  | handle {s : Session} {runs : List Run} {m : Message} {method : Session.Method}
    (known : Session.method? m.method = some method) (about : method.isAboutDocument = true)
    (goesOn : (s.handle m).2.2 = none) :
    Step ⟨s, runs⟩ (.handled m (sentAmong (s.handle m).2.1)) ⟨(s.handle m).1, runs⟩
  /-- The pending timer runs out. -/
  | fire {s : Session} {runs : List Run} {number : UInt64} (pending : s.pendingTimer = some number) :
    Step ⟨s, runs⟩ .fired ⟨{ s with pendingTimer := none },
      if number = s.latestTimer && !s.isCanceled then .started :: runs else runs⟩
  /-- A run goes on. -/
  | goOn {s : Session} {earlier later : List Run} {r : Run} :
    Step ⟨s, earlier ++ r :: later⟩ (r.advance s).2.1
      ⟨(r.advance s).1, earlier ++ ((r.advance s).2.2.toList ++ later)⟩

/-- What has happened since a state, the latest first, where every step is one that is allowed. -/
inductive Past (allowed : Traffic → Label → Bool) (first : Traffic) : List Label → Traffic → Prop
  | here : Past allowed first [] first
  | step {past : List Label} {p q : Traffic} {l : Label} (before : Past allowed first past p) (now : Step p l q)
    (fits : allowed p l = true) : Past allowed first (l :: past) q

end Traffic

/-! ## What can be seen of the past -/

namespace Label

/-- The messages of a step, in order. -/
def messages : Label → List Json
  | handled _ sent => sent
  | told _ _ news => [news]
  | _ => []

/-- Whether a document is closed. -/
def closes (uri : Bytes) : Label → Bool
  | handled m _ => m.closes? == some uri
  | _ => false

/-- Whether a run analyses a document. -/
def analyzes (uri : Bytes) : Label → Bool
  | analyzed name => name == uri
  | _ => false

end Label

/-- The diagnostics that were told of a document last. -/
def latestNews (uri : Bytes) (past : List Label) : Option (List Json) :=
  (past.flatMap fun l => l.messages.reverse).findSome? (newsOf? uri)

/-- The revisions of a document that were told of since it was closed last, the latest first. -/
def toldRevisions (uri : Bytes) : List Label → List Int
  | [] => []
  | .told name revision _ :: past =>
    if name = uri then revision :: toldRevisions uri past else toldRevisions uri past
  | l :: past => if l.closes uri then [] else toldRevisions uri past

/-! ## What a step of a run comes to -/

namespace Run

/-- What one step of a run comes to: the session and the run that it leaves, and what can be seen of it. -/
inductive Advances (s : Session) : Run → Session → Label → Option Run → Prop
  | collects : Advances s started s.collect.2 .collected (some (ready s.maxDiagnostics s.collect.1))
  | ends (limit : Int) : Advances s (ready limit []) s .ended none
  | analyzes {limit : Int} {uri : Bytes} {d : OpenDocument} {pending : List (Bytes × OpenDocument)}
    (current : (s.analyze uri d).2.2 = true) :
    Advances s (ready limit ((uri, d) :: pending)) (s.analyze uri d).1 (.analyzed uri)
      (some (analyzed limit uri d (s.analyze uri d).2.1 pending))
  | discards {limit : Int} {uri : Bytes} {d : OpenDocument} {pending : List (Bytes × OpenDocument)}
    (stale : (s.analyze uri d).2.2 = false) :
    Advances s (ready limit ((uri, d) :: pending)) (s.analyze uri d).1 (.analyzed uri) (some (ready limit pending))
  | marks {limit : Int} {uri : Bytes} {d : OpenDocument} {document : Document} {pending : List (Bytes × OpenDocument)}
    (isOpen : (s.document? uri).isSome = true) :
    Advances s (analyzed limit uri d document pending) { s with published := Session.insertName uri s.published }
      (.looked uri) (some (marked limit uri d document pending))
  | skips {limit : Int} {uri : Bytes} {d : OpenDocument} {document : Document}
    {pending : List (Bytes × OpenDocument)} :
    Advances s (analyzed limit uri d document pending) s (.looked uri) (some (ready limit pending))
  | tells {limit : Int} {uri : Bytes} {d : OpenDocument} {document : Document} {pending : List (Bytes × OpenDocument)} :
    Advances s (marked limit uri d document pending) s
      (.told uri d.revision.toInt
        (publication uri d.version ((listedDiagnostics document limit).1.map (diagnosticValue document.file))))
      (some (ready limit pending))

theorem advances (s : Session) (r : Run) : r.Advances s (r.advance s).1 (r.advance s).2.1 (r.advance s).2.2 := by
  cases r with
  | started => exact .collects
  | ready limit pending =>
    cases pending with
    | nil => exact .ends limit
    | cons entry pending =>
      obtain ⟨uri, d⟩ := entry
      rw [advance]
      dsimp only
      cases current : (s.analyze uri d).2.2 with
      | true => exact .analyzes current
      | false => exact .discards current
  | analyzed limit uri d document pending =>
    rw [advance]
    cases marked : s.markPublished uri with
    | none => exact .skips
    | some t =>
      obtain ⟨isOpen, rfl⟩ := Session.markPublished_eq_some_iff.mp marked
      exact .marks isOpen
  | marked limit uri d document pending => exact .tells

end Run

/-- What holds of the runs before one of them goes on holds of them afterwards, if it holds of what that one becomes. -/
theorem forall_mem_goOn {earlier later : List Run} {r : Run} {next : Option Run} {P Q : Run → Prop}
    (before : ∀ x ∈ earlier ++ r :: later, P x) (others : ∀ x, P x → Q x) (now : ∀ x, next = some x → P r → Q x) :
    ∀ x ∈ earlier ++ (next.toList ++ later), Q x := by
  intro x member
  rcases List.mem_append.mp member with member | member
  · exact others x (before x (List.mem_append_left _ member))
  rcases List.mem_append.mp member with member | member
  · exact now x (Option.mem_toList.mp member) (before r (by simp))
  · exact others x (before x (List.mem_append_right _ (List.mem_cons_of_mem _ member)))

/-- What holds of a run afterwards held of some run before, if it held of the one that went on. -/
theorem exists_mem_goOn {earlier later : List Run} {r : Run} {next : Option Run} {P : Run → Prop}
    (now : ∀ x, next = some x → P x → P r) :
    ∀ x ∈ earlier ++ (next.toList ++ later), P x → ∃ y ∈ earlier ++ r :: later, P y :=
  forall_mem_goOn (r := r) (P := fun x => P x → ∃ y ∈ earlier ++ r :: later, P y)
    (fun x member holds => ⟨x, member, holds⟩) (fun _ h => h) fun x goesOn _ holds => ⟨r, by simp, now x goesOn holds⟩

theorem forall_mem_fire {runs : List Run} {c : Prop} [Decidable c] {P : Run → Prop} (before : ∀ x ∈ runs, P x)
    (now : P .started) : ∀ x ∈ if c then .started :: runs else runs, P x := by
  split
  · exact List.forall_mem_cons.mpr ⟨now, before⟩
  · exact before

/-! ## A run that nobody interrupts -/

namespace Traffic

variable {allowed : Traffic → Label → Bool} {first p q : Traffic} {past later : List Label} {s : Session} {runs : List Run}

theorem Past.trans (before : Past allowed first past p) (behind : Past allowed p later q) :
    Past allowed first (later ++ past) q := by
  induction behind with
  | here => exact before
  | step _ now fits ih => exact .step ih now fits

/-- The first run goes on. -/
theorem past_advance (s : Session) (r : Run) (runs : List Run) :
    Past (fun _ _ => true) ⟨s, r :: runs⟩ [(r.advance s).2.1] ⟨(r.advance s).1, (r.advance s).2.2.toList ++ runs⟩ :=
  .step .here (@Step.goOn s [] runs r) rfl

theorem past_publishOne (s : Session) (uri : Bytes) (d : OpenDocument) (pending : List (Bytes × OpenDocument))
    (runs : List Run) : ∃ past,
      Past (fun _ _ => true) ⟨s, .ready s.maxDiagnostics ((uri, d) :: pending) :: runs⟩ past
        ⟨(s.publishOne uri d).1, .ready (s.publishOne uri d).1.maxDiagnostics pending :: runs⟩ ∧
      past.reverse.flatMap Label.messages = sentAmong (s.publishOne uri d).2 := by
  have analyzed := past_advance s (.ready s.maxDiagnostics ((uri, d) :: pending)) runs
  rw [Run.advance] at analyzed
  cases current : (s.analyze uri d).2.2 with
  | false =>
    obtain ⟨effects, published, silent⟩ := Session.publishOne_of_stale current
    rw [published, silent]
    simp only [current, Bool.false_eq_true, if_false] at analyzed
    exact ⟨_, analyzed, rfl⟩
  | true =>
    simp only [current, if_true] at analyzed
    have looked := analyzed.trans
      (past_advance (s.analyze uri d).1 (.analyzed s.maxDiagnostics uri d (s.analyze uri d).2.1 pending) runs)
    rw [Run.advance] at looked
    cases marked : (s.analyze uri d).1.markPublished uri with
    | none =>
      obtain ⟨effects, published, silent⟩ := Session.publishOne_of_closed current marked
      rw [published, silent]
      simp only [marked] at looked
      exact ⟨_, looked, rfl⟩
    | some t =>
      obtain ⟨effects, published, sent⟩ := Session.publishOne_of_open current marked
      rw [published, sent]
      simp only [marked] at looked
      have told := looked.trans
        (past_advance t (.marked s.maxDiagnostics uri d (s.analyze uri d).2.1 pending) runs)
      obtain ⟨-, rfl⟩ := Session.markPublished_eq_some_iff.mp marked
      exact ⟨_, told, rfl⟩

theorem past_publishAll (s : Session) (pending : List (Bytes × OpenDocument)) (runs : List Run) : ∃ past,
    Past (fun _ _ => true) ⟨s, .ready s.maxDiagnostics pending :: runs⟩ past ⟨(s.publishAll pending).1, runs⟩ ∧
      past.reverse.flatMap Label.messages = sentAmong (s.publishAll pending).2 := by
  induction pending generalizing s with
  | nil => exact ⟨_, past_advance s (.ready s.maxDiagnostics []) runs, rfl⟩
  | cons entry rest ih =>
    obtain ⟨uri, d⟩ := entry
    obtain ⟨past, one, sent⟩ := past_publishOne s uri d rest runs
    obtain ⟨later, all, sent'⟩ := ih (s.publishOne uri d).1
    refine ⟨later ++ past, one.trans all, ?_⟩
    rw [List.reverse_append, List.flatMap_append, sent, sent', Session.publishAll, sentAmong_append]

/-- A run that nobody interrupts sends and leaves what looking at all changed documents in one go does. -/
theorem past_flush (s : Session) (runs : List Run) : ∃ past,
    Past (fun _ _ => true) ⟨s, .started :: runs⟩ past ⟨s.flush.1, runs⟩ ∧
      past.reverse.flatMap Label.messages = sentAmong s.flush.2 := by
  obtain ⟨past, all, sent⟩ := past_publishAll s.collect.2 s.collect.1 runs
  refine ⟨past ++ [.collected], (past_advance s .started runs).trans all, ?_⟩
  rw [List.reverse_append, List.flatMap_append, sent]
  rfl

/-- A timer that runs out while nothing else happens does what settling does. -/
theorem past_settle (s : Session) (runs : List Run) : ∃ past,
    Past (fun _ _ => true) ⟨s, runs⟩ past ⟨s.settle.1, runs⟩ ∧
      past.reverse.flatMap Label.messages = sentAmong s.settle.2 := by
  rw [Session.settle]
  split
  · rename_i number _ pending
    have fired : Past (fun _ _ => true) ⟨s, runs⟩ [.fired] _ := .step .here (.fire pending) rfl
    rw [Session.timeOut]
    dsimp only
    split at fired
    · rename_i latest
      obtain ⟨past, flushed, sent⟩ := past_flush { s with pendingTimer := none } runs
      rw [if_pos latest]
      refine ⟨past ++ [.fired], fired.trans flushed, ?_⟩
      rw [List.reverse_append, List.flatMap_append, sent]
      rfl
    · rename_i late
      rw [if_neg late]
      exact ⟨_, fired, rfl⟩
  · exact ⟨[], .here, rfl⟩

/-! ## Playing -/

/-- A choice of what happens next. -/
inductive Move where
  | handle (m : Message)
  | fire
  | goOn (place : Nat)

/-- What a move comes to; none if it cannot be made. -/
def move? (p : Traffic) : Move → Option (Label × Traffic)
  | .handle m =>
    if (Session.method? m.method).any (·.isAboutDocument) && (p.session.handle m).2.2.isNone then
      some (.handled m (sentAmong (p.session.handle m).2.1), ⟨(p.session.handle m).1, p.runs⟩)
    else none
  | .fire => p.session.pendingTimer.map fun number =>
    (.fired, ⟨{ p.session with pendingTimer := none },
      if number = p.session.latestTimer && !p.session.isCanceled then .started :: p.runs else p.runs⟩)
  | .goOn place =>
    match p.runs.drop place with
    | r :: later => some ((r.advance p.session).2.1,
      ⟨(r.advance p.session).1, p.runs.take place ++ ((r.advance p.session).2.2.toList ++ later)⟩)
    | [] => none

/-- What a series of moves comes to, if all of them can be made and are allowed. -/
def play? (allowed : Traffic → Label → Bool) : List Label × Traffic → List Move → Option (List Label × Traffic)
  | now, [] => some now
  | (past, p), move :: rest =>
    match p.move? move with
    | some (l, q) => if allowed p l then play? allowed (l :: past, q) rest else none
    | none => none

/-- The moves are the steps. -/
theorem step_iff_move? {l : Label} : Step p l q ↔ ∃ move, p.move? move = some (l, q) := by
  constructor
  · intro step
    cases step with
    | @handle s runs m method known about goesOn => exact ⟨.handle m, by simp [move?, known, about, goesOn]⟩
    | @fire s runs number pending => exact ⟨.fire, by simp [move?, pending]⟩
    | @goOn s earlier later r => exact ⟨.goOn earlier.length, by simp [move?]⟩
  · rintro ⟨move, made⟩
    obtain ⟨s, runs⟩ := p
    cases move with
    | handle m =>
      rw [move?] at made
      split at made
      · rename_i fits
        obtain ⟨about, goesOn⟩ := (Bool.and_eq_true _ _).mp fits
        obtain ⟨method, known, about⟩ := (Option.any_eq_true _ _).mp about
        cases made
        exact .handle known about (Option.isNone_iff_eq_none.mp goesOn)
      · cases made
    | fire =>
      obtain ⟨number, pending, same⟩ := Option.map_eq_some_iff.mp made
      cases same
      exact .fire pending
    | goOn place =>
      rw [move?] at made
      split at made
      · rename_i r later rest
        cases made
        have step := @Step.goOn s (runs.take place) later r
        rw [← rest, List.take_append_drop] at step
        exact step
      · cases made

theorem Past.play {moves : List Move} (before : Past allowed first past p)
    (played : play? allowed (past, p) moves = some (later, q)) : Past allowed first later q := by
  induction moves generalizing past p with
  | nil =>
    cases played
    exact before
  | cons move rest ih =>
    rw [play?] at played
    split at played
    · rename_i l r made
      split at played
      · rename_i fits
        exact ih (.step before (step_iff_move?.mpr ⟨move, made⟩) fits) played
      · cases played
    · cases played

end Traffic

end SecurityRules.Server
