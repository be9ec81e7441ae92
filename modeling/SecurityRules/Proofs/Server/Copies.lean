import SecurityRules.Proofs.Server.Handlers

/-!
# The session has the texts of the editor

Whatever messages arrive and whatever timers run out, the open documents are the copies of the editor, and the revision of
each is the number of texts it has had, counted in a machine word. So it grows with the text as long as the number fits.
-/

namespace SecurityRules.Server

variable {uri : Bytes} {past : List Event} {action : Action} {m : Message}

/-! ## Editions -/

/-- An action brings one text, or none. -/
theorem Action.edition_edit {old : Option Copy} {c : Copy} (edited : action.edit uri old = some c) :
    (∃ b, old = some b ∧ c.edition = b.edition) ∨ c.edition = (old.map Copy.edition).getD 0 + 1 := by
  cases action with
  | setUp | configure | marks | outline => exact Or.inl ⟨c, edited, rfl⟩
  | opened p =>
    rw [edit] at edited
    split at edited
    · cases edited
      exact Or.inr rfl
    · exact Or.inl ⟨c, edited, rfl⟩
  | changed p =>
    rw [edit] at edited
    split at edited
    · obtain ⟨b, rfl, rfl⟩ := Option.map_eq_some_iff.mp edited
      exact Or.inr rfl
    · exact Or.inl ⟨c, edited, rfl⟩
  | saved p =>
    rw [edit] at edited
    split at edited
    · obtain ⟨b, rfl, rfl⟩ := Option.map_eq_some_iff.mp edited
      dsimp only
      cases p.text.any (· != b.text) with
      | true => exact Or.inr rfl
      | false => exact Or.inl ⟨b, rfl, rfl⟩
    · exact Or.inl ⟨c, edited, rfl⟩
  | closed name =>
    rw [edit] at edited
    split at edited
    · cases edited
    · exact Or.inl ⟨c, edited, rfl⟩

/-- The texts of an open document are counted from one, and no event brings more than one. -/
theorem edition_bounds {c : Copy} (found : copyOf uri past = some c) : 0 < c.edition ∧ c.edition ≤ past.length := by
  induction past generalizing c with
  | nil => cases found
  | cons e past ih =>
    rw [List.length_cons]
    rw [copyOf] at found
    split at found
    · rcases Action.edition_edit found with ⟨b, before, same⟩ | next
      · have bounds := ih before
        omega
      · cases before : copyOf uri past with
        | none =>
          rw [before] at next
          exact ⟨by rw [next]; exact Nat.succ_pos _, by rw [next]; exact Nat.succ_le_succ (Nat.zero_le _)⟩
        | some b =>
          have bounds := ih before
          rw [before, Option.map_some, Option.getD_some] at next
          omega
    · have bounds := ih found
      omega

theorem Unworn.of_suffix {later : List Event} (unworn : Unworn uri later) (before : past <:+ later) :
    Unworn uri past :=
  fun earlier first => unworn earlier (first.trans before)

theorem unworn_of_length (short : past.length < 2 ^ 31) : Unworn uri past :=
  fun _ before _ found => Nat.lt_of_le_of_lt (Nat.le_trans (edition_bounds found).2 before.length_le) short

/-! ## Documents and copies -/

/-- A document apart from whether it has to be looked at. -/
def OpenDocument.clean (d : OpenDocument) : OpenDocument := { d with isDirty := false }

/-- The open document that a copy is. -/
def Copy.document (c : Copy) : OpenDocument where
  text := c.text
  version := c.version
  revision := Int32.ofNat c.edition

/-- The open documents are the copies of the editor. -/
def Session.Mirrors (past : List Event) (s : Session) : Prop :=
  ∀ uri, (s.document? uri).map OpenDocument.clean = (copyOf uri past).map Copy.document

variable {s t : Session} {d : OpenDocument}

theorem mirrors_start (options : AnalysisOptions) (maxDiagnostics : Int) (trace : Bool) :
    (Session.start options maxDiagnostics trace).Mirrors [] := fun _ => rfl

/-- What the copy of an open document tells of it. -/
theorem eq_of_copy {c : Copy} (same : c.document = d.clean) :
    c.text = d.text ∧ c.version = d.version ∧ Int32.ofNat c.edition = d.revision :=
  ⟨congrArg OpenDocument.text same, congrArg OpenDocument.version same, congrArg OpenDocument.revision same⟩

theorem copyOf_message (known : m.action? = some action) (uri : Bytes) :
    copyOf uri (.message m :: past) = action.edit uri (copyOf uri past) := by
  rw [copyOf, Event.action?, known]

namespace Session

theorem Mirrors.exists_copy (mirrors : s.Mirrors past) (found : s.document? uri = some d) :
    ∃ c, copyOf uri past = some c ∧ c.document = d.clean := by
  have same := mirrors uri
  rw [found] at same
  exact Option.map_eq_some_iff.mp same.symm

theorem Mirrors.isSome_eq (mirrors : s.Mirrors past) (uri : Bytes) :
    (s.document? uri).isSome = (copyOf uri past).isSome := by
  have same := congrArg Option.isSome (mirrors uri)
  rwa [Option.isSome_map, Option.isSome_map] at same

/-- Revisions count as long as the number of texts fits into a machine word. -/
theorem Mirrors.counts (mirrors : s.Mirrors past) (unworn : Unworn uri past) : s.Counts uri := by
  intro d found
  obtain ⟨c, copied, same⟩ := mirrors.exists_copy found
  obtain ⟨-, -, revision⟩ := eq_of_copy same
  rw [← revision, Int32.lt_iff_toInt_lt, Int32.toInt_zero,
    Int32.toInt_ofNat_of_lt (unworn past (List.suffix_refl past) c copied)]
  exact Int.natCast_pos.mpr (edition_bounds copied).1

theorem Mirrors.revision_eq (mirrors : s.Mirrors past) (uri : Bytes) :
    ((s.document? uri).getD {}).revision = Int32.ofNat (((copyOf uri past).map Copy.edition).getD 0) := by
  cases found : s.document? uri with
  | none =>
    have closed := mirrors uri
    rw [found] at closed
    rw [Option.map_eq_none_iff.mp closed.symm]
    rfl
  | some d =>
    obtain ⟨c, copied, same⟩ := mirrors.exists_copy found
    rw [copied]
    exact (eq_of_copy same).2.2.symm

theorem Mirrors.of_clean (mirrors : s.Mirrors past)
    (same : ∀ uri, (t.document? uri).map OpenDocument.clean = (s.document? uri).map OpenDocument.clean) :
    t.Mirrors past :=
  fun uri => (same uri).trans (mirrors uri)

theorem Mirrors.mono (mirrors : s.Mirrors past) {e : Event}
    (same : ∀ uri, (t.document? uri).map OpenDocument.clean = (s.document? uri).map OpenDocument.clean)
    (copies : ∀ uri, copyOf uri (e :: past) = copyOf uri past) : t.Mirrors (e :: past) := by
  intro uri
  rw [copies]
  exact mirrors.of_clean same uri

theorem Mirrors.touch (mirrors : s.Mirrors past) {e : Event} {c : Copy} (same : c.document = d.clean)
    (copies : ∀ name, copyOf name (e :: past) = if uri = name then some c else copyOf name past) :
    (s.touch uri d).Mirrors (e :: past) := by
  intro name
  rw [document?_touch, copies]
  by_cases equal : name = uri
  · rw [if_pos equal, if_pos equal.symm, Option.map_some, Option.map_some, same]
    rfl
  · rw [if_neg equal, if_neg (Ne.symm equal)]
    exact mirrors name

/-! ## Messages -/

theorem documents_applySettings (s : Session) (value : Json) : (s.applySettings value).1.documents = s.documents ∨
    (s.applySettings value).1.documents = s.dirtyAll.documents := by
  have policed (s : Session) (name : Option Bytes) : (s.applyPolicy name).1.documents = s.documents := by
    unfold applyPolicy
    split
    · rfl
    · split
      · rfl
      · split <;> rfl
  unfold applySettings
  split
  · exact Or.inl rfl
  · dsimp only
    rw [applyLimit_eq]
    dsimp only
    split
    · refine Or.inr ?_
      rw [dirtyAll, dirtyAll, policed]
    · exact Or.inl (policed _ _)

theorem clean_applySettings (s : Session) (value : Json) (uri : Bytes) :
    ((s.applySettings value).1.document? uri).map OpenDocument.clean = (s.document? uri).map OpenDocument.clean := by
  rcases s.documents_applySettings value with same | dirty
  · rw [document?, same]
    rfl
  · rw [document?, dirty, dirtyAll, lookup_marked, Option.map_map]
    rfl

theorem withParams_unread {α : Type} {read : Json → Option α} {go : α → Outcome} {wrap : α → Action}
    (nothing : (m.params.bind read).map wrap = none) : s.withParams m read go = (s, [], some .badParams) := by
  rw [withParams, Option.map_eq_none_iff.mp nothing]

theorem answering_unread {α : Type} {read : Json → Option α} {go : α → Outcome} {wrap : α → Action}
    (nothing : (m.params.bind read).map wrap = none) :
    s.answering m read go = s.sending (errorResponse m.id .invalidParams) := by
  rw [answering, Option.map_eq_none_iff.mp nothing]

theorem document?_definition (s : Session) (m : Message) (uri : Bytes) :
    (s.perform m .definition).1.document? uri = s.document? uri := by
  rw [perform, answering]
  split
  · rfl
  · rw [onDefinition]
    dsimp only
    split
    · obtain ⟨store, current⟩ := s.fst_current _
      dsimp only
      rw [current]
      rfl
    · rfl

/-- A message that asks for nothing leaves all documents. -/
theorem document?_handle_of_idle (s : Session) (idle : m.action? = none) (uri : Bytes) :
    (s.handle m).1.document? uri = s.document? uri := by
  rw [handle]
  dsimp only
  cases known : method? m.method with
  | none =>
    dsimp only
    split <;> rfl
  | some method =>
    unfold Message.action? at idle
    rw [known] at idle
    dsimp only
    cases method with
    | setUp =>
      dsimp only at idle
      rw [perform, onSetUp]
      cases given : m.params with
      | none =>
        rw [given] at idle
        cases idle
      | some params =>
        rw [given] at idle
        dsimp only at idle ⊢
        rw [Option.map_eq_none_iff.mp idle]
        rfl
    | configure => cases idle
    | opened =>
      rw [perform, withParams]
      cases read : m.params.bind OpenParams.ofJson? with
      | none => rfl
      | some p =>
        have nameless : p.uri.isEmpty = true := by simpa [read, Option.filter] using idle
        dsimp only
        rw [onOpen, if_pos nameless]
        rfl
    | changed | saved | closed => rw [perform, withParams_unread idle]
    | marks | outline =>
      rw [perform, answering_unread idle]
      rfl
    | definition => exact s.document?_definition m uri
    | ready | shutDown | exit => rfl

theorem name_of_opened {p : OpenParams} (known : m.action? = some (.opened p)) : p.uri ≠ [] := by
  unfold Message.action? at known
  cases found : method? m.method with
  | none =>
    rw [found] at known
    cases known
  | some method =>
    rw [found] at known
    cases method with
    | opened =>
      obtain ⟨q, given, same⟩ := Option.map_eq_some_iff.mp known
      cases same
      simpa using (Option.filter_eq_some_iff.mp given).2
    | setUp =>
      cases given : m.params with
      | none =>
        rw [given] at known
        cases known
      | some params =>
        rw [given] at known
        obtain ⟨_, _, other⟩ := Option.map_eq_some_iff.mp known
        cases other
    | changed | saved | closed | marks | outline =>
      obtain ⟨_, _, other⟩ := Option.map_eq_some_iff.mp known
      cases other
    | configure | ready | shutDown | exit | definition => cases known

/-- What happens to a document that is not open changes nothing. -/
theorem Mirrors.absent (mirrors : s.Mirrors past) (absent : s.document? uri = none) {e : Event} {change : Copy → Copy}
    (copies : ∀ name, copyOf name (e :: past) =
      if uri = name then (copyOf name past).map change else copyOf name past) : s.Mirrors (e :: past) := by
  have closed : copyOf uri past = none := by
    have same := mirrors uri
    rw [absent] at same
    exact Option.map_eq_none_iff.mp same.symm
  refine mirrors.mono (fun _ => rfl) fun name => ?_
  rw [copies]
  split
  · rename_i same
    rw [← same, closed]
    rfl
  · rfl

/-- A document that is open changes with its copy. -/
theorem Mirrors.change (mirrors : s.Mirrors past) {c : Copy} (copied : copyOf uri past = some c) {e : Event}
    {change : Copy → Copy} (same : (change c).document = d.clean) (copies : ∀ name, copyOf name (e :: past) =
      if uri = name then (copyOf name past).map change else copyOf name past) : (s.touch uri d).Mirrors (e :: past) := by
  refine mirrors.touch same fun name => ?_
  rw [copies]
  split
  · rename_i equal
    rw [← equal, copied]
    rfl
  · rfl

theorem Mirrors.opens (mirrors : s.Mirrors past) {p : OpenParams} (named : p.uri ≠ []) {e : Event}
    (copies : ∀ name, copyOf name (e :: past) = (Action.opened p).edit name (copyOf name past)) :
    (s.onOpen p).1.Mirrors (e :: past) := by
  rw [onOpen, if_neg (by simpa using named)]
  refine mirrors.touch (c := ⟨p.text, p.version, ((copyOf p.uri past).map Copy.edition).getD 0 + 1⟩) ?_ fun name => ?_
  · rw [Copy.document, Int32.ofNat_add, ← mirrors.revision_eq]
    rfl
  · rw [copies, Action.edit]
    split
    · rename_i equal
      rw [equal]
    · rfl

theorem Mirrors.changes (mirrors : s.Mirrors past) {p : ChangeParams} {e : Event}
    (copies : ∀ name, copyOf name (e :: past) = (Action.changed p).edit name (copyOf name past)) :
    (s.onChange p).1.Mirrors (e :: past) := by
  rw [onChange]
  dsimp only
  cases there : s.document? p.uri with
  | none => exact mirrors.absent there copies
  | some d =>
    obtain ⟨c, copied, same⟩ := mirrors.exists_copy there
    obtain ⟨text, -, revision⟩ := eq_of_copy same
    refine mirrors.change copied ?_ copies
    rw [Copy.document, Int32.ofNat_add, text, revision]
    rfl

/-- The text of a saved document counts as one more only if it is another one. -/
theorem Mirrors.saves (mirrors : s.Mirrors past) {p : SaveParams} {e : Event}
    (copies : ∀ name, copyOf name (e :: past) = (Action.saved p).edit name (copyOf name past)) :
    (s.onSave p).1.Mirrors (e :: past) := by
  rw [onSave]
  cases there : s.document? p.uri with
  | none => exact mirrors.absent there copies
  | some d =>
    obtain ⟨c, copied, same⟩ := mirrors.exists_copy there
    obtain ⟨text, version, revision⟩ := eq_of_copy same
    dsimp only
    cases other : p.text.filter (· != d.text) with
    | some new =>
      obtain ⟨given, differs⟩ := Option.filter_eq_some_iff.mp other
      refine mirrors.change copied ?_ copies
      rw [Copy.document, given, Option.any_some, text, differs, Int32.ofNat_add, version, revision]
      rfl
    | none =>
      have kept : p.text.getD d.text = d.text ∧ p.text.any (· != d.text) = false := by
        cases given : p.text with
        | none => exact ⟨rfl, rfl⟩
        | some new =>
          rw [given] at other
          have equal : new = d.text := by simpa using Option.filter_eq_none_iff.mp other new rfl
          simp [equal]
      refine mirrors.change copied ?_ copies
      rw [Copy.document, text, kept.1, kept.2, version, Bool.toNat_false, Nat.add_zero, revision]
      rfl

theorem Mirrors.closes (mirrors : s.Mirrors past) {uri : Bytes} {e : Event}
    (copies : ∀ name, copyOf name (e :: past) = (Action.closed uri).edit name (copyOf name past)) :
    (s.onClose uri).1.Mirrors (e :: past) := by
  intro name
  rw [document?_onClose, copies, Action.edit]
  by_cases equal : name = uri
  · rw [if_pos equal, if_pos equal.symm]
    rfl
  · rw [if_neg equal, if_neg (Ne.symm equal)]
    exact mirrors name

theorem Mirrors.act (mirrors : s.Mirrors past) (known : m.action? = some action) :
    (s.act m action).1.Mirrors (.message m :: past) := by
  have copies : ∀ uri, copyOf uri (.message m :: past) = action.edit uri (copyOf uri past) := copyOf_message known
  cases action with
  | setUp options =>
    cases options with
    | none => exact mirrors.mono (fun _ => rfl) copies
    | some value => exact mirrors.mono (s.clean_applySettings value) copies
  | configure settings =>
    cases settings with
    | none => exact mirrors.mono (fun _ => rfl) copies
    | some value =>
      refine mirrors.mono (fun uri => Eq.trans ?_ (s.clean_applySettings value uri)) copies
      rw [Session.act]
      dsimp only
      split <;> rfl
  | opened p => exact mirrors.opens (name_of_opened known) copies
  | changed p => exact mirrors.changes copies
  | saved p => exact mirrors.saves copies
  | closed uri => exact mirrors.closes copies
  | marks uri =>
    obtain ⟨store, current⟩ := s.fst_current uri
    refine mirrors.mono (fun name => ?_) copies
    rw [Session.act, onMarks]
    dsimp only [sending]
    rw [current]
    rfl
  | outline uri =>
    obtain ⟨store, current⟩ := s.fst_current uri
    refine mirrors.mono (fun name => ?_) copies
    rw [Session.act, onOutline]
    dsimp only [sending]
    rw [current]
    rfl

theorem Mirrors.handle (mirrors : s.Mirrors past) (m : Message) : (s.handle m).1.Mirrors (.message m :: past) := by
  cases known : m.action? with
  | none =>
    refine mirrors.mono (fun uri => by rw [s.document?_handle_of_idle known]) fun uri => ?_
    rw [copyOf, Event.action?, known]
  | some action =>
    obtain ⟨news, handled, -⟩ := s.handle_eq known
    rw [handled]
    exact mirrors.act known

theorem mirrors_foldl (mirrors : s.Mirrors past) (messages : List Message) :
    (messages.foldl (fun s m => (s.handle m).1) s).Mirrors ((messages.map .message).reverse ++ past) := by
  induction messages generalizing s past with
  | nil => exact mirrors
  | cons m rest ih =>
    rw [List.map_cons, List.reverse_cons, List.append_assoc]
    exact ih (mirrors.handle m)

/-! ## Timers -/

theorem clean_collect (s : Session) (uri : Bytes) :
    (s.collect.2.document? uri).map OpenDocument.clean = (s.document? uri).map OpenDocument.clean := by
  rw [document?_collect, Option.map_map]
  rfl

theorem clean_flush (s : Session) (uri : Bytes) :
    (s.flush.1.document? uri).map OpenDocument.clean = (s.document? uri).map OpenDocument.clean := by
  have documents : s.flush.1.document? uri = s.collect.2.document? uri := by
    rw [document?, flush, documents_publishAll]
    rfl
  rw [documents]
  exact s.clean_collect uri

theorem clean_timeOut (s : Session) (number : UInt64) (uri : Bytes) :
    ((s.timeOut number).1.document? uri).map OpenDocument.clean = (s.document? uri).map OpenDocument.clean := by
  rw [timeOut]
  split
  · exact s.clean_flush uri
  · rfl

end Session

/-! ## A count that starts again -/

/-- What an editor sends when it opens a document. -/
def opening (uri text : Bytes) : Message where
  id := none
  method := "textDocument/didOpen"
  params := some (.object [("textDocument", .object [("uri", .string uri), ("languageId", .string "rules"),
    ("version", .number "1"), ("text", .string text)])])

/-- What an editor sends when it changes all of a document. -/
def changing (uri text : Bytes) : Message where
  id := none
  method := "textDocument/didChange"
  params := some (.object [("textDocument", .object [("uri", .string uri), ("version", .number "2")]),
    ("contentChanges", .array [.object [("text", .string text)]])])

/-- What an editor sends when it asks for the outline of a document. -/
def asking (uri : Bytes) : Message where
  id := some (.number "1")
  method := "textDocument/documentSymbol"
  params := some (.object [("textDocument", .object [("uri", .string uri)])])

/-- What an editor sends when it closes a document. -/
def closing (uri : Bytes) : Message where
  id := none
  method := "textDocument/didClose"
  params := some (.object [("textDocument", .object [("uri", .string uri)])])

theorem action?_opening (text : Bytes) : (opening "u" text).action? = some (.opened ⟨"u", 1, text⟩) := by
  with_unfolding_all rfl

theorem action?_changing (text : Bytes) :
    (changing "u" text).action? = some (.changed ⟨"u", 2, [⟨none, text⟩]⟩) := by
  with_unfolding_all rfl

theorem action?_asking : (asking "u").action? = some (.outline "u") := by
  with_unfolding_all rfl

namespace Session

/-- The document `u` alone is open. It has changed, and a timer is pending. -/
structure Holds (s : Session) (text : Bytes) (revision : Int32) : Prop where
  documents : ∃ version, s.documents = [(Bytes.ofString "u", ⟨text, version, revision, true⟩)]
  pending : s.pendingTimer = some s.latestTimer
  running : s.stopped = none
  live : s.isCanceled = false

variable {text new : Bytes} {revision : Int32}

theorem Holds.found (holds : s.Holds text revision) : ∃ version,
    s.document? "u" = some ⟨text, version, revision, true⟩ := by
  obtain ⟨version, documents⟩ := holds.documents
  refine ⟨version, ?_⟩
  rw [document?, documents]
  rfl

theorem holds_opening (text : Bytes) :
    ((start {} 0 false).handle (opening "u" text)).1.Holds text 1 ∧
      ((start {} 0 false).handle (opening "u" text)).1.store = { options := {} } := by
  obtain ⟨news, handled, -⟩ := (start {} 0 false).handle_eq (action?_opening text)
  rw [handled]
  exact ⟨⟨⟨1, rfl⟩, rfl, rfl, rfl⟩, rfl⟩

theorem Holds.change (holds : s.Holds text revision) (new : Bytes) :
    (s.handle (changing "u" new)).1.Holds new (revision + 1) ∧ (s.handle (changing "u" new)).1.store = s.store := by
  obtain ⟨news, handled, -⟩ := s.handle_eq (action?_changing new)
  obtain ⟨version, found⟩ := holds.found
  obtain ⟨_, documents⟩ := holds.documents
  rw [handled, Session.act, onChange]
  dsimp only
  rw [found]
  refine ⟨⟨⟨2, ?_⟩, rfl, holds.running, holds.live⟩, rfl⟩
  show insertDocument "u" _ s.documents = _
  rw [documents]
  rfl

theorem Holds.replicate (holds : s.Holds text revision) (n : Nat) :
    let t := (List.replicate n (changing "u" text)).foldl (fun s m => (s.handle m).1) s
    t.Holds text (revision + Int32.ofNat n) ∧ t.store = s.store := by
  induction n generalizing s revision with
  | zero => exact ⟨(Int32.add_zero revision).symm ▸ holds, rfl⟩
  | succ n ih =>
    obtain ⟨next, store⟩ := holds.change text
    obtain ⟨last, store'⟩ := ih next
    have sum : revision + 1 + Int32.ofNat n = revision + Int32.ofNat (n + 1) := by
      rw [Int32.ofNat_add, Int32.add_assoc, Int32.add_comm 1]
      rfl
    rw [sum] at last
    exact ⟨last, store'.trans store⟩

/-- Asking for the outline of a document that has not been analysed keeps the analysis of its text. -/
theorem Holds.ask (holds : s.Holds text revision) (empty : s.store.get? "u" = none) :
    (s.handle (asking "u")).1.Holds text revision ∧
      (s.handle (asking "u")).1.store = keep s.store "u" { text, revision } := by
  obtain ⟨news, handled, -⟩ := s.handle_eq action?_asking
  obtain ⟨version, found⟩ := holds.found
  have current : s.current "u" = ({ s with store := keep s.store "u" { text, revision } },
      some (OpenDocument.analysis s.store.options "u" { text, revision })) := by
    rw [Session.current, found]
    dsimp only
    rw [empty, Option.filter_none]
    dsimp only
    rw [analyze_of_notNewer fun kept stored => by rw [empty] at stored; cases stored]
    rfl
  rw [handled, Session.act, onOutline, current]
  exact ⟨⟨holds.documents, holds.pending, holds.running, holds.live⟩, rfl⟩

/-- A text in which something is declared. -/
def earlierText : Bytes := "service a \x7b function f() \x7b return 1; \x7d \x7d"

/-- A text in which nothing is declared, and a bracket is missing. -/
def laterText : Bytes := "service b \x7b"

/-- A document is opened and changed a number of times. It is analysed, and gets another text. -/
def wornMessages (n : Nat) : List Message :=
  opening "u" earlierText ::
    (List.replicate n (changing "u" earlierText) ++ [asking "u", changing "u" laterText])

/-- The document behind these messages, up to the last one. -/
def wornDocument (n : Nat) : OpenDocument where
  text := earlierText
  revision := 1 + Int32.ofNat n

theorem holds_wornMessages (n : Nat) :
    let s := (wornMessages n).foldl (fun s m => (s.handle m).1) (start {} 0 false)
    s.Holds laterText (1 + Int32.ofNat n + 1) ∧ s.store = keep { options := {} } "u" (wornDocument n) := by
  obtain ⟨opened, store⟩ := holds_opening earlierText
  obtain ⟨changed, store'⟩ := opened.replicate n
  have empty := store'.trans store
  obtain ⟨asked, kept⟩ := changed.ask (by rw [empty]; rfl)
  obtain ⟨last, kept'⟩ := asked.change laterText
  rw [empty] at kept
  rw [wornMessages, List.foldl_cons, List.foldl_append]
  exact ⟨last, kept'.trans kept⟩

end Session

end SecurityRules.Server
