import SecurityRules.Proofs.Server.Steps

/-!
# What handling a message comes to

What a message asks for is done, whatever its method is called. A message about a document may ask for the analysis of a
document, put a changed document in the place of an earlier one, or close a document. It does nothing else to the session,
and only closing a document sends diagnostics.
-/

namespace SecurityRules.Server

/-! ## What the editor gets -/

/-- A member of an object. -/
def memberOf? (name : String) : Json → Option Json
  | .object members => members.lookup (Bytes.ofString name)
  | _ => none

/-- The diagnostics that a message tells of a document; none if it is no such message. -/
def newsOf? (uri : Bytes) (message : Json) : Option (List Json) :=
  match memberOf? "method" message, memberOf? "params" message with
  | some (.string method), some params =>
    if method = Bytes.ofString "textDocument/publishDiagnostics" then
      match memberOf? "uri" params, memberOf? "diagnostics" params with
      | some (.string name), some (.array items) => if name = uri then some items else none
      | _, _ => none
    else none
  | _, _ => none

theorem newsOf?_publication (uri name : Bytes) (version : Int) (items : List Json) :
    newsOf? uri (publication name version items) = if name = uri then some items else none := by
  rw [publication]
  split <;> rfl

/-- Messages that tell nothing of any document. -/
def Silent (sent : List Json) : Prop := ∀ message ∈ sent, ∀ uri, newsOf? uri message = none

theorem silent_nil : Silent [] := by
  intro message member
  cases member

theorem silent_response (id : Option Json) (result : Json) : Silent [response id result] := by
  intro message member uri
  rw [List.mem_singleton.mp member]
  rfl

theorem silent_errorResponse (id : Option Json) (e : RequestError) : Silent [errorResponse id e] := by
  intro message member uri
  rw [List.mem_singleton.mp member]
  rfl

/-- The document that a message closes. -/
def Message.closes? (m : Message) : Option Bytes :=
  if Session.method? m.method = some .closed then m.params.bind closedUri? else none

/-- Whether a method is about one document. -/
def Session.Method.isAboutDocument : Session.Method → Bool
  | .opened | .changed | .saved | .closed | .marks | .definition | .outline => true
  | .setUp | .ready | .shutDown | .exit | .configure => false

namespace Session

/-! ## What messages ask for -/

/-- What the session does about an action. -/
def act (s : Session) (m : Message) : Action → Outcome
  | .setUp none => s.sending (response m.id capabilities)
  | .setUp (some options) =>
    let (s, _, effects) := s.applySettings options
    (s, effects ++ [.send (response m.id capabilities)], none)
  | .configure none => s.quietly
  | .configure (some settings) =>
    let (s, again, effects) := s.applySettings settings
    (if again then s.schedule else s, effects, none)
  | .opened p => s.onOpen p
  | .changed p => s.onChange p
  | .saved p => s.onSave p
  | .closed uri => s.onClose uri
  | .marks uri => s.onMarks m uri
  | .outline uri => s.onOutline m uri

theorem withParams_map {α : Type} {s : Session} {m : Message} {read : Json → Option α} {go : α → Outcome}
    {wrap : α → Action} {action : Action} (acts : ∀ params, s.act m (wrap params) = go params)
    (known : (m.params.bind read).map wrap = some action) : s.withParams m read go = s.act m action := by
  obtain ⟨params, given, rfl⟩ := Option.map_eq_some_iff.mp known
  rw [withParams, given, acts]

theorem answering_map {α : Type} {s : Session} {m : Message} {read : Json → Option α} {go : α → Outcome}
    {wrap : α → Action} {action : Action} (acts : ∀ params, s.act m (wrap params) = go params)
    (known : (m.params.bind read).map wrap = some action) : s.answering m read go = s.act m action := by
  obtain ⟨params, given, rfl⟩ := Option.map_eq_some_iff.mp known
  rw [answering, given, acts]

theorem onSetUp_eq (s : Session) {m : Message} {options : Option Json}
    (given : (m.params.map initialOptions?).getD (some none) = some options) :
    s.onSetUp m = s.act m (.setUp options) := by
  unfold onSetUp
  cases params : m.params with
  | none =>
    rw [params] at given
    obtain rfl := Option.some.inj given
    rfl
  | some params =>
    simp only [params, Option.map_some, Option.getD_some] at given
    dsimp only
    rw [given]
    cases options <;> rfl

theorem onConfigure_eq (s : Session) (m : Message) :
    s.onConfigure m = s.act m (.configure (m.params.bind changedSettings?).join) := by
  unfold onConfigure
  rcases m.params.bind changedSettings? with _ | _ | settings <;> rfl

/-- A message that asks for something is performed. -/
theorem perform_eq (s : Session) {m : Message} {action : Action} (known : m.action? = some action) :
    ∃ method, method? m.method = some method ∧ s.perform m method = s.act m action := by
  unfold Message.action? at known
  cases found : method? m.method with
  | none => simp [found] at known
  | some method =>
    refine ⟨method, rfl, ?_⟩
    rw [found] at known
    cases method with
    | setUp =>
      cases given : m.params with
      | none =>
        rw [given] at known
        obtain rfl := Option.some.inj known
        apply onSetUp_eq
        rw [given]
        rfl
      | some params =>
        rw [given] at known
        obtain ⟨options, read, rfl⟩ := Option.map_eq_some_iff.mp known
        apply onSetUp_eq
        rw [given]
        exact read
    | configure =>
      obtain rfl := Option.some.inj known
      exact onConfigure_eq s m
    | opened =>
      obtain ⟨p, given, rfl⟩ := Option.map_eq_some_iff.mp known
      have read := (Option.filter_eq_some_iff.mp given).1
      exact withParams_map (fun _ => rfl) (congrArg _ read)
    | changed => exact withParams_map (fun _ => rfl) known
    | saved => exact withParams_map (fun _ => rfl) known
    | closed => exact withParams_map (fun _ => rfl) known
    | marks => exact answering_map (fun _ => rfl) known
    | outline => exact answering_map (fun _ => rfl) known
    | ready | shutDown | exit | definition => cases known

theorem handle_eq (s : Session) {m : Message} {action : Action} (known : m.action? = some action) :
    ∃ news, s.handle m = ((s.act m action).1, news ++ (s.act m action).2.1, (s.act m action).2.2) ∧
      sentAmong news = [] := by
  obtain ⟨method, found, performed⟩ := s.perform_eq known
  refine ⟨s.traced ("<- " ++ m.method), ?_, sentAmong_traced s _⟩
  unfold handle
  rw [found]
  dsimp only
  rw [performed]

/-! ## Messages about documents -/

/-- Asking for an analysis changes nothing but the store. -/
theorem fst_current (s : Session) (uri : Bytes) : ∃ store, (s.current uri).1 = { s with store } := by
  rw [current]
  split
  · exact ⟨s.store, rfl⟩
  · split
    · exact ⟨s.store, rfl⟩
    · exact ⟨_, rfl⟩

theorem document?_touch (s : Session) (name : Bytes) (d : OpenDocument) (uri : Bytes) :
    (s.touch name d).document? uri = if uri = name then some { d with isDirty := true } else s.document? uri := by
  rw [document?, touch]
  dsimp only [schedule]
  rw [insertDocument_eq, lookup_insertNamed]
  rfl

/-- With a text that counts, a document is one that the earlier one may have become. -/
theorem precedes_of_counts {uri : Bytes} {d : OpenDocument} {s : Session}
    (follows : ∀ old, s.document? uri = some old → d.Follows old) (counts : (s.touch uri d).Counts uri) :
    ∀ old, s.document? uri = some old → old.Precedes d := by
  intro old found
  refine (follows old found).precedes (counts { d with isDirty := true } ?_)
  rw [document?_touch, if_pos rfl]

theorem document?_collect (s : Session) (uri : Bytes) :
    s.collect.2.document? uri = (s.document? uri).map fun d => { d with isDirty := false } :=
  lookup_marked false uri s.documents

/-- What a message that may close a document comes to: the session that it leaves, and what is sent. -/
inductive Deals (s : Session) : Option Bytes → Session → List Json → Prop
  | keeps {sent : List Json} (silent : Silent sent) : Deals s none s sent
  | asks (uri : Bytes) {sent : List Json} (silent : Silent sent) : Deals s none (s.current uri).1 sent
  | touches (uri : Bytes) (d : OpenDocument) (follows : ∀ old, s.document? uri = some old → d.Follows old) :
    Deals s none (s.touch uri d) []
  | closes (uri : Bytes) : Deals s (some uri) (s.onClose uri).1 (sentAmong (s.onClose uri).2.1)

variable {s : Session} {m : Message} {uri : Bytes}

theorem onOpen_deals (s : Session) (p : OpenParams) : s.Deals none (s.onOpen p).1 (sentAmong (s.onOpen p).2.1) := by
  rw [onOpen]
  split
  · exact .keeps silent_nil
  · refine .touches p.uri _ fun old found => Or.inl ?_
    simp only [found, Option.getD_some]

theorem onChange_deals (s : Session) (p : ChangeParams) :
    s.Deals none (s.onChange p).1 (sentAmong (s.onChange p).2.1) := by
  rw [onChange]
  cases found : s.document? p.uri with
  | none =>
    dsimp only
    rw [sentAmong_traced]
    exact .keeps silent_nil
  | some d =>
    dsimp only
    rw [sentAmong_traced]
    refine .touches p.uri _ fun old there => Or.inl ?_
    obtain rfl := Option.some.inj (found.symm.trans there)
    rfl

theorem onSave_deals (s : Session) (p : SaveParams) : s.Deals none (s.onSave p).1 (sentAmong (s.onSave p).2.1) := by
  rw [onSave]
  cases found : s.document? p.uri with
  | none => exact .keeps silent_nil
  | some d =>
    dsimp only
    cases p.text.filter (· != d.text) with
    | some text =>
      refine .touches p.uri _ fun old there => Or.inl ?_
      obtain rfl := Option.some.inj (found.symm.trans there)
      rfl
    | none =>
      refine .touches p.uri _ fun old there => Or.inr ?_
      obtain rfl := Option.some.inj (found.symm.trans there)
      exact ⟨rfl, rfl⟩

theorem onClose_eq (s : Session) (uri : Bytes) : s.onClose uri = ({ s with
      documents := s.documents.filter fun (name, _) => name != uri
      published := s.published.filter (· != uri)
      store := s.store.remove uri },
    if s.published.contains uri then [.send (publication uri 0 [])] else [], none) := by
  rw [onClose]
  dsimp only
  split <;> rfl

theorem document?_onClose (s : Session) (name uri : Bytes) :
    (s.onClose name).1.document? uri = if uri = name then none else s.document? uri := by
  rw [onClose_eq]
  exact lookup_remove

theorem mem_published_onClose (s : Session) (name uri : Bytes) :
    uri ∈ (s.onClose name).1.published ↔ uri ∈ s.published ∧ uri ≠ name := by
  rw [onClose_eq, List.mem_filter, bne_iff_ne]

/-- Diagnostics are taken back if they are shown. -/
theorem sent_onClose (s : Session) (uri : Bytes) :
    sentAmong (s.onClose uri).2.1 = if uri ∈ s.published then [publication uri 0 []] else [] := by
  rw [onClose_eq]
  simp only [List.contains_iff_mem]
  split <;> rfl

theorem onDefinition_deals (s : Session) (m : Message) (p : PositionParams) :
    s.Deals none (s.onDefinition m p).1 (sentAmong (s.onDefinition m p).2.1) := by
  have silent := silent_response m.id (.array [])
  rw [onDefinition]
  dsimp only
  split
  · dsimp only
    cases (s.current p.uri).2 with
    | none => exact .asks p.uri silent
    | some document => exact .asks p.uri silent
  · exact .keeps silent

/-- A notification whose parameters have not the shape they must have changes nothing. -/
theorem withParams_deals {α : Type} {read : Json → Option α} {go : α → Outcome} {closing : Option Bytes}
    (refused : m.params.bind read = none → closing = none)
    (goes : ∀ params, m.params.bind read = some params → s.Deals closing (go params).1 (sentAmong (go params).2.1)) :
    s.Deals closing (s.withParams m read go).1 (sentAmong (s.withParams m read go).2.1) := by
  rw [withParams]
  cases given : m.params.bind read with
  | none =>
    rw [refused given]
    exact .keeps silent_nil
  | some params => exact goes params given

theorem answering_deals {α : Type} {read : Json → Option α} {go : α → Outcome}
    (goes : ∀ params, s.Deals none (go params).1 (sentAmong (go params).2.1)) :
    s.Deals none (s.answering m read go).1 (sentAmong (s.answering m read go).2.1) := by
  rw [answering]
  split
  · exact .keeps (silent_errorResponse m.id .invalidParams)
  · exact goes _

theorem perform_deals (s : Session) {method : Method} (known : method? m.method = some method)
    (about : method.isAboutDocument = true) :
    s.Deals m.closes? (s.perform m method).1 (sentAmong (s.perform m method).2.1) := by
  by_cases closing : method = .closed
  · subst closing
    have closes : m.closes? = m.params.bind closedUri? := by rw [Message.closes?, if_pos known]
    refine withParams_deals (fun refused => closes.trans refused) fun uri given => ?_
    rw [closes, given]
    exact .closes uri
  · have closes : m.closes? = none := by
      rw [Message.closes?, known, if_neg fun same => closing (Option.some.inj same)]
    rw [closes]
    cases method with
    | opened => exact withParams_deals (fun _ => rfl) fun p _ => s.onOpen_deals p
    | changed => exact withParams_deals (fun _ => rfl) fun p _ => s.onChange_deals p
    | saved => exact withParams_deals (fun _ => rfl) fun p _ => s.onSave_deals p
    | closed => exact absurd rfl closing
    | marks => exact answering_deals fun uri => .asks uri (silent_response m.id _)
    | definition => exact answering_deals fun p => s.onDefinition_deals m p
    | outline => exact answering_deals fun uri => .asks uri (silent_response m.id _)
    | setUp | ready | shutDown | exit | configure => cases about

theorem handle_deals (s : Session) {method : Method} (known : method? m.method = some method)
    (about : method.isAboutDocument = true) :
    s.Deals m.closes? (s.handle m).1 (sentAmong (s.handle m).2.1) := by
  have performed := s.perform_deals known about
  rw [handle]
  dsimp only
  rw [known]
  dsimp only
  rw [sentAmong_append, sentAmong_traced]
  exact performed

end Session

end SecurityRules.Server
