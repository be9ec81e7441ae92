import SecurityRules.Server.Session

/-!
# What a session should answer

The answers of a session told from the events of the past alone: no analysis is kept from one event to the
next, and the text of a document is what the editor's own messages about it make of it. Pasts are lists with
the latest event first.
-/

namespace SecurityRules.Server

/-- What a well-formed message asks for. -/
inductive Action where
  | setUp (options : Option Json)
  | configure (settings : Option Json)
  | opened (params : OpenParams)
  | changed (params : ChangeParams)
  | saved (params : SaveParams)
  | closed (uri : Bytes)
  | marks (uri : Bytes)
  | outline (uri : Bytes)

/-- The document that an action is about. -/
def Action.uri? : Action → Option Bytes
  | .setUp _ | .configure _ => none
  | .opened p => some p.uri
  | .changed p => some p.uri
  | .saved p => some p.uri
  | .closed uri | .marks uri | .outline uri => some uri

/-- What a message asks for, if its method is one of these and its parameters have the shape they must have. A document
without a name cannot be opened. -/
def Message.action? (m : Message) : Option Action :=
  match Session.method? m.method with
  | some .setUp =>
    match m.params with
    | none => some (.setUp none)
    | some params => (initialOptions? params).map .setUp
  | some .configure => some (.configure (m.params.bind changedSettings?).join)
  | some .opened => ((m.params.bind OpenParams.ofJson?).filter fun p => !p.uri.isEmpty).map .opened
  | some .changed => (m.params.bind ChangeParams.ofJson?).map .changed
  | some .saved => (m.params.bind SaveParams.ofJson?).map .saved
  | some .closed => (m.params.bind closedUri?).map .closed
  | some .marks => (m.params.bind requestUri?).map .marks
  | some .outline => (m.params.bind requestUri?).map .outline
  | _ => none

/-- What a session handles, one at a time: a message, or a timer that runs out. -/
inductive Event where
  | message (m : Message)
  | timer (number : UInt64)

def Event.action? : Event → Option Action
  | .message m => m.action?
  | .timer _ => none

/-- A message must ask for something, and name the document it is about. -/
def Event.IsWellFormed : Event → Prop
  | .message m => ∃ action, m.action? = some action ∧ action.uri? ≠ some []
  | .timer _ => True

instance : DecidablePred Event.IsWellFormed
  | .message m => decidable_of_iff ((m.action?.any fun action => action.uri? != some []) = true) (by
    simp [Event.IsWellFormed, Option.any_eq_true])
  | .timer _ => .isTrue trivial

/-! ## The documents of the editor -/

/-- The editor's copy of an open document. -/
structure Copy where
  text : Bytes
  version : Int
  /-- How many texts it has had since it was closed last. -/
  edition : Nat

/-- What an action makes of the copy of one document. -/
def Action.edit (uri : Bytes) : Action → Option Copy → Option Copy
  | .opened p, old =>
    if p.uri = uri then some ⟨p.text, p.version, ((old.map Copy.edition).getD 0) + 1⟩ else old
  | .changed p, old =>
    if p.uri = uri then old.map fun c => ⟨Edit.applyAll c.text p.edits, p.version, c.edition + 1⟩ else old
  | .saved p, old =>
    if p.uri = uri then old.map fun c => { c with
      text := p.text.getD c.text, edition := c.edition + (p.text.any (· != c.text)).toNat }
    else old
  | .closed name, old => if name = uri then none else old
  | _, old => old

/-- The copy of a document, from the messages about it; none if it is not open. -/
def copyOf (uri : Bytes) : List Event → Option Copy
  | [] => none
  | e :: past =>
    match e.action? with
    | some action => action.edit uri (copyOf uri past)
    | none => copyOf uri past

/-- The texts of a document were never so many that a machine word does not count them. -/
def Unworn (uri : Bytes) (past : List Event) : Prop :=
  ∀ earlier, earlier <:+ past → ∀ c, copyOf uri earlier = some c → c.edition < 2 ^ 31

/-! ## Settings -/

/-- The settings that diagnostics depend on. -/
structure Profile where
  policy : ScopePolicy
  limit : Int
deriving DecidableEq

/-- Settings that are absent or make no sense leave the old ones. -/
def Profile.take (p : Profile) (settings : Settings) : Profile where
  policy := (settings.policy.bind ScopePolicy.ofName?).getD p.policy
  limit := (settings.maxDiagnostics.filter (0 < ·)).getD p.limit

/-- The settings that come with an action. -/
def Action.settings? : Action → Option Settings
  | .setUp options => options.bind Settings.ofJson?
  | .configure settings => settings.bind Settings.ofJson?
  | _ => none

section

variable (first : Profile)

/-- The settings in force. -/
def profileOf : List Event → Profile
  | [] => first
  | e :: past =>
    match e.action?.bind Action.settings? with
    | some settings => (profileOf past).take settings
    | none => profileOf past

/-- Whether an event brings new settings. -/
def renews (e : Event) (past : List Event) : Bool := profileOf first (e :: past) != profileOf first past

/-! ## Diagnostics -/

/-- Whether an event asks for a timer. -/
def schedules (e : Event) (past : List Event) : Bool :=
  match e.action? with
  | some (.opened _) => true
  | some (.changed p) => (copyOf p.uri past).isSome
  | some (.saved p) => (copyOf p.uri past).isSome
  | some (.configure _) => renews first e past
  | _ => false

/-- The number of the latest timer. Timers are numbered in order, in machine words. -/
def timersOf : List Event → UInt64
  | [] => 0
  | e :: past => if schedules first e past then timersOf past + 1 else timersOf past

/-- Whether an event opens, changes or saves a document. -/
def Event.touches (uri : Bytes) (e : Event) : Bool :=
  match e.action? with
  | some (.opened p) => p.uri == uri
  | some (.changed p) => p.uri == uri
  | some (.saved p) => p.uri == uri
  | _ => false

/-- Whether a document was touched, or the settings renewed, since the latest timer ran out last. -/
def isTouched (uri : Bytes) : List Event → Bool
  | [] => false
  | .timer number :: past => if number = timersOf first past then false else isTouched uri past
  | .message m :: past =>
    (Event.message m).touches uri || renews first (.message m) past || isTouched uri past

/-- Whether the diagnostics of a document have to be told. -/
def isDue (uri : Bytes) (past : List Event) : Bool := (copyOf uri past).isSome && isTouched first uri past

/-- Whether diagnostics were told of a document since it was closed last. -/
def isShown (uri : Bytes) : List Event → Bool
  | [] => false
  | .timer number :: past =>
    if number = timersOf first past then isDue first uri past || isShown uri past else isShown uri past
  | .message m :: past =>
    match m.action? with
    | some (.closed name) => if name = uri then false else isShown uri past
    | _ => isShown uri past

end

/-! ## Answers -/

section

variable (options : AnalysisOptions) (first : Profile)

/-- A fresh analysis of the copy of a document under the settings in force. -/
def freshOf (uri : Bytes) (past : List Event) (c : Copy) : Document :=
  Document.analyze uri 0 (SourceFile.inMemory (FileUri.displayPath uri) c.text)
    { options with policy := (profileOf first past).policy }

/-- The answer to a request carries its identifier. A request without one is answered to `null`. -/
def answerTo (m : Message) (result : Json) : Json :=
  .object [("jsonrpc", .string "2.0"), ("id", m.id.getD .null), ("result", result)]

/-- What the editor is told of a document. A version that is not positive is left out. -/
def notice (uri : Bytes) (version : Int) (items : List Json) : Json :=
  let told : List (Bytes × Json) := [("diagnostics", .array items)]
  .object [("jsonrpc", .string "2.0"), ("method", .string "textDocument/publishDiagnostics"),
    ("params", .object (("uri", .string uri) ::
      if 0 < version then ("version", .number (Bytes.decimal (min version.toNat 4294967295))) :: told else told))]

/-- The diagnostics of a document up to the limit in force. -/
def newsOf (uri : Bytes) (past : List Event) (c : Copy) : Json :=
  notice uri c.version ((listedDiagnostics (freshOf options first uri past c)
    (profileOf first past).limit).1.map (diagnosticValue (freshOf options first uri past c).file))

/-- The coloured parts of a document: on single lines, in UTF-16 units, as differences. -/
def wordsOf (d : Document) : List UInt32 :=
  Highlight.encode ((Highlight.splitLines d.file (Highlight.marksOf d.root)).map (Highlight.toUtf16 d.file))

/-- The coloured parts of a document as the editor gets them; none if it is not open. -/
def marksOf (uri : Bytes) (past : List Event) : Json :=
  let words := ((copyOf uri past).map fun c => wordsOf (freshOf options first uri past c)).getD []
  .object [("data", .array (words.map fun word => .number (Bytes.decimal word.toNat)))]

/-- The outline of a document; none if it is not open. -/
def outlineOf (uri : Bytes) (past : List Event) : Json :=
  .array (((copyOf uri past).map fun c =>
    symbolValues (freshOf options first uri past c).file (freshOf options first uri past c).outline).getD [])

/-- What has to be sent at an event, given the past. -/
def Answers (past : List Event) : Event → List Json → Prop
  | .timer number, sent =>
    if number = timersOf first past then
      ∃ uris : List Bytes, uris.Pairwise (fun a b => Bytes.before a b = true) ∧
        (∀ uri, uri ∈ uris ↔ isDue first uri past = true) ∧
        sent = uris.filterMap fun uri => (copyOf uri past).map (newsOf options first uri past)
    else sent = []
  | .message m, sent =>
    match m.action? with
    | some (.setUp _) => sent = [answerTo m capabilities]
    | some (.marks uri) => sent = [answerTo m (marksOf options first uri past)]
    | some (.outline uri) => sent = [answerTo m (outlineOf options first uri past)]
    | some (.closed uri) => sent = if isShown first uri past then [notice uri 0 []] else []
    | _ => sent = []

/-- What has to be sent at each of some events, one after the other. -/
inductive Answered : List Event → List Event → List (List Json) → Prop
  | done {past : List Event} : Answered past [] []
  | next {past rest : List Event} {e : Event} {sent : List Json} {more : List (List Json)}
    (now : Answers options first past e sent) (later : Answered (e :: past) rest more) :
    Answered past (e :: rest) (sent :: more)

end

/-! ## Running a session -/

/-- The messages among what happens. -/
def sentAmong (effects : List Effect) : List Json :=
  effects.filterMap fun
    | .send message => some message
    | .log _ => none

namespace Session

/-- Handles an event. -/
def react (s : Session) : Event → Outcome
  | .message m => s.handle m
  | .timer number => ((s.timeOut number).1, (s.timeOut number).2, none)

/-- Handles events one at a time. -/
def run (s : Session) : List Event → List Outcome
  | [] => []
  | e :: rest => s.react e :: (s.react e).1.run rest

end Session

end SecurityRules.Server
