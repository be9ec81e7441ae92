import SecurityRules.DocumentStore
import SecurityRules.FileUri
import SecurityRules.Json.Reader
import SecurityRules.Server.Frame
import SecurityRules.Server.Message
import SecurityRules.Server.Reply

/-!
# A session with an editor

The session is a value; each message, timer and end of input makes a new one, with messages to send and lines
to log. Diagnostics are not computed at once: a change asks for a timer, and the run that the timer starts
looks at every document changed since the last run. Only the latest timer counts.
-/

namespace SecurityRules.Server

/-- What the session knows of one open document. -/
structure OpenDocument where
  text : Bytes := []
  /-- The version the editor gave it. -/
  version : Int := 0
  /-- Counts the changes of the text. It is a machine word, so the count starts again at the other end. -/
  revision : Int32 := 0
  /-- Whether its diagnostics have to be computed again. -/
  isDirty : Bool := false

/-- What happens besides the change of state. -/
inductive Effect where
  | send (message : Json)
  | log (line : Bytes)

/-- Why a session is over. -/
inductive Stop where
  | endOfInput
  | exit
  | exitWithoutShutdown
  | canceled
  /-- A notification had not the shape it must have. -/
  | badParams
  | framing (error : FrameError)
deriving Repr, DecidableEq

/-- The state of a session. Documents stand in the order of their names. -/
structure Session where
  documents : List (Bytes × OpenDocument) := []
  store : DocumentStore
  /-- The documents for which diagnostics are shown, in the order of their names. -/
  published : List Bytes := []
  isShutDown : Bool := false
  /-- The number of the latest timer. -/
  latestTimer : UInt64 := 0
  /-- The timer that is running. -/
  pendingTimer : Option UInt64 := none
  maxDiagnostics : Int
  trace : Bool
  isCanceled : Bool := false
  /-- Input that is not handled yet. -/
  input : Bytes := []
  stopped : Option Stop := none

namespace Session

/-- The limit on diagnostics if none is given. -/
def defaultMaxDiagnostics : Int := 100

/-- A new session. -/
def start (options : AnalysisOptions) (maxDiagnostics : Int) (trace : Bool) : Session where
  store := { options }
  maxDiagnostics := if maxDiagnostics ≤ 0 then defaultMaxDiagnostics else maxDiagnostics
  trace

/-- The state of an open document. -/
def document? (s : Session) (uri : Bytes) : Option OpenDocument := s.documents.lookup uri

/-- Puts a document in its place. -/
def insertDocument (uri : Bytes) (d : OpenDocument) :
    List (Bytes × OpenDocument) → List (Bytes × OpenDocument)
  | [] => [(uri, d)]
  | (name, old) :: rest =>
    if name = uri then (uri, d) :: rest
    else if Bytes.before uri name then (uri, d) :: (name, old) :: rest
    else (name, old) :: insertDocument uri d rest

/-- Puts a name in its place. -/
def insertName (uri : Bytes) : List Bytes → List Bytes
  | [] => [uri]
  | name :: rest =>
    if name = uri then name :: rest
    else if Bytes.before uri name then uri :: name :: rest
    else name :: insertName uri rest

/-- A line of the log. -/
def logged (text : Bytes) : Effect := .log ("lsp: " ++ text)

/-- A line of the log, if messages are traced. -/
def traced (s : Session) (text : Bytes) : List Effect := if s.trace then [logged text] else []

/-- Starts a new timer instead of the one that is running. -/
def schedule (s : Session) : Session :=
  { s with latestTimer := s.latestTimer + 1, pendingTimer := some (s.latestTimer + 1) }

/-- Stops the timer. -/
def stopTimer (s : Session) : Session := { s with pendingTimer := none }

/-- Puts a changed document into the session and starts a timer. -/
def touch (s : Session) (uri : Bytes) (d : OpenDocument) : Session :=
  schedule { s with documents := insertDocument uri { d with isDirty := true } s.documents }

/-! ## Diagnostics -/

/-- The documents that have to be looked at, and the session in which they no longer have to. -/
def collect (s : Session) : List (Bytes × OpenDocument) × Session :=
  (s.documents.filter fun (_, d) => d.isDirty,
    { s with documents := s.documents.map fun (uri, d) => (uri, { d with isDirty := false }) })

/-- Analyses the text of a document and keeps the result; false if a newer one is kept already. -/
def analyze (s : Session) (uri : Bytes) (d : OpenDocument) : Session × Document × Bool :=
  let (store, document, isFresh) := s.store.update uri d.revision.toInt (FileUri.displayPath uri) d.text
  ({ s with store }, document, isFresh || document.version == d.revision.toInt)

/-- Notes that diagnostics are shown for a document, if it is still open. -/
def markPublished (s : Session) (uri : Bytes) : Option Session :=
  if (s.document? uri).isSome then some { s with published := insertName uri s.published } else none

/-- Looks at one document and tells the editor what was found. -/
def publishOne (s : Session) (uri : Bytes) (d : OpenDocument) : Session × List Effect :=
  let (s, document, isCurrent) := s.analyze uri d
  if !isCurrent then
    (s, s.traced ("discard analysis: uri=" ++ uri ++ " rev=" ++ Bytes.decimalInt d.revision.toInt ++
      " newer=" ++ Bytes.decimalInt document.version))
  else
    let (items, dropped) := listedDiagnostics document s.maxDiagnostics
    let news := s.traced ("publishDiagnostics: uri=" ++ uri ++ " version=" ++
      Bytes.decimalInt d.version ++ " diags=" ++ Bytes.decimal items.length ++ " dropped=" ++
      Bytes.decimal dropped)
    match s.markPublished uri with
    | none => (s, news)
    | some s =>
      (s, news ++ [.send (publication uri d.version (items.map (diagnosticValue document.file)))])

/-- Looks at documents in order. -/
def publishAll (s : Session) : List (Bytes × OpenDocument) → Session × List Effect
  | [] => (s, [])
  | (uri, d) :: rest =>
    let (s, effects) := s.publishOne uri d
    let (s, more) := s.publishAll rest
    (s, effects ++ more)

/-- Looks at every document that has changed. -/
def flush (s : Session) : Session × List Effect :=
  let (pending, s) := s.collect
  s.publishAll pending

/-- A timer with a number runs out. -/
def timeOut (s : Session) (timer : UInt64) : Session × List Effect :=
  if timer = s.latestTimer && !s.isCanceled then s.flush else (s, [])

/-- The pending timer runs out. -/
def settle (s : Session) : Session × List Effect :=
  match s.stopped, s.pendingTimer with
  | none, some timer => { s with pendingTimer := none }.timeOut timer
  | _, _ => (s, [])

/-! ## Messages -/

/-- The analysis of the text that a document has now; none if it is not open. -/
def current (s : Session) (uri : Bytes) : Session × Option Document :=
  match s.document? uri with
  | none => (s, none)
  | some d =>
    match (s.store.get? uri).filter fun kept => kept.version == d.revision.toInt with
    | some kept => (s, some kept)
    | none =>
      let (s, document, _) := s.analyze uri d
      (s, some document)

/-- The session with another scope policy; what was analysed with the old one is forgotten. -/
def withPolicy (s : Session) (policy : ScopePolicy) : Session :=
  { s with store := { options := { s.store.options with policy } } }

/-- Marks every document as changed. -/
def dirtyAll (s : Session) : Session :=
  { s with documents := s.documents.map fun (uri, d) => (uri, { d with isDirty := true }) }

/-- Takes over a limit on diagnostics, and says whether it is a new one. -/
def applyLimit (s : Session) (limit : Option Int) : Session × Bool :=
  match limit with
  | some n => if 0 < n && n != s.maxDiagnostics then ({ s with maxDiagnostics := n }, true) else (s, false)
  | none => (s, false)

/-- Takes over a scope policy, and says whether it is a new one. -/
def applyPolicy (s : Session) (name : Option Bytes) : Session × Bool × List Effect :=
  match name with
  | none => (s, false, [])
  | some name =>
    match ScopePolicy.ofName? name with
    | none => (s, false, [logged ("ignoring settings: " ++ ScopePolicy.unknownMessage name)])
    | some policy =>
      if policy = s.store.options.policy then (s, false, []) else (s.withPolicy policy, true, [])

/-- What is logged in place of the reason why JSON could not be read. -/
def jsonComplaint : Bytes := "<json>"

/-- Takes over settings, and says whether documents have to be looked at again. -/
def applySettings (s : Session) (value : Json) : Session × Bool × List Effect :=
  match Settings.ofJson? value with
  | none => (s, false, [logged ("ignoring settings: " ++ jsonComplaint)])
  | some settings =>
    let s := { s with trace := settings.trace.getD s.trace }
    let (s, newLimit) := s.applyLimit settings.maxDiagnostics
    let (s, newPolicy, effects) := s.applyPolicy settings.policy
    let again := newLimit || newPolicy
    (if again then s.dirtyAll else s, again, effects)

/-- The result of handling a message. -/
abbrev Outcome := Session × List Effect × Option Stop

/-- Goes on with nothing to tell. -/
def quietly (s : Session) : Outcome := (s, [], none)

/-- Goes on after sending a message. -/
def sending (s : Session) (message : Json) : Outcome := (s, [.send message], none)

def onSetUp (s : Session) (m : Message) : Outcome :=
  let given :=
    match m.params with
    | none => some none
    | some params => initialOptions? params
  match given with
  | none => s.sending (errorResponse m.id .invalidParams)
  | some none => s.sending (response m.id capabilities)
  | some (some options) =>
    let (s, _, effects) := s.applySettings options
    (s, effects ++ [.send (response m.id capabilities)], none)

/-- Takes back all diagnostics that are shown. -/
def clearPublished (s : Session) : Session × List Effect :=
  ({ s with published := [] }, s.published.map fun uri => .send (publication uri 0 []))

def onShutDown (s : Session) (m : Message) : Outcome :=
  let (s, effects) := { s with isShutDown := true }.stopTimer.clearPublished
  (s, effects ++ [.send (response m.id .null)], none)

def onExit (s : Session) : Outcome :=
  (s, [], some (if s.isShutDown then .exit else .exitWithoutShutdown))

def onConfigure (s : Session) (m : Message) : Outcome :=
  match m.params.bind changedSettings? with
  | some (some settings) =>
    let (s, again, effects) := s.applySettings settings
    (if again then s.schedule else s, effects, none)
  | _ => s.quietly

/-- Handles a notification whose parameters must have a shape. -/
def withParams {α : Type} (s : Session) (m : Message) (read : Json → Option α) (go : α → Outcome) :
    Outcome :=
  match m.params.bind read with
  | none => (s, [], some .badParams)
  | some params => go params

def onOpen (s : Session) (p : OpenParams) : Outcome :=
  if p.uri.isEmpty then s.quietly
  else
    let d := (s.document? p.uri).getD {}
    (s.touch p.uri { d with text := p.text, version := p.version, revision := d.revision + 1 }).quietly

def onChange (s : Session) (p : ChangeParams) : Outcome :=
  let news := s.traced ("didChange: uri=" ++ p.uri ++ " version=" ++ Bytes.decimalInt p.version ++
    " changes=" ++ Bytes.decimal p.edits.length)
  match s.document? p.uri with
  | none => (s, news, none)
  | some d =>
    let d := { d with
      text := Edit.applyAll d.text p.edits, version := p.version, revision := d.revision + 1 }
    (s.touch p.uri d, news, none)

/-- A save asks for diagnostics also when the text is the same. -/
def onSave (s : Session) (p : SaveParams) : Outcome :=
  match s.document? p.uri with
  | none => s.quietly
  | some d =>
    match p.text.filter (· != d.text) with
    | some text => (s.touch p.uri { d with text, revision := d.revision + 1 }).quietly
    | none => (s.touch p.uri d).quietly

def onClose (s : Session) (uri : Bytes) : Outcome :=
  let wasShown := s.published.contains uri
  let s := { s with
    documents := s.documents.filter fun (name, _) => name != uri
    published := s.published.filter (· != uri)
    store := s.store.remove uri }
  if wasShown then s.sending (publication uri 0 []) else s.quietly

/-- Answers a request whose parameters must have a shape. -/
def answering {α : Type} (s : Session) (m : Message) (read : Json → Option α) (go : α → Outcome) :
    Outcome :=
  match m.params.bind read with
  | none => s.sending (errorResponse m.id .invalidParams)
  | some params => go params

def onMarks (s : Session) (m : Message) (uri : Bytes) : Outcome :=
  let (s, document) := s.current uri
  s.sending (response m.id (marksValue ((document.map (·.editorWords)).getD [])))

def onOutline (s : Session) (m : Message) (uri : Bytes) : Outcome :=
  let (s, document) := s.current uri
  let symbols := (document.map fun d => symbolValues d.file d.outline).getD []
  s.sending (response m.id (.array symbols))

/-- What would be answered to a request for a definition. -/
def definitionNews (d : Document) (p : EditorPosition) : Bytes :=
  match d.definition (pointAt d.file p) with
  | .ok found => "definition: " ++ found.name ++ " at " ++ found.nameSpan.render
  | .error e => "definition: " ++ e.message

/-- Requests for definitions are answered with no places; the log tells what was found. -/
def onDefinition (s : Session) (m : Message) (p : PositionParams) : Outcome :=
  let answer := Effect.send (response m.id (.array []))
  if s.trace then
    let (s, document) := s.current p.uri
    (s, ((document.map fun d => [logged (definitionNews d p.position)]).getD []) ++ [answer], none)
  else (s, [answer], none)

/-- A method that the session knows. -/
inductive Method where
  | setUp | ready | shutDown | exit | configure | opened | changed | saved | closed
  | marks | definition | outline
deriving Repr, DecidableEq

/-- The known methods with their names. -/
def methods : List (String × Method) :=
  [("initialize", .setUp), ("initialized", .ready), ("shutdown", .shutDown), ("exit", .exit),
    ("workspace/didChangeConfiguration", .configure),
    ("textDocument/didOpen", .opened), ("textDocument/didChange", .changed),
    ("textDocument/didSave", .saved), ("textDocument/didClose", .closed),
    ("textDocument/semanticTokens/full", .marks), ("textDocument/definition", .definition),
    ("textDocument/documentSymbol", .outline)]

/-- The method with a name. -/
def method? (name : Bytes) : Option Method :=
  (methods.find? fun (known, _) => Bytes.ofString known == name).map (·.2)

/-- Handles a message with a known method. -/
def perform (s : Session) (m : Message) : Method → Outcome
  | .setUp => s.onSetUp m
  | .ready => s.quietly
  | .shutDown => s.onShutDown m
  | .exit => s.onExit
  | .configure => s.onConfigure m
  | .opened => s.withParams m OpenParams.ofJson? s.onOpen
  | .changed => s.withParams m ChangeParams.ofJson? s.onChange
  | .saved => s.withParams m SaveParams.ofJson? s.onSave
  | .closed => s.withParams m closedUri? s.onClose
  | .marks => s.answering m requestUri? (s.onMarks m)
  | .definition => s.answering m PositionParams.ofJson? (s.onDefinition m)
  | .outline => s.answering m requestUri? (s.onOutline m)

/-- Handles a message. Unknown notifications are ignored. -/
def handle (s : Session) (m : Message) : Outcome :=
  let news := s.traced ("<- " ++ m.method)
  match method? m.method with
  | some method =>
    let (s, effects, stop) := s.perform m method
    (s, news ++ effects, stop)
  | none =>
    match m.id with
    | some id => (s, news ++ [.send (errorResponse (some id) (.unknownMethod m.method))], none)
    | none => (s, news, none)

/-- Handles a payload. What is no message is logged and skipped; so is a message without a method, which
answers nothing that was asked. -/
def handlePayload (s : Session) (payload : Bytes) : Outcome :=
  match (Json.parse? payload).bind Message.ofJson? with
  | none => (s, [logged ("failed to parse message: " ++ jsonComplaint)], none)
  | some m => if m.method.isEmpty then s.quietly else s.handle m

/-- The session at its end. -/
def finish (s : Session) (stop : Stop) : Session := { s.stopTimer with stopped := some stop }

/-- Handles one payload; a cancelled session ends behind it. -/
def stepPayload (s : Session) (payload : Bytes) : Session × List Effect :=
  let (s, effects, stop) := s.handlePayload payload
  match stop with
  | some stop => (s.finish stop, effects)
  | none => if s.isCanceled then (s.finish .canceled, effects) else (s, effects)

/-- Handles the messages that are complete. Every message takes some input, so the length of the input is fuel
enough. -/
def drain : (fuel : Nat) → Session → Session × List Effect
  | 0, s => (s, [])
  | fuel + 1, s =>
    match s.stopped with
    | some _ => (s, [])
    | none =>
      match Frame.next s.input with
      | .needHeader | .needPayload .. => (s, [])
      | .failed e => (s.finish (.framing e), [])
      | .message payload rest =>
        let (s, effects) := { s with input := rest }.stepPayload payload
        let (s, more) := drain fuel s
        (s, effects ++ more)

/-- More input arrives. -/
def receive (s : Session) (bytes : Bytes) : Session × List Effect :=
  match s.stopped with
  | some _ => (s, [])
  | none => drain (s.input.length + bytes.length + 1) { s with input := s.input ++ bytes }

/-- The input ends. Bytes of a payload must not be left over; a header may be. -/
def close (s : Session) : Session :=
  match s.stopped with
  | some _ => s
  | none =>
    match Frame.next s.input with
    | .needPayload (_ + 1) _ => s.finish (.framing .cutOff)
    | _ => s.finish .endOfInput

/-- The session is cancelled; this takes effect behind the next message. -/
def cancel (s : Session) : Session := { s with isCanceled := true }

end Session

end SecurityRules.Server
