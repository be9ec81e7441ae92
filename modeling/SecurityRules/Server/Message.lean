import SecurityRules.Edit
import SecurityRules.Json.Record

/-!
# Messages of an editor

The shapes of what an editor sends. A value that has not the shape asked for is refused as a whole.
-/

namespace SecurityRules.Server

open Json (Members)

/-- A request or notification. -/
structure Message where
  /-- The number or name of a request; absent in notifications. -/
  id : Option Json
  method : Bytes
  params : Option Json

/-- The error in a response of the editor. -/
def errorShape (ms : Members) : Option Unit := do
  let _ ← ms.signed64 "code"
  let _ ← ms.text "message"
  return ()

def Message.ofJson? (value : Json) : Option Message := do
  let ms ← value.members?
  let _ ← ms.text "jsonrpc"
  let _ ← Json.merged? errorShape (ms.values "error")
  return { id := ms.raw? "id", method := ← ms.text "method", params := ms.raw? "params" }

/-- A document just opened. -/
structure OpenParams where
  uri : Bytes
  version : Int
  text : Bytes

def OpenParams.ofJson? (value : Json) : Option OpenParams := do
  let document ← (← value.members?).record "textDocument"
  let _ ← document.text "languageId"
  return ⟨← document.text "uri", ← document.signed32 "version", ← document.text "text"⟩

def positionOf (ms : Members) : Option EditorPosition := do
  return ⟨← ms.word "line", ← ms.word "character"⟩

def rangeOf (ms : Members) : Option EditorRange := do
  return ⟨← positionOf (← ms.record "start"), ← positionOf (← ms.record "end")⟩

/-- One change of a document; without a range it replaces all of it. -/
def editOf (value : Json) : Option Edit := do
  let ms ← value.members?
  return { range := ← Json.merged? rangeOf (ms.values "range"), text := ← ms.text "text" }

/-- Changes of an open document. -/
structure ChangeParams where
  uri : Bytes
  version : Int
  edits : List Edit

def ChangeParams.ofJson? (value : Json) : Option ChangeParams := do
  let ms ← value.members?
  let document ← ms.record "textDocument"
  return ⟨← document.text "uri", ← document.signed32 "version", ← ms.list "contentChanges" editOf⟩

/-- A document just saved, with its text if the editor sends it. -/
structure SaveParams where
  uri : Bytes
  text : Option Bytes

def SaveParams.ofJson? (value : Json) : Option SaveParams := do
  let ms ← value.members?
  return ⟨← (← ms.record "textDocument").text "uri", ← ms.text? "text"⟩

/-- The document that a notification is about. -/
def closedUri? (value : Json) : Option Bytes := do
  (← (← value.members?).record "textDocument").text "uri"

/-- A token for progress reports: a number or a name. -/
def tokenOf : Json → Option Unit
  | .string _ => some ()
  | value => (value.asSigned32?).map fun _ => ()

/-- The tokens that a request may carry. -/
def progressTokens (ms : Members) : Option Unit := do
  let _ ← Json.latest? tokenOf (ms.values "workDoneToken")
  let _ ← Json.latest? tokenOf (ms.values "partialResultToken")
  return ()

/-- The document that a request is about. -/
def requestUri? (value : Json) : Option Bytes := do
  let ms ← value.members?
  progressTokens ms
  (← ms.record "textDocument").text "uri"

/-- The position that a request is about. -/
structure PositionParams where
  uri : Bytes
  position : EditorPosition

def PositionParams.ofJson? (value : Json) : Option PositionParams := do
  let ms ← value.members?
  progressTokens ms
  return ⟨← (← ms.record "textDocument").text "uri", ← positionOf (← ms.record "position")⟩

/-- The options that come with the first request, as they stand. -/
def initialOptions? (value : Json) : Option (Option Json) := do
  let ms ← value.members?
  let _ ← ms.text "rootUri"
  let _ ← ms.text "rootPath"
  return ms.raw? "initializationOptions"

/-- The settings of a change of configuration, as they stand. -/
def changedSettings? (value : Json) : Option (Option Json) := do
  return (← value.members?).raw? "settings"

/-- What an editor may set; what is absent stays as it is. -/
structure Settings where
  policy : Option Bytes
  maxDiagnostics : Option Int
  trace : Option Bool

def Settings.ofJson? (value : Json) : Option Settings := do
  let ms ← (← value.members?).record "firerules"
  return ⟨← ms.text? "scopePolicy", ← ms.signed64? "maxDiagnostics", ← (← ms.record "lsp").bool? "trace"⟩

end SecurityRules.Server
