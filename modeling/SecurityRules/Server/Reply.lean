import SecurityRules.Analysis
import SecurityRules.Diagnostic
import SecurityRules.Edit
import SecurityRules.Json
import SecurityRules.Release

/-!
# Messages to the editor
-/

namespace SecurityRules.Server

/-- A position in UTF-16 units. -/
def editorPosition (file : SourceFile) (p : Point) : EditorPosition :=
  ⟨p.row, UInt32.ofNat (file.utf16Column p)⟩

/-- The point at a position of the editor. -/
def pointAt (file : SourceFile) (p : EditorPosition) : Point :=
  ⟨p.line, UInt32.ofNat (file.byteColumn p.line p.character)⟩

/-- A closed span as a range without its end: the end moves behind the character it points at. A span of no
width covers that character, or nothing at the end of a row. -/
def editorRange (file : SourceFile) (s : Span) : EditorRange where
  start := editorPosition file s.start
  stop := editorPosition file
    ⟨s.stop.row, s.stop.column + UInt32.ofNat (file.characterSize s.stop)⟩

def positionValue (p : EditorPosition) : Json :=
  .fields [("line", .ofWord p.line), ("character", .ofWord p.character)]

def rangeValue (r : EditorRange) : Json :=
  .fields [("start", positionValue r.start), ("end", positionValue r.stop)]

/-- The number of a severity in the protocol. -/
def severityNumber (s : Severity) : Nat := if s = .error then 1 else if s = .warning then 2 else 3

/-- One diagnostic as the editor shows it. -/
def diagnosticValue (file : SourceFile) (d : Diagnostic) : Json :=
  .fields [("range", rangeValue (editorRange file d.span)),
    ("severity", .ofNat (severityNumber d.severity)), ("code", .string d.code.id),
    ("source", .ofText Release.tool), ("message", .string d.message)]

/-- The diagnostics of a document up to a limit, sorted and without repetitions, and how many were left
out. -/
def listedDiagnostics (d : Document) (limit : Int) : List Diagnostic × Nat :=
  let (bag, dropped) := (Bag.empty limit).addAll d.diagnostics
  (bag.sort.dedup.1.items, dropped)

/-- The number of a kind of symbol in the protocol. -/
def symbolNumber : SymbolKind → Nat
  | .matchBlock => 3
  | .function => 12
  | .letDefinition => 13
  | .rule => 20

mutual

/-- An entry of the outline. One without a name is named for its kind. -/
def symbolValue (file : SourceFile) : OutlineSymbol → Json
  | .mk kind name detail span nameSpan children =>
    .fields ([("name", .string (if name.isEmpty then kind.name else name))] ++
      Json.unlessEmpty "detail" detail ++
      [("kind", .ofNat (symbolNumber kind)), ("range", rangeValue (editorRange file span)),
        ("selectionRange", rangeValue (editorRange file nameSpan))] ++
      match symbolValues file children with
      | [] => []
      | children => [("children", .array children)])

/-- Entries of the outline. -/
def symbolValues (file : SourceFile) : List OutlineSymbol → List Json
  | [] => []
  | s :: rest => symbolValue file s :: symbolValues file rest

end

/-- The answer to a request. A request without an identifier is answered to `null`. -/
def response (id : Option Json) (result : Json) : Json :=
  .fields [("jsonrpc", .ofText "2.0"), ("id", id.getD .null), ("result", result)]

/-- Why a request has no answer. -/
inductive RequestError where
  | invalidParams
  | unknownMethod (name : Bytes)
deriving Repr, DecidableEq

def RequestError.code : RequestError → Int
  | invalidParams => -32602
  | unknownMethod _ => -32601

def RequestError.message : RequestError → Bytes
  | invalidParams => "invalid params"
  | unknownMethod name => "method not found: " ++ name

/-- The answer to a request that failed. -/
def errorResponse (id : Option Json) (e : RequestError) : Json :=
  .fields [("jsonrpc", .ofText "2.0"), ("id", id.getD .null),
    ("error", .fields [("code", .ofInt e.code), ("message", .string e.message)])]

/-- The 32-bit word nearest to a number. -/
def nearestWord (n : Int) : UInt32 := UInt32.ofNat (min n.toNat 4294967295)

/-- The diagnostics of a document, told unasked. A version that is not positive is left out. -/
def publication (uri : Bytes) (version : Int) (items : List Json) : Json :=
  .fields [("jsonrpc", .ofText "2.0"), ("method", .ofText "textDocument/publishDiagnostics"),
    ("params", .fields ([("uri", .string uri)] ++
      (if 0 < version then [("version", .ofWord (nearestWord version))] else []) ++ [("diagnostics", .array items)]))]

/-- What the server can do. -/
def capabilities : Json :=
  .fields [
    ("capabilities", .fields [
      ("textDocumentSync", .fields [("openClose", .bool true), ("change", .ofNat 2),
        ("save", .fields [("includeText", .bool true)])]),
      ("definitionProvider", .bool true),
      ("documentSymbolProvider", .bool true),
      ("semanticTokensProvider", .fields [
        ("legend", .fields [("tokenTypes", .array (Highlight.legendKinds.map Json.ofText)),
          ("tokenModifiers", .array (Highlight.legendModifiers.map Json.ofText))]),
        ("full", .bool true)])]),
    ("serverInfo", .fields [("name", .ofText Release.tool),
      ("version", .string Release.current.version)])]

/-- Coloured parts of a document. -/
def marksValue (words : List UInt32) : Json := .fields [("data", .array (words.map Json.ofWord))]

end SecurityRules.Server
