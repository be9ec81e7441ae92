import SecurityRules.Diagnostic
import SecurityRules.Highlight
import SecurityRules.Json
import SecurityRules.Report.ShownPath
import SecurityRules.SourceFile
import SecurityRules.Text.Quoted

/-!
# Reports for programs

The diagnostics of several documents as one JSON value, and the coloured parts of a document.
-/

namespace SecurityRules.Report

/-- What the report holds. -/
structure MachineOptions where
  /-- Whether lines and columns are given besides byte offsets. -/
  positions : Bool := false
  view : PathView := {}
  /-- The most diagnostics to list; no limit if not positive. -/
  limit : Int := 0
  notes : Bool := false

/-- The diagnostics of one document. The file is absent if it could not be read, the diagnostics if it was
not looked at. -/
structure Listing where
  path : Bytes
  file? : Option SourceFile := none
  items? : Option (List Diagnostic) := none

/-- Where a span stands. Byte offsets exclude the end; lines and columns count from one and include it. A
position that wraps round to zero is left out. -/
def locationValue (options : MachineOptions) (path : Bytes) (file? : Option SourceFile) (span : Span) :
    Json :=
  match file? with
  | none => .fields [("file", .string path), ("start_byte", .ofNat 0), ("end_byte", .ofNat 0)]
  | some file =>
    let stop := UInt32.ofNat (file.offset span.stop) + UInt32.ofNat (file.characterSize span.stop)
    .fields ([("file", .string path),
        ("start_byte", .ofNat (file.offset span.start)),
        ("end_byte", .ofWord stop)] ++
      if options.positions then
        Json.unlessZero "start_line" (span.start.row + 1) ++
          Json.unlessZero "start_col" (span.start.column + 1) ++
          Json.unlessZero "end_line" (span.stop.row + 1) ++
          Json.unlessZero "end_col" (span.stop.column + 1)
      else [])

/-- One diagnostic. -/
def itemValue (options : MachineOptions) (path : Bytes) (file? : Option SourceFile) (d : Diagnostic) :
    Json :=
  let notes := d.notes.map fun n =>
    Json.fields [("message", .string n.message),
      ("location", locationValue options path file? n.span)]
  .fields ([("severity", .ofText d.severity.name),
      ("code", .string d.code.id),
      ("title", .ofText d.code.title),
      ("message", .string d.message),
      ("location", locationValue options path file? d.span)] ++
    if options.notes && !notes.isEmpty then [("notes", .array notes)] else [])

/-- The diagnostics of one document. -/
def listingValues (options : MachineOptions) (l : Listing) : List Json :=
  (l.items?.getD []).map (itemValue options (options.view.shown l.path) l.file?)

/-- The whole report as a value. -/
def machineValue (options : MachineOptions) (listings : List Listing) : Json :=
  let all := listings.flatMap (listingValues options)
  let items := if 0 < options.limit then all.take options.limit.toNat else all
  .fields [("diagnostics", .array items), ("count", .ofNat items.length),
    ("files", .ofNat listings.length)]

/-- The whole report as text. -/
def machine (options : MachineOptions) (listings : List Listing) : Bytes :=
  (machineValue options listings).indented

/-! ## Coloured parts -/

open Highlight (Mark)

/-- The text that a mark covers, on its row. -/
def markText (file : SourceFile) (m : Mark) : Bytes :=
  file.slice ⟨m.row, m.column⟩ ⟨m.row, m.column + m.length⟩

/-- One line for the mark with a number. -/
def markLine (file : SourceFile) (number : Nat) (m : Mark) : Bytes :=
  let modifiers : Bytes :=
    if m.modifiers &&& Highlight.declarationBit != 0 then " [declaration]" else ""
  Bytes.padLeft 3 (Bytes.decimal number) ++ ": " ++ Utf8.padRight 9 (Highlight.kindName m.kind) ++
    " " ++ Bytes.decimal m.row.toNat ++ ":" ++ Bytes.decimal m.column.toNat ++ "+" ++
    Bytes.decimal m.length.toNat ++ " " ++ Text.quoted (markText file m) ++ modifiers ++ "\n"

/-- Marks with a line each, numbered from one. -/
def marks (file : SourceFile) (ms : List Mark) : Bytes :=
  (ms.zipIdx 1).flatMap fun (m, number) => markLine file number m

/-- One mark as a value. -/
def markValue (file : SourceFile) (m : Mark) : Json :=
  .fields ([("line", .ofWord m.row), ("col", .ofWord m.column), ("length", .ofWord m.length),
      ("type", .ofText (Highlight.kindName m.kind))] ++
    Json.unlessZero "modifiers" m.modifiers ++ [("text", .string (markText file m))])

/-- Marks and what an editor is sent for them, as JSON. -/
def marksMachine (file : SourceFile) (ms : List Mark) : Bytes :=
  (Json.fields [("tokens", .array (ms.map (markValue file))),
    ("data", .array ((Highlight.encode (ms.map (Highlight.toUtf16 file))).map Json.ofWord))]).indented

end SecurityRules.Report
