import SecurityRules.Diagnostic
import SecurityRules.Report.ShownPath
import SecurityRules.SourceFile
import SecurityRules.Text.Style
import SecurityRules.Text.Width

/-!
# The report for readers

Each diagnostic has a header `path:line:column: SEVERITY CODE: message` and, if the document is at hand, the
line it stands on with a marker below. Columns count characters; the marker is aligned by display cells.
-/

namespace SecurityRules.Report

open Text (styled)

/-- How the report looks. -/
structure PrettyOptions where
  colours : Bool := false
  /-- The number of lines shown before and behind the marked one. -/
  context : Int := 0
  view : PathView := {}
  showNotes : Bool := false

/-- Colours of severities. -/
def severityStyle (s : Severity) : Text.Style :=
  if s = .error then [.red, .bold] else if s = .warning then [.yellow, .bold] else [.cyan, .bold]

def locationStyle : Text.Style := [.bold]
def codeStyle : Text.Style := [.bold]
def gutterStyle : Text.Style := [.blue]
def markerStyle : Text.Style := [.red, .bold]
def noteStyle : Text.Style := [.cyan]

/-- Line and character column of a point, counted from one. -/
def displayPosition (file : SourceFile) (p : Point) : Nat × Nat :=
  (p.row.toNat + 1, Utf8.count ((file.line p.row).take p.column.toNat) + 1)

/-- A path with the position of a point, if the document is at hand. -/
def location (shown : Bytes) (file? : Option SourceFile) (p : Point) : Bytes :=
  match file? with
  | none => shown
  | some file =>
    let (line, column) := displayPosition file p
    shown ++ ":" ++ Bytes.decimal line ++ ":" ++ Bytes.decimal column

/-- Tabs as four spaces. -/
def expandTabs (s : Bytes) : Bytes := s.flatMap fun b => if b == 0x09 then Bytes.fill 4 0x20 else [b]

/-- The column behind the part of row `span.start.row` that lies in a span. -/
def stopColumn (file : SourceFile) (span : Span) (text : Bytes) : Nat :=
  if span.stop.row = span.start.row then
    min (span.stop.column + UInt32.ofNat (file.characterSize span.stop)).toNat text.length
  else text.length

/-- A caret and tildes below the part of a row that lies in a span, with blanks in front. -/
def marker (file : SourceFile) (span : Span) (text : Bytes) : Bytes × Bytes :=
  let start := min span.start.column.toNat text.length
  let stop := stopColumn file span text
  let blanks := Text.width (expandTabs (text.take start))
  let cells := Text.width (expandTabs ((text.drop start).take (stop - start)))
  (Bytes.fill blanks 0x20, "^" ++ Bytes.fill (cells - 1) 0x7E)

/-- The row of a span with some rows around it, and a marker below it. -/
def snippet (file : SourceFile) (span : Span) (context : Int) (colours : Bool) : Bytes :=
  let row := span.start.row.toNat
  if file.lineCount ≤ row then []
  else
    let around := context.toNat
    let first := row - around
    let last := min (row + around) (file.lineCount - 1)
    let gutterWidth := (Bytes.decimal (last + 1)).length
    let gutter (label : Bytes) : Bytes :=
      styled colours gutterStyle (Bytes.padLeft gutterWidth label ++ " |") ++ " "
    (List.range' first (last + 1 - first)).flatMap fun r =>
      let text := file.line (UInt32.ofNat r)
      let below : Bytes :=
        if r = row then
          let (blanks, marks) := marker file span text
          gutter [] ++ blanks ++ styled colours markerStyle marks ++ "\n"
        else []
      gutter (Bytes.decimal (r + 1)) ++ expandTabs text ++ "\n" ++ below

/-- The lines of one diagnostic. -/
def prettyItem (options : PrettyOptions) (shown : Bytes) (file? : Option SourceFile) (d : Diagnostic) :
    Bytes :=
  let header := styled options.colours locationStyle (location shown file? d.span.start) ++ ": " ++
    styled options.colours (severityStyle d.severity) d.severity.name ++ " " ++
    styled options.colours codeStyle d.code.id ++ ": " ++ d.message ++ "\n"
  let source := (file?.map fun file => snippet file d.span options.context options.colours).getD []
  let remark (n : Note) : Bytes :=
    "  " ++ styled options.colours noteStyle "note:" ++ " " ++ location shown file? n.span.start ++
      ": " ++ n.message ++ "\n"
  header ++ source ++ (if options.showNotes then d.notes.flatMap remark else [])

/-- The whole report. An empty path stands for that of the file. -/
def pretty (options : PrettyOptions) (diagnostics : List Diagnostic) (file? : Option SourceFile)
    (path : Bytes) : Bytes :=
  let path := if path.isEmpty then (file?.map (·.path)).getD [] else path
  diagnostics.flatMap (prettyItem options (options.view.shown path) file?)

/-- A number with a noun in singular or plural. -/
def counted (n : Int) (noun : String) : Bytes :=
  if n = 1 then "1 " ++ Bytes.ofString noun else Bytes.decimalInt n ++ " " ++ noun ++ "s"

/-- The closing line of a check. -/
def summary (errors warnings files : Int) (colours : Bool) : Bytes :=
  if errors = 0 && warnings = 0 then
    styled colours (severityStyle .info) "ok:" ++ " " ++ counted files "file" ++ "\n"
  else
    let part (n : Int) (noun : String) (severity : Severity) : List Bytes :=
      if 0 < n then [styled colours (severityStyle severity) (counted n noun)] else []
    Bytes.join ", " (part errors "error" .error ++ part warnings "warning" .warning) ++ " in " ++
      counted files "file" ++ "\n"

end SecurityRules.Report
