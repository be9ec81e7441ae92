import SecurityRules.Span
import SecurityRules.Text.Quoted

/-!
# Diagnostics

What is reported about a document: how bad it is, which kind of finding it is, where it is and what it says.
-/

namespace SecurityRules

/-- How bad a finding is; larger is worse. -/
structure Severity where
  level : UInt8
deriving Repr, DecidableEq, Inhabited

namespace Severity

def info : Severity := ⟨0⟩
def warning : Severity := ⟨1⟩
def error : Severity := ⟨2⟩

/-- The name in reports. -/
def name (s : Severity) : String :=
  if s = info then "INFO" else if s = warning then "WARNING" else if s = error then "ERROR" else "UNKNOWN"

/-- The name in short reports. -/
def label (s : Severity) : String :=
  if s = error then "error" else if s = warning then "warning" else "info"

/-- Whether a finding is an error or worse. -/
def isError (s : Severity) : Bool := error.level ≤ s.level

end Severity

/-- The number of a kind of finding. -/
structure Code where
  number : UInt16
deriving Repr, DecidableEq, Inhabited

namespace Code

def syntaxError : Code := ⟨2001⟩
def missingElement : Code := ⟨2002⟩
def invalidVersion : Code := ⟨2201⟩
def unsupportedVersion : Code := ⟨2202⟩
def unresolvedFunction : Code := ⟨3005⟩
def loadError : Code := ⟨4001⟩

/-- The identifier in reports: the thousands say what part of the analysis found it. -/
def id (c : Code) : Bytes :=
  let digits := Bytes.decimal c.number.toNat
  match c.number.toNat / 1000 with
  | 2 => "SYN" ++ digits
  | 3 => "SEM" ++ digits
  | 4 => "IO" ++ digits
  | _ => "E0000"

/-- What the finding is about. -/
def title (c : Code) : String :=
  match c.number.toNat with
  | 2000 => "Syntax information"
  | 2001 => "Syntax error"
  | 2002 => "Missing syntax element"
  | 2101 => "Unexpected top-level construct"
  | 2201 => "Invalid rules_version"
  | 2202 => "Unsupported rules_version"
  | 3000 => "Semantic information"
  | 3005 => "No function definition found"
  | 4001 => "I/O load file error"
  | _ => "Unknown error"

/-- Identifier and title. -/
def render (c : Code) : Bytes := "[" ++ c.id ++ "]: " ++ c.title

end Code

/-- A remark that belongs to a finding. -/
structure Note where
  span : Span
  message : Bytes
deriving Repr, DecidableEq

/-- One finding. -/
structure Diagnostic where
  severity : Severity
  code : Code
  message : Bytes
  span : Span
  notes : List Note := []
deriving Repr, DecidableEq

namespace Diagnostic

/-- The order of reports: by start, by end, the worse first, by code. -/
def before (d e : Diagnostic) : Bool :=
  if d.span.start ≠ e.span.start then d.span.start.before e.span.start
  else if d.span.stop ≠ e.span.stop then d.span.stop.before e.span.stop
  else if d.severity ≠ e.severity then e.severity.level < d.severity.level
  else d.code.number < e.code.number

/-- Whether two findings say the same of the same place. -/
def repeats (d e : Diagnostic) : Bool := d.code == e.code && d.span == e.span && d.message == e.message

end Diagnostic

/-!
## Collected diagnostics

The diagnostics of one document up to a limit.
-/

/-- Diagnostics and how many of them fit. -/
structure Bag where
  capacity : Nat
  items : List Diagnostic
deriving Repr

namespace Bag

/-- The largest limit. -/
def maxCapacity : Nat := 65535

/-- An empty bag. A limit that is not positive or too large means the largest one. -/
def empty (limit : Int) : Bag where
  capacity := if limit ≤ 0 || (maxCapacity : Int) < limit then maxCapacity else limit.toNat
  items := []

/-- Adds a diagnostic if it fits, and says whether it did. -/
def add (b : Bag) (d : Diagnostic) : Bag × Bool :=
  if b.items.length < b.capacity then ({ b with items := b.items ++ [d] }, true) else (b, false)

/-- Adds diagnostics as long as they fit, and counts those that did not. -/
def addAll (b : Bag) (ds : List Diagnostic) : Bag × Nat :=
  let room := b.capacity - b.items.length
  ({ b with items := b.items ++ ds.take room }, ds.length - room)

/-- Whether there is an error. -/
def hasErrors (b : Bag) : Bool := b.items.any (·.severity.isError)

/-- The number of diagnostics of exactly one severity. -/
def count (b : Bag) (severity : Severity) : Nat := b.items.countP (·.severity == severity)

/-- Brings the items in the order of reports; what is equal there keeps its order. -/
def sort (b : Bag) : Bag := { b with items := b.items.mergeSort fun d e => !e.before d }

/-- The items without those that repeat one of `seen` or an earlier one. -/
def firsts (seen : List Diagnostic) : List Diagnostic → List Diagnostic
  | [] => []
  | d :: rest => if seen.any d.repeats then firsts seen rest else d :: firsts (d :: seen) rest

/-- Drops repetitions and counts them. -/
def dedup (b : Bag) : Bag × Nat :=
  let kept := firsts [] b.items
  ({ b with items := kept }, b.items.length - kept.length)

end Bag

namespace ShortReport

/-!
## The short report

One line for each diagnostic, `path:line:column: severity CODE message`, and one for each note if asked for.
The lines are sorted, so the report does not depend on the order of the findings.
-/

/-- One line of the report. -/
structure Line where
  /-- Counted from one, in 32-bit words. -/
  line : UInt32
  column : UInt32
  severity : Bytes
  code : Bytes
  message : Bytes

/-- A message on one line: line breaks become spaces, and white space at the ends goes. -/
def oneLine (message : Bytes) : Bytes :=
  Text.trimBlanks ((Bytes.replaceAll "\r\n" " " message).map fun b =>
    if b == 0x0D || b == 0x0A then 0x20 else b)

/-- The line of one finding. -/
def lineOf (start : Point) (severity : String) (code : Code) (message : Bytes) : Line :=
  ⟨start.row + 1, start.column + 1, severity, code.id, oneLine message⟩

/-- The lines of a diagnostic. -/
def linesOf (withNotes : Bool) (d : Diagnostic) : List Line :=
  lineOf d.span.start d.severity.label d.code d.message ::
    if withNotes then d.notes.map fun n => lineOf n.span.start "note" d.code n.message else []

/-- The order of lines. -/
def Line.before (a b : Line) : Bool :=
  if a.line ≠ b.line then a.line < b.line
  else if a.column ≠ b.column then a.column < b.column
  else if a.severity ≠ b.severity then Bytes.before a.severity b.severity
  else if a.code ≠ b.code then Bytes.before a.code b.code
  else Bytes.before a.message b.message

def Line.render (path : Bytes) (l : Line) : Bytes :=
  path ++ ":" ++ Bytes.decimal l.line.toNat ++ ":" ++ Bytes.decimal l.column.toNat ++ ": " ++
    l.severity ++ " " ++ l.code ++ " " ++ l.message

/-- The whole report, without a line feed at its end. -/
def render (diagnostics : List Diagnostic) (path : Bytes) (withNotes : Bool) : Bytes :=
  let lines := (diagnostics.flatMap (linesOf withNotes)).mergeSort fun a b => !b.before a
  Bytes.join "\n" (lines.map (Line.render path))

end ShortReport

end SecurityRules
