import SecurityRules.Check.Event
import SecurityRules.Text.Width

/-!
# The progress of a check on a terminal

A row for each file, a header that counts them, and a bar. What does not fit on the screen is left out, files
that are done first.
-/

namespace SecurityRules.Check

/-- What a row says about its file. -/
inductive RowState where
  | queued | loading | cache | parsing | diagnosing | ok | cached | failed
deriving Repr, DecidableEq

namespace RowState

def label : RowState → String
  | queued => "queued"
  | loading => "loading"
  | cache => "cache"
  | parsing => "parsing"
  | diagnosing => "diagnosing"
  | ok => "ok"
  | cached => "cached"
  | failed => "error"

/-- Whether nothing more will happen to the file. -/
def isFinal : RowState → Bool
  | ok | cached | failed => true
  | _ => false

/-- Whether the row should stay on the screen. -/
def needsAttention (s : RowState) : Bool := s == failed || !s.isFinal

/-- The state in a stage that is under way. -/
def ofStage : Stage → RowState
  | .load => loading
  | .cache => cache
  | .parse => parsing
  | .diagnose => diagnosing

/-- The state that news tell of. News of an unknown kind tell nothing; the stage only matters for work that is
under way. -/
def ofNews? (status : Option Status) (stage : Option Stage) (isCached : Bool) : Option RowState :=
  match status with
  | none => none
  | some .queued => some queued
  | some .working => stage.map ofStage
  | some .done => some (if isCached then cached else ok)
  | some .error => some failed

end RowState

/-- The row of a file. -/
structure Row where
  path : Bytes
  state : RowState := .queued
  /-- How long the file took, in nanoseconds. -/
  elapsed : Int := 0

/-- What is on the screen. -/
structure Progress where
  title : Bytes
  rows : List Row
  /-- How often the spinner turned. -/
  turns : Nat := 0
  width : Int := 80
  barWidth : Int := 76
  /-- The height of the screen; zero if it is not known. -/
  height : Int := 0
  isDone : Bool := false

namespace Progress

/-- A screen with a queued row for each file. -/
def start (title : Bytes) (files : List Bytes) : Progress where
  title
  rows := files.map fun path => { path }

/-- Changes the last row of a path. -/
def updateLast (path : Bytes) (change : Row → Row) (rows : List Row) : List Row :=
  let later := rows.reverse.takeWhile fun r => r.path != path
  match rows.reverse.drop later.length with
  | [] => rows
  | row :: earlier => (later ++ change row :: earlier).reverse

/-- News about a file: a new state, and the time that counts if nothing more happens. -/
def tell (p : Progress) (path : Bytes) (state : Option RowState) (elapsed : Int) : Progress :=
  let change (r : Row) : Row :=
    let r := { r with state := state.getD r.state }
    if r.state.isFinal then { r with elapsed } else r
  { p with rows := updateLast path change p.rows }

/-- The check is over. -/
def finish (p : Progress) : Progress := { p with isDone := true }

/-- The spinner turns, until the check is over. -/
def turn (p : Progress) : Progress := if p.isDone then p else { p with turns := p.turns + 1 }

/-- The screen changes its size; a width that is not positive says nothing. -/
def resize (p : Progress) (width height : Int) : Progress :=
  if 0 < width then { p with width, barWidth := width - 4, height } else { p with height }

/-- The shapes of the spinner. -/
def frames : List String := ["⣾ ", "⣽ ", "⣻ ", "⢿ ", "⡿ ", "⣟ ", "⣯ ", "⣷ "]

def frame (p : Progress) : Bytes := frames[p.turns % frames.length]?.getD ""

/-- Text in one style: tabs are four blanks, and short lines are filled up with blanks. -/
def block (s : Bytes) : Bytes :=
  let s := Bytes.replaceAll "\r\n" "\n" (Bytes.replaceAll "\t" "    " s)
  let lines := Bytes.splitOn 0x0A s
  let widest := (lines.map Text.width).foldl max 0
  Bytes.join "\n" (lines.map fun line => line ++ Bytes.fill (widest - Text.width line) 0x20)

/-- The line above the rows. -/
def header (p : Progress) : Bytes :=
  let finished := p.rows.countP (·.state.isFinal)
  let failed := p.rows.countP (·.state == .failed)
  let counts : Bytes :=
    p.title ++ " (" ++ Bytes.decimal finished ++ "/" ++ Bytes.decimal p.rows.length ++ ")"
  let failing : Bytes := if failed = 0 then "" else ", " ++ Bytes.decimal failed ++ " failing"
  let lead : Bytes := if p.isDone then "done: " else p.frame ++ " "
  block (lead ++ counts ++ failing)

/-- A time in nanoseconds, rounded to milliseconds. -/
def roundedMilliseconds (nanoseconds : Nat) : Nat := (nanoseconds + 500000) / 1000000

/-- Seconds with as many decimal places as are needed. -/
def renderSeconds (seconds milliseconds : Nat) : Bytes :=
  let digits := Bytes.padZeros 3 (Bytes.decimal milliseconds)
  let kept := (digits.reverse.dropWhile (· == 0x30)).reverse
  Bytes.decimal seconds ++ Bytes.enclosed "." kept "" ++ "s"

/-- A time in milliseconds: below a second in these, else in hours, minutes and seconds. -/
def renderMilliseconds (n : Nat) : Bytes :=
  if n = 0 then "0s"
  else if n < 1000 then Bytes.decimal n ++ "ms"
  else
    let seconds := n / 1000
    let hours : Bytes := if seconds < 3600 then "" else Bytes.decimal (seconds / 3600) ++ "h"
    let minutes : Bytes := if seconds < 60 then "" else Bytes.decimal (seconds / 60 % 60) ++ "m"
    hours ++ minutes ++ renderSeconds (seconds % 60) (n % 1000)

/-- The columns of the state and of the rest besides the path. -/
def stateWidth : Nat := 10

/-- The most cells of a path. -/
def pathWidth (p : Progress) : Int := max (p.width - stateWidth - 14) 20

/-- One row. -/
def renderRow (p : Progress) (r : Row) : Bytes :=
  let time : Bytes :=
    if r.state.isFinal && 0 < r.elapsed then "  " ++ renderMilliseconds (roundedMilliseconds r.elapsed.toNat)
    else ""
  "  " ++ Bytes.padLeft stateWidth r.state.label ++ " " ++ Text.shortened r.path p.pathWidth ++ time ++ "\n"

/-- The rows that fit on the screen, and how many do not. -/
def visibleRows (p : Progress) : List Row × Nat :=
  let room := p.height - 6
  if p.height = 0 || (p.rows.length : Int) ≤ room then (p.rows, 0)
  else
    let limit := (max (room - 1) 1).toNat
    let (first, last) := p.rows.partition (·.state.needsAttention)
    let shown := (first ++ last).take limit
    (shown, p.rows.length - shown.length)

/-- The bar is empty until the check is over, then full. -/
def bar (p : Progress) : Bytes :=
  let percent : Bytes := if p.isDone then " 100%" else "   0%"
  let cell : Bytes := if p.isDone then "█" else "░"
  (List.replicate (p.barWidth - percent.length).toNat cell).flatten ++ percent

/-- The screen as text; empty without files. -/
def render (p : Progress) : Bytes :=
  if p.rows.isEmpty then ""
  else
    let (shown, hidden) := p.visibleRows
    let more : Bytes := if hidden = 0 then "" else "  ... " ++ Bytes.decimal hidden ++ " more\n"
    p.header ++ "\n\n" ++ shown.flatMap p.renderRow ++ more ++ "\n" ++ p.bar ++ "\n"

end Progress

end SecurityRules.Check
