import SecurityRules.Number.Binary64
import SecurityRules.Text.Utf8

/-!
# Timings

How long the phases of an analysis took, in milliseconds. A stopwatch records phases in the order in which
they stop; reports of several documents add up phase by phase.
-/

namespace SecurityRules.Timing

/-- One phase: how long it took, and a remark on what it did. -/
structure Phase where
  name : Bytes
  duration : Float
  note : Bytes := []

/-- The phases of an analysis and the time they took together. -/
structure Report where
  total : Float := 0
  phases : List Phase := []

/-- The report of recorded phases; the total is their sum. -/
def Report.ofPhases (phases : List Phase) : Report where
  total := phases.foldl (fun sum p => sum + p.duration) 0
  phases

/-- Adds a phase to the one with its name, or behind the others. Remarks are dropped. -/
def addPhase (phases : List Phase) (p : Phase) : List Phase :=
  if phases.any (·.name == p.name) then
    phases.map fun q => if q.name == p.name then { q with duration := q.duration + p.duration } else q
  else phases ++ [{ name := p.name, duration := 0 + p.duration }]

/-- The sum of two reports. -/
def Report.add (sum r : Report) : Report where
  total := sum.total + r.total
  phases := r.phases.foldl addPhase sum.phases

/-- The sum of reports; phases stand in the order in which they first occur. -/
def aggregate (reports : List Report) : Report := reports.foldl Report.add {}

/-- One row of the table. -/
def Phase.render (total : Float) (p : Phase) : Bytes :=
  let share := if total > 0 then 100 * p.duration / total else 0
  let remark : Bytes := if p.note.isEmpty then [] else "  " ++ p.note
  "  " ++ Utf8.padRight 12 p.name ++ " " ++ Bytes.padLeft 9 (Number.fixed 2 p.duration) ++ " ms " ++
    Bytes.padLeft 5 (Number.fixed 1 share) ++ "%" ++ remark ++ "\n"

/-- The report as a table with the share of each phase. -/
def Report.render (r : Report) : Bytes :=
  "timings:\n" ++ r.phases.flatMap (Phase.render r.total) ++
    "  " ++ Utf8.padRight 12 "total" ++ " " ++ Bytes.padLeft 9 (Number.fixed 2 r.total) ++ " ms\n"

/-- A phase that has been started: when, and whether it was stopped. -/
structure Running where
  name : Bytes
  started : Int
  isStopped : Bool := false

/-- The phases that were stopped, in that order. -/
structure Stopwatch where
  recorded : List Phase := []

/-- Nanoseconds as milliseconds. -/
def milliseconds (nanoseconds : Int) : Float := Float.ofInt nanoseconds / 1000000

/-- Stops a phase at a time in nanoseconds. Only the first stop counts. -/
def Stopwatch.stop (w : Stopwatch) (r : Running) (now : Int) (note : Bytes) : Stopwatch × Running :=
  if r.isStopped then (w, r)
  else
    (⟨w.recorded ++ [⟨r.name, milliseconds (now - r.started), note⟩]⟩, { r with isStopped := true })

/-- The report of the recorded phases. -/
def Stopwatch.report (w : Stopwatch) : Report := Report.ofPhases w.recorded

end SecurityRules.Timing
