import SecurityRules.Cache
import SecurityRules.Check.Event
import SecurityRules.Check.Files
import SecurityRules.Diagnostic
import SecurityRules.FileUri

/-!
# Checking files

Every file is loaded, looked up in the cache and, if it is not there, analysed and kept. What happens to each
file is told step by step. Malformed rules never stop a check; a path that leads nowhere does.
-/

namespace SecurityRules.Check

/-- How files are checked. -/
structure Options where
  analysis : AnalysisOptions := {}
  patterns : List Bytes := []
  /-- How many diagnostics are kept for each file. -/
  limit : Int := 0
  cache : Option Cache := none
  /-- How many milliseconds each phase of the analysis of a file takes. -/
  clock : Bytes → Bytes → Float := fun _ _ => 0

/-- What came out for one file. -/
structure FileResult where
  path : Bytes
  /-- The file, if it could be loaded. -/
  file : Option SourceFile := none
  bag : Bag
  /-- How many diagnostics did not fit. -/
  dropped : Nat := 0
  timings : Timing.Report := {}
  isCached : Bool := false
  /-- The analysis, if there was one. -/
  document : Option Document := none

/-- Whether an error was found. -/
def FileResult.hasErrors (r : FileResult) : Bool := r.bag.hasErrors

/-- How the check of a file ends. -/
def FileResult.status (r : FileResult) : Status := if r.hasErrors then .error else .done

/-- What came out for all files, in the order of their paths. -/
structure Result where
  files : List FileResult

namespace Result

def hasErrors (r : Result) : Bool := r.files.any (·.hasErrors)

/-- The number of diagnostics of one severity. -/
def count (r : Result) (severity : Severity) : Nat := (r.files.map fun f => f.bag.count severity).sum

/-- How many results came from the cache. -/
def hits (r : Result) : Nat := r.files.countP (·.isCached)

/-- The phases of all files together. -/
def timings (r : Result) : Timing.Report := Timing.aggregate (r.files.map (·.timings))

end Result

/-- Reads a rules file. -/
def loadFile (disk : Disk) (path : Bytes) : Except PathError SourceFile :=
  (disk.read path).map fun text => SourceFile.ofBytes path text false

/-- The message for a file that cannot be read. -/
def loadMessage (e : PathError) : Bytes := "read " ++ e.path ++ ": " ++ e.message

/-- Diagnostics up to a limit, in the order of reports and without repetitions, and how many did not fit. -/
def collect (limit : Int) (ds : List Diagnostic) : Bag × Nat :=
  let (bag, dropped) := (Bag.empty limit).addAll ds
  (bag.sort.dedup.1, dropped)

/-- The report of an analysis, by how long its phases took. -/
def timingsOf (d : Document) (took : Bytes → Float := fun _ => 0) : Timing.Report :=
  Timing.Report.ofPhases (d.phases took)

/-- Analyses a file and keeps the result. -/
def analyzeFile (options : Options) (path : Bytes) (file : SourceFile) (disk : Disk) :
    Disk × FileResult × List Event :=
  let uri := FileUri.ofPath disk.workingDirectory (SlashPath.absolute disk.workingDirectory path)
  let document := Document.analyze uri 0 file options.analysis
  let (bag, dropped) := collect options.limit document.diagnostics
  let timings := timingsOf document (options.clock path)
  let result : FileResult :=
    { path, file := some file, bag, dropped, timings, document := some document }
  let entry : CacheEntry :=
    { path, diagnostics := document.diagnostics, total := timings.total, phases := some timings.phases
      isBroken := document.hasErrors }
  let (disk, failed) := match options.cache with
    | none => (disk, none)
    | some cache => cache.put (CacheKey.ofText file.content options.analysis) entry disk
  let problem := failed.map fun e => ("cache " ++ path ++ ": " ++ e.message : Bytes)
  (disk, result, [{ file := path, stage := .parse, status := .working },
    { file := path, stage := .diagnose, status := .working },
    { file := path, stage := .diagnose, status := result.status, problem }])

/-- The result of a file that was kept earlier. A result that cannot be read counts as missing. -/
def cached? (options : Options) (path : Bytes) (file : SourceFile) (disk : Disk) : Option FileResult :=
  match options.cache with
  | none => none
  | some cache =>
    match cache.get (CacheKey.ofText file.content options.analysis) disk with
    | .ok (some entry) =>
      let (bag, dropped) := collect options.limit entry.diagnostics
      some { path, file := some file, bag, dropped, timings := entry.timings, isCached := true }
    | _ => none

/-- Checks one file. -/
def checkFile (options : Options) (path : Bytes) (disk : Disk) : Disk × FileResult × List Event :=
  let loading : Event := { file := path, stage := .load, status := .working }
  match loadFile disk path with
  | .error e =>
    let diagnostic : Diagnostic :=
      { severity := .error, code := .loadError, message := "failed to load file: " ++ loadMessage e
        span := {} }
    let result : FileResult := { path, bag := ((Bag.empty options.limit).add diagnostic).1 }
    (disk, result,
      [loading, { file := path, stage := .load, status := .error, problem := some (loadMessage e) }])
  | .ok file =>
    let asking : List Event :=
      if options.cache.isSome then [{ file := path, stage := .cache, status := .working }] else []
    match cached? options path file disk with
    | some result =>
      (disk, result, loading :: asking ++
        [{ file := path, stage := .cache, status := result.status, isCached := true }])
    | none =>
      let (disk, result, events) := analyzeFile options path file disk
      (disk, result, loading :: asking ++ events)

/-- Checks files one after the other. -/
def checkFiles (options : Options) : List Bytes → Disk → Disk × List FileResult × List Event
  | [], disk => (disk, [], [])
  | path :: rest, disk =>
    let (disk, result, events) := checkFile options path disk
    let (disk, results, more) := checkFiles options rest disk
    (disk, result :: results, events ++ more)

/-- What a check leaves behind: the disk, the results, and what happened. -/
structure Outcome where
  disk : Disk
  result : Result
  events : List Event

/-- Why there is no result. -/
inductive Failure where
  | listing (e : PathError)
  | canceled

def Failure.message : Failure → Bytes
  | .listing e => listingMessage e
  | .canceled => "context canceled"

/-- Checks all files that paths stand for. A check that is called off before it starts fails, unless there is
nothing to do. -/
def run (disk : Disk) (paths : List Bytes) (options : Options) (isCanceled : Bool := false) :
    Except Failure Outcome :=
  match listFiles disk paths options.patterns with
  | .error e => .error (.listing e)
  | .ok files =>
    if isCanceled && !files.isEmpty then .error .canceled
    else
      let queued : List Event := files.map fun path => { file := path, stage := .load, status := .queued }
      let (disk, results, events) := checkFiles options files disk
      .ok { disk, result := ⟨results⟩, events := queued ++ events }

end SecurityRules.Check
