import SecurityRules.ByteSize
import SecurityRules.CommandLine.Answer
import SecurityRules.CommandLine.Help
import SecurityRules.Diagnostic
import SecurityRules.Report.Machine
import SecurityRules.Report.Pretty
import SecurityRules.Report.Trees

/-!
# Runs of the program

Each command is a function from what the run is given to what it leaves. Faults are found in a fixed order:
first those of the words of the command line, then of the settings, then of the files.
-/

namespace SecurityRules.CommandLine

open Report (PathView)

/-! ## What commands share -/

/-- The settings of a file with those flags in their place that were given. -/
def settingsFor (given : Given) (s : Surroundings) : Except Failure Settings := do
  let (settings, _) ← (Settings.resolve s.disk s.disk.workingDirectory (given.text "config")).mapError
    Failure.settings
  let color := if given.has "color" then Text.lowered (Text.trimBlanks (given.text "color"))
    else settings.output.color
  let settings := { settings with
    output.color := color
    server.maxDiagnostics := (given.number? "max-diagnostics").getD settings.server.maxDiagnostics }
  match settings.fault? with
  | some fault => throw (.overridden fault)
  | none => return settings

/-- Whether output is coloured under settings. -/
def colours (settings : Settings) (s : Surroundings) : Bool :=
  ((Switch.ofName? settings.output.color).getD .auto).resolve s.showsColours

/-- Loads and analyses a file. -/
def loadDocument (settings : Settings) (s : Surroundings) (path : Bytes) : Except Failure Document :=
  match Check.loadFile s.disk path with
  | .error cause => .error (.unreadable path cause)
  | .ok file => .ok (Document.analyze path 0 file settings.analysisOptions)

/-- The timings of a document, if they were asked for. -/
def timingLines (given : Given) (s : Surroundings) (path : Bytes) (d : Document) : Bytes :=
  if given.isOn "timings" then (Check.timingsOf d (s.clock path)).render else []

/-- Answers with what a computation gives, which leaves the disk as it is. -/
def answering (s : Surroundings) (result : Except Failure Answer) : Answer :=
  match result with
  | .ok answer => answer
  | .error failure => Answer.failing s.disk failure

/-- A format out of two. -/
inductive Format where
  | pretty | json
deriving Repr, DecidableEq

/-- The format with a name. -/
def Format.ofName? (name : Bytes) : Option Format :=
  if name = Bytes.ofString "pretty" then some .pretty
  else if name = Bytes.ofString "json" then some .json
  else none

/-- The format that was asked for. Some commands do not mind the case of letters. -/
def formatOf (given : Given) (mindsCase : Bool) : Except Failure Format :=
  let name := given.text "format" "pretty"
  match Format.ofName? (if mindsCase then name else Text.lowered name) with
  | some format => .ok format
  | none => .error (.unknownFormat name "pretty or json")

/-! ## Checking -/

/-- The formats of a check. -/
inductive CheckFormat where
  | pretty | short | json
deriving Repr, DecidableEq

/-- The format with a name. -/
def CheckFormat.ofName? (name : Bytes) : Option CheckFormat :=
  if name = Bytes.ofString "pretty" then some .pretty
  else if name = Bytes.ofString "short" then some .short
  else if name = Bytes.ofString "json" then some .json
  else none

/-- The format of a check: that of its flag, else that of the settings. -/
def checkFormat (given : Given) (settings : Settings) : Except Failure CheckFormat :=
  let name := if given.has "format" then Text.lowered (Text.trimBlanks (given.text "format"))
    else settings.output.format
  match CheckFormat.ofName? name with
  | some format => .ok format
  | none => .error (.unknownFormat name "pretty, short or json")

/-- The report on one file for readers. -/
def prettyFile (view : PathView) (inColour : Bool) (f : Check.FileResult) : Bytes :=
  let options : Report.PrettyOptions := { colours := inColour, view, showNotes := true }
  let rest : Bytes := if f.dropped = 0 then "" else
    view.shown f.path ++ ": " ++ Bytes.decimal f.dropped ++ " more diagnostics not shown\n"
  Report.pretty options f.bag.items f.file f.path ++ rest

/-- The report on one file with a line for each diagnostic. -/
def shortFile (view : PathView) (f : Check.FileResult) : Bytes :=
  if f.bag.items.isEmpty then "" else
    ShortReport.render f.bag.items (view.shown f.path) false ++ "\n"

/-- The report of a check. -/
def checkReport (format : CheckFormat) (workingDirectory : Bytes) (inColour : Bool) (r : Check.Result) :
    Bytes :=
  let view : PathView := { base := workingDirectory, workingDirectory }
  match format with
  | .json =>
    Report.machine { positions := true, notes := true, view := { workingDirectory } }
      (r.files.map fun f => { path := f.path, file? := f.file, items? := some f.bag.items })
  | .short => r.files.flatMap (shortFile view)
  | .pretty =>
    r.files.flatMap (prettyFile view inColour) ++
      Report.summary (r.count .error) (r.count .warning) r.files.length inColour

/-- The timings of a check, if they were asked for. -/
def checkTimings (given : Given) (r : Check.Result) : Bytes :=
  if given.isOn "timings" then
    r.timings.render ++ "  cache hits: " ++ Bytes.decimal r.hits ++ "/" ++ Bytes.decimal r.files.length ++ "\n"
  else []

/-- The cache of the settings, made if it is not there. -/
def openCache (settings : Settings) (s : Surroundings) : Disk × Except Failure Cache :=
  match settings.cacheDirectory s.environment with
  | .error e => (s.disk, .error (.noCachePlace e))
  | .ok directory =>
    let (disk, cache) := Cache.create directory s.disk
    (disk, cache.mapError Failure.cacheNotMade)

/-- The cache of a check, if it uses one. -/
def checkCache (given : Given) (settings : Settings) (s : Surroundings) :
    Disk × Except Failure (Option Cache) :=
  if given.isOn "no-cache" || !settings.check.useCache then (s.disk, .ok none)
  else
    let (disk, cache) := openCache settings s
    (disk, cache.map some)

/-- Refuses flags of a check that make no sense. -/
def checkFlags (given : Given) : Except Failure Unit := do
  if ((given.number? "jobs").getD 0) < 0 then throw .negativeJobs
  let value := given.text "ui" "auto"
  if (Switch.ofName? value).isNone then throw (.unknownSwitch "ui" value)

/-- Says that the program goes on after a check, if that was asked for. -/
def watchLine (given : Given) : Bytes :=
  if given.isOn "watch" then "watching for changes (Ctrl+C to stop)\n" else []

/-- Checks files with a cache that is ready. A check that found errors fails unless it is to go on. -/
def checkWith (given : Given) (settings : Settings) (format : CheckFormat) (cache : Option Cache)
    (disk : Disk) (inColour : Bool) (clock : Bytes → Bytes → Float := fun _ _ => 0) : Answer :=
  let options : Check.Options :=
    { analysis := settings.analysisOptions, patterns := settings.check.patterns
      limit := settings.server.maxDiagnostics, cache, clock }
  match Check.run disk given.arguments options with
  | .error e => Answer.failing disk (.check e)
  | .ok outcome =>
    let result := outcome.result
    { disk := outcome.disk
      out := checkReport format disk.workingDirectory inColour result
      err := checkTimings given result ++ watchLine given
      failure := if result.hasErrors && !given.isOn "watch" then some .checkFailed else none }

/-- Checks the files that the arguments stand for. -/
def check (given : Given) (s : Surroundings) : Answer :=
  answering s do
    let settings ← settingsFor given s
    let format ← checkFormat given settings
    checkFlags given
    match checkCache given settings s with
    | (disk, .error failure) => return Answer.failing disk failure
    | (disk, .ok cache) => return checkWith given settings format cache disk (colours settings s) s.clock

/-! ## Looking at one file -/

/-- What an editor is sent, with a line for each mark. -/
def editorLines : List UInt32 → Bytes
  | a :: b :: c :: d :: e :: rest =>
    "  [" ++ Bytes.join " " ([a, b, c, d, e].map fun n => Bytes.decimal n.toNat) ++ "]\n" ++ editorLines rest
  | _ => []

/-- Prints the coloured parts of a file. -/
def printMarks (given : Given) (s : Surroundings) (path : Bytes) : Answer :=
  answering s do
    let settings ← settingsFor given s
    let document ← loadDocument settings s path
    let marks := Highlight.splitLines document.file document.marks
    let out : Bytes := match ← formatOf given false with
      | .json => Report.marksMachine document.file marks
      | .pretty => Report.marks document.file marks ++ "data:\n" ++ editorLines document.editorWords
    return { disk := s.disk, out, err := timingLines given s path document }

/-- The diagnostics of a document as they are shown beside its tree. -/
def remarks (settings : Settings) (s : Surroundings) (d : Document) : Bytes :=
  let bag := ((Bag.empty settings.server.maxDiagnostics).addAll d.diagnostics).1
  Report.pretty
    { colours := colours settings s
      view := { mode := .baseName, workingDirectory := s.disk.workingDirectory } }
    bag.sort.items d.file d.file.path

/-- Prints a tree of a file. -/
def printTree (given : Given) (s : Surroundings) (path : Bytes) : Answer :=
  answering s do
    let settings ← settingsFor given s
    let document ← loadDocument settings s path
    let out : Bytes :=
      if given.isOn "sexp" then Report.brackets document.root ++ "\n"
      else if given.isOn "cst" then Report.parseTree document.file document.root
      else Report.typedTree document.built
    return { disk := s.disk, out, err := remarks settings s document ++ timingLines given s path document }

/-- Where a declaration stands, and the line it starts on. -/
def declarationLines (path : Bytes) (file : SourceFile) (d : Declaration) : Bytes :=
  let start := d.nameSpan.start
  d.kindName ++ (" " ++ d.name ++ " defined at " ++ path ++ ":" ++ Bytes.decimal (start.row + 1).toNat ++ ":" ++
    Bytes.decimal (start.column + 1).toNat ++ "\n  " ++ file.line d.span.start.row ++ "\n")

/-- Prints where the reference at a position is declared. -/
def printDeclaration (given : Given) (s : Surroundings) (path position : Bytes) : Answer :=
  answering s do
    let settings ← settingsFor given s
    let document ← loadDocument settings s path
    let point ← (Position.parse document.file position).mapError Failure.position
    match document.definition point with
    | .error .noTarget =>
      return { disk := s.disk, out := path ++ ": no reference at " ++ position ++ "\n" }
    | .error (.unresolved reference) =>
      let out := path ++ ": " ++ ResolveError.message (.unresolved reference) ++ "\n"
      return { disk := s.disk, out, failure := some .checkFailed }
    | .ok found =>
      return { disk := s.disk, out := declarationLines path document.file found
               err := timingLines given s path document }

/-- A declared name as a value. -/
def definitionValue (d : Definition) : Json :=
  .fields [("name", .string d.name), ("kind", .ofText d.kindName),
    ("line", .ofWord (d.nameSpan.start.row + 1)), ("column", .ofWord (d.nameSpan.start.column + 1))]

/-- Prints the outline of a file, or an index of its definitions. -/
def printSymbols (given : Given) (s : Surroundings) (path : Bytes) : Answer :=
  answering s do
    let settings ← settingsFor given s
    let document ← loadDocument settings s path
    let out : Bytes := match ← formatOf given true with
      | .json => (Json.array (document.definitions.map definitionValue)).indented
      | .pretty => Report.outline path document.outline
    return { disk := s.disk, out }

/-! ## The other commands -/

/-- Goes on with the cache of the settings. -/
def withCache (given : Given) (s : Surroundings) (go : Cache → Disk → Answer) : Answer :=
  answering s do
    let settings ← settingsFor given s
    match openCache settings s with
    | (disk, .error failure) => return Answer.failing disk failure
    | (disk, .ok cache) => return go cache disk

/-- Prints where the cache is and what it holds. -/
def printCache (given : Given) (s : Surroundings) : Answer :=
  withCache given s fun cache disk =>
    let stats := cache.stats disk
    { disk
      out := "dir:     " ++ cache.directory ++ "\nentries: " ++ Bytes.decimal stats.entries ++
        "\nsize:    " ++ ByteSize.render stats.bytes ++ "\n" }

/-- Empties the cache. -/
def clearCache (given : Given) (s : Surroundings) : Answer :=
  withCache given s fun cache disk =>
    let stats := cache.stats disk
    match cache.clear disk with
    | (disk, some cause) => Answer.failing disk (.cacheNotCleared cause)
    | (disk, none) =>
      { disk
        out := "removed " ++ Bytes.decimal stats.entries ++ " entries (" ++ ByteSize.render stats.bytes ++
          ")\n" }

/-- Prints what this program is. Settings are not looked at. -/
def printVersion (given : Given) (s : Surroundings) : Answer :=
  answering s do
    let out : Bytes := match ← formatOf given false with
      | .json => Release.current.machine
      | .pretty => Release.current.summary s.showsColours ++ "rules_version: " ++
          Bytes.ofString RulesVersion.supportedRange ++ "\n"
    return { disk := s.disk, out }

/-- The session that settings ask for. -/
def sessionFor (settings : Settings) : Server.Session :=
  .start settings.analysisOptions settings.server.maxDiagnostics settings.server.trace

/-- What a session sends. -/
def sentBytes (effects : List Server.Effect) : Bytes :=
  effects.flatMap fun
    | .send message => Server.Frame.write message.compact
    | .log _ => []

/-- What a session logs. -/
def loggedBytes (effects : List Server.Effect) : Bytes :=
  effects.flatMap fun
    | .send _ => []
    | .log line => line ++ "\n"

/-- The failure that the end of a session stands for, if it is one. -/
def sessionFailure? : Server.Stop → Option Failure
  | .endOfInput | .exit => none
  | reason => some (.session reason)

/-- Serves an editor whose whole input is known. No time passes, so no timer runs out. -/
def serve (given : Given) (s : Surroundings) : Answer :=
  answering s do
    let settings ← settingsFor given s
    let (session, effects) := (sessionFor settings).receive s.input
    return { disk := s.disk, out := sentBytes effects, err := loggedBytes effects
             failure := session.close.stopped.bind sessionFailure? }

/-- Words between backquotes if they can stand there, else in quotes. -/
def topicWords (words : List Bytes) : Bytes := "[" ++ Bytes.join " " (words.map Text.backquoted) ++ "]"

/-- Prints the help for the command that words lead to. -/
def printHelp (words : List Bytes) (s : Surroundings) : Answer :=
  match locate words with
  | .ok (command, _) => { disk := s.disk, out := help command }
  | .error _ =>
    { disk := s.disk, err := "Unknown help topic " ++ topicWords words ++ "\n" ++ usage program }

/-! ## Runs -/

/-- Does what a command is there for. Its arguments were counted before. -/
def perform (action : Action) (given : Given) (s : Surroundings) : Answer :=
  let first := (given.arguments[0]?).getD []
  let second := (given.arguments[1]?).getD []
  match action with
  | .serve => serve given s
  | .check => check given s
  | .marks => printMarks given s first
  | .parse => printTree given s first
  | .resolve => printDeclaration given s first second
  | .symbols => printSymbols given s first
  | .cacheInfo => printCache given s
  | .cacheClean => clearCache given s
  | .version => printVersion given s
  | .help => printHelp given.arguments s
  | .completion => { disk := s.disk }

/-- Makes the file of a record, if one was asked for. -/
def record (which : Recording) (given : Given) (disk : Disk) : Except Failure Disk :=
  let path := given.text which.flagName
  if path.isEmpty then .ok disk
  else (disk.write path []).mapError (Failure.recording which)

/-- Does what a command is there for between the records of its run. The record of the heap is made last, and
only of a run that went well. -/
def performRecorded (action : Action) (given : Given) (s : Surroundings) : Answer :=
  match record .processor given s.disk with
  | .error failure => Answer.failing s.disk failure
  | .ok disk =>
    match record .trace given disk with
    | .error failure => Answer.failing disk failure
    | .ok disk =>
      let answer := perform action given { s with disk }
      if answer.isOk then
        match record .heap given answer.disk with
        | .ok disk => { answer with disk }
        | .error failure => { answer with failure := some failure }
      else answer

/-- Runs the program with the words of a command line. -/
def run (words : List Bytes) (s : Surroundings) : Answer :=
  match read words with
  | .refused e => Answer.failing s.disk (.usage e)
  | .help command => { disk := s.disk, out := help command }
  | .version => { disk := s.disk, out := versionLine }
  | .run _ action given => performRecorded action given s

end SecurityRules.CommandLine
