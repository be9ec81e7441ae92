import SecurityRules.Analysis
import SecurityRules.Check.Files
import SecurityRules.SlashPath
import SecurityRules.Text.Lower
import SecurityRules.Toml.Document

/-!
# Settings

What can be set in a file named `firerules.toml`: every setting has a default, and settings that make no sense
are refused. The file is looked for in a directory and in those above it.
-/

namespace SecurityRules

/-! ## The environment of a run -/

/-- Named values that the surroundings of a run provide. -/
structure Environment where
  values : List (Bytes × Bytes) := []

namespace Environment

/-- The value of a variable; one that is not set is empty. -/
def get (e : Environment) (name : String) : Bytes := (e.values.lookup (Bytes.ofString name)).getD []

/-- Why there is no place for cached results. -/
inductive CachePlaceError where
  | relative
  | unknown
deriving Repr, DecidableEq

def CachePlaceError.message : CachePlaceError → Bytes
  | .relative => "user cache dir: path in $XDG_CACHE_HOME is relative"
  | .unknown => "user cache dir: neither $XDG_CACHE_HOME nor $HOME are defined"

/-- The directory for cached data of the user. -/
def userCache (e : Environment) : Except CachePlaceError Bytes :=
  let chosen := e.get "XDG_CACHE_HOME"
  let home := e.get "HOME"
  if chosen.isEmpty then
    if home.isEmpty then .error .unknown else .ok (home ++ "/.cache")
  else if SlashPath.isAbsolute chosen then .ok chosen
  else .error .relative

end Environment

/-! ## The file of settings -/

/-- How documents are analysed. -/
structure AnalysisSettings where
  maxDepth : Int := Parser.defaultDepth
  scopePolicy : Bytes := ScopePolicy.outermost.name
  /-- Whether the functions of the runtime need no definition. -/
  runtimeBuiltins : Bool := false
  extraBuiltins : List Bytes := []

/-- What is checked and where results are kept. -/
structure CheckSettings where
  jobs : Int := 0
  patterns : List Bytes := Check.defaultPatterns
  useCache : Bool := true
  cacheDirectory : Bytes := []

/-- How editors are served. -/
structure ServerSettings where
  debounce : Int := 150
  maxDiagnostics : Int := 100
  trace : Bool := false

/-- How reports are written. -/
structure OutputSettings where
  color : Bytes := "auto"
  format : Bytes := "pretty"

/-- All settings. -/
structure Settings where
  analysis : AnalysisSettings := {}
  check : CheckSettings := {}
  server : ServerSettings := {}
  output : OutputSettings := {}

namespace Settings

/-- The name of the file that holds settings. -/
def fileName : Bytes := "firerules.toml"

/-- What is wrong with settings. -/
inductive Fault where
  | depthNotPositive (n : Int)
  | unknownPolicy (name : Bytes)
  | negativeJobs (n : Int)
  | malformedPattern (pattern : Bytes)
  | negativeDebounce (n : Int)
  | limitNotPositive (n : Int)
  | unknownColor (name : Bytes)
  | unknownFormat (name : Bytes)
deriving Repr, DecidableEq

def Fault.message : Fault → Bytes
  | .depthNotPositive n => "[analysis].max_depth must be positive, got " ++ Bytes.decimalInt n
  | .unknownPolicy name => "[analysis].scope_policy: " ++ ScopePolicy.unknownMessage name
  | .negativeJobs n => "[check].jobs must not be negative, got " ++ Bytes.decimalInt n
  | .malformedPattern pattern =>
    "[check].include " ++ Text.quoted pattern ++ ": syntax error in pattern"
  | .negativeDebounce n => "[lsp].debounce_ms must not be negative, got " ++ Bytes.decimalInt n
  | .limitNotPositive n => "[lsp].max_diagnostics must be positive, got " ++ Bytes.decimalInt n
  | .unknownColor name => "[output].color must be auto, on or off, got " ++ Text.quoted name
  | .unknownFormat name => "[output].format must be pretty, short or json, got " ++ Text.quoted name

def colors : List Bytes := ["auto", "on", "off"]

def formats : List Bytes := ["pretty", "short", "json"]

/-- The first thing that is wrong with settings, in the order of the sections. -/
def fault? (s : Settings) : Option Fault :=
  if s.analysis.maxDepth ≤ 0 then some (.depthNotPositive s.analysis.maxDepth)
  else if (ScopePolicy.ofName? s.analysis.scopePolicy).isNone then
    some (.unknownPolicy s.analysis.scopePolicy)
  else if s.check.jobs < 0 then some (.negativeJobs s.check.jobs)
  else
    match s.check.patterns.find? fun p => (Glob.parse? p).isNone with
    | some pattern => some (.malformedPattern pattern)
    | none =>
      if s.server.debounce < 0 then some (.negativeDebounce s.server.debounce)
      else if s.server.maxDiagnostics ≤ 0 then some (.limitNotPositive s.server.maxDiagnostics)
      else if !colors.elem s.output.color then some (.unknownColor s.output.color)
      else if !formats.elem s.output.format then some (.unknownFormat s.output.format)
      else none

/-- How documents are analysed under these settings. -/
def analysisOptions (s : Settings) : AnalysisOptions where
  maxDepth := s.analysis.maxDepth
  policy := (ScopePolicy.ofName? s.analysis.scopePolicy).getD .outermost
  builtins :=
    (if s.analysis.runtimeBuiltins then Diagnose.runtimeBuiltins else []) ++ s.analysis.extraBuiltins

/-- How long the server waits for more changes, in milliseconds. The time is kept as a signed 64-bit number of
nanoseconds, so a longer wait than that wraps around. -/
def debounceMilliseconds (s : Settings) : Int :=
  Int.tdiv (Int.bmod (s.server.debounce * 1000000) (2 ^ 64)) 1000000

/-- Where results are kept. -/
def cacheDirectory (s : Settings) (e : Environment) : Except Environment.CachePlaceError Bytes :=
  if s.check.cacheDirectory.isEmpty then e.userCache.map fun base => SlashPath.join base "firerules"
  else .ok s.check.cacheDirectory

/-! ## Reading -/

/-- A setting that a file can name: how its value changes the settings, if it has the right kind. -/
structure Field where
  name : String
  set : Toml.Node → Settings → Option Settings

def asInteger? : Toml.Node → Option Int
  | .scalar (.integer n) => some n
  | _ => none

def asText? : Toml.Node → Option Bytes
  | .scalar (.text s) => some s
  | _ => none

def asBool? : Toml.Node → Option Bool
  | .scalar (.bool b) => some b
  | _ => none

def asTexts? : Toml.Node → Option (List Bytes)
  | .list items => items.mapM asText?
  | _ => none

/-- The sections of a file with their settings. -/
def sections : List (String × List Field) := [
  ("analysis", [
    ⟨"max_depth", fun v s => (asInteger? v).map fun n => { s with analysis.maxDepth := n }⟩,
    ⟨"scope_policy", fun v s => (asText? v).map fun t => { s with analysis.scopePolicy := t }⟩,
    ⟨"runtime_builtins", fun v s => (asBool? v).map fun b => { s with analysis.runtimeBuiltins := b }⟩,
    ⟨"extra_builtins", fun v s => (asTexts? v).map fun ts => { s with analysis.extraBuiltins := ts }⟩]),
  ("check", [
    ⟨"jobs", fun v s => (asInteger? v).map fun n => { s with check.jobs := n }⟩,
    ⟨"include", fun v s => (asTexts? v).map fun ts => { s with check.patterns := ts }⟩,
    ⟨"cache", fun v s => (asBool? v).map fun b => { s with check.useCache := b }⟩,
    ⟨"cache_dir", fun v s => (asText? v).map fun t => { s with check.cacheDirectory := t }⟩]),
  ("lsp", [
    ⟨"debounce_ms", fun v s => (asInteger? v).map fun n => { s with server.debounce := n }⟩,
    ⟨"max_diagnostics", fun v s => (asInteger? v).map fun n => { s with server.maxDiagnostics := n }⟩,
    ⟨"trace", fun v s => (asBool? v).map fun b => { s with server.trace := b }⟩]),
  ("output", [
    ⟨"color", fun v s => (asText? v).map fun t => { s with output.color := t }⟩,
    ⟨"format", fun v s => (asText? v).map fun t => { s with output.format := t }⟩])]

/-- The item with a name, in any case of its letters; the very name goes first. -/
def named? {α : Type} (nameOf : α → String) (items : List α) (name : Bytes) : Option α :=
  (items.find? fun x => Bytes.ofString (nameOf x) == name) <|>
    items.find? fun x => Text.foldName (nameOf x) == Text.foldName name

/-- Applies the entries of one section. The result has the names that were understood. -/
def applyFields (fields : List Field) (entries : Toml.Entries) (s : Settings) :
    Option (Settings × List Bytes) :=
  entries.foldlM (fun (s, known) (name, node) =>
    match named? Field.name fields name with
    | none => some (s, known)
    | some field => (field.set node s).map fun s => (s, known ++ [name])) (s, [])

/-- Applies all sections. The result has the keys that were understood. -/
def applySections (entries : Toml.Entries) (s : Settings) : Option (Settings × List Toml.Key) :=
  entries.foldlM (fun (s, known) (name, node) =>
    match named? Prod.fst sections name with
    | none => some (s, known)
    | some (_, fields) =>
      match node with
      | .table entries =>
        (applyFields fields entries s).map fun (s, names) =>
          (s, known ++ [name] :: names.map fun field => [name, field])
      | _ => none) (s, [])

/-- Why settings cannot be had. -/
inductive LoadError where
  /-- The file cannot be read. -/
  | unreadable (path : Bytes) (cause : PathError)
  /-- The file is malformed, or a value has the wrong kind. -/
  | malformed (path : Bytes)
  | unknownKeys (path : Bytes) (keys : List Toml.Key)
  | refused (path : Bytes) (fault : Fault)
  /-- It cannot be told whether there is a file. -/
  | unclear (path : Bytes) (cause : PathError)

def LoadError.message : LoadError → Bytes
  | .unreadable path cause => path ++ ": failed to parse TOML: " ++ cause.message
  | .malformed path => path ++ ": failed to parse TOML"
  | .unknownKeys path keys =>
    path ++ ": unknown keys: " ++ Bytes.join ", " (keys.map Toml.Key.render)
  | .refused path reason => path ++ ": " ++ reason.message
  | .unclear path cause => "failed to stat " ++ Text.quoted path ++ ": " ++ cause.message

/-- Reads settings over the defaults. -/
def parse (path text : Bytes) : Except LoadError Settings := do
  let some document := Toml.parse? text | throw (.malformed path)
  let some (settings, known) := applySections document.entries {} | throw (.malformed path)
  let unknown := document.order.filter fun key => !known.elem key
  if !unknown.isEmpty then throw (.unknownKeys path unknown)
  if let some fault := settings.fault? then throw (.refused path fault)
  return settings

/-- Reads the settings of a file. -/
def load (disk : Disk) (path : Bytes) : Except LoadError Settings :=
  match disk.read path with
  | .error cause => .error (.unreadable path cause)
  | .ok text => parse path text

/-- A directory and those above it, the nearest first; both ways of writing are absolute. -/
def upwards (directory : Bytes) : List Bytes :=
  let names := SlashPath.resolvedElements directory
  (List.range (names.length + 1)).map fun n => SlashPath.ofElements true (names.take (names.length - n))

/-- The nearest file with settings at or above a directory. -/
def find? (disk : Disk) (start : Bytes) : Except LoadError (Option Bytes) :=
  let candidates := (upwards (SlashPath.absolute disk.workingDirectory start)).map fun directory =>
    SlashPath.join directory fileName
  candidates.foldlM (fun (found : Option Bytes) candidate =>
    if found.isSome then .ok found
    else
      match disk.stat candidate with
      | .ok _ => .ok (some candidate)
      | .error cause => if cause.isMissing then .ok none else .error (.unclear candidate cause)) none

/-- The settings of an explicit file, else of the nearest one above a directory, else the defaults, with the
path they came from. -/
def resolve (disk : Disk) (start : Bytes) (explicit : Bytes) : Except LoadError (Settings × Bytes) := do
  if !explicit.isEmpty then
    return (← load disk explicit, explicit)
  match ← find? disk start with
  | none => return ({}, [])
  | some path => return (← load disk path, path)

end Settings

end SecurityRules
