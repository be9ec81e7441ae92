import SecurityRules.Check.Run
import SecurityRules.CommandLine.Request
import SecurityRules.Position
import SecurityRules.Server.Session
import SecurityRules.Settings
import SecurityRules.Text.Quoted

/-!
# What a run of the program is given and what it leaves

A run sees a disk, an environment and its input. It leaves a disk, what it wrote, and the reason why it failed
if it did.
-/

namespace SecurityRules

/-!
## Switches

A switch is on, off, or left to what the output is.
-/

/-- The setting of a switch. -/
inductive Switch where
  | auto | on | off
deriving Repr, DecidableEq

namespace Switch

def name : Switch → String
  | auto => "auto"
  | on => "on"
  | off => "off"

/-- The setting with a name; white space around it and the case of ASCII letters do not matter. -/
def ofName? (value : Bytes) : Option Switch :=
  let word := (Text.trimBlanks value).map Bytes.toLowerByte
  if word.isEmpty then some .auto
  else [auto, on, off].find? fun (s : Switch) => Bytes.ofString s.name == word

/-- The complaint about a value that is no setting. -/
def invalidMessage (flag value : Bytes) : Bytes :=
  "invalid --" ++ flag ++ " value " ++ Text.quoted value ++ " (expected auto|on|off)"

/-- The forced value, or the one detected. -/
def resolve (s : Switch) (detected : Bool) : Bool :=
  match s with
  | auto => detected
  | on => true
  | off => false

end Switch

namespace CommandLine

/-! ## Runs -/

/-- What a run of the program is given. -/
structure Surroundings where
  disk : Disk
  environment : Environment := {}
  input : Bytes := []
  /-- Whether a terminal shows what is written. -/
  isTerminal : Bool := false
  /-- How many milliseconds each phase of the analysis of a file takes. -/
  clock : Bytes → Bytes → Float := fun _ _ => 0

namespace Surroundings

/-- Whether colours are seen and wanted. -/
def showsColours (s : Surroundings) : Bool := s.isTerminal && (s.environment.get "NO_COLOR").isEmpty

end Surroundings

/-- Which of the records of a run could not be made. -/
inductive Recording where
  | processor | heap | trace
deriving Repr, DecidableEq

namespace Recording

def name : Recording → String
  | processor => "cpu profile"
  | heap => "heap profile"
  | trace => "trace"

/-- The flag that names the file. -/
def flagName : Recording → String
  | processor => "cpu-profile"
  | heap => "mem-profile"
  | trace => "trace"

end Recording

/-- Why a run failed. -/
inductive Failure where
  /-- The run went well and found errors, which it has reported. -/
  | checkFailed
  | usage (e : UsageError)
  | settings (e : Settings.LoadError)
  /-- Settings and flags make no sense together. -/
  | overridden (fault : Settings.Fault)
  | recording (which : Recording) (cause : PathError)
  | unknownFormat (format : Bytes) (choices : String)
  | negativeJobs
  | unknownSwitch (flag value : Bytes)
  | noCachePlace (e : Environment.CachePlaceError)
  | cacheNotMade (cause : PathError)
  | cacheNotCleared (cause : PathError)
  | check (e : Check.Failure)
  | unreadable (path : Bytes) (cause : PathError)
  | position (e : PositionError)
  | session (reason : Server.Stop)

/-- The wording for the end of a session. -/
def sessionMessage : Server.Stop → Bytes
  | .endOfInput | .exit => ""
  | .exitWithoutShutdown => "lsp exit without shutdown"
  | .canceled => "context canceled"
  | .badParams => Server.Session.jsonComplaint
  | .framing e => e.message

/-- The reason in words. -/
def Failure.message : Failure → Bytes
  | checkFailed => "check failed"
  | usage e => e.message
  | settings e => e.message
  | overridden fault => fault.message
  | recording which cause => which.name ++ (": " ++ cause.message)
  | unknownFormat format choices =>
    "unsupported format " ++ Text.quoted format ++ " (must be " ++ Bytes.ofString choices ++ ")"
  | negativeJobs => "--jobs must not be negative"
  | unknownSwitch flag value => Switch.invalidMessage flag value
  | noCachePlace e => e.message
  | cacheNotMade cause => Cache.createMessage cause
  | cacheNotCleared cause => "clean cache: " ++ cause.message
  | check e => e.message
  | unreadable path cause => "failed to load " ++ path ++ ": " ++ Check.loadMessage cause
  | position e => e.message
  | session reason => sessionMessage reason

/-- What a run leaves. -/
structure Answer where
  disk : Disk
  /-- What was written for the reader of results. -/
  out : Bytes := []
  /-- What was written about the run. -/
  err : Bytes := []
  failure : Option Failure := none

namespace Answer

/-- Nothing but a reason for failure. -/
def failing (disk : Disk) (failure : Failure) : Answer := { disk, failure := some failure }

/-- Whether the run went well. -/
def isOk (a : Answer) : Bool := a.failure.isNone

end Answer

end CommandLine

end SecurityRules
