import SecurityRules.CommandLine.Run
import SecurityRules.Disk

/-!
# The program

Reads the part of the real disk that a run can see, runs, prints, and carries out on the real disk what the run
changed on its own. Only the server works in steps: it reads as much as the next message needs, and a timer may
run out while it waits.
-/

namespace SecurityRules.Program

open CommandLine (Surroundings Answer Failure Request Action Given Recording)

/-- Bytes as text; what is no text is left out. -/
def textOf (b : Bytes) : String := (String.fromUTF8? ⟨b.toArray⟩).getD ""

/-- A path of the real disk. -/
def realPath (b : Bytes) := System.mkFilePath [textOf b]

/-- The path of a place. -/
def pathOf (place : List Bytes) : Bytes := SlashPath.ofElements true place

/-! ## Reading the real disk -/

/-- Takes over what lies at a place, without what is below it. -/
def takeEntry (disk : Disk) (place : List Bytes) : IO Disk := do
  let path := realPath (pathOf place)
  if ← path.isDir then return (disk.makeDirectories (pathOf place)).1
  if !(← path.pathExists) then return disk
  try
    let content ← IO.FS.readBinFile path
    return (disk.write (pathOf place) content.data.toList).toOption.getD disk
  catch _ => return disk

/-- Takes over what lies at a path, and every directory on the way to it. -/
def takePath (disk : Disk) (path : Bytes) : IO Disk := do
  let place := SlashPath.resolvedElements (SlashPath.absolute disk.workingDirectory path)
  (List.range (place.length + 1)).foldlM (fun disk n => takeEntry disk (place.take n)) disk

/-- Takes over all that lies below a directory. -/
partial def takeBelow (disk : Disk) (place : List Bytes) : IO Disk := do
  let path := realPath (pathOf place)
  if !(← path.isDir) then return disk
  (← path.readDir).foldlM (fun disk entry => do
    let place := place ++ [Bytes.ofString entry.fileName]
    takeBelow (← takeEntry disk place) place) disk

/-- Takes over what lies at a path and below it. -/
def takeTree (disk : Disk) (path : Bytes) : IO Disk := do
  let place := SlashPath.resolvedElements (SlashPath.absolute disk.workingDirectory path)
  takeBelow (← takePath disk path) place

/-- The part of the disk that a command looks at. The place of the cache is known only from the settings. -/
def takeFor (action : Action) (given : Given) (s : Surroundings) : IO Surroundings := do
  let candidates := (Settings.upwards s.disk.workingDirectory).map fun d => SlashPath.join d Settings.fileName
  let explicit := given.text "config"
  let recorded := [Recording.processor, .trace, .heap].map fun r => given.text r.flagName
  let files := (explicit :: recorded ++ candidates).filter fun p => !p.isEmpty
  let disk ← files.foldlM takePath (← takePath s.disk s.disk.workingDirectory)
  let paths := if action = .check && given.arguments.isEmpty then [Bytes.ofString "."] else given.arguments
  let disk ← paths.foldlM (if action = .check then takeTree else takePath) disk
  let s := { s with disk }
  match CommandLine.settingsFor given s with
  | .error _ => return s
  | .ok settings =>
    match settings.cacheDirectory s.environment with
    | .error _ => return s
    | .ok directory => return { s with disk := ← takeTree disk directory }

/-! ## Changing the real disk -/

/-- Carries out one change. -/
def carryOut : DiskChange → IO Unit
  | .makeDirectory place => IO.FS.createDirAll (realPath (pathOf place))
  | .write place content => IO.FS.writeBinFile (realPath (pathOf place)) ⟨content.toArray⟩
  | .remove place => do
    let path := realPath (pathOf place)
    if ← path.isDir then IO.FS.removeDirAll path else IO.FS.removeFile path

/-! ## Printing -/

/-- Writes bytes at once. -/
def print (stream : IO.FS.Stream) (b : Bytes) : IO Unit := do
  stream.write ⟨b.toArray⟩
  stream.flush

/-- Prints the reason of a failure, and gives the status to end with. Errors that were found are reported
already. -/
def conclude (failure : Option Failure) : IO UInt32 := do
  match failure with
  | none => return 0
  | some .checkFailed => return 1
  | some failure =>
    print (← IO.getStderr) ("error: " ++ failure.message ++ "\n")
    return 1

/-! ## Serving -/

/-- Sends and logs. -/
def emit (effects : List Server.Effect) : IO Unit := do
  print (← IO.getStdout) (CommandLine.sentBytes effects)
  print (← IO.getStderr) (CommandLine.loggedBytes effects)

/-- Reads as much as is sure to belong to the next message; nothing at the end of the input. -/
def readMore (input : IO.FS.Stream) (held : Bytes) : IO Bytes := do
  match Server.Frame.next held with
  | .needPayload _ missing => return (← input.read (USize.ofNat missing)).data.toList
  | _ => return Bytes.ofString (← input.getLine)

/-- Waits for more input. The timer of the session runs out if it takes longer than `left` milliseconds. -/
partial def await (session : Server.Session) (reading : Task (Except IO.Error Bytes)) (left : Int) :
    IO (Server.Session × Bytes) := do
  if session.pendingTimer.isSome && !(← IO.hasFinished reading) then
    if left ≤ 0 then
      let (session, effects) := session.settle
      emit effects
      await session reading left
    else
      IO.sleep 10
      await session reading (left - 10)
  else return (session, ← IO.ofExcept reading.get)

/-- Serves an editor until the session is over. -/
partial def converse (session : Server.Session) (debounce : Int) (input : IO.FS.Stream) :
    IO (Option Failure) := do
  match session.stopped with
  | some reason => return CommandLine.sessionFailure? reason
  | none =>
    let reading ← IO.asTask (readMore input session.input)
    let (session, bytes) ← await session reading debounce
    if bytes.isEmpty then converse session.close debounce input
    else
      let (session, effects) := session.receive bytes
      emit effects
      converse session debounce input

/-! ## The run -/

/-- What the program is given before its command line is read. -/
def surroundings : IO Surroundings := do
  let names := ["XDG_CACHE_HOME", "HOME", "NO_COLOR"]
  let values ← names.filterMapM fun name => do
    return (← IO.getEnv name).map fun value => (Bytes.ofString name, Bytes.ofString value)
  let workingDirectory := Bytes.ofString (← IO.currentDir).toString
  return { disk := { workingDirectory }, environment := ⟨values⟩, isTerminal := ← (← IO.getStdout).isTty }

/-- Runs a command that needs no more input. -/
def runOnce (words : List Bytes) (s : Surroundings) : IO UInt32 := do
  let answer := CommandLine.run words s
  print (← IO.getStdout) answer.out
  print (← IO.getStderr) answer.err
  (s.disk.changes answer.disk).forM carryOut
  conclude answer.failure

/-- Runs the program. -/
def run (words : List Bytes) : IO UInt32 := do
  let s ← surroundings
  match CommandLine.read words with
  | .run _ action given =>
    let s ← takeFor action given s
    if action = .serve then
      match CommandLine.settingsFor given s with
      | .error failure => conclude (some failure)
      | .ok settings =>
        let session := CommandLine.sessionFor settings
        conclude (← converse session settings.debounceMilliseconds (← IO.getStdin))
    else runOnce words s
  | _ => runOnce words s

end SecurityRules.Program

def main (arguments : List String) : IO UInt32 :=
  SecurityRules.Program.run (arguments.map SecurityRules.Bytes.ofString)
