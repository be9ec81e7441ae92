import SecurityRules.Check.Run

/-!
# Checking files side by side

Several workers check the files of one check. The files are taken up in order, no more of them at a time than there are
workers, and each is checked in a few actions: loading it, asking the cache for it, analysing it and keeping the result.
What the actions of different files look like one behind the other is left to chance.
-/

namespace SecurityRules.Check

/-- How far the check of one file has come. -/
inductive Task where
  | waiting (path : Bytes)
  | started (path : Bytes)
  | loaded (path : Bytes) (file : SourceFile)
  /-- The cache does not have the result. -/
  | missed (path : Bytes) (file : SourceFile)
  | finished (result : FileResult)

/-- The result for a file that cannot be loaded. -/
def unloaded (options : Options) (path : Bytes) (e : PathError) : FileResult :=
  { path
    bag := ((Bag.empty options.limit).add
      { severity := .error, code := .loadError, message := "failed to load file: " ++ loadMessage e, span := {} }).1 }

namespace Task

/-- The file a task is about. -/
def path : Task → Bytes
  | waiting path | started path | loaded path _ | missed path _ => path
  | finished result => result.path

def isWaiting : Task → Bool
  | waiting _ => true
  | _ => false

/-- Whether a worker is busy with a task. -/
def isRunning : Task → Bool
  | started _ | loaded _ _ | missed _ _ => true
  | _ => false

/-- The number of actions that are left. -/
def remaining : Task → Nat
  | waiting _ => 4
  | started _ => 3
  | loaded _ _ => 2
  | missed _ _ => 1
  | finished _ => 0

def result? : Task → Option FileResult
  | finished result => some result
  | _ => none

/-- One action of a worker. Nobody else asks the cache or keeps something in it in the meantime. -/
def advance (options : Options) (disk : Disk) : Task → Disk × Task × List Event
  | started path =>
    let loading : Event := { file := path, stage := .load, status := .working }
    match loadFile disk path with
    | .error e =>
      (disk, finished (unloaded options path e),
        [loading, { file := path, stage := .load, status := .error, problem := some (loadMessage e) }])
    | .ok file => (disk, loaded path file, [loading])
  | loaded path file =>
    let asking : List Event :=
      if options.cache.isSome then [{ file := path, stage := .cache, status := .working }] else []
    match cached? options path file disk with
    | some result =>
      (disk, finished result,
        asking ++ [{ file := path, stage := .cache, status := result.status, isCached := true }])
    | none => (disk, missed path file, asking)
  | missed path file =>
    let (disk, result, events) := analyzeFile options path file disk
    (disk, finished result, events)
  | other => (disk, other, [])

end Task

/-- A check that is under way. -/
structure Pool where
  disk : Disk
  tasks : List Task
  events : List Event

namespace Pool

/-- All files wait. -/
def start (disk : Disk) (files : List Bytes) : Pool where
  disk
  tasks := files.map .waiting
  events := files.map fun path => { file := path, stage := .load, status := .queued }

/-- The number of files that are being checked. -/
def busy (p : Pool) : Nat := p.tasks.countP (·.isRunning)

def remaining (p : Pool) : Nat := (p.tasks.map (·.remaining)).sum

/-- The results that are there, in the order of the files. -/
def results (p : Pool) : List FileResult := p.tasks.filterMap (·.result?)

def isFinished (p : Pool) : Bool := p.tasks.all fun t => t.result?.isSome

/-- What happens next in a check with a number of workers. -/
inductive Step (options : Options) (workers : Nat) : Pool → Pool → Prop
  /-- A free worker takes up the first file that waits. -/
  | takeUp {disk : Disk} {earlier later : List Task} {path : Bytes} {events : List Event}
    (first : ∀ t ∈ earlier, t.isWaiting = false)
    (free : busy ⟨disk, earlier ++ .waiting path :: later, events⟩ < workers) :
    Step options workers ⟨disk, earlier ++ .waiting path :: later, events⟩
      ⟨disk, earlier ++ .started path :: later, events⟩
  /-- A worker goes on with its file. -/
  | goOn {disk : Disk} {earlier later : List Task} {task : Task} {events : List Event}
    (running : task.isRunning = true) :
    Step options workers ⟨disk, earlier ++ task :: later, events⟩
      ⟨(task.advance options disk).1, earlier ++ (task.advance options disk).2.1 :: later,
        events ++ (task.advance options disk).2.2⟩

end Pool

/-- The number of workers: as many as asked for, else as many as there are processors, but no more than files. -/
def workerCount (jobs : Int) (processors files : Nat) : Nat :=
  min (if jobs ≤ 0 then processors else jobs.toNat) files

end SecurityRules.Check
