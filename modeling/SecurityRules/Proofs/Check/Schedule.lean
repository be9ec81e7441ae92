import Mathlib.Logic.Relation
import SecurityRules.Check.Workers
import SecurityRules.CommandLine.Run
import SecurityRules.Proofs.Cache.Entries

/-!
# Results do not depend on the schedule

Wherever the check of a file takes its result from, it is the one of an analysis of the file under the options of the
check. The actions of a task lead there, and to nothing else that anybody could see in the files of the check.

A check with several workers ends in any case, and however their actions follow each other, it finds what an analysis of
each file finds. Checking the files one after the other is one of these schedules.
-/

namespace SecurityRules.Check

/-- What reports say of a file: its path, its text, the diagnostics that fitted and how many did not. -/
def FileResult.shown (r : FileResult) : Bytes × Option SourceFile × Bag × Nat := (r.path, r.file, r.bag, r.dropped)

/-- What is to be said of a file, whatever the cache holds. -/
def outcome (options : Options) (disk : Disk) (path : Bytes) : Bytes × Option SourceFile × Bag × Nat :=
  match loadFile disk path with
  | .error e => (unloaded options path e).shown
  | .ok file => (path, some file, collect options.limit (Document.analyze path 0 file options.analysis).diagnostics)

theorem fst_outcome (options : Options) (disk : Disk) (path : Bytes) : (outcome options disk path).1 = path := by
  rw [outcome]
  split <;> rfl

/-- What a check keeps for a file. -/
def kept (options : AnalysisOptions) (took : Bytes → Float) (path : Bytes) (file : SourceFile) : CacheEntry :=
  let document := Document.analyze path 0 file options
  let timings := timingsOf document took
  { layout := UInt16.ofNat CacheKey.layout, path, diagnostics := document.diagnostics
    total := timings.total, phases := some timings.phases, isBroken := document.hasErrors }

/-- A cache that can serve the files of a check by some clock. A set holds the texts and options that results are kept
for. -/
structure Served (c : Cache) (pairs : Set (Bytes × AnalysisOptions)) (options : AnalysisOptions)
    (clock : Bytes → Bytes → Float) (files : List Bytes) (d : Disk) : Prop where
  /-- The set holds the texts of the files. -/
  covered : ∀ path ∈ files, ∀ file, loadFile d path = .ok file → (file.content, options) ∈ pairs
  /-- No two members of the set have the same key. -/
  distinct : Set.InjOn (fun pair => CacheKey.ofText pair.1 pair.2) pairs
  /-- The results in the cache are those of members of the set, each under its key. -/
  trusted : c.Trusted pairs d
  /-- What the check keeps can be read back. -/
  readable : ∀ path ∈ files, ∀ file, loadFile d path = .ok file →
    (CacheEntry.decode? (kept options (clock path) path file).encode).map (·.diagnostics) =
      some (kept options (clock path) path file).diagnostics
  /-- None of the files belongs to the cache. -/
  apart : ∀ path ∈ files, ∀ key, d.placeOf path ≠ d.placeOf (c.pathFor key)

/-- All files of a check are there, and its cache can serve them if it has one. -/
structure Settled (pairs : Set (Bytes × AnalysisOptions)) (options : Options) (files : List Bytes) (d : Disk) :
    Prop where
  present : ∀ path ∈ files, ∀ e, d.read path = .error e → e.isMissing = false
  served : ∀ c ∈ options.cache, Served c pairs options.analysis options.clock files d

section

variable {pairs : Set (Bytes × AnalysisOptions)} {options : Options} {files : List Bytes} {d d' : Disk}
  {path : Bytes} {file : SourceFile}

theorem loadFile_eq_of_read (same : d'.read path = d.read path) : loadFile d' path = loadFile d path := by
  rw [loadFile, loadFile, same]

/-- A loaded file has the diagnostics of any file with its content. -/
theorem diagnostics_of_describes {entry : CacheEntry} (loaded : loadFile d path = .ok file)
    (describes : entry.Describes file.content options.analysis) (uri : Bytes) :
    entry.diagnostics = (Document.analyze uri 0 file options.analysis).diagnostics := by
  obtain ⟨uri', version, path', text, isVirtual, same, diagnostics⟩ := describes
  rw [loadFile] at loaded
  cases read : d.read path with
  | error e => rw [read] at loaded; cases loaded
  | ok bytes =>
    rw [read] at loaded
    obtain rfl := Except.ok.inj loaded
    rw [diagnostics, Document.diagnostics_ofBytes same uri' uri version 0]

theorem describes_kept (took : Bytes → Float) (loaded : loadFile d path = .ok file) :
    (kept options.analysis took path file).Describes file.content options.analysis := by
  rw [loadFile] at loaded
  cases read : d.read path with
  | error e => rw [read] at loaded; cases loaded
  | ok bytes =>
    rw [read] at loaded
    obtain rfl := Except.ok.inj loaded
    exact ⟨_, _, _, _, _, rfl, rfl⟩

/-- An analysis gives the outcome, and leaves the disk as it is but for the cache. -/
theorem analyzeFile_eq (options : Options) (path : Bytes) (file : SourceFile) (d : Disk) :
    (analyzeFile options path file d).1 = (match options.cache with
      | none => d
      | some c => (c.put (CacheKey.ofText file.content options.analysis)
          (kept options.analysis (options.clock path) path file) d).1) ∧
    (analyzeFile options path file d).2.1.shown =
      (path, some file, collect options.limit (Document.analyze path 0 file options.analysis).diagnostics) := by
  rw [analyzeFile]
  cases options.cache with
  | none => exact ⟨rfl, rfl⟩
  | some c => exact ⟨rfl, rfl⟩

/-- A result from the cache is made of an entry that is there. -/
theorem exists_entry {r : FileResult} (found : cached? options path file d = some r) :
    ∃ c ∈ options.cache, ∃ entry, c.get (CacheKey.ofText file.content options.analysis) d = .ok (some entry) ∧
      r.shown = (path, some file, collect options.limit entry.diagnostics) := by
  rw [cached?] at found
  cases cache : options.cache with
  | none => rw [cache] at found; cases found
  | some c =>
    rw [cache] at found
    dsimp only at found
    split at found
    · rename_i entry there
      refine ⟨c, rfl, entry, there, ?_⟩
      rw [← Option.some.inj found]
      rfl
    · cases found

namespace Settled

theorem ofReads (settled : Settled pairs options files d) (reads : ∀ path ∈ files, d'.read path = d.read path)
    (workingDirectory : d'.workingDirectory = d.workingDirectory) (trusted : ∀ c ∈ options.cache, c.Trusted pairs d') :
    Settled pairs options files d' where
  present path listed := by
    rw [reads path listed]
    exact settled.present path listed
  served c member :=
    { covered := fun path listed => by
        rw [loadFile_eq_of_read (reads path listed)]
        exact (settled.served c member).covered path listed
      distinct := (settled.served c member).distinct
      trusted := trusted c member
      readable := fun path listed => by
        rw [loadFile_eq_of_read (reads path listed)]
        exact (settled.served c member).readable path listed
      apart := fun path listed key => by
        rw [Disk.placeOf_eq_of_workingDirectory workingDirectory, Disk.placeOf_eq_of_workingDirectory workingDirectory]
        exact (settled.served c member).apart path listed key }

variable (settled : Settled pairs options files d) (listed : path ∈ files) (loaded : loadFile d path = .ok file)
include settled listed loaded

/-- What the cache has for a file is what an analysis of it gives. -/
theorem shown_of_cached {r : FileResult} (found : cached? options path file d = some r) :
    r.shown = outcome options d path := by
  obtain ⟨c, member, entry, there, shown⟩ := exists_entry found
  have served := settled.served c member
  obtain ⟨⟨content, analysis⟩, known, key, describes⟩ := served.trusted.get there
  have same := served.distinct (served.covered path listed file loaded) known key
  obtain ⟨rfl, rfl⟩ := Prod.mk.inj same
  rw [shown, outcome, loaded, diagnostics_of_describes loaded describes path]

/-- Analysing a file and keeping the result changes none of the files, and the cache can still be trusted. -/
theorem analyzeFile_keeps : Settled pairs options files (analyzeFile options path file d).1 ∧
    ∀ other ∈ files, (analyzeFile options path file d).1.read other = d.read other := by
  rw [(analyzeFile_eq options path file d).1]
  cases cache : options.cache with
  | none => exact ⟨settled, fun _ _ => rfl⟩
  | some c =>
    have served := settled.served c cache
    let entry := kept options.analysis (options.clock path) path file
    have grown := c.grown_plant (CacheKey.ofText file.content options.analysis) entry.encode d
    have reads : ∀ other ∈ files, (c.plant (CacheKey.ofText file.content options.analysis) entry.encode d).1.read other =
        d.read other := fun other inside =>
      grown.read_eq (served.apart other inside _) (settled.present other inside)
    refine ⟨settled.ofReads reads grown.workingDirectory fun c' member => ?_, reads⟩
    obtain rfl : c = c' := Option.some.inj (cache.symm.trans member)
    refine served.trusted.put (served.covered path listed file loaded) (describes_kept _ loaded) fun e decoded => ?_
    have back := served.readable path listed file loaded
    rw [show entry.encode = { entry with layout := UInt16.ofNat CacheKey.layout }.encode from rfl, decoded] at back
    exact Option.some.inj back

/-- The check of a file gives its outcome. -/
theorem shown_checkFile : (checkFile options path d).2.1.shown = outcome options d path := by
  rw [checkFile, loaded]
  dsimp only
  cases found : cached? options path file d with
  | some r => exact settled.shown_of_cached listed loaded found
  | none =>
    rw [outcome, loaded]
    exact (analyzeFile_eq options path file d).2

end Settled

/-! ## Actions -/

/-- What a task knows about its file on a disk. -/
def Task.Right (options : Options) (d : Disk) : Task → Prop
  | .waiting _ | .started _ => True
  | .loaded path file | .missed path file => loadFile d path = .ok file
  | .finished result => result.shown = outcome options d result.path

theorem outcome_eq_of_read (same : d'.read path = d.read path) : outcome options d' path = outcome options d path := by
  rw [outcome, outcome, loadFile_eq_of_read same]

/-- One action keeps what the task knows, and leaves the files as they are. -/
theorem Task.advance_keeps {t : Task} (settled : Settled pairs options files d') (listed : t.path ∈ files)
    (reads : ∀ path ∈ files, d'.read path = d.read path) (right : t.Right options d) :
    Settled pairs options files (t.advance options d').1 ∧
      (∀ path ∈ files, (t.advance options d').1.read path = d'.read path) ∧
      (t.advance options d').2.1.path = t.path ∧ (t.advance options d').2.1.Right options d := by
  cases t with
  | waiting path => exact ⟨settled, fun _ _ => rfl, rfl, trivial⟩
  | finished r => exact ⟨settled, fun _ _ => rfl, rfl, right⟩
  | started path =>
    have loads : loadFile d' path = loadFile d path := loadFile_eq_of_read (reads path listed)
    rw [advance, loads]
    cases found : loadFile d path with
    | error e =>
      refine ⟨settled, fun _ _ => rfl, rfl, ?_⟩
      show _ = outcome options d path
      rw [outcome, found]
    | ok file => exact ⟨settled, fun _ _ => rfl, rfl, found⟩
  | loaded path file =>
    have listed : path ∈ files := listed
    have loaded : loadFile d' path = .ok file := (loadFile_eq_of_read (reads path listed)).trans right
    rw [advance]
    cases found : cached? options path file d' with
    | none => exact ⟨settled, fun _ _ => rfl, rfl, right⟩
    | some r =>
      have shown := settled.shown_of_cached listed loaded found
      have path_eq : r.path = path := by
        obtain ⟨c, -, entry, -, shape⟩ := exists_entry found
        exact congrArg Prod.fst shape
      refine ⟨settled, fun _ _ => rfl, path_eq, ?_⟩
      show r.shown = outcome options d r.path
      rw [path_eq, shown, outcome_eq_of_read (reads path listed)]
  | missed path file =>
    have listed : path ∈ files := listed
    have loaded : loadFile d' path = .ok file := (loadFile_eq_of_read (reads path listed)).trans right
    obtain ⟨settled', reads'⟩ := settled.analyzeFile_keeps listed loaded
    have shown := (analyzeFile_eq options path file d').2
    have path_eq : (analyzeFile options path file d').2.1.path = path := congrArg Prod.fst shown
    refine ⟨settled', reads', path_eq, ?_⟩
    show (analyzeFile options path file d').2.1.shown = outcome options d (analyzeFile options path file d').2.1.path
    rw [path_eq, shown, outcome, show loadFile d path = .ok file from right]

theorem Task.remaining_advance_lt (options : Options) {t : Task} (running : t.isRunning = true) (d : Disk) :
    (t.advance options d).2.1.remaining < t.remaining := by
  cases t with
  | waiting path => cases running
  | finished r => cases running
  | started path =>
    rw [advance]
    split <;> simp [remaining]
  | loaded path file =>
    rw [advance]
    split <;> simp [remaining]
  | missed path file => exact Nat.zero_lt_one

end

section

variable {pairs : Set (Bytes × AnalysisOptions)} {options : Options} {workers : Nat} {files : List Bytes} {d : Disk}

/-! ## Reports -/

/-- Two results that no report tells apart. -/
structure Result.SameReports (r r' : Result) : Prop where
  hasErrors : r.hasErrors = r'.hasErrors
  count : ∀ severity, r.count severity = r'.count severity
  report : ∀ format workingDirectory inColour, CommandLine.checkReport format workingDirectory inColour r =
    CommandLine.checkReport format workingDirectory inColour r'

theorem map_eq_of_shown {α : Type} {rs rs' : List FileResult} (same : rs.map (·.shown) = rs'.map (·.shown))
    (g : Bytes × Option SourceFile × Bag × Nat → α) :
    rs.map (fun r => g r.shown) = rs'.map fun r => g r.shown := by
  have mapped := congrArg (List.map g) same
  rwa [List.map_map, List.map_map] at mapped

theorem sameReports_of_shown {r r' : Result} (same : r.files.map (·.shown) = r'.files.map (·.shown)) :
    r.SameReports r' := by
  have count : ∀ severity, r.count severity = r'.count severity := fun severity =>
    congrArg List.sum (map_eq_of_shown same fun f => f.2.2.1.count severity)
  refine ⟨?_, count, fun format workingDirectory inColour => ?_⟩
  · have errors := congrArg (List.any · id) (map_eq_of_shown same fun f => f.2.2.1.hasErrors)
    rwa [List.any_map, List.any_map] at errors
  · have view : ∀ view : Report.PathView, r.files.flatMap (CommandLine.prettyFile view inColour) =
        r'.files.flatMap (CommandLine.prettyFile view inColour) := fun view => congrArg List.flatten
      (map_eq_of_shown same fun f => CommandLine.prettyFile view inColour
        { path := f.1, file := f.2.1, bag := f.2.2.1, dropped := f.2.2.2 })
    have short : ∀ view : Report.PathView, r.files.flatMap (CommandLine.shortFile view) =
        r'.files.flatMap (CommandLine.shortFile view) := fun view => congrArg List.flatten
      (map_eq_of_shown same fun f => CommandLine.shortFile view { path := f.1, bag := f.2.2.1 })
    have length : r.files.length = r'.files.length := by simpa using congrArg List.length same
    cases format with
    | json => exact congrArg (Report.machine _) (map_eq_of_shown same fun f =>
        ({ path := f.1, file? := f.2.1, items? := some f.2.2.1.items } : Report.Listing))
    | short => exact short _
    | pretty => rw [CommandLine.checkReport, CommandLine.checkReport, view, count, count, length]

/-! ## One file after the other -/

theorem shown_checkFile_uncached (options : Options) (path : Bytes) (d : Disk) :
    (checkFile { options with cache := none } path d).1 = d ∧
      (checkFile { options with cache := none } path d).2.1.shown = outcome options d path := by
  rw [checkFile, outcome]
  cases loadFile d path with
  | error e => exact ⟨rfl, rfl⟩
  | ok file => exact ⟨rfl, rfl⟩

theorem checkFiles_cons (options : Options) (path : Bytes) (rest : List Bytes) (d : Disk) :
    checkFiles options (path :: rest) d =
      ((checkFiles options rest (checkFile options path d).1).1,
        (checkFile options path d).2.1 :: (checkFiles options rest (checkFile options path d).1).2.1,
        (checkFile options path d).2.2 ++ (checkFiles options rest (checkFile options path d).1).2.2) := rfl

/-- Without a cache every file gets its outcome. -/
theorem shown_checkFiles_uncached (options : Options) (files : List Bytes) (d : Disk) :
    (checkFiles { options with cache := none } files d).2.1.map (·.shown) = files.map (outcome options d) := by
  induction files generalizing d with
  | nil => rfl
  | cons path rest ih =>
    obtain ⟨disk, shown⟩ := shown_checkFile_uncached options path d
    rw [checkFiles_cons, List.map_cons, List.map_cons, disk, shown, ih]

namespace Pool

/-- A check can get from one state to another. -/
def Reaches (options : Options) (workers : Nat) : Pool → Pool → Prop := Relation.ReflTransGen (Step options workers)

theorem reaches_checkFile (path : Bytes) (d : Disk) (earlier later : List Task) (events : List Event) :
    Reaches options workers ⟨d, earlier ++ .started path :: later, events⟩
      ⟨(checkFile options path d).1, earlier ++ .finished (checkFile options path d).2.1 :: later,
        events ++ (checkFile options path d).2.2⟩ := by
  have load : Step options workers ⟨d, earlier ++ .started path :: later, events⟩ _ := .goOn rfl
  rw [Task.advance] at load
  cases loaded : loadFile d path with
  | error e =>
    have checked : checkFile options path d = (d, unloaded options path e,
        [{ file := path, stage := .load, status := .working },
          { file := path, stage := .load, status := .error, problem := some (loadMessage e) }]) := by
      rw [checkFile, loaded]
      rfl
    rw [loaded] at load
    rw [checked]
    exact .single load
  | ok file =>
    rw [loaded] at load
    have ask : Step options workers ⟨d, earlier ++ .loaded path file :: later,
        events ++ [{ file := path, stage := .load, status := .working }]⟩ _ := .goOn rfl
    rw [Task.advance] at ask
    cases found : cached? options path file d with
    | some r =>
      have checked : checkFile options path d = (d, r, { file := path, stage := .load, status := .working } ::
          ((if options.cache.isSome then [{ file := path, stage := .cache, status := .working }] else []) ++
            [{ file := path, stage := .cache, status := r.status, isCached := true }])) := by
        rw [checkFile, loaded]
        dsimp only
        rw [found]
        rfl
      rw [found] at ask
      rw [checked]
      refine (Relation.ReflTransGen.single load).tail ?_
      simpa [List.append_assoc] using ask
    | none =>
      have checked : checkFile options path d = ((analyzeFile options path file d).1,
          (analyzeFile options path file d).2.1, { file := path, stage := .load, status := .working } ::
          ((if options.cache.isSome then [{ file := path, stage := .cache, status := .working }] else []) ++
            (analyzeFile options path file d).2.2)) := by
        rw [checkFile, loaded]
        dsimp only
        rw [found]
        rfl
      rw [found] at ask
      rw [checked]
      refine ((Relation.ReflTransGen.single load).tail ask).tail ?_
      have analyse : Step options workers ⟨d, earlier ++ .missed path file :: later,
          events ++ [{ file := path, stage := .load, status := .working }] ++
            if options.cache.isSome then [{ file := path, stage := .cache, status := .working }] else []⟩ _ := .goOn rfl
      simpa [Task.advance, List.append_assoc] using analyse

theorem busy_idle (done : List FileResult) (rest : List Bytes) (d : Disk) (events : List Event) :
    busy ⟨d, done.map .finished ++ rest.map .waiting, events⟩ = 0 := by
  rw [busy, List.countP_append, List.countP_map, List.countP_map, Nat.add_eq_zero_iff]
  exact ⟨List.countP_eq_zero.mpr fun _ _ => Bool.false_ne_true, List.countP_eq_zero.mpr fun _ _ => Bool.false_ne_true⟩

/-- Checking the files one after the other is a schedule. -/
theorem reaches_checkFiles (some : 0 < workers) (rest : List Bytes) (done : List FileResult) (d : Disk)
    (events : List Event) :
    Reaches options workers ⟨d, done.map .finished ++ rest.map .waiting, events⟩
      ⟨(checkFiles options rest d).1, (done ++ (checkFiles options rest d).2.1).map .finished,
        events ++ (checkFiles options rest d).2.2⟩ := by
  induction rest generalizing done d events with
  | nil =>
    rw [checkFiles]
    simp only [List.map_nil, List.append_nil]
    exact .refl
  | cons path rest ih =>
    have taken : Step options workers ⟨d, done.map .finished ++ .waiting path :: rest.map .waiting, events⟩
        ⟨d, done.map .finished ++ .started path :: rest.map .waiting, events⟩ := by
      refine .takeUp (fun t member => ?_) ?_
      · obtain ⟨r, -, rfl⟩ := List.mem_map.mp member
        rfl
      · have idle := busy_idle done (path :: rest) d events
        rw [List.map_cons] at idle
        omega
    have checked : Reaches options workers ⟨d, done.map .finished ++ .started path :: rest.map .waiting, events⟩ _ :=
      reaches_checkFile path d _ _ events
    have others := ih (done ++ [(checkFile options path d).2.1]) (checkFile options path d).1
      (events ++ (checkFile options path d).2.2)
    rw [List.map_append, List.map_singleton, List.append_assoc, List.singleton_append] at others
    have whole := (Relation.ReflTransGen.head taken checked).trans others
    rw [checkFiles_cons, List.map_cons]
    rw [Reaches]
    simpa only [List.append_assoc, List.singleton_append] using whole

/-! ## Any schedule -/

/-- What holds of a check at any time. -/
structure Sound (pairs : Set (Bytes × AnalysisOptions)) (options : Options) (files : List Bytes) (d : Disk) (p : Pool) :
    Prop where
  settled : Settled pairs options files p.disk
  reads : ∀ path ∈ files, p.disk.read path = d.read path
  paths : p.tasks.map (·.path) = files
  right : ∀ t ∈ p.tasks, t.Right options d

theorem sound_start (settled : Settled pairs options files d) : Sound pairs options files d (start d files) where
  settled := settled
  reads _ _ := rfl
  paths := by
    rw [start, List.map_map]
    exact List.map_id files
  right t member := by
    obtain ⟨path, -, rfl⟩ := List.mem_map.mp member
    trivial

theorem Sound.step {p q : Pool} (sound : Sound pairs options files d p) (step : Step options workers p q) :
    Sound pairs options files d q := by
  cases step with
  | takeUp first free =>
    refine ⟨sound.settled, sound.reads, ?_, fun t member => ?_⟩
    · have paths := sound.paths
      rw [List.map_append, List.map_cons] at paths ⊢
      exact paths
    · rcases List.mem_append.mp member with member | member
      · exact sound.right t (List.mem_append_left _ member)
      · rcases List.mem_cons.mp member with rfl | member
        · trivial
        · exact sound.right t (List.mem_append_right _ (List.mem_cons_of_mem _ member))
  | @goOn disk earlier later task events running =>
    have member : task ∈ earlier ++ task :: later := List.mem_append_right _ (List.mem_cons_self ..)
    have listed : task.path ∈ files := by
      rw [← sound.paths]
      exact List.mem_map_of_mem member
    obtain ⟨settled, reads, path, right⟩ :=
      Task.advance_keeps sound.settled listed sound.reads (sound.right task member)
    refine ⟨settled, fun path listed => (reads path listed).trans (sound.reads path listed), ?_, fun t inside => ?_⟩
    · have paths := sound.paths
      rw [List.map_append, List.map_cons] at paths ⊢
      rw [path]
      exact paths
    · rcases List.mem_append.mp inside with inside | inside
      · exact sound.right t (List.mem_append_left _ inside)
      · rcases List.mem_cons.mp inside with rfl | inside
        · exact right
        · exact sound.right t (List.mem_append_right _ (List.mem_cons_of_mem _ inside))

theorem Sound.reaches {p q : Pool} (sound : Sound pairs options files d p) (reaches : Reaches options workers p q) :
    Sound pairs options files d q := by
  induction reaches with
  | refl => exact sound
  | tail _ step ih => exact ih.step step

/-- Every step is one of those that are left. -/
theorem Step.remaining_lt {p q : Pool} (step : Step options workers p q) : q.remaining < p.remaining := by
  cases step with
  | takeUp first free => simp [remaining, Task.remaining]
  | @goOn disk earlier later task events running =>
    have less := Task.remaining_advance_lt options running disk
    simp only [remaining, List.map_append, List.map_cons, List.sum_append, List.sum_cons]
    omega

/-- A check that is not finished can go on: a worker is busy, or one is free for the first file that waits. -/
theorem exists_step {p : Pool} (some : p.tasks ≠ [] → 0 < workers) (unfinished : p.isFinished = false) :
    ∃ q, Step options workers p q := by
  obtain ⟨disk, tasks, events⟩ := p
  cases running : tasks.find? (·.isRunning) with
  | some t =>
    obtain ⟨isRunning, earlier, later, rfl, -⟩ := List.find?_eq_some_iff_append.mp running
    exact ⟨_, .goOn isRunning⟩
  | none =>
    have idle : ∀ t ∈ tasks, t.isRunning = false := fun t member => by
      simpa using List.find?_eq_none.mp running t member
    obtain ⟨t, member, open'⟩ : ∃ t ∈ tasks, t.result? = Option.none := by
      simpa [isFinished] using unfinished
    have waits : t.isWaiting = true := by
      have known := idle t member
      cases t with
      | waiting path => rfl
      | finished r => cases open'
      | _ => cases known
    cases waiting : tasks.find? (·.isWaiting) with
    | none => exact absurd waits (List.find?_eq_none.mp waiting t member)
    | some u =>
      obtain ⟨isWaiting, earlier, later, rfl, first⟩ := List.find?_eq_some_iff_append.mp waiting
      cases u with
      | waiting path =>
        refine ⟨_, .takeUp (fun t member => by simpa using first t member) ?_⟩
        have none : busy ⟨disk, earlier ++ .waiting path :: later, events⟩ = 0 :=
          List.countP_eq_zero.mpr fun t member => by simp [idle t member]
        rw [none]
        exact some (by simp)
      | _ => cases isWaiting

/-- When it is finished, every file has its outcome. -/
theorem Sound.shown {p : Pool} (sound : Sound pairs options files d p) (finished : p.isFinished = true) :
    p.results.map (·.shown) = files.map (outcome options d) := by
  obtain ⟨disk, tasks, events⟩ := p
  have right := sound.right
  rw [← sound.paths]
  clear sound
  dsimp only at right ⊢
  induction tasks with
  | nil => rfl
  | cons t rest ih =>
    rw [isFinished, List.all_cons, Bool.and_eq_true] at finished
    cases t with
    | finished r =>
      show r.shown :: _ = outcome options d r.path :: _
      rw [show r.shown = outcome options d r.path from right _ (List.mem_cons_self ..)]
      exact congrArg _ (ih finished.2 fun t member => right t (List.mem_cons_of_mem _ member))
    | _ => cases finished.1

end Pool

end

end SecurityRules.Check
