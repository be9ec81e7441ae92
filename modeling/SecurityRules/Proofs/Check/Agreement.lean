import Mathlib
import SecurityRules.Proofs.Check.Listing
import SecurityRules.Proofs.Check.Schedule

/-!
# Checks agree

A check with a cache and several workers reports what one without a cache reports that takes the files one by one, and
so does the next one, whatever the first one left in the cache.
-/

namespace SecurityRules.Check

variable {pairs : Set (Bytes × AnalysisOptions)} {options : Options} {files paths : List Bytes} {d : Disk}

theorem workerCount_pos {jobs : Int} {processors count : Nat} (able : 0 < processors) (some : 0 < count) :
    0 < workerCount jobs processors count := by
  rw [workerCount]
  split <;> omega

/-- A check that took the files one after the other is one that is finished. -/
theorem run_reaches {outcome : Outcome} (done : run d paths options = .ok outcome) :
    ∃ files, listFiles d paths options.patterns = .ok files ∧ ∀ workers, 0 < workers →
      Pool.Reaches options workers (Pool.start d files)
        ⟨outcome.disk, outcome.result.files.map .finished, outcome.events⟩ := by
  rw [run] at done
  cases listed : listFiles d paths options.patterns with
  | error e => rw [listed] at done; cases done
  | ok files =>
    rw [listed] at done
    obtain rfl := Except.ok.inj done
    exact ⟨files, rfl, fun workers some => Pool.reaches_checkFiles some files [] d _⟩

theorem results_finished (disk : Disk) (results : List FileResult) (events : List Event) :
    (Pool.mk disk (results.map .finished) events).results = results ∧
      (Pool.mk disk (results.map .finished) events).isFinished = true := by
  constructor
  · rw [Pool.results, List.filterMap_map]
    exact List.filterMap_some
  · rw [Pool.isFinished, List.all_map, List.all_eq_true]
    exact fun _ _ => rfl

namespace Pool

/-- A check can end with the results of checking the files one after the other. -/
theorem exists_finished (options : Options) (files : List Bytes) (d : Disk) {workers : Nat} (some : 0 < workers) :
    ∃ p, Reaches options workers (start d files) p ∧ p.isFinished = true ∧
      p.results = (checkFiles options files d).2.1 := by
  obtain ⟨results, finished⟩ := results_finished (checkFiles options files d).1 (checkFiles options files d).2.1
    ((start d files).events ++ (checkFiles options files d).2.2)
  exact ⟨_, reaches_checkFiles some files [] d _, finished, results⟩

theorem sameReports_of_sound {p : Pool} (sound : Sound pairs options files d p) (finished : p.isFinished = true) :
    Result.SameReports ⟨p.results⟩ ⟨(checkFiles { options with cache := none } files d).2.1⟩ :=
  sameReports_of_shown ((sound.shown finished).trans (shown_checkFiles_uncached options files d).symm)

/-- A check can always go on until it is finished, after finitely many steps. Then it has a result for each listed file,
the diagnostics of every file that can be loaded are those of an analysis under the limit of the check, and no report
differs from that of a check without a cache. The same holds of a later check of the same files under any limit,
which finds the cache as this one left it, however long the analyses take then. -/
theorem results_agree (proper : d.root.IsProper) (listed : listFiles d paths options.patterns = .ok files)
    (served : ∀ c ∈ options.cache, Served c pairs options.analysis options.clock files d) {jobs : Int} {processors : Nat}
    (able : 0 < processors) {p : Pool}
    (reached : Reaches options (workerCount jobs processors files.length) (start d files) p) :
    (p.isFinished = false → ∃ q, Step options (workerCount jobs processors files.length) p q) ∧
    (∀ q, Step options (workerCount jobs processors files.length) p q → q.remaining < p.remaining) ∧
    (p.isFinished = true →
      p.results.map (·.path) = files ∧
      (∀ r ∈ p.results, ∀ file, loadFile d r.path = .ok file → r.file = some file ∧ ∀ uri version,
        (r.bag, r.dropped) = collect options.limit (Document.analyze uri version file options.analysis).diagnostics) ∧
      Result.SameReports ⟨p.results⟩ ⟨(checkFiles { options with cache := none } files d).2.1⟩ ∧
      ∀ (limit jobs' : Int) (clock : Bytes → Bytes → Float),
        (∀ c ∈ options.cache, Served c pairs options.analysis clock files d) → ∀ q : Pool,
        Reaches { options with limit, clock } (workerCount jobs' processors files.length) (start p.disk files) q →
        q.isFinished = true →
        Result.SameReports ⟨q.results⟩ ⟨(checkFiles { options with limit, cache := none } files d).2.1⟩) := by
  have settled : Settled pairs options files d := ⟨present_of_listFiles proper listed, served⟩
  have sound := (sound_start settled).reaches reached
  refine ⟨fun unfinished => ?_, fun q step => step.remaining_lt, fun finished => ?_⟩
  · refine exists_step (fun waiting => workerCount_pos able ?_) unfinished
    rw [← sound.paths, List.length_map]
    exact List.length_pos_iff.mpr waiting
  · have shown := sound.shown finished
    have paths : p.results.map (·.path) = files := by
      have first := congrArg (List.map Prod.fst) shown
      rw [List.map_map, List.map_map] at first
      exact first.trans ((List.map_congr_left fun path _ => fst_outcome options d path).trans (List.map_id files))
    refine ⟨paths, fun r member file loaded => ?_, sameReports_of_sound sound finished,
      fun limit jobs' clock served' q later done => ?_⟩
    · have known : r.shown = outcome options d r.path := by
        obtain ⟨path, -, same⟩ := List.mem_map.mp (shown ▸ List.mem_map_of_mem member)
        have path_eq : path = r.path := by
          have first : (outcome options d path).1 = r.path := congrArg Prod.fst same
          rw [← first, fst_outcome]
        rw [← path_eq, same]
      rw [outcome, loaded] at known
      have rest := congrArg Prod.snd known
      exact ⟨congrArg Prod.fst rest, fun uri version => congrArg Prod.snd rest⟩
    · have settled' : Settled pairs { options with limit, clock } files p.disk := by
        refine ⟨sound.settled.present, fun c member => ?_⟩
        obtain ⟨covered, distinct, trusted, -, apart⟩ := sound.settled.served c member
        refine ⟨covered, distinct, trusted, fun path listed => ?_, apart⟩
        rw [loadFile_eq_of_read (sound.reads path listed)]
        exact (served' c member).readable path listed
      have again := (sound_start settled').reaches later
      have same : files.map (outcome { options with limit, clock } p.disk) =
          files.map (outcome { options with limit } d) :=
        List.map_congr_left fun path inside => outcome_eq_of_read (sound.reads path inside)
      exact sameReports_of_shown ((again.shown done).trans
        (same.trans (shown_checkFiles_uncached { options with limit } files d).symm))

end Pool

/-- A service with calls of two functions that are defined nowhere. -/
def twoCalls : Bytes := "service a \x7b allow read: if f() && g(); \x7d"

/-- A disk with one file. -/
def oneFile : Disk where
  root := .directory [("a.rules", .file twoCalls)]

/-- A cache, and room for one diagnostic. -/
def narrow : Options where
  analysis := { maxDepth := 0 }
  limit := 1
  cache := some ⟨"cache"⟩

theorem isProper_oneFile : oneFile.root.IsProper :=
  ⟨⟨⟨⟨by decide, by decide⟩, by decide, by decide⟩, by decide⟩, rfl, trivial, trivial⟩

theorem served_oneFile (c : Cache) :
    Served c {(twoCalls, narrow.analysis)} narrow.analysis narrow.clock ["a.rules"] oneFile := by
  have known : ∀ path ∈ (["a.rules"] : List Bytes), ∀ file, loadFile oneFile path = .ok file →
      path = "a.rules" ∧ file = SourceFile.ofBytes "a.rules" twoCalls false := by
    intro path member file loaded
    obtain rfl := List.mem_singleton.mp member
    exact ⟨rfl, (Except.ok.inj loaded).symm⟩
  constructor
  case covered =>
    intro path member file loaded
    obtain ⟨-, rfl⟩ := known path member file loaded
    exact Prod.ext (by decide +kernel) rfl
  case distinct => exact Set.injOn_singleton _ _
  case trusted => exact Cache.trusted_of_undecodable (by decide +kernel)
  case readable =>
    intro path member file loaded
    obtain ⟨rfl, rfl⟩ := known path member file loaded
    decide +kernel
  case apart =>
    intro path member key
    obtain rfl := List.mem_singleton.mp member
    exact Cache.ne_placeOf_pathFor (by decide) key

/-- The file is checked without anything in the cache and again with more room. -/
theorem results_agree_oneFile :
    ∃ p, Pool.Reaches narrow (workerCount 0 4 1) (.start oneFile ["a.rules"]) p ∧ p.isFinished = true ∧
      Result.SameReports ⟨p.results⟩ ⟨(checkFiles { narrow with cache := none } ["a.rules"] oneFile).2.1⟩ ∧
      ∀ q, Pool.Reaches { narrow with limit := 2 } (workerCount 0 4 1) (.start p.disk ["a.rules"]) q →
        q.isFinished = true → Result.SameReports ⟨q.results⟩
          ⟨(checkFiles { narrow with limit := 2, cache := none } ["a.rules"] oneFile).2.1⟩ := by
  have some : 0 < workerCount 0 4 1 := by decide
  obtain ⟨p, reached, finished, -⟩ := Pool.exists_finished narrow ["a.rules"] oneFile some
  have listed : listFiles oneFile [] narrow.patterns = .ok ["a.rules"] := by decide +kernel
  have agree := Pool.results_agree isProper_oneFile listed (fun c _ => served_oneFile c) (by decide) reached
  obtain ⟨-, -, reports, later⟩ := agree.2.2 finished
  exact ⟨p, reached, finished, reports, later 2 0 narrow.clock fun c _ => served_oneFile c⟩

/-- A file and, where its result is kept, another one. The path of the file opens a comment. -/
def besideCache : Disk where
  root := .directory [("a", .directory [("*.rules", .file "service a \x7b\x7d")]), ("cache", .directory [("files",
    .directory [("5a", .directory
      [("5aa3403d09fb373fa9b6245bd8a01e501854098eff9ff112d06762d361e2d974.mp", .file "service b \x7b\x7d")])])])]

/-- Both files of that disk. -/
def besideCacheFiles : List Bytes :=
  ["a/*.rules", "cache/files/5a/5aa3403d09fb373fa9b6245bd8a01e501854098eff9ff112d06762d361e2d974.mp"]

/-- What the check keeps for the first of them. -/
def besideCacheKept : CacheEntry :=
  kept narrow.analysis (narrow.clock "a/*.rules") "a/*.rules"
    (SourceFile.ofBytes "a/*.rules" "service a \x7b\x7d" false)

/-- Where a file lies at the place of a result, the check of another one writes over it. Nothing could be had from the
cache before, the keys are different, and what is kept can be read back. -/
theorem not_agree_besideCache :
    listFiles besideCache besideCacheFiles [] = .ok besideCacheFiles ∧
    (⟨"cache"⟩ : Cache).Trusted ∅ besideCache ∧
    ([Bytes.ofString "service a \x7b\x7d", Bytes.ofString "service b \x7b\x7d", besideCacheKept.encode].map
      fun text => (CacheKey.ofText text narrow.analysis).render).Nodup ∧
    (CacheEntry.decode? besideCacheKept.encode).map (·.diagnostics) = some besideCacheKept.diagnostics ∧
    ∃ p, Pool.Reaches narrow 1 (.start besideCache besideCacheFiles) p ∧ p.isFinished = true ∧
      p.results.map (·.dropped) = [0, 1] ∧
      (checkFiles { narrow with cache := none } besideCacheFiles besideCache).2.1.map (·.dropped) = [0, 0] := by
  obtain ⟨p, reached, finished, results⟩ := Pool.exists_finished narrow besideCacheFiles besideCache Nat.one_pos
  have listed : listFiles besideCache besideCacheFiles [] = .ok besideCacheFiles := by
    have each : besideCacheFiles.mapM (filesAt besideCache defaultPatterns) = .ok (besideCacheFiles.map ([·])) := by
      decide +kernel
    have sorted : besideCacheFiles.mergeSort Bytes.notAfter = besideCacheFiles :=
      List.mergeSort_of_pairwise (by decide +kernel)
    rw [listFiles, show (if besideCacheFiles.isEmpty = true then _ else besideCacheFiles) = besideCacheFiles from rfl,
      show (if ([] : List Bytes).isEmpty = true then defaultPatterns else []) = defaultPatterns from rfl, each]
    show Except.ok (withoutRepeats (besideCacheFiles.mergeSort Bytes.notAfter)) = _
    rw [sorted]
    rfl
  refine ⟨listed, Cache.trusted_of_undecodable (by decide +kernel), by decide +kernel, by decide +kernel, p, reached,
    finished, ?_, by decide +kernel⟩
  rw [results]
  decide +kernel

end SecurityRules.Check
