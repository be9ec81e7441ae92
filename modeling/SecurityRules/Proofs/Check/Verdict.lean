import Mathlib
import SecurityRules.Proofs.Check.Agreement
import SecurityRules.Proofs.Diagnostic.Bag
import SecurityRules.Proofs.Findings.Severity

/-!
# Verdicts under a limit

A limit cuts off the last findings, and the only finding that can be no error is one about the version in the header,
which stands behind those of the tree and before those of the calls. So errors are lost in one case only: there is room
for a single finding, and it is taken by a warning about the version.
-/

namespace SecurityRules

/-- The case in which errors are lost: nothing stands before the warning, and it takes the only room. -/
def Document.LosesErrors (limit : Int) (d : Document) : Prop :=
  limit = 1 ∧ d.parseErrors = [] ∧ (∃ w ∈ d.versionFindings, w.severity.isError = false) ∧ d.semanticErrors ≠ []

/-- Whether a limit keeps an error of a document. -/
def Document.KeepsError (limit : Int) (d : Document) : Prop := d.hasErrors = true ∧ ¬ d.LosesErrors limit

namespace Check

theorem capacity_empty_eq_one_iff (limit : Int) : (Bag.empty limit).capacity = 1 ↔ limit = 1 := by
  rw [Bag.empty]
  dsimp only
  split
  · rename_i outside
    simp only [Bool.or_eq_true, decide_eq_true_eq] at outside
    have : Bag.maxCapacity = 65535 := rfl
    omega
  · omega

theorem any_take_cons {d : Diagnostic} (rest : List Diagnostic) {room : Nat} (some : 0 < room)
    (isError : d.severity.isError = true) : ((d :: rest).take room).any (·.severity.isError) = true := by
  obtain ⟨n, rfl⟩ := Nat.exists_eq_succ_of_ne_zero some.ne'
  rw [List.take_succ_cons, List.any_cons, isError, Bool.true_or]

/-- Errors, then at most one finding of any kind, then errors again: an error fits unless the one in between takes all
the room. -/
theorem any_take_between {first between last : List Diagnostic} {room : Nat} (some : 0 < room)
    (errors : ∀ d ∈ first, d.severity.isError = true) (single : between.length ≤ 1)
    (errors' : ∀ d ∈ last, d.severity.isError = true) :
    ((first ++ between ++ last).take room).any (·.severity.isError) = true ↔
      (first ≠ [] ∨ (∃ d ∈ between, d.severity.isError = true) ∨ last ≠ []) ∧
        ¬(room = 1 ∧ first = [] ∧ (∃ d ∈ between, d.severity.isError = false) ∧ last ≠ []) := by
  cases first with
  | cons d rest =>
    have kept := any_take_cons (rest ++ between ++ last) some (errors d (List.mem_cons_self ..))
    simpa using kept
  | nil =>
    rw [List.nil_append]
    match between, single with
    | [], _ =>
      cases last with
      | nil => simp
      | cons d rest => simpa using any_take_cons rest some (errors' d (List.mem_cons_self ..))
    | [w], _ =>
      cases isError : w.severity.isError with
      | true => simpa [isError] using any_take_cons last some isError
      | false =>
        obtain ⟨n, rfl⟩ := Nat.exists_eq_succ_of_ne_zero some.ne'
        cases last with
        | nil => simp [isError]
        | cons d rest =>
          rw [List.singleton_append, List.take_succ_cons, List.any_cons, isError, Bool.false_or]
          cases n with
          | zero => simp [isError]
          | succ n => simpa [isError] using any_take_cons rest n.succ_pos (errors' d (List.mem_cons_self ..))

/-- What fits has an error if and only if the document has one and does not lose it. -/
theorem hasErrors_collect_analyze (limit : Int) (uri : Bytes) (version : Int) (file : SourceFile)
    (options : AnalysisOptions) :
    (collect limit (Document.analyze uri version file options).diagnostics).1.hasErrors = true ↔
      (Document.analyze uri version file options).KeepsError limit := by
  have rooted : (Document.analyze uri version file options).root.hasError = true ↔
      (Document.analyze uri version file options).parseErrors ≠ [] := by
    rw [← Bool.not_eq_false]
    exact not_congr (Diagnose.parseErrors_eq_nil_iff _).symm
  rw [hasErrors_collect, Document.KeepsError, Document.LosesErrors, Document.hasErrors_analyze, rooted,
    ← capacity_empty_eq_one_iff]
  exact any_take_between (Bag.capacity_empty_pos limit) (fun d => Diagnose.isError_of_mem_parseErrors _)
    (Diagnose.length_version_le _ _) (fun d => Diagnose.isError_of_mem_unresolvedCalls)

/-- Whether a file makes a check fail: it cannot be loaded, or the limit keeps an error of it. -/
def Rejects (options : Options) (d : Disk) (path : Bytes) : Prop :=
  (∃ e, loadFile d path = .error e) ∨ ∃ file, loadFile d path = .ok file ∧
    (Document.analyze path 0 file options.analysis).KeepsError options.limit

theorem hasErrors_outcome (options : Options) (d : Disk) (path : Bytes) :
    (outcome options d path).2.2.1.hasErrors = true ↔ Rejects options d path := by
  rw [outcome, Rejects]
  cases loaded : loadFile d path with
  | error e =>
    have fits : (Bag.empty options.limit).items.length < (Bag.empty options.limit).capacity :=
      Bag.capacity_empty_pos options.limit
    simp [unloaded, FileResult.shown, Bag.add, if_pos fits, Bag.hasErrors, Severity.isError]
  | ok file => simpa using hasErrors_collect_analyze options.limit path 0 file options.analysis

theorem hasErrors_of_shown {rs : List FileResult} {options : Options} {files : List Bytes} {d : Disk}
    (shown : rs.map (·.shown) = files.map (outcome options d)) :
    Result.hasErrors ⟨rs⟩ = true ↔ ∃ path ∈ files, Rejects options d path := by
  have any : Result.hasErrors ⟨rs⟩ = (rs.map (·.shown)).any (·.2.2.1.hasErrors) := by
    rw [List.any_map]
    rfl
  simp only [any, shown, List.any_map, List.any_eq_true, Function.comp_apply, hasErrors_outcome]

/-- How files are checked under settings. -/
def optionsOf (settings : Settings) (cache : Option Cache) (clock : Bytes → Bytes → Float) : Options where
  analysis := settings.analysisOptions
  patterns := settings.check.patterns
  limit := settings.server.maxDiagnostics
  cache
  clock

section

variable {given : CommandLine.Given} {settings : Settings} {cache : Option Cache} {files : List Bytes} {d : Disk}
  {pairs : Set (Bytes × AnalysisOptions)} {clock : Bytes → Bytes → Float}

/-- Paths that can be listed can be checked. -/
theorem exists_run {paths : List Bytes} (options : Options) (listed : listFiles d paths options.patterns = .ok files) :
    ∃ outcome, run d paths options = .ok outcome := by
  rw [run, listed]
  exact ⟨_, rfl⟩

theorem failure_checkWith {outcome : Outcome}
    (done : run d given.arguments (optionsOf settings cache clock) = .ok outcome)
    (format : CommandLine.CheckFormat) (inColour : Bool) :
    (CommandLine.checkWith given settings format cache d inColour clock).failure = some .checkFailed ↔
      given.isOn "watch" = false ∧ outcome.result.hasErrors = true := by
  rw [optionsOf] at done
  rw [CommandLine.checkWith, done]
  cases errors : outcome.result.hasErrors <;> cases given.isOn "watch" <;> simp [errors]

/-- The check of a file ends with an error if and only if its document has one that is not lost. So a check ends with an
error, whatever the schedule and the clock, if and only if this holds of one of the files or one cannot be loaded, and
the program fails because of it if and only if it does not go on afterwards. -/
theorem checkFailed_iff (given : CommandLine.Given) (settings : Settings) (proper : d.root.IsProper)
    (listed : listFiles d given.arguments settings.check.patterns = .ok files)
    (served : ∀ c ∈ cache, Served c pairs settings.analysisOptions clock files d) :
    (∀ path ∈ files, ∀ file, loadFile d path = .ok file → ∀ uri version,
      (checkFile (optionsOf settings cache clock) path d).2.1.hasErrors = true ↔
        (Document.analyze uri version file settings.analysisOptions).KeepsError settings.server.maxDiagnostics) ∧
    (∀ workers p, Pool.Reaches (optionsOf settings cache clock) workers (Pool.start d files) p → p.isFinished = true →
      (Result.hasErrors ⟨p.results⟩ = true ↔ ∃ path ∈ files, Rejects (optionsOf settings cache clock) d path)) ∧
    ∀ format inColour, (CommandLine.checkWith given settings format cache d inColour clock).failure = some .checkFailed ↔
      given.isOn "watch" = false ∧ ∃ path ∈ files, Rejects (optionsOf settings cache clock) d path := by
  have settled : Settled pairs (optionsOf settings cache clock) files d := ⟨present_of_listFiles proper listed, served⟩
  have rejected : ∀ workers p, Pool.Reaches (optionsOf settings cache clock) workers (Pool.start d files) p →
      p.isFinished = true →
      (Result.hasErrors ⟨p.results⟩ = true ↔ ∃ path ∈ files, Rejects (optionsOf settings cache clock) d path) :=
    fun workers p reached finished => hasErrors_of_shown (((Pool.sound_start settled).reaches reached).shown finished)
  refine ⟨fun path inside file loaded uri version => ?_, rejected, fun format inColour => ?_⟩
  · have shown := settled.shown_checkFile inside loaded
    have same := hasErrors_collect_analyze settings.server.maxDiagnostics uri version file settings.analysisOptions
    rw [← same]
    change (checkFile (optionsOf settings cache clock) path d).2.1.shown.2.2.1.hasErrors = true ↔ _
    rw [shown, outcome, loaded]
    rfl
  · obtain ⟨outcome, done⟩ := exists_run (optionsOf settings cache clock) listed
    obtain ⟨files', listed', reached⟩ := run_reaches done
    obtain rfl : files = files' := Except.ok.inj (listed.symm.trans listed')
    obtain ⟨results, finished⟩ := results_finished outcome.disk outcome.result.files outcome.events
    have known := rejected 1 _ (reached 1 Nat.one_pos) finished
    rw [results] at known
    rw [failure_checkWith done, ← known]

end

/-- Settings that leave room for one finding. -/
def narrowSettings : Settings where
  analysis := { maxDepth := 0 }
  server := { maxDiagnostics := 1 }

/-- One of the two errors of the file is kept. -/
theorem checkFailed_iff_oneFile :
    (Document.analyze "a.rules" 0 (SourceFile.ofBytes "a.rules" twoCalls false)
      narrowSettings.analysisOptions).KeepsError 1 ∧
    (CommandLine.checkWith { arguments := ["a.rules"] } narrowSettings .short narrow.cache oneFile false).failure =
      some .checkFailed := by
  have listed : listFiles oneFile ["a.rules"] defaultPatterns = .ok ["a.rules"] := by decide +kernel
  have kept : (Document.analyze "a.rules" 0 (SourceFile.ofBytes "a.rules" twoCalls false)
      narrowSettings.analysisOptions).KeepsError 1 := by
    refine ⟨by decide +kernel, fun lost => ?_⟩
    obtain ⟨-, -, ⟨w, member, -⟩, -⟩ := lost
    rw [show (Document.analyze "a.rules" 0 (SourceFile.ofBytes "a.rules" twoCalls false)
      narrowSettings.analysisOptions).versionFindings = [] by decide +kernel] at member
    cases member
  have known := checkFailed_iff { arguments := ["a.rules"] } narrowSettings isProper_oneFile listed
    (fun c (_ : c ∈ narrow.cache) => served_oneFile c)
  exact ⟨kept, (known.2.2 .short false).mpr ⟨rfl, "a.rules", List.mem_singleton_self _, Or.inr ⟨_, rfl, kept⟩⟩⟩

/-- A service with a call of a function that is defined nowhere, behind a header with a version that is not known. -/
def unknownVersion : Bytes := "rules_version = '3'; service a \x7b allow read: if f(); \x7d"

/-- A disk with that file. -/
def unknownVersionDisk : Disk where
  root := .directory [("a.rules", .file unknownVersion)]

/-- The warning takes the only room, and the check of a file with an error goes well. -/
theorem not_checkFailed_unknownVersion :
    loadFile unknownVersionDisk "a.rules" = .ok (SourceFile.ofBytes "a.rules" unknownVersion false) ∧
    (Document.analyze "a.rules" 0 (SourceFile.ofBytes "a.rules" unknownVersion false) {}).hasErrors = true ∧
    (checkFile { limit := 1 } "a.rules" unknownVersionDisk).2.1.hasErrors = false ∧
    (CommandLine.checkWith { arguments := ["a.rules"] } { server := { maxDiagnostics := 1 } } .short none
      unknownVersionDisk false).failure.isNone = true :=
  ⟨rfl, by decide +kernel, by decide +kernel, by decide +kernel⟩

end Check

end SecurityRules
