import Mathlib
import SecurityRules.Proofs.Findings.Severity
import SecurityRules.Proofs.Landmark.Legible
import SecurityRules.Proofs.Origin.Makes

/-!
# Documents that are left out of the analysis

What the builder cannot place is mostly an error of the parser as well. The only exception is a document that is fine
for the parser but starts with two version headers: it has no service where one is looked for, so nothing of it is
analysed, and nothing is said about that.
-/

namespace SecurityRules

/-- The first two items of a document are version headers. -/
def ParseTree.RepeatsHeader (root : ParseTree) : Prop :=
  ∃ first second rest, root.significant = first :: second :: rest ∧
    first.kind = .rulesVersion ∧ second.kind = .rulesVersion

namespace Build

variable {f : SourceFile} {limit : Nat} {t : ParseTree}

theorem clean_child {c : ParseTree} (clean : t.hasError = false) (member : c ∈ t.children) : c.hasError = false := by
  rw [Parser.hasError_eq_any, Bool.or_eq_false_iff, List.any_eq_false] at clean
  exact Bool.eq_false_iff.mpr (clean.2 c member)

theorem isFlagged_of_clean (clean : t.hasError = false) : t.isFlagged = false := by
  rw [Parser.hasError_eq_any, Bool.or_eq_false_iff] at clean
  exact clean.1

theorem isError_of_clean (clean : t.hasError = false) : t.isError = false :=
  (Bool.or_eq_false_iff.mp (isFlagged_of_clean clean)).1

theorem isMissing_of_clean (clean : t.hasError = false) : t.isMissing = false :=
  (Bool.or_eq_false_iff.mp (isFlagged_of_clean clean)).2

theorem filter_isError_of_clean {cs : List ParseTree} (clean : ∀ c ∈ cs, c.hasError = false) :
    cs.filter (·.isError) = [] := by
  rw [List.filter_eq_nil_iff]
  intro c member
  rw [isError_of_clean (clean c member)]
  exact Bool.false_ne_true

theorem lost_functionBody (clean : t.hasError = false) : (functionBody f limit t).2 = [] := by
  rw [functionBody]
  split
  · rw [filter_isError_of_clean fun c => clean_child clean]
    rfl
  · rfl

theorem lost_function? (clean : t.hasError = false) : (function? f limit t).2 = [] := by
  rw [function?]
  split
  · cases found : t.child? .body with
    | none => rfl
    | some body => exact lost_functionBody (clean_child clean (ParseTree.mem_children_of_child? found))
  · rfl

/-- Everything in the body of a tree without errors has its place. -/
theorem lost_matchBody (clean : t.hasError = false) : (matchBody f limit t).2 = [] := by
  induction t using WellFounded.induction (measure (sizeOf : ParseTree → Nat)).wf with
  | _ t ih =>
    rw [matchBody_eq]
    split
    · rw [List.flatMap_eq_nil_iff]
      intro c member
      have child := clean_child clean member
      rw [lostIn]
      split
      · cases found : c.child? .body with
        | none => rfl
        | some body =>
          have inner := ParseTree.mem_children_of_child? found
          have smaller := Nat.lt_trans (ParseTree.sizeOf_lt_of_mem_children inner)
            (ParseTree.sizeOf_lt_of_mem_children member)
          simpa using ih body smaller (clean_child child inner)
      · exact lost_function? child
      · rename_i kind
        have noError := isError_of_clean child
        rw [ParseTree.isError, kind] at noError
        cases noError
      · rfl
    · rfl

/-- A document without errors that has its service where it should be loses nothing. -/
theorem unmapped_of_service {root found : ParseTree} (clean : root.hasError = false) (placed : service root = .ok found)
    (inside : found ∈ root.children) : (build f root limit).unmapped = [] := by
  have items : root.significant.filter (·.isError) = [] :=
    filter_isError_of_clean fun c member => clean_child clean (ParseTree.mem_children_of_significant member)
  rw [build, placed]
  dsimp only
  rw [items]
  cases body : found.child? .body with
  | none => rfl
  | some body' =>
    dsimp only
    rw [lost_matchBody (clean_child (clean_child clean inside) (ParseTree.mem_children_of_child? body))]
    rfl

theorem build_of_error {root offending : ParseTree} (misplaced : service root = .error offending) :
    build f root limit = ⟨⟨root.span, .mk root.span [] [] []⟩, [unmapped f offending]⟩ := by
  rw [build, misplaced]

theorem mem_children_of_service {root found : ParseTree} (placed : service root = .ok found) :
    found ∈ root.children := by
  refine ParseTree.mem_children_of_significant ?_
  unfold service at placed
  grind

end Build

namespace Parser

variable {f : SourceFile} {maxDepth : Int}

/-- The items of a document without errors are headers and services, and one at least is a service. -/
theorem items_of_clean (clean : (parse f maxDepth).hasError = false) :
    (∀ c ∈ (parse f maxDepth).significant, c.kind = .rulesVersion ∨ c.kind = .serviceDef) ∧
      ∃ c ∈ (parse f maxDepth).significant, c.kind = .serviceDef := by
  constructor
  · intro c member
    obtain ⟨slot, known, fits⟩ := (allOrdered_parse clean).2.exists_slot member
    obtain rfl := List.mem_singleton.mp known
    simpa using fits.2
  · have tidy := (hasError_parse f maxDepth).mp clean
    have service : (items f maxDepth).tree.children.any (·.kind == .serviceDef) = true := by
      rw [items] at tidy ⊢
      split at tidy
      · rename_i found
        rw [if_pos found]
        exact found
      · exact absurd ((dirty_lacking _ _ _).symm.trans tidy) Bool.false_ne_true
    obtain ⟨c, member, kind⟩ := List.any_eq_true.mp service
    rw [significant_parse (lays_items f maxDepth).state]
    refine ⟨c, List.mem_filter.mpr ⟨member, ?_⟩, eq_of_beq kind⟩
    rw [ParseTree.isExtra, eq_of_beq kind]
    rfl

/-- A document without errors has its service where it should be unless it starts with two headers. -/
theorem service_of_clean (clean : (parse f maxDepth).hasError = false) :
    (∃ offending, Build.service (parse f maxDepth) = .error offending) ↔ (parse f maxDepth).RepeatsHeader := by
  obtain ⟨kinds, found⟩ := items_of_clean clean
  have there : ∀ c ∈ (parse f maxDepth).significant, c.isMissing = false := fun c member =>
    Build.isMissing_of_clean (Build.clean_child clean (ParseTree.mem_children_of_significant member))
  unfold Build.service ParseTree.RepeatsHeader
  generalize (parse f maxDepth).significant = cs at kinds found there
  cases cs with
  | nil => simp at found
  | cons first rest =>
    have front := kinds first (List.mem_cons_self ..)
    cases rest with
    | nil =>
      -- A single item is the service.
      have kind : first.kind = .serviceDef := by simpa using found
      simp [kind, there first (List.mem_cons_self ..)]
    | cons second rest =>
      have next := kinds second (List.mem_cons_of_mem _ (List.mem_cons_self ..))
      have present := there second (List.mem_cons_of_mem _ (List.mem_cons_self ..))
      rcases front with front | front
      · rcases next with next | next <;> simp [front, next, present]
      · simp [front, there first (List.mem_cons_self ..)]

end Parser

namespace Document

variable (uri : Bytes) (version : Int) (file : SourceFile) (options : AnalysisOptions)

/-- A document of which something has no place although no error is found in it is one that has no errors for the
parser, starts with two version headers, and has a version that can be read in the first of them. -/
theorem silent_iff :
    ((analyze uri version file options).built.unmapped ≠ [] ∧ (analyze uri version file options).hasErrors = false) ↔
      (analyze uri version file options).root.hasError = false ∧
      (analyze uri version file options).root.RepeatsHeader ∧
      ∀ d ∈ (analyze uri version file options).versionFindings, d.severity.isError = false := by
  have errors := hasErrors_analyze uri version file options
  rw [← Bool.not_eq_true, errors, not_or, not_or, Bool.not_eq_true]
  constructor
  · rintro ⟨lost, clean, readable, -⟩
    refine ⟨clean, ?_, fun d member => ?_⟩
    · refine (Parser.service_of_clean clean).mp ?_
      cases placed : Build.service (analyze uri version file options).root with
      | error offending => exact ⟨offending, placed⟩
      | ok found => exact absurd (Build.unmapped_of_service clean placed (Build.mem_children_of_service placed)) lost
    · exact Bool.eq_false_iff.mpr fun isError => readable ⟨d, member, isError⟩
  · rintro ⟨clean, repeated, readable⟩
    obtain ⟨offending, misplaced⟩ := (Parser.service_of_clean clean).mpr repeated
    have built : (analyze uri version file options).built =
      ⟨⟨_, .mk _ [] [] []⟩, [Build.unmapped file offending]⟩ := Build.build_of_error misplaced
    have calls : (analyze uri version file options).semanticErrors = [] := by
      show Diagnose.unresolvedCalls (analyze uri version file options).built.tree _ _ = []
      rw [built]
      exact Diagnose.unresolvedCalls_empty ..
    refine ⟨by rw [built]; exact List.cons_ne_nil _ _, clean, ?_, not_not_intro calls⟩
    rintro ⟨d, member, isError⟩
    rw [readable d member] at isError
    cases isError

/-- A service with an undefined call behind two version headers. -/
def repeatedHeader : Document :=
  analyze [] 0 (SourceFile.ofBytes []
    (Bytes.ofString "rules_version = '2'; rules_version = '2'; service a \x7b allow read: if f(); \x7d") false) {}

/-- The whole service has no place, and still nothing is reported. -/
theorem silent_repeatedHeader :
    repeatedHeader.built.unmapped.length = 1 ∧ repeatedHeader.hasErrors = false := by
  decide +kernel

end Document

end SecurityRules
