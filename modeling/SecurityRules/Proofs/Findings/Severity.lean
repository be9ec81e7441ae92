import SecurityRules.Analysis
import SecurityRules.Proofs.Grammar.Steps
import SecurityRules.Proofs.Lookup.Walk

/-!
# How bad the findings of a document are

What is found in the parse tree or among the calls is an error, and of the header there is at most one finding. A parse
tree has findings if and only if there is an error or a placeholder in it.
-/

namespace SecurityRules

namespace Diagnose

theorem parseErrorsAll_eq_flatMap (ts : List ParseTree) : parseErrorsAll ts = ts.flatMap parseErrors := by
  induction ts with
  | nil => rfl
  | cons t rest ih => rw [parseErrorsAll, ih, List.flatMap_cons]

theorem parseErrors_eq (t : ParseTree) :
    parseErrors t = if t.isFlagged then [flagged t] else t.children.flatMap parseErrors := by
  cases t with
  | node kind isMissing role extent children =>
    rw [parseErrors, parseErrorsAll_eq_flatMap]
    rfl

theorem isError_flagged (t : ParseTree) : (flagged t).severity.isError = true := by
  rw [flagged]
  split <;> rfl

theorem isError_of_mem_parseErrors {d : Diagnostic} (t : ParseTree) (member : d ∈ parseErrors t) :
    d.severity.isError = true := by
  induction t using ParseTree.induct with
  | step t ih =>
    rw [parseErrors_eq] at member
    split at member
    · rw [List.mem_singleton.mp member]
      exact isError_flagged t
    · obtain ⟨c, child, member⟩ := List.mem_flatMap.mp member
      exact ih c child member

/-- Every error and placeholder of a tree is in one of its findings. -/
theorem parseErrors_eq_nil_iff (t : ParseTree) : parseErrors t = [] ↔ t.hasError = false := by
  induction t using ParseTree.induct with
  | step t ih =>
    rw [parseErrors_eq, Parser.hasError_eq_any]
    cases t.isFlagged with
    | true => simp
    | false =>
      rw [if_neg Bool.false_ne_true, Bool.false_or, List.flatMap_eq_nil_iff, List.any_eq_false]
      refine forall_congr' fun c => forall_congr' fun child => ?_
      rw [ih c child, Bool.not_eq_true]

theorem length_versionText_le (span : Span) (raw : Bytes) : (versionText span raw).length ≤ 1 := by
  rw [versionText]
  split
  · exact Nat.le_refl 1
  · split
    · exact Nat.zero_le 1
    · exact Nat.le_refl 1

theorem length_version_le (root : ParseTree) (file : SourceFile) : (version root file).length ≤ 1 := by
  rw [version]
  split
  · exact Nat.zero_le 1
  · split
    · exact Nat.zero_le 1
    · split
      · exact Nat.zero_le 1
      · exact length_versionText_le _ _

theorem isError_of_unresolvedCall? {policy : ScopePolicy} {builtins : List Bytes} {scopes : List Element} {e : Element}
    {d : Diagnostic} (found : unresolvedCall? policy builtins scopes e = some d) : d.severity.isError = true := by
  unfold unresolvedCall? at found
  split at found
  · split at found
    · cases found
    · split at found
      · cases found
      · rw [← Option.some.inj found]
        rfl
  · cases found

theorem isError_of_mem_unresolvedCalls {tree : RulesTree} {policy : ScopePolicy} {builtins : List Bytes}
    {d : Diagnostic} (member : d ∈ unresolvedCalls tree policy builtins) : d.severity.isError = true := by
  obtain ⟨⟨scopes, e⟩, _, found⟩ := List.mem_filterMap.mp member
  exact isError_of_unresolvedCall? found

/-- A document without items in its body has no calls. -/
theorem unresolvedCalls_empty (span bodySpan : Span) (policy : ScopePolicy) (builtins : List Bytes) :
    unresolvedCalls ⟨span, .mk bodySpan [] [] []⟩ policy builtins = [] := by
  simp [unresolvedCalls, Element.walk_eq, Element.children, MatchBody.functions, MatchBody.rules, MatchBody.blocks,
    unresolvedCall?]

end Diagnose

namespace Document

variable (uri : Bytes) (version : Int) (file : SourceFile) (options : AnalysisOptions)

/-- A document has an error if and only if its tree has one, the version in its header cannot be read, or one of its
calls is defined nowhere. -/
theorem hasErrors_analyze : (analyze uri version file options).hasErrors = true ↔
    (analyze uri version file options).root.hasError = true ∨
      (∃ d ∈ (analyze uri version file options).versionFindings, d.severity.isError = true) ∨
      (analyze uri version file options).semanticErrors ≠ [] := by
  have any_of_errors : ∀ ds : List Diagnostic, (∀ d ∈ ds, d.severity.isError = true) →
      (ds.any (·.severity.isError) = true ↔ ds ≠ []) := by
    intro ds errors
    cases ds with
    | nil => simp
    | cons d rest => simp [errors d (List.mem_cons_self ..)]
  have parsed := any_of_errors (analyze uri version file options).parseErrors
    fun d => Diagnose.isError_of_mem_parseErrors _
  have called := any_of_errors (analyze uri version file options).semanticErrors
    fun d => Diagnose.isError_of_mem_unresolvedCalls
  have rooted : (analyze uri version file options).parseErrors ≠ [] ↔
      (analyze uri version file options).root.hasError = true := by
    rw [Ne, ← Bool.not_eq_false]
    exact not_congr (Diagnose.parseErrors_eq_nil_iff _)
  rw [hasErrors, diagnostics, List.any_append, List.any_append, Bool.or_eq_true, Bool.or_eq_true, parsed, called,
    rooted, List.any_eq_true, or_assoc]

end Document

end SecurityRules
