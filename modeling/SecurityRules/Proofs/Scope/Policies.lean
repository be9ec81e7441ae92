import Mathlib.Logic.Basic
import SecurityRules.Analysis
import SecurityRules.Diagnose

/-!
# The two policies and what binds a name

Both policies ask the same scopes and so find a declaration for the same references. They differ only in which of
several scopes counts: the first one of the chain or the last one. What is reported of the calls of a document only
depends on whether there is a declaration, and so not on the policy.

A name is bound by the captures of a match path, of one segment or of all that follow, and by the `let`s of a
function. The search for a declaration finds all of these but the captures of all segments that follow.
-/

namespace SecurityRules

namespace Scope

/-! ## What a scope declares -/

/-- All declarations of a scope that a reference can refer to, in the order of the document. -/
def candidates : Reference → Element → List Declaration
  | .call name, .matchBody body => (body.functions.filter (·.name == name)).map .function
  | .variable name, .matchBlock block =>
    (((block.path.map (·.parts)).getD []).filter fun p => p.kind == .single && p.value == name).map .capture
  | .variable name, .functionBody body => (body.definitions.filter (·.name.name == name)).map .letDefinition
  | _, _ => []

/-- Of the declarations of one scope the first one counts. -/
theorem declared?_eq_head? (reference : Reference) (scope : Element) :
    declared? reference scope = (candidates reference scope).head? := by
  cases reference <;> cases scope <;> simp [declared?, function?, binding?, candidates]

theorem declared?_eq_none {reference : Reference} {scope : Element} :
    declared? reference scope = none ↔ candidates reference scope = [] := by
  rw [declared?_eq_head?, List.head?_eq_none_iff]

theorem declared?_eq_some {reference : Reference} {scope : Element} {d : Declaration} :
    declared? reference scope = some d ↔ ∃ later, candidates reference scope = d :: later := by
  rw [declared?_eq_head?, List.head?_eq_some_iff]

/-! ## The scope that counts -/

section

variable {policy : ScopePolicy} {reference : Reference} {scopes : List Element} {d : Declaration}

theorem mem_order {scope : Element} : scope ∈ policy.order scopes ↔ scope ∈ scopes := by
  cases policy with
  | outermost => exact Iff.rfl
  | innermost => exact List.mem_reverse

theorem resolveIn_eq_ok :
    resolveIn policy reference scopes = .ok d ↔ (policy.order scopes).findSome? (declared? reference) = some d := by
  unfold resolveIn
  split
  · rename_i found there
    rw [there]
    exact ⟨fun same => congrArg some (Except.ok.inj same), fun same => congrArg Except.ok (Option.some.inj same)⟩
  · rename_i missing
    simp [missing]

/-- A reference has a declaration exactly if a scope declares it, whatever the policy. -/
theorem exists_resolveIn_iff :
    (∃ d, resolveIn policy reference scopes = .ok d) ↔ ∃ scope ∈ scopes, candidates reference scope ≠ [] := by
  simp only [resolveIn_eq_ok, ← Option.isSome_iff_exists, List.isSome_findSome?, List.any_eq_true, mem_order,
    declared?_eq_head?, List.isSome_head?, ne_eq]

/-- Its declaration is one of those of a scope. -/
theorem mem_candidates_of_resolveIn (found : resolveIn policy reference scopes = .ok d) :
    ∃ scope ∈ scopes, d ∈ candidates reference scope := by
  obtain ⟨scope, member, declares⟩ := List.exists_of_findSome?_eq_some (resolveIn_eq_ok.1 found)
  obtain ⟨later, first⟩ := declared?_eq_some.1 declares
  exact ⟨scope, mem_order.1 member, first ▸ List.mem_cons_self⟩

/-- Otherwise it fails with the reference, whatever the policy. -/
theorem resolveIn_of_silent (silent : ∀ scope ∈ scopes, candidates reference scope = []) :
    resolveIn policy reference scopes = .error (.unresolved reference) := by
  have missing : (policy.order scopes).findSome? (declared? reference) = none :=
    List.findSome?_eq_none_iff.2 fun scope member => declared?_eq_none.2 (silent scope (mem_order.1 member))
  rw [resolveIn, missing]

/-- From outside, the first scope with a declaration counts. -/
theorem resolveIn_outermost :
    resolveIn .outermost reference scopes = .ok d ↔ ∃ front scope back later, scopes = front ++ scope :: back ∧
      (∀ s ∈ front, candidates reference s = []) ∧ candidates reference scope = d :: later := by
  rw [resolveIn_eq_ok, ScopePolicy.order, List.findSome?_eq_some_iff]
  simp only [declared?_eq_none, declared?_eq_some]
  constructor
  · rintro ⟨front, scope, back, split, ⟨later, first⟩, silent⟩
    exact ⟨front, scope, back, later, split, silent, first⟩
  · rintro ⟨front, scope, back, later, split, silent, first⟩
    exact ⟨front, scope, back, split, ⟨later, first⟩, silent⟩

/-- From inside, the last scope with a declaration counts. -/
theorem resolveIn_innermost :
    resolveIn .innermost reference scopes = .ok d ↔ ∃ front scope back later, scopes = front ++ scope :: back ∧
      candidates reference scope = d :: later ∧ ∀ s ∈ back, candidates reference s = [] := by
  have mirrored : resolveIn .innermost reference scopes = resolveIn .outermost reference scopes.reverse := rfl
  rw [mirrored, resolveIn_outermost]
  constructor
  · rintro ⟨back, scope, front, later, split, silent, first⟩
    refine ⟨front.reverse, scope, back.reverse, later, ?_, first, fun s member => silent s (List.mem_reverse.1 member)⟩
    rw [← List.reverse_reverse scopes, split]
    simp
  · rintro ⟨front, scope, back, later, rfl, first, silent⟩
    exact ⟨back.reverse, scope, front.reverse, later, by simp, fun s member => silent s (List.mem_reverse.1 member),
      first⟩

end

/-- Where only one scope has a declaration, a scope that has one stands with only silent ones around it. -/
theorem silent_around {reference : Reference} {front back : List Element} {scope : Element}
    (single : ((front ++ scope :: back).filter fun s => !(candidates reference s).isEmpty).length = 1)
    (declares : candidates reference scope ≠ []) :
    (∀ s ∈ front, candidates reference s = []) ∧ ∀ s ∈ back, candidates reference s = [] := by
  rw [List.filter_append, List.filter_cons_of_pos (by simpa using declares), List.length_append,
    List.length_cons] at single
  have front_eq : (front.filter fun s => !(candidates reference s).isEmpty) = [] :=
    List.length_eq_zero_iff.1 (by omega)
  have back_eq : (back.filter fun s => !(candidates reference s).isEmpty) = [] :=
    List.length_eq_zero_iff.1 (by omega)
  rw [List.filter_eq_nil_iff] at front_eq back_eq
  exact ⟨fun s member => by simpa using front_eq s member, fun s member => by simpa using back_eq s member⟩

/-! ## The reference of a chain -/

theorem targetOfReverse_eq_some {inner outer : List Element} {e : Element} {reference : Reference}
    (found : targetOfReverse inner = some (e, reference, outer)) :
    ∃ rest, inner = rest ++ e :: outer.reverse ∧ reference? e = some reference ∧ ∀ x ∈ rest, reference? x = none := by
  induction inner with
  | nil => cases found
  | cons first inner ih =>
    rw [targetOfReverse] at found
    split at found
    · rename_i there
      simp only [Option.some.injEq, Prod.mk.injEq] at found
      obtain ⟨rfl, rfl, rfl⟩ := found
      exact ⟨[], by simp, there, fun x member => absurd member List.not_mem_nil⟩
    · rename_i missing
      obtain ⟨rest, rfl, there, silent⟩ := ih found
      exact ⟨first :: rest, rfl, there, List.forall_mem_cons.2 ⟨missing, silent⟩⟩

/-- The reference of a chain is its last one, and the scopes are what stands in front of it. -/
theorem target?_eq_some {chain outer : List Element} {e : Element} {reference : Reference}
    (found : target? chain = some (e, reference, outer)) :
    ∃ rest, chain = outer ++ e :: rest ∧ reference? e = some reference ∧ ∀ x ∈ rest, reference? x = none := by
  rw [target?] at found
  split at found
  · cases found
  · obtain ⟨rest, split, there, silent⟩ := targetOfReverse_eq_some found
    refine ⟨rest.reverse, ?_, there, fun x member => silent x (List.mem_reverse.1 member)⟩
    rw [← List.reverse_reverse chain, split]
    simp

end Scope

/-! ## Duality -/

open Scope (candidates target? reference? resolve resolveIn)

/-- Either no scope declares a reference and it has no declaration under any policy, or it has one under each: the
first one of the first or of the last scope with a declaration. -/
theorem Scope.resolveIn_alike (reference : Reference) (scopes : List Element) :
    ((∀ scope ∈ scopes, candidates reference scope = []) ∧
        ∀ policy, resolveIn policy reference scopes = .error (.unresolved reference)) ∨
      ∃ first last, resolveIn .outermost reference scopes = .ok first ∧
        resolveIn .innermost reference scopes = .ok last := by
  by_cases silent : ∀ scope ∈ scopes, candidates reference scope = []
  · exact Or.inl ⟨silent, fun policy => resolveIn_of_silent silent⟩
  · have declared : ∃ scope ∈ scopes, candidates reference scope ≠ [] := by
      simpa only [not_forall, exists_prop] using silent
    obtain ⟨first, outermost⟩ := (@exists_resolveIn_iff .outermost reference scopes).2 declared
    obtain ⟨last, innermost⟩ := (@exists_resolveIn_iff .innermost reference scopes).2 declared
    exact Or.inr ⟨first, last, outermost, innermost⟩

/-- The finding about an element does not depend on the policy. -/
theorem Diagnose.unresolvedCall?_policy (builtins : List Bytes) (scopes : List Element) (e : Element) :
    unresolvedCall? .outermost builtins scopes e = unresolvedCall? .innermost builtins scopes e := by
  unfold unresolvedCall?
  split
  · rename_i span name nameSpan args
    rcases Scope.resolveIn_alike (.call name) scopes with ⟨_, missing⟩ | ⟨first, last, outermost, innermost⟩
    · rw [missing, missing]
    · rw [outermost, innermost]
  · rfl

/-- The two policies are dual. On every chain both fail alike, since there is no reference or no scope in front of it
declares it, or both find a declaration: the first one of the first scope that has one, or the first one of the last
such scope, which is the same if there is only one such scope. What is reported of the calls of a document is the same
under both. -/
theorem policies_dual :
    (∀ chain : List Element,
      (target? chain = none ∧ ∀ policy, resolve policy chain = .error .noTarget) ∨
        ∃ outer e rest reference, chain = outer ++ e :: rest ∧ target? chain = some (e, reference, outer) ∧
          reference? e = some reference ∧ (∀ x ∈ rest, reference? x = none) ∧
          (((∀ scope ∈ outer, candidates reference scope = []) ∧
              ∀ policy, resolve policy chain = .error (.unresolved reference)) ∨
            ∃ first last, resolve .outermost chain = .ok first ∧ resolve .innermost chain = .ok last ∧
              (∃ front scope back later, outer = front ++ scope :: back ∧ (∀ s ∈ front, candidates reference s = []) ∧
                candidates reference scope = first :: later) ∧
              (∃ front scope back later, outer = front ++ scope :: back ∧ candidates reference scope = last :: later ∧
                ∀ s ∈ back, candidates reference s = []) ∧
              ((outer.filter fun s => !(candidates reference s).isEmpty).length = 1 → first = last))) ∧
      ∀ (tree : RulesTree) (builtins : List Bytes),
        Diagnose.unresolvedCalls tree .outermost builtins = Diagnose.unresolvedCalls tree .innermost builtins := by
  refine ⟨fun chain => ?_, fun tree builtins => ?_⟩
  · cases found : target? chain with
    | none => exact Or.inl ⟨rfl, fun policy => by rw [resolve, found]⟩
    | some target =>
      obtain ⟨e, reference, outer⟩ := target
      obtain ⟨rest, split, there, silent⟩ := Scope.target?_eq_some found
      have resolve_eq (policy : ScopePolicy) : resolve policy chain = resolveIn policy reference outer := by
        rw [resolve, found]
      refine Or.inr ⟨outer, e, rest, reference, split, rfl, there, silent, ?_⟩
      simp only [resolve_eq]
      rcases Scope.resolveIn_alike reference outer with missing | ⟨first, last, outermost, innermost⟩
      · exact Or.inl missing
      refine Or.inr ⟨first, last, outermost, innermost, Scope.resolveIn_outermost.1 outermost,
        Scope.resolveIn_innermost.1 innermost, fun single => ?_⟩
      obtain ⟨front, scope, back, later, rfl, quiet, declares⟩ := Scope.resolveIn_outermost.1 outermost
      have around := Scope.silent_around single (by rw [declares]; exact List.cons_ne_nil _ _)
      have same := Scope.resolveIn_innermost.2 ⟨front, scope, back, later, rfl, declares, around.2⟩
      exact Except.ok.inj (same.symm.trans innermost)
  · unfold Diagnose.unresolvedCalls
    congr 1
    funext ⟨scopes, e⟩
    exact Diagnose.unresolvedCall?_policy builtins scopes e

/-! ## Binders -/

/-- What binds a name in a scope. Parameters of functions do not. -/
inductive Binds (name : Bytes) : Element → Declaration → Prop
  | capture {block : MatchBlock} {path : MatchPath} {part : PathPart} (written : block.path = some path)
    (member : part ∈ path.parts) (captures : part.kind ≠ .collection) (named : part.value = name) :
    Binds name (.matchBlock block) (.capture part)
  | letDefinition {body : FunctionBody} {definition : LetDefinition} (member : definition ∈ body.definitions)
    (named : definition.name.name = name) : Binds name (.functionBody body) (.letDefinition definition)

/-- The binders of a name in a scope, in the order of the document. -/
def binders (name : Bytes) : Element → List Declaration
  | .matchBlock block =>
    (((block.path.map (·.parts)).getD []).filter fun p => p.kind != .collection && p.value == name).map .capture
  | .functionBody body => (body.definitions.filter (·.name.name == name)).map .letDefinition
  | _ => []

theorem mem_binders {name : Bytes} {scope : Element} {d : Declaration} :
    d ∈ binders name scope ↔ Binds name scope d := by
  constructor
  · intro member
    cases scope with
    | matchBlock block =>
      obtain ⟨part, kept, rfl⟩ := List.mem_map.1 member
      obtain ⟨inPath, fits⟩ := List.mem_filter.1 kept
      obtain ⟨captures, named⟩ : part.kind ≠ .collection ∧ part.value = name := by simpa using fits
      cases written : block.path with
      | none => simp [written] at inPath
      | some path => exact .capture written (by simpa [written] using inPath) captures named
    | functionBody body =>
      obtain ⟨definition, kept, rfl⟩ := List.mem_map.1 member
      obtain ⟨inBody, named⟩ := List.mem_filter.1 kept
      exact .letDefinition inBody (by simpa using named)
    | _ => cases member
  · intro binds
    cases binds with
    | capture written member captures named => simp [binders, written, member, captures, named]
    | letDefinition member named => simp [binders, member, named]

/-- A capture of all segments that follow: `{rest=**}`. -/
def Declaration.isRest : Declaration → Bool
  | .capture part => part.kind == .multi
  | _ => false

namespace Scope

/-- A name can refer to its binders, without the captures of all segments that follow. -/
theorem candidates_variable (name : Bytes) (scope : Element) :
    candidates (.variable name) scope = (binders name scope).filter (!·.isRest) := by
  cases scope with
  | matchBlock block =>
    simp only [candidates, binders, List.filter_map, List.filter_filter]
    congr 2
    funext part
    cases kind : part.kind <;> simp only [Function.comp_apply, Declaration.isRest, kind] <;> rfl
  | functionBody body => simp [candidates, binders, List.filter_map, Declaration.isRest, Function.comp_def]
  | _ => rfl

/-- A name has a declaration exactly if a scope binds it by a `let` or a capture of one segment, and then its
declaration is such a binder. A capture of all segments that follow binds its name as well but is never found. -/
theorem variable_resolved_iff (policy : ScopePolicy) (name : Bytes) (scopes : List Element) :
    ((∃ d, resolveIn policy (.variable name) scopes = .ok d) ↔
        ∃ scope ∈ scopes, ∃ d, Binds name scope d ∧ d.isRest = false) ∧
      ∀ d, resolveIn policy (.variable name) scopes = .ok d →
        ∃ scope ∈ scopes, Binds name scope d ∧ d.isRest = false := by
  have mem_candidates {scope : Element} {d : Declaration} :
      d ∈ candidates (.variable name) scope ↔ Binds name scope d ∧ d.isRest = false := by
    rw [candidates_variable, List.mem_filter, mem_binders, Bool.not_eq_true']
  have declared : ∀ d, resolveIn policy (.variable name) scopes = .ok d →
      ∃ scope ∈ scopes, Binds name scope d ∧ d.isRest = false := by
    intro d found
    simpa only [mem_candidates] using mem_candidates_of_resolveIn found
  refine ⟨⟨fun ⟨d, found⟩ => ?_, fun ⟨scope, member, d, binds⟩ => ?_⟩, declared⟩
  · obtain ⟨scope, member, binds⟩ := declared d found
    exact ⟨scope, member, d, binds⟩
  · exact exists_resolveIn_iff.2 ⟨scope, member, List.ne_nil_of_mem (mem_candidates.2 binds)⟩

end Scope

namespace Document

/-- A document with a capture of all segments that follow and a rule that names it. -/
def sampleRest : Document :=
  analyze [] 1 (SourceFile.ofBytes [] (Bytes.ofString
    "service s \x7b match /a/\x7brest=**\x7d \x7b allow read: if rest; \x7d \x7d") true) {}

/-- The name in the rule is bound by a capture around it and has no declaration under either policy. -/
theorem bound_not_resolved_sampleRest :
    ∃ e scopes, Scope.target? (sampleRest.lookup ⟨0, 48⟩) = some (e, .variable (Bytes.ofString "rest"), scopes) ∧
      (∃ scope ∈ scopes, ∃ d, Binds (Bytes.ofString "rest") scope d) ∧
      ∀ policy, ¬∃ d, Scope.resolveIn policy (.variable (Bytes.ofString "rest")) scopes = .ok d := by
  have found : (Scope.target? (sampleRest.lookup ⟨0, 48⟩)).any (fun (_, reference, scopes) =>
      reference == .variable (Bytes.ofString "rest") &&
        scopes.any (fun scope => !(binders (Bytes.ofString "rest") scope).isEmpty) &&
        scopes.all fun scope => (Scope.candidates (.variable (Bytes.ofString "rest")) scope).isEmpty) = true := by
    decide +kernel
  cases there : Scope.target? (sampleRest.lookup ⟨0, 48⟩) with
  | none => simp [there] at found
  | some target =>
    obtain ⟨e, reference, scopes⟩ := target
    simp only [there, Option.any_some, Bool.and_eq_true, beq_iff_eq, List.any_eq_true, List.all_eq_true,
      Bool.not_eq_true', List.isEmpty_iff, List.isEmpty_eq_false_iff] at found
    obtain ⟨⟨rfl, scope, member, binds⟩, silent⟩ := found
    obtain ⟨d, binder⟩ := List.exists_mem_of_ne_nil _ binds
    refine ⟨e, scopes, rfl, ⟨scope, member, d, mem_binders.1 binder⟩, fun policy => ?_⟩
    rw [Scope.exists_resolveIn_iff]
    rintro ⟨scope, member, declares⟩
    exact declares (silent scope member)

end Document

end SecurityRules
