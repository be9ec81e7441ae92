import Mathlib.Data.List.Chain
import Mathlib.Data.List.Forall2
import SecurityRules.Parser.Expression
import SecurityRules.Proofs.ParseTree.Nodes
import SecurityRules.Proofs.Token.Layout

/-!
# Leaves over tokens

A leaf stands over a run of tokens that touch each other: one token, or several where the leaf is a path
segment. The leaves of a tree tile a list of tokens if, from left to right and empty leaves apart, they
stand over runs that make up the whole list.
-/

namespace SecurityRules

/-- Whether leaves of this kind may stand over several tokens. -/
def NodeKind.isSegment (k : NodeKind) : Bool := k == .collectionSegment || k == .pathSegment

/-- Whether a leaf of this kind can stand over a token of a given kind. Reserved words are names where
only names can stand. -/
def NodeKind.spells : NodeKind → TokenKind → Bool
  | .token k, found => k == found && !found.isComment
  | .identifier, found | .fieldIdentifier, found => found == .identifier || found.isKeyword
  | .method, found | .typeName, found => found == .identifier
  | .number, found => found == .number
  | .string, found => found == .string
  | .boolean, found => found == .kwTrue || found == .kwFalse
  | .null, found => found == .kwNull
  | .collectionSegment, found | .pathSegment, found => Parser.isSegmentToken found
  | .comment, found => found.isComment
  | _, _ => false

namespace ParseTree

/-- A leaf that stands over a run of tokens that touch each other. -/
structure Over (leaf : ParseTree) (run : List Token) : Prop where
  start : run.head?.map (·.start) = some leaf.start
  stop : run.getLast?.map (·.stop) = some leaf.stop
  joined : run.IsChain fun a b => a.stop = b.start
  single : leaf.kind.isSegment = true ∨ run.length = 1
  spelled : ∀ t ∈ run, leaf.kind.spells t.kind = true

/-- The leaves, empty ones apart, stand in order over runs that make up the tokens. -/
def Tiled (leaves : List ParseTree) (tokens : List Token) : Prop :=
  ∃ runs : List (List Token), runs.flatten = tokens ∧
    List.Forall₂ Over (leaves.filter (!·.isEmpty)) runs

theorem Over.single_iff {leaf : ParseTree} {t : Token} :
    leaf.Over [t] ↔ leaf.start = t.start ∧ leaf.stop = t.stop ∧ leaf.kind.spells t.kind = true := by
  constructor
  · intro above
    have start := above.start
    have stop := above.stop
    simp only [List.head?_cons, List.getLast?_singleton, Option.map_some, Option.some.injEq]
      at start stop
    exact ⟨start.symm, stop.symm, above.spelled t (List.mem_singleton_self t)⟩
  · rintro ⟨start, stop, spelled⟩
    refine ⟨?_, ?_, List.isChain_singleton t, Or.inr rfl, ?_⟩
    · rw [List.head?_cons, Option.map_some, start]
    · rw [List.getLast?_singleton, Option.map_some, stop]
    · intro u member
      rw [List.mem_singleton.mp member]
      exact spelled

theorem Over.inRole {leaf : ParseTree} {run : List Token} (above : leaf.Over run)
    (r : Option Role) : (leaf.inRole r).Over run where
  start := by rw [start_inRole]; exact above.start
  stop := by rw [stop_inRole]; exact above.stop
  joined := above.joined
  single := by rw [kind_inRole]; exact above.single
  spelled := by rw [kind_inRole]; exact above.spelled

namespace Tiled

theorem nil : Tiled [] [] := ⟨[], rfl, List.Forall₂.nil⟩

theorem append {ls ms : List ParseTree} {ts us : List Token} (first : Tiled ls ts)
    (second : Tiled ms us) : Tiled (ls ++ ms) (ts ++ us) := by
  obtain ⟨runs, joined, above⟩ := first
  obtain ⟨runs', joined', above'⟩ := second
  refine ⟨runs ++ runs', ?_, ?_⟩
  · rw [List.flatten_append, joined, joined']
  · rw [List.filter_append]
    exact List.rel_append above above'

theorem empty {leaf : ParseTree} (isEmpty : leaf.isEmpty = true) : Tiled [leaf] [] := by
  refine ⟨[], rfl, ?_⟩
  rw [List.filter_cons_of_neg (by simp [isEmpty])]
  exact List.Forall₂.nil

theorem run {leaf : ParseTree} {ts : List Token} (filled : leaf.isEmpty = false)
    (above : leaf.Over ts) : Tiled [leaf] ts := by
  refine ⟨[ts], List.flatten_singleton, ?_⟩
  rw [List.filter_cons_of_pos (by simp [filled])]
  exact List.Forall₂.cons above List.Forall₂.nil

/-- The role of a tree does not matter for what its leaves stand over. -/
theorem inRole {t : ParseTree} {ts : List Token} (tiled : Tiled t.leaves ts) (r : Option Role) :
    Tiled (t.inRole r).leaves ts := by
  rw [leaves_inRole]
  by_cases childless : t.children = []
  · rw [if_pos childless]
    rw [leaves_of_childless childless] at tiled
    obtain ⟨runs, joined, above⟩ := tiled
    refine ⟨runs, joined, ?_⟩
    cases empty : t.isEmpty with
    | true =>
      rw [List.filter_cons_of_neg (by simp [empty])] at above ⊢
      exact above
    | false =>
      rw [List.filter_cons_of_pos (by simp [empty])] at above ⊢
      cases above with
      | cons first rest => exact List.Forall₂.cons (first.inRole r) rest
  · rw [if_neg childless]
    exact tiled

theorem exists_run {leaves : List ParseTree} {runs : List (List Token)}
    (above : List.Forall₂ Over leaves runs) {leaf : ParseTree} (member : leaf ∈ leaves) :
    ∃ run ∈ runs, leaf.Over run := by
  induction above with
  | nil => exact absurd member List.not_mem_nil
  | @cons first run rest runs first_above above ih =>
    rcases List.mem_cons.mp member with rfl | member
    · exact ⟨run, List.mem_cons_self .., first_above⟩
    · obtain ⟨found, inside, found_over⟩ := ih member
      exact ⟨found, List.mem_cons_of_mem _ inside, found_over⟩

/-- A leaf stands over a run of the tokens that it tiles with others. -/
theorem run_of_mem {leaves : List ParseTree} {tokens : List Token} (tiled : Tiled leaves tokens)
    {leaf : ParseTree} (member : leaf ∈ leaves) (filled : leaf.isEmpty = false) :
    ∃ run, run <:+: tokens ∧ leaf.Over run := by
  obtain ⟨runs, rfl, above⟩ := tiled
  have kept : leaf ∈ leaves.filter (!·.isEmpty) := by
    rw [List.mem_filter]
    exact ⟨member, by rw [filled]; rfl⟩
  obtain ⟨run, inside, found⟩ := exists_run above kept
  exact ⟨run, List.infix_of_mem_flatten inside, found⟩

end Tiled

/-- Whether a token lies inside a leaf. -/
def covers (leaf : ParseTree) (t : Token) : Bool :=
  decide (leaf.start ≤ t.start) && decide (t.stop ≤ leaf.stop)

theorem Over.ends {leaf : ParseTree} {run : List Token} (above : leaf.Over run) :
    ∃ first ∈ run, ∃ last ∈ run, first.start = leaf.start ∧ last.stop = leaf.stop := by
  obtain ⟨first, head, start⟩ := Option.map_eq_some_iff.mp above.start
  obtain ⟨last, final, stop⟩ := Option.map_eq_some_iff.mp above.stop
  exact ⟨first, List.mem_of_head? head, last, List.mem_of_getLast? final, start, stop⟩

/-- A leaf covers the tokens it stands over. -/
theorem Over.covers {leaf : ParseTree} {run : List Token} {size : Nat} (above : leaf.Over run)
    (laid : Token.Laid size run) {t : Token} (member : t ∈ run) : leaf.covers t = true := by
  have start : leaf.start ≤ t.start := by
    obtain ⟨first, head, start⟩ := Option.map_eq_some_iff.mp above.start
    obtain ⟨rest, split⟩ := List.head?_eq_some_iff.mp head
    rw [← start]
    rw [split] at member laid
    rcases List.mem_cons.mp member with rfl | later
    · exact Nat.le_refl _
    · have apart := (List.pairwise_cons.mp laid.apart).1 t later
      have filled := laid.filled first (List.mem_cons_self ..)
      omega
  have stop : t.stop ≤ leaf.stop := by
    obtain ⟨last, final, stop⟩ := Option.map_eq_some_iff.mp above.stop
    obtain ⟨before, split⟩ := List.getLast?_eq_some_iff.mp final
    rw [← stop]
    rw [split] at member laid
    rcases List.mem_append.mp member with earlier | same
    · have apart := (List.pairwise_append.mp laid.apart).2.2 t earlier last (List.mem_singleton_self _)
      have filled := laid.filled last (List.mem_append_right _ (List.mem_singleton_self _))
      omega
    · rw [List.mem_singleton.mp same]
  simp [ParseTree.covers, start, stop]

/-- Exactly one leaf with content covers a token. -/
theorem Tiled.countP_covers {leaves : List ParseTree} {tokens : List Token} {size : Nat}
    (tiled : Tiled leaves tokens) (laid : Token.Laid size tokens) {t : Token} (member : t ∈ tokens) :
    leaves.countP (fun leaf => leaf.covers t && !leaf.isEmpty) = 1 := by
  rw [← List.countP_filter]
  obtain ⟨runs, rfl, above⟩ := tiled
  generalize leaves.filter (!·.isEmpty) = filled at above
  induction above with
  | nil => exact absurd member List.not_mem_nil
  | @cons leaf run rest runs first above ih =>
    rw [List.flatten_cons] at laid member
    obtain ⟨laidRun, laidRest, between⟩ := laid.append
    rw [List.countP_cons]
    rcases List.mem_append.mp member with inside | behind
    · have alone : rest.countP (·.covers t) = 0 := by
        rw [List.countP_eq_zero]
        intro other memberOther
        obtain ⟨found, memberFound, otherOver⟩ := Tiled.exists_run above memberOther
        obtain ⟨head, memberHead, _, _, start, _⟩ := otherOver.ends
        have apart := between t inside head (List.mem_flatten_of_mem memberFound memberHead)
        have filled := laidRun.filled t inside
        simp only [covers, Bool.and_eq_true, decide_eq_true_eq]
        omega
      rw [alone, if_pos (first.covers laidRun inside)]
    · obtain ⟨_, _, last, memberLast, _, stop⟩ := first.ends
      have apart := between last memberLast t behind
      have filled := laidRest.filled t behind
      rw [ih laidRest behind, if_neg]
      simp only [covers, Bool.and_eq_true, decide_eq_true_eq]
      omega

end ParseTree

end SecurityRules
