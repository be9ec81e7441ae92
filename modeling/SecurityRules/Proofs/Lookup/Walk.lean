import Mathlib.Data.List.Basic
import SecurityRules.Rules.Element

/-!
# Walks and chains

A chain is found by a point, a walk goes everywhere. Where of the parts of an element only one contains a point, the
chain at that point goes on in this part.
-/

namespace SecurityRules

namespace Element

/-- What holds of an element as soon as it holds of its parts holds of every element. -/
theorem induct {motive : Element → Prop}
    (step : ∀ e : Element, (∀ part ∈ e.children, motive part) → motive e) (e : Element) : motive e :=
  step e fun part _ => induct step part
termination_by sizeOf e
decreasing_by exact sizeOf_lt_of_mem_children (by assumption)

theorem walk_eq (around : List Element) (e : Element) :
    e.walk around = (around, e) :: e.children.flatMap (walk (around ++ [e])) := by
  rw [walk]
  simp

/-- The elements around an element in a walk go on from those around the whole. -/
theorem walk_append (e : Element) : ∀ around : List Element,
    e.walk around = (e.walk []).map fun (inner, c) => (around ++ inner, c) := by
  induction e using induct with
  | step e ih =>
    intro around
    rw [walk_eq around, walk_eq [], List.map_cons, List.map_flatMap]
    dsimp only
    rw [List.append_nil, List.nil_append]
    congr 1
    apply List.flatMap_congr
    intro part member
    rw [ih part member (around ++ [e]), ih part member [e], List.map_map]
    apply List.map_congr_left
    intro entry _
    simp

/-- An element stands in another one, below the elements of a list from that one on. -/
def Holds (e : Element) (scopes : List Element) (c : Element) : Prop := (scopes, c) ∈ e.walk []

theorem holds_iff {e c : Element} {scopes : List Element} : e.Holds scopes c ↔
    scopes = [] ∧ c = e ∨ ∃ part ∈ e.children, ∃ inner, scopes = e :: inner ∧ part.Holds inner c := by
  unfold Holds
  rw [walk_eq, List.mem_cons, List.mem_flatMap, Prod.mk.injEq]
  apply or_congr Iff.rfl
  apply exists_congr
  intro part
  apply and_congr Iff.rfl
  rw [walk_append, List.mem_map]
  constructor
  · rintro ⟨⟨inner, d⟩, member, same⟩
    simp only [List.nil_append, List.singleton_append, Prod.mk.injEq] at same
    obtain ⟨rfl, rfl⟩ := same
    exact ⟨inner, rfl, member⟩
  · rintro ⟨inner, rfl, member⟩
    exact ⟨(inner, c), member, rfl⟩

theorem chainAt_eq (p : Point) (e : Element) :
    e.chainAt p = e :: ((e.children.find? (·.span.contains p)).map (chainAt p)).getD [] := by
  rw [chainAt]
  cases e.children.find? (·.span.contains p) <;> rfl

theorem chainAt_of_none {e : Element} {p : Point} (outside : ∀ part ∈ e.children, part.span.contains p = false) :
    e.chainAt p = [e] := by
  have none : e.children.find? (·.span.contains p) = none := by
    rw [List.find?_eq_none]
    intro part member
    rw [outside part member]
    exact Bool.false_ne_true
  rw [chainAt_eq, none]
  rfl

end Element

end SecurityRules
