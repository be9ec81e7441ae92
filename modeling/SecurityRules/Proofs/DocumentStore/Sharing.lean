import SecurityRules.DocumentStore
import SecurityRules.Proofs.DocumentStore.Update

/-!
# What the actions of callers keep

Every action leaves the store in order, and no name loses its slot or gets an older document. A slot holds documents that
were made and do not change, so an address that is still the one that was seen is also the same document.
-/

namespace SecurityRules.SharedStore

variable {s t : SharedStore} {uri other : Bytes} {slot : Nat} {x y own : Snapshot} {a b c seen : Option Snapshot}

/-- There is a document that is not older, if there is one at all. -/
def NotNewer (a b : Option Snapshot) : Prop :=
  ∀ x, a = some x → ∃ y, b = some y ∧ x.document.version ≤ y.document.version

theorem NotNewer.refl (a : Option Snapshot) : NotNewer a a := fun x found => ⟨x, found, Int.le_refl _⟩

theorem NotNewer.trans (first : NotNewer a b) (second : NotNewer b c) : NotNewer a c := by
  intro x found
  obtain ⟨y, found', older⟩ := first x found
  obtain ⟨z, found'', older'⟩ := second y found'
  exact ⟨z, found'', Int.le_trans older older'⟩

/-- A document lies where its snapshot says. -/
def Has (s : SharedStore) (x : Snapshot) : Prop := s.made[x.address]? = some x.document

/-- At an address there is one document. -/
theorem Has.eq (has : s.Has x) (has' : s.Has y) (same : x.address = y.address) : x = y := by
  obtain ⟨address, document⟩ := x
  obtain ⟨address', document'⟩ := y
  obtain rfl : address = address' := same
  obtain rfl := Option.some.inj (has.symm.trans has')
  rfl

theorem held_of_slot? (found : s.slot? uri = some slot) : s.held uri = s.content slot := by
  rw [held, found]
  rfl

theorem held_of_unplaced (absent : s.slot? uri = none) : s.held uri = none := by
  rw [held, absent]
  rfl

/-! ## The store -/

/-- A store in order. -/
structure Sound (s : SharedStore) : Prop where
  has : ∀ n x, s.content n = some x → s.Has x
  named : ∀ uri x, s.held uri = some x → x.document.uri = uri
  numbered : ∀ uri n, s.slot? uri = some n → n < s.slots.length
  apart : ∀ uri other n, s.slot? uri = some n → s.slot? other = some n → uri = other
  once : (s.slots.map (·.1)).Nodup

/-- What every action of a caller keeps. -/
structure Grown (s t : SharedStore) : Prop where
  options : t.options = s.options
  has : ∀ x, s.Has x → t.Has x
  slot? : ∀ uri n, s.slot? uri = some n → t.slot? uri = some n
  held : ∀ uri, NotNewer (s.held uri) (t.held uri)

theorem Grown.refl (s : SharedStore) : Grown s s := ⟨rfl, fun _ h => h, fun _ _ h => h, fun _ => .refl _⟩

theorem Grown.trans {u : SharedStore} (first : Grown s t) (second : Grown t u) : Grown s u where
  options := second.options.trans first.options
  has x h := second.has x (first.has x h)
  slot? uri n h := second.slot? uri n (first.slot? uri n h)
  held uri := (first.held uri).trans (second.held uri)

theorem sound_empty (options : AnalysisOptions) : Sound { options } where
  has := by simp
  named := by simp [held, slot?]
  numbered := by simp [slot?]
  apart := by simp [slot?]
  once := List.nodup_nil

/-! ## Making a document -/

theorem has_make (s : SharedStore) (d : Document) : (s.make d).1.Has (s.make d).2 := by
  simp [make, Has]

theorem has_make_iff {d : Document} : (s.make d).1.Has x ↔ s.Has x ∨ x = (s.make d).2 := by
  constructor
  · intro has
    rcases Nat.lt_trichotomy x.address s.made.length with less | same | more
    · left
      rw [Has, make] at has
      rwa [List.getElem?_append_left less] at has
    · right
      exact has.eq (has_make s d) same
    · rw [Has, make, List.getElem?_eq_none (by simp; omega)] at has
      cases has
  · rintro (has | rfl)
    · rw [Has, make]
      have inside : x.address < s.made.length := (List.getElem?_eq_some_iff.mp has).1
      rwa [List.getElem?_append_left inside]
    · exact has_make s d

theorem grown_make (s : SharedStore) (d : Document) : Grown s (s.make d).1 where
  options := rfl
  has _ h := has_make_iff.mpr (Or.inl h)
  slot? _ _ h := h
  held _ := .refl _

theorem Sound.make (sound : s.Sound) (d : Document) : (s.make d).1.Sound where
  has n x found := has_make_iff.mpr (Or.inl (sound.has n x found))
  named := sound.named
  numbered := sound.numbered
  apart := sound.apart
  once := sound.once

/-! ## Making a slot -/

theorem place_of_placed (found : s.slot? uri = some slot) : s.place uri = (s, slot) := by
  rw [place, found]

/-- A new slot is empty, so nothing changes in what is kept. -/
theorem place_of_unplaced (sound : s.Sound) (absent : s.slot? uri = none) :
    (∀ other, (s.place uri).1.slot? other = if other = uri then some s.slots.length else s.slot? other) ∧
      ∀ other, (s.place uri).1.held other = s.held other := by
  have slots : ∀ other, (s.place uri).1.slot? other =
      if other = uri then some s.slots.length else s.slot? other := by
    intro other
    rw [place, absent]
    exact lookup_cons _ _ _
  refine ⟨slots, fun other => ?_⟩
  rw [held, slots]
  by_cases same : other = uri
  · subst same
    rw [if_pos rfl, held_of_unplaced absent, place, absent]
    exact if_pos rfl
  · rw [if_neg same, held, place, absent]
    cases found : s.slot? other with
    | none => rfl
    | some n => exact if_neg (Nat.ne_of_lt (sound.numbered other n found))

theorem slot?_place (s : SharedStore) (uri : Bytes) : (s.place uri).1.slot? uri = some (s.place uri).2 := by
  rw [place]
  split
  · assumption
  · exact (lookup_cons _ _ _).trans (if_pos rfl)

theorem held_place (sound : s.Sound) (uri other : Bytes) : (s.place uri).1.held other = s.held other := by
  cases found : s.slot? uri with
  | some n => rw [place_of_placed found]
  | none => exact (place_of_unplaced sound found).2 other

theorem grown_place (sound : s.Sound) (uri : Bytes) : Grown s (s.place uri).1 := by
  cases found : s.slot? uri with
  | some n =>
    rw [place_of_placed found]
    exact .refl s
  | none =>
    obtain ⟨slots, held⟩ := place_of_unplaced sound found
    refine ⟨?_, fun x h => ?_, fun other n h => ?_, fun other => ?_⟩
    · rw [place, found]
    · rw [Has, place, found]
      exact h
    · rw [slots, if_neg]
      · exact h
      · rintro rfl
        rw [found] at h
        cases h
    · rw [held]
      exact .refl _

theorem Sound.place (sound : s.Sound) (uri : Bytes) : (s.place uri).1.Sound := by
  cases found : s.slot? uri with
  | some n =>
    rw [place_of_placed found]
    exact sound
  | none =>
    obtain ⟨slots, held⟩ := place_of_unplaced sound found
    have length : (s.place uri).1.slots.length = s.slots.length + 1 := by
      rw [SharedStore.place, found]
      rfl
    have numbered : ∀ other n, (s.place uri).1.slot? other = some n → n < s.slots.length + 1 := by
      intro other n known
      rw [slots] at known
      split at known
      · obtain rfl := Option.some.inj known
        omega
      · have := sound.numbered other n known
        omega
    refine ⟨fun n x known => ?_, fun other x known => ?_, fun other n known => ?_, fun v w n first second => ?_, ?_⟩
    · rw [SharedStore.place, found] at known ⊢
      dsimp only at known
      split at known
      · cases known
      · exact sound.has n x known
    · rw [held] at known
      exact sound.named other x known
    · rw [length]
      exact numbered other n known
    · rw [slots] at first second
      split at first <;> split at second
      · simp_all
      · obtain rfl := Option.some.inj first
        exact absurd (sound.numbered w _ second) (Nat.lt_irrefl _)
      · obtain rfl := Option.some.inj second
        exact absurd (sound.numbered v _ first) (Nat.lt_irrefl _)
      · exact sound.apart v w n first second
    · rw [SharedStore.place, found]
      rw [List.map_cons, List.nodup_cons]
      refine ⟨fun member => ?_, sound.once⟩
      obtain ⟨entry, inside, rfl⟩ := List.mem_map.mp member
      rw [slot?, List.lookup_eq_none_iff] at found
      have := found entry inside
      simp at this

/-! ## Exchanging what a slot holds -/

/-- The slot held what was seen, and holds the new document now. -/
theorem exchange_eq_some (sound : s.Sound) (has : ∀ x, seen = some x → s.Has x)
    (done : s.exchange slot seen own = some t) :
    s.content slot = seen ∧ t = { s with content := fun n => if n = slot then some own else s.content n } := by
  rw [exchange] at done
  split at done
  · rename_i same
    refine ⟨?_, (Option.some.inj done).symm⟩
    cases kept : s.content slot with
    | none =>
      cases seen with
      | none => rfl
      | some y => simp [kept] at same
    | some x =>
      cases seen with
      | none => simp [kept] at same
      | some y =>
        have same : x.address = y.address := by simpa [kept] using same
        rw [(sound.has slot x kept).eq (has y rfl) same]
  · cases done

theorem held_exchange (sound : s.Sound) (placed : s.slot? uri = some slot)
    (done : t = { s with content := fun n => if n = slot then some own else s.content n }) (other : Bytes) :
    t.held other = if other = uri then some own else s.held other := by
  subst done
  rw [held]
  show ((s.slot? other).bind fun n => if n = slot then some own else s.content n) = _
  by_cases same : other = uri
  · subst same
    rw [placed, if_pos rfl]
    exact if_pos rfl
  · rw [if_neg same, held]
    cases found : s.slot? other with
    | none => rfl
    | some n =>
      refine if_neg fun equal => same ?_
      subst equal
      exact sound.apart other uri n found placed

theorem Sound.exchange (sound : s.Sound) (placed : s.slot? uri = some slot) (has : s.Has own)
    (named : own.document.uri = uri)
    (done : t = { s with content := fun n => if n = slot then some own else s.content n }) : t.Sound := by
  have held := held_exchange sound placed done
  subst done
  refine ⟨fun n x found => ?_, fun other x found => ?_, sound.numbered, sound.apart, sound.once⟩
  · dsimp only at found
    split at found
    · obtain rfl := Option.some.inj found
      exact has
    · exact sound.has n x found
  · rw [held] at found
    split at found
    · obtain rfl := Option.some.inj found
      rename_i same
      rw [same, named]
    · exact sound.named other x found

theorem grown_exchange (sound : s.Sound) (placed : s.slot? uri = some slot)
    (notNewer : NotNewer (s.content slot) (some own))
    (done : t = { s with content := fun n => if n = slot then some own else s.content n }) : Grown s t := by
  have held := held_exchange sound placed done
  subst done
  refine ⟨rfl, fun _ h => h, fun _ _ h => h, fun other => ?_⟩
  rw [held]
  split
  · rename_i same
    rw [same, held_of_slot? placed]
    exact notNewer
  · exact .refl _

end SecurityRules.SharedStore
