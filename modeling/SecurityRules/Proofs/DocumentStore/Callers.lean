import Mathlib.Logic.Relation
import SecurityRules.Proofs.DocumentStore.Sharing

/-!
# What callers know

What a caller has seen of the store stays true while the others go on. Every action of a caller leaves the store as a
single caller would see it, but for the one with which an update ends: there the store does what it does for an update
that nobody interrupts.
-/

namespace SecurityRules.SharedStore

variable {s t : SharedStore} {st : DocumentStore} {w : Writer} {r : Reader} {x own : Snapshot}

/-! ## Writers -/

/-- A document that a writer has made. -/
def Owns (s : SharedStore) (w : Writer) (own : Snapshot) : Prop :=
  s.Has own ∧ own.document = w.request.document s.options

/-- What a writer knows. -/
def Writer.Sound (s : SharedStore) (w : Writer) : Prop :=
  match w.progress with
  | .waiting => True
  | .analyzed own | .unplaced own => Owns s w own
  | .placed own slot => Owns s w own ∧ s.slot? w.request.uri = some slot
  | .looked own slot seen =>
    Owns s w own ∧ s.slot? w.request.uri = some slot ∧
      ∀ x, seen = some x → s.Has x ∧ x.document.version ≤ w.request.version
  | .finished own answer isFresh =>
    Owns s w own ∧ s.Has answer ∧ NotNewer (some answer) (s.held w.request.uri) ∧
      (if isFresh then answer = own else w.request.version < answer.document.version)

theorem Owns.version (owns : Owns s w own) : own.document.version = w.request.version := by
  rw [owns.2]
  rfl

theorem Owns.uri (owns : Owns s w own) : own.document.uri = w.request.uri := by
  rw [owns.2]
  rfl

theorem Owns.grown (owns : Owns s w own) (grown : Grown s t) : Owns t w own :=
  ⟨grown.has own owns.1, by rw [grown.options, owns.2]⟩

/-- What the others do takes nothing away from what a writer knows. -/
theorem Writer.Sound.grown (sound : w.Sound s) (grown : Grown s t) : w.Sound t := by
  obtain ⟨request, progress⟩ := w
  cases progress with
  | waiting => trivial
  | analyzed own | unplaced own => exact Owns.grown sound grown
  | placed own slot => exact ⟨sound.1.grown grown, grown.slot? _ _ sound.2⟩
  | looked own slot seen =>
    obtain ⟨owns, placed, known⟩ := sound
    exact ⟨owns.grown grown, grown.slot? _ _ placed, fun x there => ⟨grown.has x (known x there).1, (known x there).2⟩⟩
  | finished own answer isFresh =>
    obtain ⟨owns, has, notNewer, verdict⟩ := sound
    exact ⟨owns.grown grown, grown.has answer has, notNewer.trans (grown.held _), verdict⟩

/-- What one action of a writer does. -/
structure Writer.Moves (s : SharedStore) (w : Writer) (t : SharedStore) (w' : Writer) : Prop where
  request : w'.request = w.request
  store : t.Sound
  grown : Grown s t
  writer : w'.Sound t
  /-- What there is in memory was there before or is the writer's own. -/
  made : ∀ x, t.Has x → s.Has x ∨ w'.own? = some x
  own : ∀ x, w.own? = some x → w'.own? = some x

/-- The exchange that ends an update: what was in the slot is no newer than what is in it now. -/
theorem Writer.moves_exchange {request : Request} {slot : Nat} {seen : Option Snapshot} (store : s.Sound)
    (sound : Writer.Sound s ⟨request, .looked own slot seen⟩) (done : s.exchange slot seen own = some t) :
    Writer.Moves s ⟨request, .looked own slot seen⟩ t ⟨request, .finished own own true⟩ := by
  obtain ⟨owns, placed, known⟩ := sound
  obtain ⟨same, exchanged⟩ := exchange_eq_some store (fun x there => (known x there).1) done
  have notNewer : NotNewer (s.content slot) (some own) := by
    intro x there
    refine ⟨own, rfl, ?_⟩
    rw [Owns.version owns]
    exact (known x (same.symm.trans there)).2
  have grown := grown_exchange store placed notNewer exchanged
  have held : t.held request.uri = some own := (held_exchange store placed exchanged request.uri).trans (if_pos rfl)
  refine ⟨rfl, store.exchange placed owns.1 (Owns.uri owns) exchanged, grown, ?_, fun x has => Or.inl ?_,
    fun _ same => same⟩
  · refine ⟨owns.grown grown, grown.has own owns.1, ?_, rfl⟩
    rw [held]
    exact .refl _
  · rw [exchanged] at has
    exact has

theorem Writer.moves_advance (store : s.Sound) (sound : w.Sound s) :
    w.Moves s (w.advance s).1 (w.advance s).2 := by
  obtain ⟨request, progress⟩ := w
  cases progress with
  | waiting =>
    refine ⟨rfl, store.make _, grown_make s _, ⟨has_make s _, rfl⟩, fun x has => ?_, fun x none => by cases none⟩
    rcases has_make_iff.mp has with has | rfl
    · exact Or.inl has
    · exact Or.inr rfl
  | analyzed own =>
    rw [advance]
    dsimp only
    cases found : s.slot? request.uri with
    | some slot => exact ⟨rfl, store, .refl s, ⟨sound, found⟩, fun _ has => Or.inl has, fun _ same => same⟩
    | none => exact ⟨rfl, store, .refl s, sound, fun _ has => Or.inl has, fun _ same => same⟩
  | unplaced own =>
    have grown := grown_place store request.uri
    refine ⟨rfl, store.place _, grown, ⟨Owns.grown sound grown, slot?_place s _⟩, fun x has => Or.inl ?_, fun _ same => same⟩
    rw [advance, Has] at has
    dsimp only at has
    rw [place] at has
    split at has <;> exact has
  | placed own slot =>
    obtain ⟨owns, placed⟩ := sound
    rw [advance]
    dsimp only
    cases kept : s.content slot with
    | none =>
      exact ⟨rfl, store, .refl s, ⟨owns, placed, by simp⟩, fun _ has => Or.inl has, fun _ same => same⟩
    | some x =>
      have has : s.Has x := store.has slot x kept
      dsimp only
      by_cases newer : request.version < x.document.version
      · rw [if_pos newer]
        refine ⟨rfl, store, .refl s, ⟨owns, has, ?_, newer⟩, fun _ has => Or.inl has, fun _ same => same⟩
        rw [held_of_slot? placed, kept]
        exact .refl _
      · rw [if_neg newer]
        refine ⟨rfl, store, .refl s, ⟨owns, placed, ?_⟩, fun _ has => Or.inl has, fun _ same => same⟩
        rintro _ ⟨⟩
        exact ⟨has, Int.not_lt.mp newer⟩
  | looked own slot seen =>
    obtain ⟨owns, placed, known⟩ := sound
    rw [advance]
    dsimp only
    cases done : s.exchange slot seen own with
    | none =>
      exact ⟨rfl, store, .refl s, ⟨owns, placed⟩, fun _ has => Or.inl has, fun _ same => same⟩
    | some t => exact Writer.moves_exchange store ⟨owns, placed, known⟩ done
  | finished own answer isFresh =>
    exact ⟨rfl, store, .refl s, sound, fun _ has => Or.inl has, fun _ same => same⟩

/-! ## Readers -/

/-- What a reader knows. -/
structure Reader.Sound (s : SharedStore) (r : Reader) : Prop where
  placed : ∀ slot, r.slot = some slot → s.slot? r.uri = some slot
  has : ∀ x, some x ∈ r.answers → s.Has x ∧ x.document.uri = r.uri
  notNewer : ∀ a ∈ r.answers, NotNewer a (s.held r.uri)
  ordered : r.answers.Pairwise fun later earlier => NotNewer earlier later

theorem Reader.Sound.grown (sound : r.Sound s) (grown : Grown s t) : r.Sound t where
  placed slot found := grown.slot? _ _ (sound.placed slot found)
  has x member := ⟨grown.has x (sound.has x member).1, (sound.has x member).2⟩
  notNewer a member := (sound.notNewer a member).trans (grown.held _)
  ordered := sound.ordered

/-- A question of a reader is answered with what is kept at that moment. -/
theorem Reader.answers_advance (sound : r.Sound s) :
    (r.advance s).answers = r.answers ∨ (r.advance s).answers = s.held r.uri :: r.answers := by
  rw [advance]
  cases known : r.slot with
  | some slot =>
    right
    rw [held_of_slot? (sound.placed slot known)]
  | none =>
    cases found : s.slot? r.uri with
    | some slot => exact Or.inl rfl
    | none =>
      right
      rw [held_of_unplaced found]

theorem Reader.uri_advance (s : SharedStore) (r : Reader) : (r.advance s).uri = r.uri := by
  rw [advance]
  split
  · rfl
  · split <;> rfl

theorem Reader.Sound.advance (store : s.Sound) (sound : r.Sound s) : (r.advance s).Sound s := by
  refine ⟨fun slot found => ?_, fun x member => ?_, fun a member => ?_, ?_⟩
  · rw [uri_advance]
    rw [Reader.advance] at found
    split at found
    · cases found
    · split at found
      · rename_i there
        rw [there]
        exact found
      · rename_i absent _ _
        exact absurd found (by simp [absent])
  · rw [uri_advance]
    rcases answers_advance sound with same | more
    · rw [same] at member
      exact sound.has x member
    · rw [more, List.mem_cons] at member
      rcases member with held | member
      · refine ⟨?_, store.named _ x held.symm⟩
        cases found : s.slot? r.uri with
        | none => rw [held_of_unplaced found] at held; cases held
        | some slot => exact store.has slot x ((held_of_slot? found).symm.trans held.symm)
      · exact sound.has x member
  · rw [uri_advance]
    rcases answers_advance sound with same | more
    · rw [same] at member
      exact sound.notNewer a member
    · rw [more, List.mem_cons] at member
      rcases member with rfl | member
      · exact .refl _
      · exact sound.notNewer a member
  · rcases answers_advance sound with same | more
    · rw [same]
      exact sound.ordered
    · rw [more, List.pairwise_cons]
      exact ⟨sound.notNewer, sound.ordered⟩

/-! ## One caller after the other -/

/-- A single caller finds in a store what is kept in the shared one. -/
structure Shows (s : SharedStore) (st : DocumentStore) : Prop where
  options : st.options = s.options
  get? : ∀ uri, st.get? uri = (s.held uri).map (·.document)

/-- The update that a writer asks for, by a single caller. -/
def Request.apply (r : Request) (st : DocumentStore) : DocumentStore × Document × Bool :=
  st.update r.uri r.version r.path r.text

/-- The exchange that ends an update does and answers what the update of a single caller does and answers. -/
theorem Writer.shows_exchange {request : Request} {slot : Nat} {seen : Option Snapshot} (store : s.Sound)
    (sound : Writer.Sound s ⟨request, .looked own slot seen⟩) (done : s.exchange slot seen own = some t)
    (shows : Shows s st) : (request.apply st).2 = (own.document, true) ∧ Shows t (request.apply st).1 := by
  obtain ⟨owns, placed, known⟩ := sound
  obtain ⟨same, exchanged⟩ := exchange_eq_some store (fun x there => (known x there).1) done
  have notNewer : ∀ d, st.get? request.uri = some d → d.version ≤ request.version := by
    intro d found
    rw [shows.get?, held_of_slot? placed, same] at found
    obtain ⟨x, there, rfl⟩ := Option.map_eq_some_iff.mp found
    exact (known x there).2
  have own' : own.document =
      Document.analyze request.uri request.version (SourceFile.inMemory request.path request.text) st.options := by
    rw [owns.2, shows.options]
    rfl
  rw [Request.apply, DocumentStore.update_of_notNewer notNewer, ← own']
  refine ⟨rfl, ?_, fun other => ?_⟩
  · rw [exchanged]
    exact shows.options
  · rw [DocumentStore.get?_put, held_exchange store placed exchanged, shows.get?]
    split <;> rfl

/-- A writer that goes on changes nothing that can be seen, unless it ends: then it does and answers what the update of a
single caller does and answers. -/
theorem Writer.shows_advance (store : s.Sound) (sound : w.Sound s) (unfinished : w.isFinished = false)
    (shows : Shows s st) :
    (w.advance s).2.call? = none ∧ Shows (w.advance s).1 st ∨
      (w.advance s).2.call? = some (w.request, (w.request.apply st).2) ∧
        Shows (w.advance s).1 (w.request.apply st).1 := by
  obtain ⟨request, progress⟩ := w
  cases progress with
  | waiting => exact Or.inl ⟨rfl, shows.options, shows.get?⟩
  | analyzed own =>
    left
    rw [advance]
    dsimp only
    cases s.slot? request.uri <;> exact ⟨rfl, shows⟩
  | unplaced own =>
    left
    refine ⟨rfl, shows.options.trans (grown_place store _).options.symm, fun uri => ?_⟩
    rw [shows.get?]
    exact congrArg _ (held_place store request.uri uri).symm
  | placed own slot =>
    obtain ⟨owns, placed⟩ := sound
    rw [advance]
    dsimp only
    cases kept : s.content slot with
    | none => exact Or.inl ⟨rfl, shows⟩
    | some x =>
      dsimp only
      by_cases newer : request.version < x.document.version
      · have found : st.get? request.uri = some x.document := by
          rw [shows.get?, held_of_slot? placed, kept]
          rfl
        right
        rw [if_pos newer, Request.apply, DocumentStore.update_of_newer found newer]
        exact ⟨rfl, shows⟩
      · rw [if_neg newer]
        exact Or.inl ⟨rfl, shows⟩
  | looked own slot seen =>
    obtain ⟨owns, placed, known⟩ := sound
    rw [advance]
    dsimp only
    cases done : s.exchange slot seen own with
    | none => exact Or.inl ⟨rfl, shows⟩
    | some t =>
      obtain ⟨answer, shows'⟩ := Writer.shows_exchange store ⟨owns, placed, known⟩ done shows
      right
      rw [answer]
      exact ⟨rfl, shows'⟩
  | finished => cases unfinished

/-! ## Ending -/

/-- The number of actions a writer needs if nobody else does anything. -/
def Writer.rank (s : SharedStore) (w : Writer) : Nat :=
  match w.progress with
  | .waiting => 6
  | .analyzed _ => 5
  | .unplaced _ => 4
  | .placed _ _ => 2
  | .looked _ slot seen => if (s.content slot).map (·.address) = seen.map (·.address) then 1 else 3
  | .finished .. => 0

theorem Writer.rank_advance_lt (s : SharedStore) (unfinished : w.isFinished = false) :
    (w.advance s).2.rank (w.advance s).1 < w.rank s := by
  obtain ⟨request, progress⟩ := w
  cases progress with
  | waiting => simp [advance, rank]
  | analyzed own =>
    rw [advance]
    dsimp only
    cases s.slot? request.uri <;> simp [rank]
  | unplaced own => simp [advance, rank]
  | placed own slot =>
    rw [advance]
    dsimp only
    cases kept : s.content slot with
    | none => simp [rank, kept]
    | some x =>
      by_cases newer : request.version < x.document.version
      · simp [rank, newer]
      · simp [rank, newer, kept]
  | looked own slot seen =>
    rw [advance]
    dsimp only
    by_cases same : (s.content slot).map (·.address) = seen.map (·.address)
    · simp [exchange, same, rank]
    · simp [exchange, same, rank]
  | finished => cases unfinished

end SecurityRules.SharedStore
