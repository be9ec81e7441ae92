import SecurityRules.Proofs.DocumentStore.Callers

/-!
# The newest version stays

However the actions of its callers follow each other, a store keeps the newest version of every document, hands out no
older one behind a newer one, and answers as if the updates had been called one after the other.
-/

namespace SecurityRules.SharedStore

variable {options : AnalysisOptions} {requests : List Request} {uris : List Bytes} {c d : Crowd}

/-- Calls with their answers, the latest first, and the store that they leave if each is made by a single caller. -/
inductive Serial (options : AnalysisOptions) : List (Request × Document × Bool) → DocumentStore → Prop
  | nothing : Serial options [] { options }
  | update {calls : List (Request × Document × Bool)} {st : DocumentStore} (r : Request)
    (earlier : Serial options calls st) : Serial options ((r, (r.apply st).2) :: calls) (r.apply st).1

namespace Crowd

/-- A store and its callers can get from one state to another. -/
def Reaches : Crowd → Crowd → Prop := Relation.ReflTransGen Step

/-- What holds of a store and its callers at any time. -/
structure Sound (options : AnalysisOptions) (requests : List Request) (uris : List Bytes) (c : Crowd) : Prop where
  options_eq : c.store.options = options
  requests_eq : c.writers.map (·.request) = requests
  uris_eq : c.readers.map (·.uri) = uris
  store : c.store.Sound
  writers : ∀ w ∈ c.writers, w.Sound c.store
  readers : ∀ r ∈ c.readers, r.Sound c.store
  makers : ∀ x, c.store.Has x → ∃ w ∈ c.writers, w.own? = some x
  /-- The updates that are finished could have been called one after the other. -/
  serial : ∃ calls st, Serial options calls st ∧ calls.Perm (c.writers.filterMap (·.call?)) ∧ Shows c.store st

theorem sound_start (options : AnalysisOptions) (requests : List Request) (uris : List Bytes) :
    Sound options requests uris (start options requests uris) where
  options_eq := rfl
  requests_eq := by
    rw [start, List.map_map]
    exact List.map_id requests
  uris_eq := by
    rw [start, List.map_map]
    exact List.map_id uris
  store := sound_empty options
  writers w member := by
    obtain ⟨request, -, rfl⟩ := List.mem_map.mp member
    trivial
  readers r member := by
    obtain ⟨uri, -, rfl⟩ := List.mem_map.mp member
    refine ⟨?_, ?_, ?_, List.Pairwise.nil⟩ <;> simp
  makers x has := by simp [start, Has] at has
  serial := by
    refine ⟨[], { options }, .nothing, ?_, rfl, fun _ => rfl⟩
    have none : (start options requests uris).writers.filterMap (·.call?) = [] := by
      rw [List.filterMap_eq_nil_iff]
      intro w member
      obtain ⟨request, -, rfl⟩ := List.mem_map.mp member
      rfl
    rw [none]

/-- An action keeps what holds of the crowd, and nothing that is kept becomes older. -/
theorem Sound.step (sound : Sound options requests uris c) (step : Step c d) :
    Sound options requests uris d ∧ Grown c.store d.store := by
  cases step with
  | @write store earlier later w readers unfinished =>
    have inside : w ∈ earlier ++ w :: later := List.mem_append_right _ (List.mem_cons_self ..)
    have moves := w.moves_advance sound.store (sound.writers w inside)
    refine ⟨⟨moves.grown.options.trans sound.options_eq, ?_, sound.uris_eq, moves.store, fun v member => ?_,
      fun r member => (sound.readers r member).grown moves.grown, fun x has => ?_, ?_⟩, moves.grown⟩
    · rw [← sound.requests_eq]
      simp [moves.request]
    · rcases List.mem_append.mp member with member | member
      · exact (sound.writers v (List.mem_append_left _ member)).grown moves.grown
      · rcases List.mem_cons.mp member with rfl | member
        · exact moves.writer
        · exact (sound.writers v (List.mem_append_right _ (List.mem_cons_of_mem _ member))).grown moves.grown
    · rcases moves.made x has with has | own
      · obtain ⟨v, member, own⟩ := sound.makers x has
        rcases List.mem_append.mp member with member | member
        · exact ⟨v, List.mem_append_left _ member, own⟩
        · rcases List.mem_cons.mp member with rfl | member
          · exact ⟨_, List.mem_append_right _ (List.mem_cons_self ..), moves.own x own⟩
          · exact ⟨v, List.mem_append_right _ (List.mem_cons_of_mem _ member), own⟩
      · exact ⟨_, List.mem_append_right _ (List.mem_cons_self ..), own⟩
    · obtain ⟨calls, st, serial, perm, shows⟩ := sound.serial
      have open' : w.call? = none := by
        obtain ⟨request, progress⟩ := w
        cases progress with
        | finished => cases unfinished
        | _ => rfl
      rw [List.filterMap_append, List.filterMap_cons_none open'] at perm
      rcases w.shows_advance sound.store (sound.writers w inside) unfinished shows with ⟨none, shows⟩ | ⟨call, shows⟩
      · refine ⟨calls, st, serial, ?_, shows⟩
        rw [List.filterMap_append, List.filterMap_cons_none none]
        exact perm
      · refine ⟨_, _, serial.update w.request, ?_, shows⟩
        rw [List.filterMap_append, List.filterMap_cons_some call]
        exact (perm.cons _).trans List.perm_middle.symm
  | @read store writers earlier later r =>
    have inside : r ∈ earlier ++ r :: later := List.mem_append_right _ (List.mem_cons_self ..)
    refine ⟨⟨sound.options_eq, sound.requests_eq, ?_, sound.store, sound.writers, fun v member => ?_, sound.makers,
      sound.serial⟩, .refl store⟩
    · rw [← sound.uris_eq]
      simp [Reader.uri_advance]
    · rcases List.mem_append.mp member with member | member
      · exact sound.readers v (List.mem_append_left _ member)
      · rcases List.mem_cons.mp member with rfl | member
        · exact (sound.readers r inside).advance sound.store
        · exact sound.readers v (List.mem_append_right _ (List.mem_cons_of_mem _ member))

theorem Sound.reaches (sound : Sound options requests uris c) (reaches : Reaches c d) :
    Sound options requests uris d ∧ Grown c.store d.store := by
  induction reaches with
  | refl => exact ⟨sound, .refl _⟩
  | tail _ step ih =>
    obtain ⟨sound', grown⟩ := ih
    obtain ⟨sound'', grown'⟩ := sound'.step step
    exact ⟨sound'', grown.trans grown'⟩

/-! ## Ending -/

/-- A writer that nobody disturbs comes to its end. -/
theorem exists_written (store : SharedStore) (w : Writer) (earlier later : List Writer) (readers : List Reader) :
    ∃ store' w', w'.isFinished = true ∧
      Reaches ⟨store, earlier ++ w :: later, readers⟩ ⟨store', earlier ++ w' :: later, readers⟩ := by
  induction rank : w.rank store using Nat.strongRecOn generalizing store w with
  | ind n ih =>
    cases finished : w.isFinished with
    | true => exact ⟨store, w, finished, .refl⟩
    | false =>
      have less := w.rank_advance_lt store finished
      rw [rank] at less
      obtain ⟨store', w', finished', reaches⟩ := ih _ less (w.advance store).1 (w.advance store).2 rfl
      exact ⟨store', w', finished', .head (.write finished) reaches⟩

theorem exists_allWritten (store : SharedStore) (earlier rest : List Writer) (readers : List Reader) :
    ∃ store' done, done.all (·.isFinished) = true ∧
      Reaches ⟨store, earlier ++ rest, readers⟩ ⟨store', earlier ++ done, readers⟩ := by
  induction rest generalizing store earlier with
  | nil => exact ⟨store, [], rfl, .refl⟩
  | cons w rest ih =>
    obtain ⟨store', w', finished, first⟩ := exists_written store w earlier rest readers
    obtain ⟨store'', done, others, later⟩ := ih store' (earlier ++ [w'])
    rw [List.append_assoc, List.append_assoc, List.singleton_append, List.singleton_append] at later
    refine ⟨store'', w' :: done, ?_, first.trans later⟩
    rw [List.all_cons, finished, others]
    rfl

theorem exists_allRead (store : SharedStore) (writers : List Writer) (earlier rest : List Reader) :
    ∃ done, done.all (·.slot.isNone) = true ∧
      Reaches ⟨store, writers, earlier ++ rest⟩ ⟨store, writers, earlier ++ done⟩ := by
  induction rest generalizing earlier with
  | nil => exact ⟨[], rfl, .refl⟩
  | cons r rest ih =>
    obtain ⟨r', idle, first⟩ : ∃ r', r'.slot.isNone = true ∧
        Reaches ⟨store, writers, earlier ++ r :: rest⟩ ⟨store, writers, earlier ++ r' :: rest⟩ := by
      cases asking : r.slot with
      | none => exact ⟨r, by rw [asking]; rfl, .refl⟩
      | some slot =>
        refine ⟨r.advance store, ?_, .single .read⟩
        rw [Reader.advance, asking]
        rfl
    obtain ⟨done, others, later⟩ := ih (earlier ++ [r'])
    rw [List.append_assoc, List.append_assoc, List.singleton_append, List.singleton_append] at later
    refine ⟨r' :: done, ?_, first.trans later⟩
    rw [List.all_cons, idle, others]
    rfl

/-- At any time the callers can come to their ends. -/
theorem exists_finished (c : Crowd) : ∃ d, Reaches c d ∧ d.isFinished = true := by
  obtain ⟨store, writers, readers⟩ := c
  obtain ⟨store', done, written, first⟩ := exists_allWritten store [] writers readers
  obtain ⟨idle, read, later⟩ := exists_allRead store' done [] readers
  refine ⟨⟨store', done, idle⟩, first.trans later, ?_⟩
  rw [isFinished, written, read]
  rfl

/-! ## What callers can rely on -/

/-- What callers that have made some requests and asked for some documents can rely on. -/
structure KeepsNewest (options : AnalysisOptions) (requests : List Request) (c : Crowd) : Prop where
  /-- Each name has one slot at most, and all that have got a slot have got that one. -/
  oneSlot : (c.store.slots.map (·.1)).Nodup ∧
    (∀ w ∈ c.writers, ∀ n, w.slot? = some n → c.store.slot? w.request.uri = some n) ∧
    ∀ r ∈ c.readers, ∀ n, r.slot = some n → c.store.slot? r.uri = some n
  /-- A reader gets nothing or a document that one update has made of what it was given. -/
  whole : ∀ r ∈ c.readers, ∀ x, some x ∈ r.answers → ∃ w ∈ c.writers,
    w.own? = some x ∧ w.request.uri = r.uri ∧ x.document = w.request.document options
  /-- A reader gets nothing older than what it got before. -/
  inOrder : ∀ r ∈ c.readers, r.answers.Pairwise fun later earlier => NotNewer earlier later
  /-- A fresh answer is the document that the update has made. -/
  fresh : ∀ w ∈ c.writers, ∀ own answer, w.progress = .finished own answer true →
    answer = own ∧ own.document = w.request.document options
  /-- Any other answer is newer than that. -/
  stale : ∀ w ∈ c.writers, ∀ own answer, w.progress = .finished own answer false →
    w.request.version < answer.document.version
  /-- In the end the newest version is kept. -/
  newest : c.isFinished = true → ∀ request ∈ requests, ∃ x, c.store.held request.uri = some x ∧
    (∃ same ∈ requests, same.uri = request.uri ∧ x.document.version = same.version) ∧
    ∀ same ∈ requests, same.uri = request.uri → same.version ≤ x.document.version
  /-- The updates that are finished could have been called one after the other, and what they left is kept. -/
  serial : ∃ calls st, Serial options calls st ∧ calls.Perm (c.writers.filterMap (·.call?)) ∧ Shows c.store st

theorem Sound.owns (sound : Sound options requests uris c) {w : Writer} (member : w ∈ c.writers) {x : Snapshot}
    (own : w.own? = some x) : Owns c.store w x := by
  have known := sound.writers w member
  obtain ⟨request, progress⟩ := w
  cases progress with
  | waiting => cases own
  | analyzed | unplaced =>
    obtain rfl := Option.some.inj own
    exact known
  | placed | looked | finished =>
    obtain rfl := Option.some.inj own
    exact known.1

/-- An update that is finished leaves nothing older than its own version. -/
theorem Sound.version_le (sound : Sound options requests uris c) {w : Writer} (member : w ∈ c.writers)
    (finished : w.isFinished = true) :
    ∃ x, c.store.held w.request.uri = some x ∧ w.request.version ≤ x.document.version := by
  have known := sound.writers w member
  obtain ⟨request, progress⟩ := w
  cases progress with
  | finished own answer isFresh =>
    obtain ⟨owns, -, notNewer, verdict⟩ := known
    obtain ⟨x, held, older⟩ := notNewer answer rfl
    refine ⟨x, held, ?_⟩
    have version : request.version ≤ answer.document.version := by
      cases isFresh with
      | true =>
        rw [show answer = own from verdict]
        exact Int.le_of_eq (Owns.version owns).symm
      | false => exact Int.le_of_lt verdict
    exact Int.le_trans version older
  | _ => cases finished

theorem Sound.newest (sound : Sound options requests uris c) (finished : c.isFinished = true) {request : Request}
    (asked : request ∈ requests) : ∃ x, c.store.held request.uri = some x ∧
      (∃ same ∈ requests, same.uri = request.uri ∧ x.document.version = same.version) ∧
      ∀ same ∈ requests, same.uri = request.uri → same.version ≤ x.document.version := by
  have ended : ∀ w ∈ c.writers, w.isFinished = true :=
    List.all_eq_true.mp ((Bool.and_eq_true_iff.mp finished).1)
  have least : ∀ same ∈ requests,
      ∃ x, c.store.held same.uri = some x ∧ same.version ≤ x.document.version := by
    intro same asked
    rw [← sound.requests_eq] at asked
    obtain ⟨w, member, rfl⟩ := List.mem_map.mp asked
    exact sound.version_le member (ended w member)
  obtain ⟨x, held, -⟩ := least request asked
  refine ⟨x, held, ?_, fun same asked uri => ?_⟩
  · have has : c.store.Has x := by
      rw [SharedStore.held] at held
      obtain ⟨n, -, content⟩ := Option.bind_eq_some_iff.mp held
      exact sound.store.has n x content
    obtain ⟨w, member, own⟩ := sound.makers x has
    have owns := sound.owns member own
    refine ⟨w.request, ?_, ?_, owns.version⟩
    · rw [← sound.requests_eq]
      exact List.mem_map_of_mem member
    · rw [← owns.uri]
      exact sound.store.named _ x held
  · obtain ⟨y, held', version⟩ := least same asked
    rw [uri, held] at held'
    obtain rfl := Option.some.inj held'
    exact version

theorem Sound.keepsNewest (sound : Sound options requests uris c) : KeepsNewest options requests c where
  oneSlot := by
    refine ⟨sound.store.once, fun w member n got => ?_, fun r member => (sound.readers r member).placed⟩
    have known := sound.writers w member
    obtain ⟨request, progress⟩ := w
    cases progress with
    | placed =>
      obtain rfl := Option.some.inj got
      exact known.2
    | looked =>
      obtain rfl := Option.some.inj got
      exact known.2.1
    | _ => cases got
  whole r member x answered := by
    obtain ⟨has, uri⟩ := (sound.readers r member).has x answered
    obtain ⟨w, inside, own⟩ := sound.makers x has
    have owns := sound.owns inside own
    refine ⟨w, inside, own, owns.uri.symm.trans uri, ?_⟩
    rw [← sound.options_eq]
    exact owns.2
  inOrder r member := (sound.readers r member).ordered
  fresh w member own answer finished := by
    have known := sound.writers w member
    rw [Writer.Sound, finished] at known
    refine ⟨known.2.2.2, ?_⟩
    rw [← sound.options_eq]
    exact known.1.2
  stale w member own answer finished := by
    have known := sound.writers w member
    rw [Writer.Sound, finished] at known
    exact known.2.2.2
  newest finished request asked := sound.newest finished asked
  serial := sound.serial

/-- At any time of any run the callers can rely on the store, what it keeps becomes no older afterwards, a name that has
a slot keeps it, and all calls can come to their ends. -/
theorem newest_kept (options : AnalysisOptions) (requests : List Request) (uris : List Bytes)
    (reached : Reaches (start options requests uris) c) :
    KeepsNewest options requests c ∧
      (∀ d, Reaches c d → ∀ uri, NotNewer (c.store.held uri) (d.store.held uri) ∧
        ∀ n, c.store.slot? uri = some n → d.store.slot? uri = some n) ∧
      ∃ d, Reaches c d ∧ d.isFinished = true := by
  have sound := ((sound_start options requests uris).reaches reached).1
  refine ⟨sound.keepsNewest, fun d later uri => ?_, exists_finished c⟩
  have grown := (sound.reaches later).2
  exact ⟨grown.held uri, grown.slot? uri⟩

/-- Whose turn it is, by place. -/
inductive Turn where
  | writer (place : Nat)
  | reader (place : Nat)

/-- One action of the caller whose turn it is. -/
def take (c : Crowd) : Turn → Crowd
  | .writer place =>
    match c.writers.drop place with
    | w :: later =>
      if w.isFinished then c
      else { c with
        store := (w.advance c.store).1
        writers := c.writers.take place ++ (w.advance c.store).2 :: later }
    | [] => c
  | .reader place =>
    match c.readers.drop place with
    | r :: later => { c with readers := c.readers.take place ++ r.advance c.store :: later }
    | [] => c

theorem reaches_take (c : Crowd) (turn : Turn) : Reaches c (c.take turn) := by
  cases turn with
  | writer place =>
    rw [take]
    split
    · rename_i w later rest
      split
      · exact .refl
      · rename_i unfinished
        have step := @Step.write c.store (c.writers.take place) later w c.readers (by simpa using unfinished)
        rw [← rest, List.take_append_drop] at step
        exact .single step
    · exact .refl
  | reader place =>
    rw [take]
    split
    · rename_i r later rest
      have step := @Step.read c.store c.writers (c.readers.take place) later r
      rw [← rest, List.take_append_drop] at step
      exact .single step
    · exact .refl

theorem reaches_foldl_take (c : Crowd) (turns : List Turn) : Reaches c (turns.foldl take c) := by
  induction turns generalizing c with
  | nil => exact .refl
  | cons turn rest ih => exact (reaches_take c turn).trans (ih _)

/-- Two versions of a document. -/
def twoVersions : List Request :=
  [⟨"u", 1, "u", "service a \x7b\x7d"⟩, ⟨"u", 2, "u", "service b \x7b\x7d"⟩]

/-- Both writers find that there is no slot and that it is empty, and the one with the newer version comes first. -/
def twoWriters : Crowd :=
  [Turn.writer 0, .writer 1, .writer 0, .writer 1, .reader 0, .writer 0, .writer 1, .writer 0, .writer 1, .writer 1,
    .writer 0, .reader 0, .writer 0, .reader 0].foldl take (start {} twoVersions ["u"])

/-- The writer with the older version finds its slot exchanged, and gives up. -/
theorem newest_kept_twoWriters :
    Reaches (start {} twoVersions ["u"]) twoWriters ∧ KeepsNewest {} twoVersions twoWriters ∧
      twoWriters.isFinished = true ∧
      twoWriters.writers.filterMap (fun w => w.call?.map fun call => (call.2.1.version, call.2.2)) =
        [(2, false), (2, true)] ∧
      twoWriters.readers.map (fun r => r.answers.map fun answer => answer.map (·.document.version)) =
        [[some 2, none]] :=
  have reached := reaches_foldl_take _ _
  ⟨reached, (newest_kept {} twoVersions ["u"] reached).1, by decide +kernel, by decide +kernel, by decide +kernel⟩

end Crowd

end SecurityRules.SharedStore
