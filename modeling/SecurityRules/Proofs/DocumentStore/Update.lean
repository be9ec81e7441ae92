import SecurityRules.Proofs.Text.Order
import SecurityRules.Server.Session

/-!
# What an update does to a store

The session and its store keep entries in the order of their names. Looking one up tells all about such a list, and
putting one in changes what is found under its name only.

An update of a document that is kept in a newer version does nothing. Any other update puts its own document in the
place of the older one and leaves the other names alone.
-/

namespace SecurityRules

/-! ## Entries -/

/-- Puts an entry in its place, instead of an older one of the same name. -/
def insertNamed {α : Type} (name : Bytes) (a : α) : List (Bytes × α) → List (Bytes × α)
  | [] => [(name, a)]
  | (other, old) :: rest =>
    if other = name then (name, a) :: rest
    else if Bytes.before name other then (name, a) :: (other, old) :: rest
    else (other, old) :: insertNamed name a rest

/-- The names stand in order, so each stands once. -/
def Ordered {α : Type} (l : List (Bytes × α)) : Prop :=
  (l.map (·.1)).Pairwise fun a b => Bytes.before a b = true

theorem insertDocument_eq (name : Bytes) (d : Server.OpenDocument) (l : List (Bytes × Server.OpenDocument)) :
    Server.Session.insertDocument name d l = insertNamed name d l := by
  induction l with
  | nil => rfl
  | cons entry rest ih => simp only [Server.Session.insertDocument, insertNamed, ih]

theorem insertEntry_eq (name : Bytes) (d : Document) (l : List (Bytes × Document)) :
    DocumentStore.insertEntry name d l = insertNamed name d l := by
  induction l with
  | nil => rfl
  | cons entry rest ih => simp only [DocumentStore.insertEntry, insertNamed, ih]

section

variable {α β : Type} {l : List (Bytes × α)} {name other : Bytes} {a : α}

theorem lookup_cons (entry : Bytes × α) (l : List (Bytes × α)) (name : Bytes) :
    (entry :: l).lookup name = if name = entry.1 then some entry.2 else l.lookup name := by
  rw [List.lookup_cons]
  by_cases same : name = entry.1
  · simp [same]
  · rw [beq_eq_false_iff_ne.mpr same, if_neg same]

@[simp] theorem lookup_insertNamed :
    (insertNamed name a l).lookup other = if other = name then some a else l.lookup other := by
  induction l with
  | nil => simp [insertNamed, lookup_cons]
  | cons entry rest ih =>
    rw [insertNamed]
    split
    · rename_i same
      rw [lookup_cons, lookup_cons, same]
      split <;> rfl
    · rename_i differs
      split
      · rw [lookup_cons]
      · rw [lookup_cons, lookup_cons, ih]
        by_cases same : other = entry.1
        · rw [if_pos same, if_pos same, if_neg (by rw [same]; exact differs)]
        · rw [if_neg same, if_neg same]

@[simp] theorem lookup_remove :
    (l.filter fun (n, _) => n != name).lookup other = if other = name then none else l.lookup other := by
  induction l with
  | nil => simp
  | cons entry rest ih =>
    by_cases same : entry.1 = name
    · rw [List.filter_cons_of_neg (by simpa using same), ih, lookup_cons, same]
      split <;> rfl
    · rw [List.filter_cons_of_pos (by simpa using same), lookup_cons, ih, lookup_cons]
      by_cases found : other = entry.1
      · rw [if_pos found, if_pos found, if_neg (by rw [found]; exact same)]
      · rw [if_neg found, if_neg found]

@[simp] theorem lookup_mapped (g : α → β) :
    (l.map fun (n, a) => (n, g a)).lookup name = (l.lookup name).map g := by
  induction l with
  | nil => rfl
  | cons entry rest ih =>
    obtain ⟨n, a⟩ := entry
    rw [List.map_cons, lookup_cons, ih, lookup_cons]
    by_cases same : name = n <;> simp [same]

theorem mem_names_insertNamed :
    other ∈ (insertNamed name a l).map (·.1) ↔ other = name ∨ other ∈ l.map (·.1) := by
  induction l with
  | nil => simp [insertNamed]
  | cons entry rest ih =>
    rw [insertNamed]
    split
    · rename_i same
      simp [← same]
    · split
      · simp
      · rw [List.map_cons, List.mem_cons, ih, List.map_cons, List.mem_cons]
        exact or_left_comm

theorem Ordered.insertNamed (ordered : Ordered l) : Ordered (insertNamed name a l) := by
  induction l with
  | nil => simp [Ordered, SecurityRules.insertNamed]
  | cons entry rest ih =>
    obtain ⟨behind, others⟩ := List.pairwise_cons.mp ordered
    rw [SecurityRules.insertNamed]
    split
    · rename_i same
      rw [Ordered, List.map_cons, List.pairwise_cons]
      exact ⟨by simpa [← same] using behind, others⟩
    · rename_i differs
      split
      · rename_i earlier
        rw [Ordered, List.map_cons, List.pairwise_cons]
        refine ⟨fun n member => ?_, ordered⟩
        rcases List.mem_cons.mp member with rfl | member
        · exact earlier
        · exact Bytes.before_trans earlier (behind n member)
      · rename_i later
        rw [Ordered, List.map_cons, List.pairwise_cons]
        refine ⟨fun n member => ?_, ih others⟩
        rcases mem_names_insertNamed.mp member with rfl | member
        · exact Bytes.before_of_ne (Ne.symm differs) (by simpa using later)
        · exact behind n member

theorem Ordered.sublist {l' : List (Bytes × α)} (ordered : Ordered l) (part : List.Sublist l' l) : Ordered l' :=
  List.Pairwise.sublist (part.map _) ordered

theorem Ordered.mapped (ordered : Ordered l) (g : α → β) : Ordered (l.map fun (n, a) => (n, g a)) := by
  rw [Ordered, List.map_map]
  exact ordered

/-- In an ordered list an entry stands under its name. -/
theorem Ordered.lookup_eq_some (ordered : Ordered l) : l.lookup name = some a ↔ (name, a) ∈ l := by
  induction l with
  | nil => simp
  | cons entry rest ih =>
    obtain ⟨behind, others⟩ := List.pairwise_cons.mp ordered
    rw [lookup_cons, List.mem_cons]
    split
    · rename_i same
      subst same
      constructor
      · intro found
        rw [← Option.some.inj found]
        exact Or.inl rfl
      · rintro (same | member)
        · rw [← same]
        · have twice := behind entry.1 (List.mem_map_of_mem (f := (·.1)) member)
          rw [Bytes.before_irrefl] at twice
          exact absurd twice Bool.false_ne_true
    · rename_i differs
      rw [ih others]
      constructor
      · exact Or.inr
      · rintro (rfl | member)
        · exact absurd rfl differs
        · exact member

end

theorem mem_insertName {name other : Bytes} {l : List Bytes} :
    other ∈ Server.Session.insertName name l ↔ other = name ∨ other ∈ l := by
  induction l with
  | nil => simp [Server.Session.insertName]
  | cons first rest ih =>
    rw [Server.Session.insertName]
    split
    · rename_i same
      simp [same]
    · split
      · simp
      · rw [List.mem_cons, ih, List.mem_cons]
        exact or_left_comm

namespace DocumentStore

/-! ## Updates -/

variable {s : DocumentStore} {uri other : Bytes} {version bound : Int} {path text : Bytes} {d kept : Document}

/-- Keeps a document. -/
def put (s : DocumentStore) (uri : Bytes) (d : Document) : DocumentStore :=
  { s with documents := insertEntry uri d s.documents }

theorem get?_put : (s.put uri d).get? other = if other = uri then some d else s.get? other := by
  rw [put, get?, insertEntry_eq, lookup_insertNamed]
  rfl

@[simp] theorem options_put : (s.put uri d).options = s.options := rfl

theorem get?_remove : (s.remove uri).get? other = if other = uri then none else s.get? other := by
  rw [remove, get?, lookup_remove]
  rfl

theorem update_of_newer (found : s.get? uri = some kept) (newer : version < kept.version) :
    s.update uri version path text = (s, kept, false) := by
  rw [update, found]
  exact if_pos newer

theorem update_of_notNewer (notNewer : ∀ kept, s.get? uri = some kept → kept.version ≤ version) :
    s.update uri version path text =
      (s.put uri (Document.analyze uri version (SourceFile.inMemory path text) s.options),
        Document.analyze uri version (SourceFile.inMemory path text) s.options, true) := by
  rw [update]
  cases found : s.get? uri with
  | none => rfl
  | some kept => exact if_neg (Int.not_lt.mpr (notNewer kept found))

/-- An update either finds a newer version or keeps its own document. -/
theorem update_cases (s : DocumentStore) (uri : Bytes) (version : Int) (path text : Bytes) :
    (∃ kept, s.get? uri = some kept ∧ version < kept.version ∧
      s.update uri version path text = (s, kept, false)) ∨
    (∀ kept, s.get? uri = some kept → kept.version ≤ version) ∧
      s.update uri version path text =
        (s.put uri (Document.analyze uri version (SourceFile.inMemory path text) s.options),
          Document.analyze uri version (SourceFile.inMemory path text) s.options, true) := by
  cases found : s.get? uri with
  | none =>
    have notNewer : ∀ kept, s.get? uri = some kept → kept.version ≤ version := by simp [found]
    exact Or.inr ⟨by simp, update_of_notNewer notNewer⟩
  | some kept =>
    by_cases newer : version < kept.version
    · exact Or.inl ⟨kept, rfl, newer, update_of_newer found newer⟩
    · have notNewer : ∀ other, some kept = some other → other.version ≤ version := by
        rintro _ ⟨⟩
        exact Int.not_lt.mp newer
      exact Or.inr ⟨notNewer, update_of_notNewer (found ▸ notNewer)⟩

/-- A store keeps a version of a document that is not older than a bound. -/
def KeepsFrom (s : DocumentStore) (uri : Bytes) (bound : Int) : Prop :=
  ∃ kept, s.get? uri = some kept ∧ bound ≤ kept.version

/-- Updates never put an older version in the place of a newer one. -/
theorem KeepsFrom.update (keeps : s.KeepsFrom uri bound) (other : Bytes) (version : Int) (path text : Bytes) :
    (s.update other version path text).1.KeepsFrom uri bound := by
  obtain ⟨kept, found, least⟩ := keeps
  rcases s.update_cases other version path text with ⟨_, -, -, same⟩ | ⟨notNewer, put⟩
  · rw [same]
    exact ⟨kept, found, least⟩
  · rw [put, KeepsFrom, get?_put]
    split
    · rename_i same
      subst same
      exact ⟨_, rfl, Int.le_trans least (notNewer kept found)⟩
    · exact ⟨kept, found, least⟩

end DocumentStore

end SecurityRules
