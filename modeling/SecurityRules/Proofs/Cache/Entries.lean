import Mathlib.Data.Set.Basic
import SecurityRules.Cache
import SecurityRules.Proofs.Content.Diagnostics
import SecurityRules.Proofs.Disk.Growth

/-!
# What stands in the cache

Different keys have different files. A cache is trusted if every result that can be had from it is one of an analysis of
the text and under the options that its key was made of. Keeping another such result leaves it trusted.
-/

namespace SecurityRules

namespace Bytes

theorem hex_cons (b : UInt8) (s : Bytes) :
    hex (b :: s) = hexDigit (b.toNat / 16 % 16) :: hexDigit (b.toNat % 16) :: hex s := rfl

theorem hexDigit_inj : ∀ n < 16, ∀ m < 16, hexDigit n = hexDigit m → n = m := by decide

theorem slash_ne_hexDigit : ∀ n < 16, SlashPath.slash ≠ hexDigit n := by decide

theorem hex_inj {s t : Bytes} (same : hex s = hex t) : s = t := by
  induction s generalizing t with
  | nil =>
    cases t with
    | nil => rfl
    | cons b t => cases same
  | cons b s ih =>
    cases t with
    | nil => cases same
    | cons c t =>
      rw [hex_cons, hex_cons] at same
      obtain ⟨high, same⟩ := List.cons.inj same
      obtain ⟨low, same⟩ := List.cons.inj same
      have high := hexDigit_inj _ (Nat.mod_lt _ (by decide)) _ (Nat.mod_lt _ (by decide)) high
      have low := hexDigit_inj _ (Nat.mod_lt _ (by decide)) _ (Nat.mod_lt _ (by decide)) low
      have := b.toNat_lt
      have := c.toNat_lt
      have same' : b = c := UInt8.toNat_inj.mp (by omega)
      rw [same', ih same]

theorem slash_notMem_hex (s : Bytes) : SlashPath.slash ∉ hex s := by
  induction s with
  | nil => exact List.not_mem_nil
  | cons b s ih =>
    rw [hex_cons]
    exact List.not_mem_cons_of_ne_of_not_mem (slash_ne_hexDigit _ (Nat.mod_lt _ (by decide)))
      (List.not_mem_cons_of_ne_of_not_mem (slash_ne_hexDigit _ (Nat.mod_lt _ (by decide))) ih)

end Bytes

/-- A result of checking a text under given options: all its diagnostics are there, whatever limit they are shown
under. -/
def CacheEntry.Describes (e : CacheEntry) (content : Bytes) (options : AnalysisOptions) : Prop :=
  ∃ uri version path text isVirtual, (SourceFile.ofBytes path text isVirtual).content = content ∧
    e.diagnostics = (Document.analyze uri version (SourceFile.ofBytes path text isVirtual) options).diagnostics

namespace Cache

variable {c : Cache} {key key' : CacheKey} {d : Disk} {pairs : Set (Bytes × AnalysisOptions)} {entry : CacheEntry}

theorem isName_fileName (key : CacheKey) : SlashPath.IsName (key.render ++ suffix) where
  filled := List.append_ne_nil_of_right_ne_nil _ (by decide)
  whole := by
    intro member
    rcases List.mem_append.mp member with member | member
    · exact Bytes.slash_notMem_hex _ member
    · exact absurd member (by decide)
  isBelow same := by
    have length := congrArg List.length same
    rw [List.length_append] at length
    have : suffix.length = 3 := rfl
    have : (Bytes.ofString ".").length = 1 := rfl
    omega
  isNoParent same := by
    have length := congrArg List.length same
    rw [List.length_append] at length
    have : suffix.length = 3 := rfl
    have : (Bytes.ofString "..").length = 2 := rfl
    omega

/-- The file of a key is named for the key. -/
theorem getLast?_placeOf (c : Cache) (key : CacheKey) (d : Disk) :
    (d.placeOf (c.pathFor key)).getLast? = some (key.render ++ suffix) := by
  have good := isName_fileName key
  have files : c.filesDirectory ≠ [] := SlashPath.join_ne_nil (Or.inr (by decide))
  rw [Disk.placeOf, pathFor, SlashPath.elements_join_name (SlashPath.join_ne_nil (Or.inl files)) good,
    List.foldl_append, List.foldl_cons, List.foldl_nil, Disk.lexical, if_neg good.isBelow, if_neg good.isNoParent,
    List.getLast?_concat]

theorem placeOf_pathFor_inj (same : d.placeOf (c.pathFor key) = d.placeOf (c.pathFor key')) : key = key' := by
  have last := congrArg List.getLast? same
  rw [getLast?_placeOf, getLast?_placeOf, Option.some.injEq] at last
  have digests := Bytes.hex_inj (List.append_cancel_right last)
  cases key
  cases key'
  exact congrArg CacheKey.mk digests

/-- Writing the file of a key changes what is at its place. -/
theorem grown_plant (c : Cache) (key : CacheKey) (content : Bytes) (d : Disk) :
    Disk.Grown (d.placeOf (c.pathFor key)) content d (c.plant key content d).1 := by
  have above := Disk.grown_makeDirectories (d.placeOf (c.pathFor key)) content d
    (SlashPath.directory (c.pathFor key))
  rw [plant]
  generalize d.makeDirectories (SlashPath.directory (c.pathFor key)) = result at above
  obtain ⟨d', failed⟩ := result
  cases failed with
  | some e => exact above
  | none =>
    dsimp only
    cases written : d'.write (c.pathFor key) content with
    | error e => exact above
    | ok d'' =>
      have here := Disk.grown_write written
      rw [Disk.placeOf_eq_of_workingDirectory above.workingDirectory] at here
      exact above.trans here

/-- Every result that can be had is one for the text and the options that its key was made of, and these are among
given pairs. Files that cannot be read as results, or were written in another layout, may hold anything. -/
def Trusted (c : Cache) (pairs : Set (Bytes × AnalysisOptions)) (d : Disk) : Prop :=
  ∀ key content entry, d.look (d.placeOf (c.pathFor key)) = some (some content) →
    CacheEntry.decode? content = some entry → entry.layout.toNat = CacheKey.layout →
    ∃ pair ∈ pairs, key = CacheKey.ofText pair.1 pair.2 ∧ entry.Describes pair.1 pair.2

theorem Trusted.get (trusted : c.Trusted pairs d) (found : c.get key d = .ok (some entry)) :
    ∃ pair ∈ pairs, key = CacheKey.ofText pair.1 pair.2 ∧ entry.Describes pair.1 pair.2 := by
  rw [Cache.get] at found
  split at found
  · split at found <;> cases found
  · rename_i content read
    split at found
    · cases found
    · rename_i entry' decoded
      split at found
      · rename_i layout
        obtain rfl := Option.some.inj (Except.ok.inj found)
        exact trusted key content entry' (Disk.look_of_read read) decoded layout
      · cases Except.ok.inj found

/-- Keeping a result for a pair leaves the cache trusted, given that the result can be read back if it can be read. -/
theorem Trusted.put {content : Bytes} {options : AnalysisOptions} (trusted : c.Trusted pairs d)
    (known : (content, options) ∈ pairs) (describes : entry.Describes content options)
    (readable : ∀ e, CacheEntry.decode? { entry with layout := UInt16.ofNat CacheKey.layout }.encode = some e →
      e.diagnostics = entry.diagnostics) :
    c.Trusted pairs (c.put (CacheKey.ofText content options) entry d).1 := by
  have grown := c.grown_plant (CacheKey.ofText content options)
    { entry with layout := UInt16.ofNat CacheKey.layout }.encode d
  intro key text e found decoded layout
  rw [Cache.put, Disk.placeOf_eq_of_workingDirectory grown.workingDirectory] at found
  rcases grown.fresh _ _ found with found | ⟨here, rfl⟩
  · exact trusted key text e found decoded layout
  · refine ⟨_, known, placeOf_pathFor_inj here, ?_⟩
    obtain ⟨uri, version, path, source, isVirtual, same, diagnostics⟩ := describes
    exact ⟨uri, version, path, source, isVirtual, same, (readable e decoded).trans diagnostics⟩

/-- A disk on which no file can be read as a result has a trusted cache. -/
theorem trusted_of_undecodable
    (none : ∀ x ∈ d.root.files (fun _ => false) [], (CacheEntry.decode? x.2).isNone = true) : c.Trusted pairs d := by
  intro key content entry found decoded
  have known := none _ (DiskEntry.mem_files_of_look found [])
  rw [decoded] at known
  cases known

/-- A place whose last name lacks the suffix of results is not that of a key. -/
theorem ne_placeOf_pathFor {place : List Bytes} (other : ∀ name ∈ place.getLast?, ¬ suffix <:+ name) (key : CacheKey) :
    place ≠ d.placeOf (c.pathFor key) := by
  intro same
  exact other _ (by rw [same]; exact getLast?_placeOf c key d) (List.suffix_append _ _)

end Cache

end SecurityRules
