import Mathlib
import SecurityRules.Cache.Entry
import SecurityRules.Proofs.Content.Diagnostics
import SecurityRules.Settings

/-!
# What a key tells apart

A key is a digest of the options and the text, one behind the other. The material can be taken apart again up to the
list of names: each of them ends in a zero byte, so the list can be told only where no name holds one.
-/

namespace SecurityRules

/-- Options as settings give them: the depth is a signed 64-bit number, and names are text, in which the byte 255 does
not occur. -/
structure AnalysisOptions.Admitted (o : AnalysisOptions) : Prop where
  low : -2 ^ 63 ≤ o.maxDepth
  high : o.maxDepth < 2 ^ 63
  names : ∀ name ∈ o.builtins, (0xFF : UInt8) ∉ name

namespace CacheKey

/-- The names one behind the other, each with its end. -/
def packed (names : List Bytes) : Bytes := names.flatMap fun name => name ++ [0]

/-- A part that goes on to the first byte of a certain value can be told from what follows. -/
theorem append_stop_inj {stop : UInt8} {part part' rest rest' : Bytes} (free : stop ∉ part) (free' : stop ∉ part')
    (same : part ++ stop :: rest = part' ++ stop :: rest') : part = part' ∧ rest = rest' := by
  induction part generalizing part' with
  | nil =>
    cases part' with
    | nil => exact ⟨rfl, (List.cons.inj same).2⟩
    | cons b part' => exact absurd ((List.cons.inj same).1 ▸ List.mem_cons_self ..) free'
  | cons b part ih =>
    cases part' with
    | nil => exact absurd ((List.cons.inj same).1.symm ▸ List.mem_cons_self ..) free
    | cons b' part' =>
      obtain ⟨rfl, behind⟩ := List.cons.inj same
      obtain ⟨rfl, rest⟩ := ih (List.not_mem_of_not_mem_cons free) (List.not_mem_of_not_mem_cons free') behind
      exact ⟨rfl, rest⟩

@[simp] theorem length_littleEndian (width n : Nat) : (littleEndian width n).length = width := by
  induction width generalizing n with
  | zero => rfl
  | succ width ih => rw [littleEndian, List.length_cons, ih]

theorem littleEndian_inj {width n m : Nat} (small : n < 256 ^ width) (small' : m < 256 ^ width)
    (same : littleEndian width n = littleEndian width m) : n = m := by
  induction width generalizing n m with
  | zero => omega
  | succ width ih =>
    obtain ⟨first, rest⟩ := List.cons.inj same
    have digit : n % 256 = m % 256 := by
      simpa only [UInt8.toNat_ofNat'] using congrArg UInt8.toNat first
    rw [Nat.pow_succ] at small small'
    have others := ih (n := n / 256) (m := m / 256) (by omega) (by omega) rest
    omega

theorem policy_name_inj {p q : ScopePolicy} (same : Bytes.ofString p.name = Bytes.ofString q.name) : p = q := by
  cases p <;> cases q <;> first | rfl | exact absurd same (by decide)

theorem zero_notMem_policy_name (p : ScopePolicy) : (0 : UInt8) ∉ Bytes.ofString p.name := by
  cases p <;> decide

theorem end_notMem_packed {names : List Bytes} (free : ∀ name ∈ names, (0xFF : UInt8) ∉ name) :
    (0xFF : UInt8) ∉ packed names := by
  intro member
  obtain ⟨name, listed, inside⟩ := List.mem_flatMap.mp member
  rcases List.mem_append.mp inside with inside | inside
  · exact free name listed inside
  · exact absurd (List.mem_singleton.mp inside) (by decide)

/-- Names without zero bytes can be read back. -/
theorem packed_inj {names others : List Bytes} (free : ∀ name ∈ names, (0 : UInt8) ∉ name)
    (free' : ∀ name ∈ others, (0 : UInt8) ∉ name) (same : packed names = packed others) : names = others := by
  induction names generalizing others with
  | nil =>
    cases others with
    | nil => rfl
    | cons other others => simp [packed] at same
  | cons name names ih =>
    cases others with
    | nil => simp [packed] at same
    | cons other others =>
      have first : (0 : UInt8) ∉ name := free name (List.mem_cons_self ..)
      have first' : (0 : UInt8) ∉ other := free' other (List.mem_cons_self ..)
      have framed : name ++ 0 :: packed names = other ++ 0 :: packed others := by
        simpa [packed, List.append_assoc] using same
      obtain ⟨rfl, rest⟩ := append_stop_inj first first' framed
      rw [ih (fun n member => free n (List.mem_cons_of_mem _ member))
        (fun n member => free' n (List.mem_cons_of_mem _ member)) rest]

theorem material_eq (content : Bytes) (o : AnalysisOptions) : material content o =
    littleEndian 2 layout ++ (littleEndian 8 (o.maxDepth.emod (2 ^ 64)).toNat ++
      (Bytes.ofString o.policy.name ++ 0 :: (packed o.builtins ++ 0xFF :: content))) := by
  simp [material, packed, List.append_assoc]

variable {content content' : Bytes} {o o' : AnalysisOptions}

/-- The material has all parts of the options and the text, the names one behind the other. -/
theorem material_inj (admitted : o.Admitted) (admitted' : o'.Admitted)
    (same : material content o = material content' o') :
    content = content' ∧ o.maxDepth = o'.maxDepth ∧ o.policy = o'.policy ∧ packed o.builtins = packed o'.builtins := by
  rw [material_eq, material_eq] at same
  obtain ⟨-, same⟩ := List.append_inj same (by simp)
  obtain ⟨depths, same⟩ := List.append_inj same (by simp)
  obtain ⟨policies, same⟩ := append_stop_inj (zero_notMem_policy_name _) (zero_notMem_policy_name _) same
  obtain ⟨names, same⟩ := append_stop_inj (end_notMem_packed admitted.names) (end_notMem_packed admitted'.names) same
  have bound : ∀ n : Int, (n.emod (2 ^ 64)).toNat < 256 ^ 8 := fun n => by
    have := Int.emod_nonneg n (show (2 : Int) ^ 64 ≠ 0 by decide)
    have := Int.emod_lt_of_pos n (show (0 : Int) < 2 ^ 64 by decide)
    change (n % 2 ^ 64).toNat < _
    omega
  have wrapped := littleEndian_inj (bound _) (bound _) depths
  have := admitted.low
  have := admitted.high
  have := admitted'.low
  have := admitted'.high
  refine ⟨same, ?_, policy_name_inj policies, names⟩
  change (o.maxDepth % 2 ^ 64).toNat = (o'.maxDepth % 2 ^ 64).toNat at wrapped
  omega

/-- Where no name holds a zero byte, texts and options with the same material have the same diagnostics, whatever the
files are called. -/
theorem diagnostics_of_material (admitted : o.Admitted) (admitted' : o'.Admitted)
    (whole : ∀ name ∈ o.builtins, (0 : UInt8) ∉ name) (whole' : ∀ name ∈ o'.builtins, (0 : UInt8) ∉ name)
    {path path' text text' : Bytes} {isVirtual isVirtual' : Bool}
    (same : material (SourceFile.ofBytes path text isVirtual).content o =
      material (SourceFile.ofBytes path' text' isVirtual').content o')
    (uri uri' : Bytes) (version version' : Int) :
    (Document.analyze uri version (SourceFile.ofBytes path text isVirtual) o).diagnostics =
      (Document.analyze uri' version' (SourceFile.ofBytes path' text' isVirtual') o').diagnostics := by
  obtain ⟨contents, depths, policies, names⟩ := material_inj admitted admitted' same
  have options : o = o' := by
    obtain ⟨maxDepth, policy, builtins⟩ := o
    obtain ⟨maxDepth', policy', builtins'⟩ := o'
    rw [AnalysisOptions.mk.injEq]
    exact ⟨depths, policies, packed_inj whole whole' names⟩
  rw [options]
  exact Document.diagnostics_ofBytes contents uri uri' version version' o'

/-- A service with a call of a function that is defined nowhere, with a given end of its line. -/
def undefinedCall (lineEnd : Bytes) : SourceFile :=
  SourceFile.ofBytes [] (Bytes.ofString "service a \x7b allow read: if f(); \x7d" ++ lineEnd) false

/-- Two names. -/
def twoNames : AnalysisOptions := { builtins := [[0x66], [0x67]] }

/-- The same two names as one, with a zero byte between them. -/
def joinedNames : AnalysisOptions := { builtins := [[0x66, 0, 0x67]] }

/-- Files that differ in how their lines end have the same material. -/
theorem diagnostics_of_material_lineEnds :
    (undefinedCall [0x0A]).content = (undefinedCall [0x0D, 0x0A]).content ∧
      (Document.analyze [] 0 (undefinedCall [0x0A]) twoNames).diagnostics =
        (Document.analyze [] 0 (undefinedCall [0x0D, 0x0A]) twoNames).diagnostics :=
  have admitted : twoNames.Admitted := ⟨by decide, by decide, by decide⟩
  ⟨by decide +kernel,
    diagnostics_of_material admitted admitted (by decide) (by decide) (by decide +kernel) [] [] 0 0⟩

/-- One key stands for both lists of names, but only with two names is the call built in. Settings can have both. -/
theorem not_separated_joinedNames :
    (Settings.parse [] (Bytes.ofString "[analysis]\nextra_builtins = [\"f\", \"g\"]")).toOption.map
        (·.analysisOptions.builtins) = some twoNames.builtins ∧
      (Settings.parse [] (Bytes.ofString "[analysis]\nextra_builtins = [\"f\\u0000g\"]")).toOption.map
        (·.analysisOptions.builtins) = some joinedNames.builtins ∧
      material (undefinedCall []).content twoNames = material (undefinedCall []).content joinedNames ∧
      (Document.analyze [] 0 (undefinedCall []) twoNames).diagnostics ≠
        (Document.analyze [] 0 (undefinedCall []) joinedNames).diagnostics := by
  decide +kernel

end CacheKey

end SecurityRules
