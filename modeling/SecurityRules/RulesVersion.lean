import SecurityRules.Text.Bytes

/-!
# Versions of the rules language

A version has up to three numbers, then perhaps a pre-release behind a hyphen and build data behind a plus:
`2`, `1.0`, `v1.2.3-beta.1+exp`. Versions from 1 up to but not including 3 are supported, but no pre-release.
-/

namespace SecurityRules

/-- A version of the rules language. -/
structure RulesVersion where
  major : Nat
  minor : Nat
  patch : Nat
  preRelease : Bytes
deriving Repr, DecidableEq

namespace RulesVersion

/-- The range of supported versions, as shown in messages. -/
def supportedRange : String := ">= 1, < 3"

/-- The bytes that the parts behind the numbers are made of. -/
def isTagByte (b : UInt8) : Bool :=
  Bytes.isDigit b || (0x41 ≤ b && b ≤ 0x5A) || (0x61 ≤ b && b ≤ 0x7A) || b == 0x2D

/-- Whether a text is a list of tags between dots, none of them empty. -/
def isTagList (s : Bytes) : Bool :=
  (Bytes.splitOn 0x2E s).all fun tag => !tag.isEmpty && tag.all isTagByte

/-- Whether no tag that is a number starts with a superfluous zero. -/
def hasPlainNumbers (s : Bytes) : Bool :=
  (Bytes.splitOn 0x2E s).all fun tag =>
    !(tag.all Bytes.isDigit && 1 < tag.length && tag.head? == some 0x30)

/-- A number of a version: digits, below `2 ^ 64`. -/
def number? (s : Bytes) : Option Nat :=
  (Bytes.digits? s).filter (· < 2 ^ 64)

/-- The three numbers; those that are left out are zero. -/
def numbers? (s : Bytes) : Option (Nat × Nat × Nat) :=
  match Bytes.splitOn 0x2E s with
  | [a] => (number? a).map (·, 0, 0)
  | [a, b] => do return (← number? a, ← number? b, 0)
  | [a, b, c] => do return (← number? a, ← number? b, ← number? c)
  | _ => none

/-- Reads a version. -/
def parse? (s : Bytes) : Option RulesVersion := do
  let s := (Bytes.after? "v" s).getD s
  let (front, build) :=
    match Bytes.cut? 0x2B s with
    | some (front, build) => (front, some build)
    | none => (s, none)
  let (core, preRelease) :=
    match Bytes.cut? 0x2D front with
    | some (core, preRelease) => (core, some preRelease)
    | none => (front, none)
  guard ((build.map isTagList).getD true)
  guard ((preRelease.map fun p => isTagList p && hasPlainNumbers p).getD true)
  let (major, minor, patch) ← numbers? core
  return ⟨major, minor, patch, preRelease.getD []⟩

/-- Whether a version lies in the supported range. -/
def isSupported (v : RulesVersion) : Bool := v.preRelease.isEmpty && 1 ≤ v.major && v.major < 3

end RulesVersion

end SecurityRules
