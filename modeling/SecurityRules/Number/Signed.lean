import SecurityRules.Text.Bytes

/-!
# Integers as text

Integers are written in decimal. They are read in that form, or as programs spell them: with a sign or without, in base
ten, or with a zero and a letter for another base; a zero alone in front means base eight. Underscores may stand between
digits and behind the letter.
-/

namespace SecurityRules.Number

/-- The largest signed 64-bit number. -/
def maxSigned : Int := 9223372036854775807

/-- Whether a number fits into 64 bits with a sign. -/
def isSigned64 (n : Int) : Bool := -maxSigned - 1 ≤ n && n ≤ maxSigned

/-- Reads decimal digits with or without a sign in front; none if the number takes more than 64 bits. -/
def signed? (s : Bytes) : Option Int :=
  let value : Option Int :=
    match s with
    | 0x2B :: digits => (Bytes.digits? digits).map Int.ofNat
    | 0x2D :: digits => (Bytes.digits? digits).map fun n => -(n : Int)
    | digits => (Bytes.digits? digits).map Int.ofNat
  value.filter isSigned64

/-! ## Integer literals -/

/-- Why a text is no integer. -/
inductive LiteralError where
  | malformed
  | outOfRange
deriving Repr, DecidableEq

def LiteralError.message : LiteralError → String
  | .malformed => "invalid syntax"
  | .outOfRange => "value out of range"

/-- The value of a digit or letter in bases up to thirty-six. -/
def digitValue? (b : UInt8) : Option Nat :=
  let b := Bytes.toLowerByte b
  if Bytes.isDigit b then some (b - 0x30).toNat
  else if 0x61 ≤ b && b ≤ 0x7A then some (b - 0x57).toNat
  else none

/-- The base that the letter behind a leading zero stands for. -/
def letterBase? (b : UInt8) : Option Nat :=
  match Bytes.toLowerByte b with
  | 0x62 => some 2
  | 0x6F => some 8
  | 0x78 => some 16
  | _ => none

/-- The base of a literal without its sign, and its digits. -/
def splitBase (s : Bytes) : Nat × Bytes :=
  match s with
  | 0x30 :: letter :: d :: rest =>
    match letterBase? letter with
    | some base => (base, d :: rest)
    | none => (8, letter :: d :: rest)
  | 0x30 :: rest => (8, rest)
  | s => (10, s)

/-- Whether every underscore stands behind a digit and before one. `behindDigit` says what stands before the
text. -/
def separatorsFit (behindDigit : Bool) : Bytes → Bool
  | [] => true
  | [b] => b != 0x5F
  | b :: c :: rest =>
    (b != 0x5F || (behindDigit && c != 0x5F)) && separatorsFit (b != 0x5F) (c :: rest)

/-- The value of digits in a base. A number that is too large is noticed before anything behind it. -/
def magnitude (base : Nat) : (sum : Nat) → Bytes → Except LiteralError Nat
  | sum, [] => .ok sum
  | sum, b :: rest =>
    if b == 0x5F then magnitude base sum rest
    else
      match digitValue? b with
      | none => .error .malformed
      | some d =>
        if base ≤ d then .error .malformed
        else if 2 ^ 64 ≤ sum * base + d then .error .outOfRange
        else magnitude base (sum * base + d) rest

/-- Reads an integer of 64 bits. -/
def literal (s : Bytes) : Except LiteralError Int := do
  let (negative, digits) := match s with
    | 0x2B :: rest => (false, rest)
    | 0x2D :: rest => (true, rest)
    | s => (false, s)
  if digits.isEmpty then throw .malformed
  let (base, tail) := splitBase digits
  let n ← magnitude base 0 tail
  if !separatorsFit (base != 10) tail then throw .malformed
  let value : Int := if negative then -(n : Int) else n
  if isSigned64 value then return value else throw .outOfRange

end SecurityRules.Number
