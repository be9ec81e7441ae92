/-!
# Text as bytes

Rules documents come from editors and disks and need not be valid UTF-8, so every text that can hold
a piece of a document is kept as the list of its bytes. A string literal stands for its UTF-8 bytes.
-/

-- A power or a sum of numbers is read with the instances the numbers come with, also in the modules
-- that import a library of algebra, whose instances are equal to these but spelled otherwise.
attribute [instance (2000), default_instance 20000] instPowNat
attribute [instance (2000)] instNatPowNat Zero.ofOfNat0

namespace SecurityRules

/-- A text, byte by byte. -/
abbrev Bytes := List UInt8

namespace Bytes

/-- The UTF-8 bytes of a string. -/
def ofString (s : String) : Bytes := s.toUTF8.data.toList

instance : Coe String Bytes := ⟨ofString⟩

/-- A natural number in decimal. -/
def decimal (n : Nat) : Bytes := ofString (toString n)

/-- An integer in decimal, with a minus sign below zero. -/
def decimalInt (n : Int) : Bytes :=
  if n < 0 then ofString "-" ++ decimal n.natAbs else decimal n.natAbs

/-- `n` copies of `b`. -/
def fill (n : Nat) (b : UInt8) : Bytes := List.replicate n b

/-- Blanks in front of `s` up to `width` bytes. -/
def padLeft (width : Nat) (s : Bytes) : Bytes := fill (width - s.length) 0x20 ++ s

/-- Zeros in front of `s` up to `width` bytes. -/
def padZeros (width : Nat) (s : Bytes) : Bytes := fill (width - s.length) 0x30 ++ s

/-- The parts with `separator` between neighbours. -/
def join (separator : Bytes) : List Bytes → Bytes
  | [] => []
  | [x] => x
  | x :: y :: rest => x ++ separator ++ join separator (y :: rest)

/-- `s` between two texts; nothing at all if `s` is empty. -/
def enclosed (left : Bytes) (s : Bytes) (right : Bytes) : Bytes :=
  if s.isEmpty then [] else left ++ s ++ right

/-- What follows `lead` in `s`, if `s` starts with it. -/
def after? (lead s : Bytes) : Option Bytes :=
  if lead.isPrefixOf s then some (s.drop lead.length) else none

/-- Replaces every occurrence of `pattern` from left to right; an empty pattern occurs nowhere. -/
def replaceAll (pattern replacement : Bytes) (s : Bytes) : Bytes :=
  match s with
  | [] => []
  | b :: rest =>
    match pattern with
    | [] => b :: rest
    | p :: ps =>
      if (p :: ps).isPrefixOf (b :: rest) then
        replacement ++ replaceAll (p :: ps) replacement (rest.drop ps.length)
      else
        b :: replaceAll (p :: ps) replacement rest
termination_by s.length
decreasing_by
  · simp only [List.length_drop, List.length_cons]; omega
  · simp

/-- Whether `pattern` occurs in `s`. -/
def contains (pattern : Bytes) : Bytes → Bool
  | [] => pattern.isEmpty
  | b :: rest => pattern.isPrefixOf (b :: rest) || contains pattern rest

/-- Drops the bytes that satisfy `p` at both ends. -/
def trim (p : UInt8 → Bool) (s : Bytes) : Bytes :=
  ((s.dropWhile p).reverse.dropWhile p).reverse

/-- The pieces of `s` between the bytes equal to `separator`; one more than there are separators. -/
def splitOn (separator : UInt8) : Bytes → List Bytes
  | [] => [[]]
  | b :: rest =>
    if b = separator then [] :: splitOn separator rest
    else
      match splitOn separator rest with
      | [] => [[b]]
      | piece :: pieces => (b :: piece) :: pieces

/-- The text before and after the first byte equal to `separator`. -/
def cut? (separator : UInt8) : Bytes → Option (Bytes × Bytes)
  | [] => none
  | b :: rest =>
    if b = separator then some ([], rest)
    else (cut? separator rest).map fun (left, right) => (b :: left, right)

/-- The text before and after the last byte equal to `separator`. -/
def cutLast? (separator : UInt8) (s : Bytes) : Option (Bytes × Bytes) :=
  (cut? separator s.reverse).map fun (right, left) => (left.reverse, right.reverse)

/-- The text in front of the first occurrence of a pattern, and the text from there on. -/
def cutBefore? (pattern : Bytes) : Bytes → Option (Bytes × Bytes)
  | [] => none
  | b :: rest =>
    if pattern.isPrefixOf (b :: rest) then some ([], b :: rest)
    else (cutBefore? pattern rest).map fun (left, right) => (b :: left, right)

/-- Byte-wise lexicographic order: a proper beginning comes first. -/
def before : Bytes → Bytes → Bool
  | _, [] => false
  | [], _ :: _ => true
  | a :: s, b :: t => a < b || (a == b && before s t)

/-- Byte-wise lexicographic order, equality included. -/
def notAfter (s t : Bytes) : Bool := !before t s

/-- Whether a byte is an ASCII digit. -/
def isDigit (b : UInt8) : Bool := 0x30 ≤ b && b ≤ 0x39

/-- An ASCII capital in lower case; any other byte unchanged. -/
def toLowerByte (b : UInt8) : UInt8 := if 0x41 ≤ b && b ≤ 0x5A then b + 0x20 else b

/-- The value of a run of ASCII digits, most significant first; none for an empty run. -/
def digits? (s : Bytes) : Option Nat :=
  if s.isEmpty || !s.all isDigit then none
  else some (s.foldl (fun n b => n * 10 + (b - 0x30).toNat) 0)

/-- The lower-case hexadecimal digit of a number below sixteen. -/
def hexDigit (n : Nat) : UInt8 := UInt8.ofNat (if n < 10 then 0x30 + n else 0x57 + n)

/-- `width` hexadecimal digits of `n`, most significant first. -/
def hexOf : (width : Nat) → (n : Nat) → Bytes
  | 0, _ => []
  | width + 1, n => hexOf width (n / 16) ++ [hexDigit (n % 16)]

/-- Two lower-case hexadecimal digits a byte. -/
def hex (s : Bytes) : Bytes := s.flatMap fun b => hexOf 2 b.toNat

/-- The value of one hexadecimal digit, in either case. -/
def hexValue? (b : UInt8) : Option Nat :=
  if isDigit b then some (b - 0x30).toNat
  else if 0x61 ≤ b && b ≤ 0x66 then some (b - 0x57).toNat
  else if 0x41 ≤ b && b ≤ 0x46 then some (b - 0x37).toNat
  else none

/-- Reads two hexadecimal digits a byte. -/
def ofHex? : Bytes → Option Bytes
  | [] => some []
  | [_] => none
  | a :: b :: rest =>
    match hexValue? a, hexValue? b, ofHex? rest with
    | some high, some low, some bytes => some (UInt8.ofNat (high * 16 + low) :: bytes)
    | _, _, _ => none

end Bytes

end SecurityRules
