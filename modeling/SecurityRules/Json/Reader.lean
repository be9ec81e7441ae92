import SecurityRules.Json

/-!
# Reading JSON

A text is read whole or not at all. Escapes that spell half of a surrogate pair, and malformed bytes inside
strings, become U+FFFD. Brackets may nest ten thousand deep.
-/

namespace SecurityRules.Json

/-- White space between the parts of a value. -/
def isSpace (b : UInt8) : Bool := b == 0x20 || b == 0x09 || b == 0x0A || b == 0x0D

def skipSpace (s : Bytes) : Bytes := s.dropWhile isSpace

/-- The value of four hexadecimal digits, and the rest. -/
def hex4? : Bytes → Option (Nat × Bytes)
  | a :: b :: c :: d :: rest =>
    match Bytes.hexValue? a, Bytes.hexValue? b, Bytes.hexValue? c, Bytes.hexValue? d with
    | some a, some b, some c, some d => some (((a * 16 + b) * 16 + c) * 16 + d, rest)
    | _, _, _, _ => none
  | _ => none

def isHighSurrogate (code : Nat) : Bool := 0xD800 ≤ code && code < 0xDC00

def isLowSurrogate (code : Nat) : Bool := 0xDC00 ≤ code && code < 0xE000

/-- The byte that a one-letter escape stands for. -/
def escapedByte? : UInt8 → Option UInt8
  | 0x22 => some 0x22
  | 0x5C => some 0x5C
  | 0x2F => some 0x2F
  | 0x62 => some 0x08
  | 0x66 => some 0x0C
  | 0x6E => some 0x0A
  | 0x72 => some 0x0D
  | 0x74 => some 0x09
  | _ => none

/-- A character written as one or two escapes of the form `\uXXXX`, from the first digit on. -/
def unicodeEscape? (s : Bytes) : Option (Nat × Bytes) :=
  match hex4? s with
  | none => none
  | some (high, rest) =>
    if isHighSurrogate high then
      match rest with
      | 0x5C :: 0x75 :: more =>
        match hex4? more with
        | some (low, rest') =>
          if isLowSurrogate low then
            some (0x10000 + (high - 0xD800) * 0x400 + (low - 0xDC00), rest')
          else some (Utf8.replacementCode, rest)
        | none => some (Utf8.replacementCode, rest)
      | _ => some (Utf8.replacementCode, rest)
    else if isLowSurrogate high then some (Utf8.replacementCode, rest)
    else some (high, rest)

/-- The bytes of a string behind its opening quote, and what follows the closing one. -/
def stringBytes? : (fuel : Nat) → Bytes → Option (Bytes × Bytes)
  | 0, _ => none
  | _, [] => none
  | fuel + 1, b :: rest =>
    if b == 0x22 then some ([], rest)
    else if b < 0x20 then none
    else if b == 0x5C then
      match rest with
      | [] => none
      | 0x75 :: digits =>
        match unicodeEscape? digits with
        | none => none
        | some (code, rest) =>
          (stringBytes? fuel rest).map fun (s, rest) => (Utf8.encode code ++ s, rest)
      | e :: rest =>
        match escapedByte? e with
        | none => none
        | some b => (stringBytes? fuel rest).map fun (s, rest) => (b :: s, rest)
    else (stringBytes? fuel rest).map fun (s, rest) => (b :: s, rest)

/-- A string behind its opening quote. -/
def string? (s : Bytes) : Option (Bytes × Bytes) :=
  (stringBytes? (s.length + 1) s).map fun (bytes, rest) => (Utf8.repaired bytes, rest)

/-- The digits at the head of a text, of which there must be one, and the rest. -/
def digitRun? (s : Bytes) : Option (Bytes × Bytes) :=
  let digits := s.takeWhile Bytes.isDigit
  if digits.isEmpty then none else some (digits, s.drop digits.length)

/-- The digits before the point: no zero in front of others. -/
def wholePart? : Bytes → Option (Bytes × Bytes)
  | 0x30 :: rest => some ([0x30], rest)
  | s => digitRun? s

/-- A point with digits, if there is a point. -/
def fractionPart? : Bytes → Option (Bytes × Bytes)
  | 0x2E :: rest => (digitRun? rest).map fun (digits, rest) => (0x2E :: digits, rest)
  | s => some ([], s)

/-- An exponent, if there is one. -/
def exponentPart? : Bytes → Option (Bytes × Bytes)
  | b :: rest =>
    if b == 0x65 || b == 0x45 then
      match rest with
      | sign :: more =>
        if sign == 0x2B || sign == 0x2D then
          (digitRun? more).map fun (digits, rest) => (b :: sign :: digits, rest)
        else (digitRun? rest).map fun (digits, rest) => (b :: digits, rest)
      | [] => none
    else some ([], b :: rest)
  | [] => some ([], [])

/-- The spelling of a number at the head of a text. -/
def number? (s : Bytes) : Option (Bytes × Bytes) := do
  let (sign, s) := match s with
    | 0x2D :: rest => (([0x2D] : Bytes), rest)
    | s => ([], s)
  let (whole, s) ← wholePart? s
  let (fraction, s) ← fractionPart? s
  let (exponent, s) ← exponentPart? s
  return (sign ++ whole ++ fraction ++ exponent, s)

/-- How deep brackets may nest. -/
def depthLimit : Nat := 10000

/-- A word at the head of a text. -/
def word? (word : String) (value : Json) (s : Bytes) : Option (Json × Bytes) :=
  (Bytes.after? word s).map fun rest => (value, rest)

mutual

/-- A value at the head of a text, inside brackets that leave room for `depth` more. -/
def value? : (fuel depth : Nat) → Bytes → Option (Json × Bytes)
  | 0, _, _ => none
  | fuel + 1, depth, s =>
    match skipSpace s with
    | [] => none
    | 0x22 :: rest => (string? rest).map fun (text, rest) => (string text, rest)
    | 0x5B :: rest =>
      match depth with
      | 0 => none
      | depth + 1 =>
        match skipSpace rest with
        | 0x5D :: rest => some (array [], rest)
        | rest => (items? fuel depth rest).map fun (items, rest) => (array items, rest)
    | 0x7B :: rest =>
      match depth with
      | 0 => none
      | depth + 1 =>
        match skipSpace rest with
        | 0x7D :: rest => some (object [], rest)
        | rest => (pairs? fuel depth rest).map fun (pairs, rest) => (object pairs, rest)
    | 0x74 :: rest => word? "true" (bool true) (0x74 :: rest)
    | 0x66 :: rest => word? "false" (bool false) (0x66 :: rest)
    | 0x6E :: rest => word? "null" null (0x6E :: rest)
    | s => (number? s).map fun (spelling, rest) => (number spelling, rest)

/-- The items of an array up to its bracket; there is at least one. -/
def items? : (fuel depth : Nat) → Bytes → Option (List Json × Bytes)
  | 0, _, _ => none
  | fuel + 1, depth, s =>
    match value? fuel depth s with
    | none => none
    | some (item, rest) =>
      match skipSpace rest with
      | 0x5D :: rest => some ([item], rest)
      | 0x2C :: rest => (items? fuel depth rest).map fun (items, rest) => (item :: items, rest)
      | _ => none

/-- The members of an object up to its bracket; there is at least one. -/
def pairs? : (fuel depth : Nat) → Bytes → Option (List (Bytes × Json) × Bytes)
  | 0, _, _ => none
  | fuel + 1, depth, s =>
    match skipSpace s with
    | 0x22 :: rest =>
      match string? rest with
      | none => none
      | some (name, rest) =>
        match skipSpace rest with
        | 0x3A :: rest =>
          match value? fuel depth rest with
          | none => none
          | some (value, rest) =>
            match skipSpace rest with
            | 0x7D :: rest => some ([(name, value)], rest)
            | 0x2C :: rest =>
              (pairs? fuel depth rest).map fun (pairs, rest) => ((name, value) :: pairs, rest)
            | _ => none
        | _ => none
    | _ => none

end

/-- Reads a text that holds one value and nothing else. Every step of the recursion takes a byte or is the
last one on its value, so twice the length is fuel enough. -/
def parse? (s : Bytes) : Option Json :=
  match value? (2 * s.length + 2) depthLimit s with
  | some (value, rest) => if (skipSpace rest).isEmpty then some value else none
  | none => none

end SecurityRules.Json
