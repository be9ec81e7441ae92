import SecurityRules.Text.Bytes

/-!
# Packed values

A compact binary form of values: a code byte says what follows and how long it is, and numbers stand with
their most significant byte first. Lengths are written in the shortest way; any way of writing them is read.
-/

namespace SecurityRules

/-- How an integer is written: in the code byte itself, or in one to eight bytes behind it, with a sign or
without. -/
inductive IntegerForm where
  | inCode
  | unsigned8 | unsigned16 | unsigned32 | unsigned64
  | signed8 | signed16 | signed32 | signed64
deriving Repr, DecidableEq

/-- A packed value. -/
inductive MessagePack where
  | nil
  | bool (b : Bool)
  | integer (form : IntegerForm) (n : Int)
  /-- A number with a fraction, as the bits of a double. -/
  | double (bits : UInt64)
  /-- The same in half the size. -/
  | single (bits : UInt32)
  | text (s : Bytes)
  | binary (s : Bytes)
  | array (items : List MessagePack)
  | map (pairs : List (MessagePack × MessagePack))
  /-- A value of a kind that only its writer knows. -/
  | extension (kind : UInt8) (s : Bytes)

namespace MessagePack

/-- The low `width` bytes of a number, the most significant first. -/
def bigEndian : (width : Nat) → (n : Nat) → Bytes
  | 0, _ => []
  | width + 1, n => bigEndian width (n / 256) ++ [UInt8.ofNat n]

/-- The number that bytes spell, the most significant first. -/
def ofBigEndian (s : Bytes) : Nat := s.foldl (fun n b => n * 256 + b.toNat) 0

/-- The code byte of a form with bytes behind it, their number, and whether there is a sign. -/
def IntegerForm.layout? : IntegerForm → Option (UInt8 × Nat × Bool)
  | .inCode => none
  | .unsigned8 => some (0xCC, 1, false)
  | .unsigned16 => some (0xCD, 2, false)
  | .unsigned32 => some (0xCE, 4, false)
  | .unsigned64 => some (0xCF, 8, false)
  | .signed8 => some (0xD0, 1, true)
  | .signed16 => some (0xD1, 2, true)
  | .signed32 => some (0xD2, 4, true)
  | .signed64 => some (0xD3, 8, true)

/-- An integer in a given form. -/
def packInteger (form : IntegerForm) (n : Int) : Bytes :=
  match IntegerForm.layout? form with
  | none => [UInt8.ofNat (n.emod 256).toNat]
  | some (code, width, _) => code :: bigEndian width (n.emod (2 ^ (8 * width))).toNat

/-- A length below 32 goes into the code byte; a longer one follows one of three code bytes. -/
def packTextLength (n : Nat) : Bytes :=
  if n < 32 then [UInt8.ofNat (0xA0 + n)]
  else if n < 256 then 0xD9 :: bigEndian 1 n
  else if n < 65536 then 0xDA :: bigEndian 2 n
  else 0xDB :: bigEndian 4 n

def packBinaryLength (n : Nat) : Bytes :=
  if n < 256 then 0xC4 :: bigEndian 1 n
  else if n < 65536 then 0xC5 :: bigEndian 2 n
  else 0xC6 :: bigEndian 4 n

def packArrayLength (n : Nat) : Bytes :=
  if n < 16 then [UInt8.ofNat (0x90 + n)]
  else if n < 65536 then 0xDC :: bigEndian 2 n
  else 0xDD :: bigEndian 4 n

def packMapLength (n : Nat) : Bytes :=
  if n < 16 then [UInt8.ofNat (0x80 + n)]
  else if n < 65536 then 0xDE :: bigEndian 2 n
  else 0xDF :: bigEndian 4 n

def packExtensionLength (n : Nat) : Bytes :=
  if n = 1 then [0xD4]
  else if n = 2 then [0xD5]
  else if n = 4 then [0xD6]
  else if n = 8 then [0xD7]
  else if n = 16 then [0xD8]
  else if n < 256 then 0xC7 :: bigEndian 1 n
  else if n < 65536 then 0xC8 :: bigEndian 2 n
  else 0xC9 :: bigEndian 4 n

mutual

/-- The bytes of a value. -/
def encode : MessagePack → Bytes
  | .nil => [0xC0]
  | .bool b => [if b then 0xC3 else 0xC2]
  | .integer form n => packInteger form n
  | .double bits => 0xCB :: bigEndian 8 bits.toNat
  | .single bits => 0xCA :: bigEndian 4 bits.toNat
  | .text s => packTextLength s.length ++ s
  | .binary s => packBinaryLength s.length ++ s
  | .array items => packArrayLength items.length ++ encodeItems items
  | .map pairs => packMapLength pairs.length ++ encodePairs pairs
  | .extension kind s => packExtensionLength s.length ++ kind :: s

def encodeItems : List MessagePack → Bytes
  | [] => []
  | item :: rest => encode item ++ encodeItems rest

def encodePairs : List (MessagePack × MessagePack) → Bytes
  | [] => []
  | (key, value) :: rest => encode key ++ encode value ++ encodePairs rest

end

/-- The first `n` bytes of a text, if there are so many, and the rest. -/
def take? (n : Nat) (s : Bytes) : Option (Bytes × Bytes) :=
  let head := s.take n
  if head.length < n then none else some (head, s.drop n)

/-- A number of `width` bytes. -/
def number? (width : Nat) (s : Bytes) : Option (Nat × Bytes) :=
  (take? width s).map fun (digits, rest) => (ofBigEndian digits, rest)

/-- A number with a sign from its bytes. -/
def signedOf (width n : Nat) : Int := Int.bmod n (2 ^ (8 * width))

/-- What a code byte announces. -/
inductive Lead where
  | value (v : MessagePack)
  | integer (form : IntegerForm) (width : Nat) (isSigned : Bool)
  | double | single
  | text (length : Nat) | textBehind (width : Nat)
  | binaryBehind (width : Nat)
  | array (length : Nat) | arrayBehind (width : Nat)
  | map (length : Nat) | mapBehind (width : Nat)
  | extension (length : Nat) | extensionBehind (width : Nat)
  | unknown

/-- Reads a code byte. -/
def Lead.ofCode (code : UInt8) : Lead :=
  let n := code.toNat
  if n < 0x80 then .value (.integer .inCode n)
  else if n < 0x90 then .map (n - 0x80)
  else if n < 0xA0 then .array (n - 0x90)
  else if n < 0xC0 then .text (n - 0xA0)
  else if 0xE0 ≤ n then .value (.integer .inCode ((n : Int) - 256))
  else
    match code with
    | 0xC0 => .value .nil
    | 0xC2 => .value (.bool false)
    | 0xC3 => .value (.bool true)
    | 0xC4 => .binaryBehind 1
    | 0xC5 => .binaryBehind 2
    | 0xC6 => .binaryBehind 4
    | 0xC7 => .extensionBehind 1
    | 0xC8 => .extensionBehind 2
    | 0xC9 => .extensionBehind 4
    | 0xCA => .single
    | 0xCB => .double
    | 0xCC => .integer .unsigned8 1 false
    | 0xCD => .integer .unsigned16 2 false
    | 0xCE => .integer .unsigned32 4 false
    | 0xCF => .integer .unsigned64 8 false
    | 0xD0 => .integer .signed8 1 true
    | 0xD1 => .integer .signed16 2 true
    | 0xD2 => .integer .signed32 4 true
    | 0xD3 => .integer .signed64 8 true
    | 0xD4 => .extension 1
    | 0xD5 => .extension 2
    | 0xD6 => .extension 4
    | 0xD7 => .extension 8
    | 0xD8 => .extension 16
    | 0xD9 => .textBehind 1
    | 0xDA => .textBehind 2
    | 0xDB => .textBehind 4
    | 0xDC => .arrayBehind 2
    | 0xDD => .arrayBehind 4
    | 0xDE => .mapBehind 2
    | 0xDF => .mapBehind 4
    | _ => .unknown

/-- A text of known length. -/
def text? (length : Nat) (s : Bytes) : Option (MessagePack × Bytes) :=
  (take? length s).map fun (bytes, rest) => (.text bytes, rest)

/-- An extension of known length: its kind and its bytes. -/
def extension? (length : Nat) (s : Bytes) : Option (MessagePack × Bytes) :=
  match s with
  | [] => none
  | kind :: rest => (take? length rest).map fun (bytes, rest) => (.extension kind bytes, rest)

mutual

/-- A value at the head of a text, and the rest. -/
def value? : (fuel : Nat) → Bytes → Option (MessagePack × Bytes)
  | 0, _ => none
  | _, [] => none
  | fuel + 1, code :: rest =>
    match Lead.ofCode code with
    | .value v => some (v, rest)
    | .integer form width isSigned =>
      (number? width rest).map fun (n, rest) =>
        (.integer form (if isSigned then signedOf width n else n), rest)
    | .double => (number? 8 rest).map fun (n, rest) => (.double (UInt64.ofNat n), rest)
    | .single => (number? 4 rest).map fun (n, rest) => (.single (UInt32.ofNat n), rest)
    | .text length => text? length rest
    | .textBehind width => (number? width rest).bind fun (length, rest) => text? length rest
    | .binaryBehind width =>
      (number? width rest).bind fun (length, rest) =>
        (take? length rest).map fun (bytes, rest) => (.binary bytes, rest)
    | .array length => (items? fuel length rest).map fun (items, rest) => (.array items, rest)
    | .arrayBehind width =>
      match number? width rest with
      | none => none
      | some (length, rest) => (items? fuel length rest).map fun (items, rest) => (.array items, rest)
    | .map length => (pairs? fuel length rest).map fun (pairs, rest) => (.map pairs, rest)
    | .mapBehind width =>
      match number? width rest with
      | none => none
      | some (length, rest) => (pairs? fuel length rest).map fun (pairs, rest) => (.map pairs, rest)
    | .extension length => extension? length rest
    | .extensionBehind width => (number? width rest).bind fun (length, rest) => extension? length rest
    | .unknown => none

/-- So many values one after the other. -/
def items? : (fuel length : Nat) → Bytes → Option (List MessagePack × Bytes)
  | _, 0, s => some ([], s)
  | 0, _, _ => none
  | fuel + 1, length + 1, s =>
    match value? fuel s with
    | none => none
    | some (item, rest) => (items? fuel length rest).map fun (items, rest) => (item :: items, rest)

/-- So many pairs of values one after the other. -/
def pairs? : (fuel length : Nat) → Bytes → Option (List (MessagePack × MessagePack) × Bytes)
  | _, 0, s => some ([], s)
  | 0, _, _ => none
  | fuel + 1, length + 1, s =>
    match value? fuel s with
    | none => none
    | some (key, rest) =>
      match value? fuel rest with
      | none => none
      | some (value, rest) =>
        (pairs? fuel length rest).map fun (pairs, rest) => ((key, value) :: pairs, rest)

end

/-- Reads the value at the head of a text. Every step takes a byte or is the last one on its value, so twice
the length is fuel enough. -/
def decode? (s : Bytes) : Option (MessagePack × Bytes) := value? (2 * s.length + 2) s

end MessagePack

end SecurityRules
