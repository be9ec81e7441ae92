import SecurityRules.Toml.Scalar

/-!
# Reading a settings file

The text of a settings file as statements. A file is read whole or not at all: one malformed byte, one
control character or one misplaced mark spoils it.
-/

namespace SecurityRules.Toml

def isNewline (b : UInt8) : Bool := b == 0x0A || b == 0x0D

/-- A byte order mark in front of a text means nothing. -/
def withoutMark : Bytes → Bytes
  | 0xFF :: 0xFE :: rest => rest
  | 0xFE :: 0xFF :: rest => rest
  | 0xEF :: 0xBB :: 0xBF :: rest => rest
  | s => s

/-- Whether a text holds no control characters besides tabs and line ends, where a carriage return needs a
line feed behind it. -/
def isPlain : Bytes → Bool
  | [] => true
  | 0x0D :: rest => rest.head? == some 0x0A && isPlain rest
  | b :: rest => (b == 0x09 || b == 0x0A || (0x20 ≤ b && b != 0x7F)) && isPlain rest

def skipGap (s : Bytes) : Bytes := s.dropWhile isGap

/-- Skips white space, line ends and comments. -/
def skipIgnored (inComment : Bool) : Bytes → Bytes
  | [] => []
  | b :: rest =>
    if isNewline b then skipIgnored false rest
    else if inComment then skipIgnored true rest
    else if isGap b then skipIgnored false rest
    else if b == 0x23 then skipIgnored true rest
    else b :: rest

/-- What follows a statement: at most a comment up to the end of the line. -/
def lineEnd? (s : Bytes) : Option Bytes :=
  match skipGap s with
  | [] => some []
  | 0x23 :: rest => some (rest.dropWhile fun b => !isNewline b)
  | b :: rest => if isNewline b then some rest else none

/-- The byte that a one-letter escape stands for. -/
def escapeLetter? : UInt8 → Option UInt8
  | 0x62 => some 0x08
  | 0x74 => some 0x09
  | 0x6E => some 0x0A
  | 0x66 => some 0x0C
  | 0x72 => some 0x0D
  | 0x22 => some 0x22
  | 0x5C => some 0x5C
  | _ => none

/-- The character that hexadecimal digits stand for. -/
def character? (digits : Bytes) : Option Bytes :=
  if digits.all (isDigitIn 16) then
    let code := valueIn 16 digits
    if code < 0xD800 || (0xE000 ≤ code && code < 0x110000) then some (Utf8.encode code) else none
  else none

/-- An escape behind its backslash: what it stands for, and the rest. -/
def escape? : Bytes → Option (Bytes × Bytes)
  | [] => none
  | 0x75 :: rest =>
    if rest.length < 4 then none else (character? (rest.take 4)).map fun c => (c, rest.drop 4)
  | 0x55 :: rest =>
    if rest.length < 8 then none else (character? (rest.take 8)).map fun c => (c, rest.drop 8)
  | letter :: rest => (escapeLetter? letter).map fun b => ([b], rest)

/-- A string behind its opening quote, on one line. -/
def basicString? : (fuel : Nat) → Bytes → Option (Bytes × Bytes)
  | 0, _ => none
  | _, [] => none
  | fuel + 1, b :: rest =>
    if b == 0x22 then some ([], rest)
    else if isNewline b then none
    else if b == 0x5C then
      match escape? rest with
      | none => none
      | some (c, rest) => (basicString? fuel rest).map fun (s, rest) => (c ++ s, rest)
    else (basicString? fuel rest).map fun (s, rest) => (b :: s, rest)

/-- A string without escapes behind its opening quote, on one line. -/
def literalString? : Bytes → Option (Bytes × Bytes)
  | [] => none
  | b :: rest =>
    if b == 0x27 then some ([], rest)
    else if isNewline b then none
    else (literalString? rest).map fun (s, rest) => (b :: s, rest)

/-- White space of any kind. -/
def isSpace (b : UInt8) : Bool := isGap b || isNewline b

/-- A string of several lines behind its opening quotes. Three quotes close it, and up to two more may stand
before them. A backslash at the end of a line takes all white space behind it away. Behind an escaped
backslash, one more quote is allowed. -/
def basicLines? : (fuel : Nat) → (behindBackslash : Bool) → Bytes → Option (Bytes × Bytes)
  | 0, _, _ => none
  | _, _, [] => none
  | fuel + 1, behindBackslash, b :: rest =>
    if b == 0x22 then
      let quotes := (b :: rest).takeWhile (· == 0x22)
      let rest := (b :: rest).dropWhile (· == 0x22)
      if quotes.length < 3 then
        (basicLines? fuel false rest).map fun (s, rest) => (quotes ++ s, rest)
      else if quotes.length ≤ (if behindBackslash then 6 else 5) then some (quotes.drop 3, rest)
      else none
    else if b == 0x5C then
      let spaces := rest.takeWhile isSpace
      if spaces.isEmpty then
        match escape? rest with
        | none => none
        | some (c, rest) =>
          (basicLines? fuel (c == [0x5C]) rest).map fun (s, rest) => (c ++ s, rest)
      else if spaces.elem 0x0A then basicLines? fuel false (rest.drop spaces.length)
      else none
    else (basicLines? fuel false rest).map fun (s, rest) => (b :: s, rest)

/-- The same without escapes. -/
def literalLines? : (fuel : Nat) → Bytes → Option (Bytes × Bytes)
  | 0, _ => none
  | _, [] => none
  | fuel + 1, b :: rest =>
    if b == 0x27 then
      let quotes := (b :: rest).takeWhile (· == 0x27)
      let rest := (b :: rest).dropWhile (· == 0x27)
      if quotes.length < 3 then
        (literalLines? fuel rest).map fun (s, rest) => (quotes ++ s, rest)
      else if quotes.length ≤ 5 then some (quotes.drop 3, rest)
      else none
    else (literalLines? fuel rest).map fun (s, rest) => (b :: s, rest)

/-- A line end right behind the opening quotes does not count. -/
def skipFirstNewline : Bytes → Bytes
  | 0x0A :: rest => rest
  | 0x0D :: 0x0A :: rest => rest
  | s => s

/-- One name of a key. -/
def name? : Bytes → Option (Bytes × Bytes)
  | 0x22 :: rest => basicString? (rest.length + 1) rest
  | 0x27 :: rest => literalString? rest
  | s =>
    let bare := s.takeWhile isBareByte
    if bare.isEmpty then none else some (bare, s.drop bare.length)

/-- A key up to the mark behind it. -/
def key? : (fuel : Nat) → Bytes → Option (Key × Bytes)
  | 0, _ => none
  | fuel + 1, s =>
    match name? (skipGap s) with
    | none => none
    | some (name, rest) =>
      match skipGap rest with
      | 0x2E :: rest => (key? fuel rest).map fun (names, rest) => (name :: names, rest)
      | rest => some ([name], rest)

mutual

/-- A value at the head of a text. -/
def value? : (fuel : Nat) → Bytes → Option (Value × Bytes)
  | 0, _ => none
  | fuel + 1, s =>
    match skipGap s with
    | 0x5B :: rest => (items? fuel rest).map fun (items, rest) => (.array items, rest)
    | 0x7B :: rest =>
      match skipGap rest with
      | 0x7D :: rest => some (.inlineTable [], rest)
      | rest => (pairs? fuel rest).map fun (pairs, rest) => (.inlineTable pairs, rest)
    | 0x22 :: 0x22 :: 0x22 :: rest =>
      (basicLines? (rest.length + 1) false (skipFirstNewline rest)).map fun (s, rest) =>
        (.scalar (.text s), rest)
    | 0x22 :: rest =>
      (basicString? (rest.length + 1) rest).map fun (s, rest) => (.scalar (.text s), rest)
    | 0x27 :: 0x27 :: 0x27 :: rest =>
      (literalLines? (rest.length + 1) (skipFirstNewline rest)).map fun (s, rest) =>
        (.scalar (.text s), rest)
    | 0x27 :: rest => (literalString? rest).map fun (s, rest) => (.scalar (.text s), rest)
    | 0x74 :: rest => (Bytes.after? "rue" rest).map fun rest => (.scalar (.bool true), rest)
    | 0x66 :: rest => (Bytes.after? "alse" rest).map fun rest => (.scalar (.bool false), rest)
    | 0x69 :: rest => (Bytes.after? "nf" rest).map fun rest => (.scalar .float, rest)
    | 0x6E :: rest => (Bytes.after? "an" rest).map fun rest => (.scalar .float, rest)
    | 0x2B :: rest => (signed? 0x2B rest).map fun (s, rest) => (.scalar s, rest)
    | 0x2D :: rest => (signed? 0x2D rest).map fun (s, rest) => (.scalar s, rest)
    | b :: rest =>
      if Bytes.isDigit b then (unsigned? (b :: rest)).map fun (s, rest) => (.scalar s, rest) else none
    | [] => none

/-- The items of an array up to its bracket. -/
def items? : (fuel : Nat) → Bytes → Option (List Value × Bytes)
  | 0, _ => none
  | fuel + 1, s =>
    match skipIgnored false s with
    | 0x5D :: rest => some ([], rest)
    | s =>
      match value? fuel s with
      | none => none
      | some (item, rest) =>
        match skipIgnored false rest with
        | 0x2C :: rest => (items? fuel rest).map fun (items, rest) => (item :: items, rest)
        | 0x5D :: rest => some ([item], rest)
        | _ => none

/-- The pairs of a table on one line up to its brace; there is at least one. -/
def pairs? : (fuel : Nat) → Bytes → Option (List (Key × Value) × Bytes)
  | 0, _ => none
  | fuel + 1, s =>
    match key? (s.length + 1) s with
    | some (key, 0x3D :: rest) =>
      match value? fuel rest with
      | none => none
      | some (value, rest) =>
        match skipGap rest with
        | 0x2C :: rest => (pairs? fuel rest).map fun (pairs, rest) => ((key, value) :: pairs, rest)
        | 0x7D :: rest => some ([(key, value)], rest)
        | _ => none
    | _ => none

end

/-- A statement at the head of a text. -/
def statement? (s : Bytes) : Option (Statement × Bytes) :=
  match s with
  | 0x5B :: 0x5B :: rest =>
    match key? (rest.length + 1) rest with
    | some (key, 0x5D :: 0x5D :: rest) => some (.tableElement key, rest)
    | _ => none
  | 0x5B :: rest =>
    match key? (rest.length + 1) rest with
    | some (key, 0x5D :: rest) => some (.table key, rest)
    | _ => none
  | s =>
    match key? (s.length + 1) s with
    | some (key, 0x3D :: rest) =>
      (value? (2 * rest.length + 2) rest).map fun (value, rest) => (.pair key value, rest)
    | _ => none

/-- The statements of a text. -/
def statements? : (fuel : Nat) → Bytes → Option (List Statement)
  | 0, _ => none
  | fuel + 1, s =>
    match skipIgnored false s with
    | [] => some []
    | s =>
      match statement? s with
      | none => none
      | some (statement, rest) =>
        match lineEnd? rest with
        | none => none
        | some rest => (statements? fuel rest).map (statement :: ·)

/-- Whether a text holds no malformed bytes. The replacement character counts as one, since it stands where
such bytes were. -/
def isWellFormed (text : Bytes) : Bool := (Utf8.decodeAll text).all fun d => d.code != 0xFFFD

/-- Reads a settings file. Every statement takes at least one byte, so the length is fuel enough. -/
def read? (text : Bytes) : Option (List Statement) :=
  let text := withoutMark text
  if isWellFormed text && isPlain text then statements? (text.length + 1) text else none

end SecurityRules.Toml
