import SecurityRules.Number.Binary64
import SecurityRules.Number.Signed
import SecurityRules.Text.Utf8

/-!
# Statements and scalars of a settings file

A settings file is a list of statements. How far a number or a moment reaches is decided by its bytes alone; only then
is it looked at closely.
-/

namespace SecurityRules.Toml

/-!
## Statements

A settings file is a list of statements. Each opens a table, opens one more element of a list of tables, or
gives a value to a key.
-/

/-- The names that lead to a value. -/
abbrev Key := List Bytes

/-- A value without parts. Numbers with a fraction and moments in time have no use for their value here. -/
inductive Scalar where
  | text (s : Bytes)
  | integer (n : Int)
  | bool (b : Bool)
  | float
  | moment
deriving Repr, DecidableEq

/-- A value as it is written. -/
inductive Value where
  | scalar (s : Scalar)
  | array (items : List Value)
  | inlineTable (pairs : List (Key × Value))

/-- A statement. -/
inductive Statement where
  | table (key : Key)
  | tableElement (key : Key)
  | pair (key : Key) (value : Value)

/-- Whether a byte can stand in a name without quotes. -/
def isBareByte (b : UInt8) : Bool :=
  (0x41 ≤ b && b ≤ 0x5A) || (0x61 ≤ b && b ≤ 0x7A) || Bytes.isDigit b || b == 0x5F || b == 0x2D

/-- A byte of a quoted name. -/
def escapedByte (b : UInt8) : Bytes :=
  match b with
  | 0x22 => "\\\""
  | 0x5C => "\\\\"
  | 0x08 => "\\b"
  | 0x09 => "\\t"
  | 0x0A => "\\n"
  | 0x0C => "\\f"
  | 0x0D => "\\r"
  | b => if b < 0x20 || b == 0x7F then "\\u" ++ Bytes.hexOf 4 b.toNat else [b]

/-- A name as it is written: in quotes unless it can do without. -/
def renderName (name : Bytes) : Bytes :=
  if !name.isEmpty && name.all isBareByte then name
  else "\"" ++ name.flatMap escapedByte ++ "\""

/-- The names of a key with dots between them. -/
def Key.render (key : Key) : Bytes := Bytes.join "." (key.map renderName)

/-! ## Numbers and moments -/

/-- What the bytes of a value make of it. -/
inductive NumberKind where
  | integer | float | moment
deriving Repr, DecidableEq

def isUnderscore (b : UInt8) : Bool := b == 0x5F

/-- The digits of a number written in a base other than ten, by the letter behind its zero. -/
def baseOf? : UInt8 → Option Nat
  | 0x62 => some 2
  | 0x6F => some 8
  | 0x78 => some 16
  | _ => none

/-- Whether a byte is a digit in a base up to sixteen. -/
def isDigitIn (base : Nat) (b : UInt8) : Bool := ((Bytes.hexValue? b).map fun n => decide (n < base)).getD false

/-- The value of digits in a base; underscores between them mean nothing. -/
def valueIn (base : Nat) (digits : Bytes) : Nat :=
  digits.foldl (fun n b => ((Bytes.hexValue? b).map (n * base + ·)).getD n) 0

/-- Whether every underscore stands between two digits. -/
def underscoresFit : Bytes → Bool
  | [] => false
  | [b] => !isUnderscore b
  | a :: b :: rest => !(isUnderscore a && isUnderscore b) && underscoresFit (b :: rest)

/-- A group of digits without its underscores, which stand between two digits each. -/
def digitGroup? (s : Bytes) : Option Bytes :=
  if (s.head?.map Bytes.isDigit).getD false && s.all (fun b => Bytes.isDigit b || isUnderscore b)
      && underscoresFit s then
    some (s.filter Bytes.isDigit)
  else none

/-- A group of digits in front of which no zero stands. -/
def wholeGroup? (s : Bytes) : Option Bytes :=
  if s.head? == some 0x30 && s.length != 1 then none else digitGroup? s

/-- A sign in front of a text, and the text behind it. -/
def splitSign : Bytes → Bool × Bytes
  | 0x2D :: rest => (true, rest)
  | 0x2B :: rest => (false, rest)
  | s => (false, s)

/-- A decimal integer that fits into 64 bits. -/
def decimal? (s : Bytes) : Option Int := do
  let (negative, digits) := splitSign s
  let digits ← wholeGroup? digits
  let n ← Bytes.digits? digits
  let value : Int := if negative then -(n : Int) else n
  if Number.isSigned64 value then some value else none

/-- The text before and after the mark of an exponent. -/
def cutExponent (s : Bytes) : Bytes × Option Bytes :=
  match Bytes.cut? 0x65 (s.map fun b => if b == 0x45 then 0x65 else b) with
  | some (left, right) => (left, some right)
  | none => (s, none)

/-- Whether a text is a number with a fraction or an exponent that a double can hold. -/
def isFloat (s : Bytes) : Bool :=
  Option.isSome do
    let (mantissa, exponent) := cutExponent (splitSign s).2
    let (whole, fraction) ← match Bytes.cut? 0x2E mantissa with
      | some (whole, fraction) => do some (← wholeGroup? whole, ← digitGroup? fraction)
      | none => do some (← wholeGroup? mantissa, [])
    let power : Int ← match exponent with
      | none => some 0
      | some e => do
        let (negative, digits) := splitSign e
        let n ← Bytes.digits? (← digitGroup? digits)
        some (if negative then -(n : Int) else n)
    let digits ← Bytes.digits? (whole ++ fraction)
    Number.Binary64.ofDecimal? digits (power - fraction.length)

/-- Two digits at the head of a text, as a number below `bound`. -/
def twoDigits? (bound : Nat) : Bytes → Option (Nat × Bytes)
  | a :: b :: rest => do
    let n ← Bytes.digits? [a, b]
    if n < bound then some (n, rest) else none
  | _ => none

/-- One byte at the head of a text. -/
def expect? (b : UInt8) : Bytes → Option Bytes
  | c :: rest => if b = c then some rest else none
  | [] => none

/-- The number of days of a month. -/
def daysIn (year month : Nat) : Nat :=
  if month = 2 then
    (if year % 4 = 0 && (year % 100 != 0 || year % 400 = 0) then 29 else 28)
  else if month = 4 || month = 6 || month = 9 || month = 11 then 30
  else 31

/-- A day of the calendar at the head of a text. -/
def date? (s : Bytes) : Option Bytes := do
  let year ← Bytes.digits? (s.take 4)
  if s.length < 4 then none
  let (month, rest) ← twoDigits? 13 (← expect? 0x2D (s.drop 4))
  let (day, rest) ← twoDigits? 32 (← expect? 0x2D rest)
  if 1 ≤ month && 1 ≤ day && day ≤ daysIn year month then some rest else none

/-- The hour at the head of a text, in one digit or two. -/
def hour? (s : Bytes) : Option Bytes :=
  match s.takeWhile Bytes.isDigit with
  | [] => none
  | [_] => some (s.drop 1)
  | a :: b :: _ => (twoDigits? 24 (a :: b :: s.drop 2)).map (·.2)

/-- A point with digits, if there is one. -/
def skipFraction (s : Bytes) : Bytes :=
  match s with
  | 0x2E :: rest =>
    if (rest.takeWhile Bytes.isDigit).isEmpty then s else rest.dropWhile Bytes.isDigit
  | s => s

/-- A time of day at the head of a text. -/
def clock? (s : Bytes) : Option Bytes := do
  let rest ← hour? s
  let (_, rest) ← twoDigits? 60 (← expect? 0x3A rest)
  let (_, rest) ← twoDigits? 60 (← expect? 0x3A rest)
  return skipFraction rest

/-- What a time differs from that of Greenwich, at the head of a text. -/
def offset? (s : Bytes) : Option Bytes :=
  match s with
  | 0x5A :: rest => some rest
  | sign :: rest =>
    if sign == 0x2B || sign == 0x2D then do
      let (_, rest) ← twoDigits? 25 rest
      let (_, rest) ← twoDigits? 61 (← expect? 0x3A rest)
      return rest
    else none
  | [] => none

/-- Whether a text is a day, a time of day, or both, the latter with or without an offset. -/
def isMoment (s : Bytes) : Bool :=
  let s : Bytes := s.map fun b => if b == 0x74 || b == 0x20 then 0x54 else if b == 0x7A then 0x5A else b
  let atEnd (rest : Option Bytes) : Bool := (rest.map (·.isEmpty)).getD false
  let local? := (date? s).bind fun rest => (expect? 0x54 rest).bind clock?
  atEnd (date? s) || atEnd (clock? s) || atEnd local? || atEnd (local?.bind offset?)

/-- Bytes of a number with a fraction or an exponent. -/
def isFloatByte (b : UInt8) : Bool :=
  Bytes.isDigit b || (Bytes.ofString "_.-+eE").elem b

/-- Bytes of a moment. -/
def isMomentByte (b : UInt8) : Bool :=
  Bytes.isDigit b || (Bytes.ofString "-:Tt .Zz+").elem b

/-- How far a number in base ten reaches, and what it is. -/
def decimalExtent (s : Bytes) : NumberKind × Bytes × Bytes :=
  let body := s.takeWhile fun b => Bytes.isDigit b || isUnderscore b
  let rest := s.drop body.length
  if (rest.head?.map fun b => b == 0x2E || b == 0x65 || b == 0x45).getD false then
    let tail := rest.takeWhile isFloatByte
    (.float, body ++ tail, rest.drop tail.length)
  else (.integer, body, rest)

/-- How far a number or a moment without a sign reaches. A moment starts with two digits or with one that is
not zero. -/
def extent (s : Bytes) : NumberKind × Bytes × Bytes :=
  let digits := s.takeWhile Bytes.isDigit
  let rest := s.drop digits.length
  if digits != [0x30] && (rest.head?.map fun b => b == 0x2D || b == 0x3A).getD false then
    let tail := rest.takeWhile isMomentByte
    (.moment, digits ++ tail, rest.drop tail.length)
  else decimalExtent s

/-- White space between the parts of a line. -/
def isGap (b : UInt8) : Bool := b == 0x20 || b == 0x09

/-- Looks at a number or moment closely. -/
def scalarOf? (kind : NumberKind) (text : Bytes) : Option Scalar :=
  match kind with
  | .integer => (decimal? text).map .integer
  | .float => if isFloat text then some .float else none
  | .moment => if isMoment (Bytes.trim isGap text) then some .moment else none

/-- An integer in another base, behind its zero and letter. -/
def basedInteger? (base : Nat) (s : Bytes) : Option (Scalar × Bytes) :=
  let body := s.takeWhile fun b => isDigitIn base b || isUnderscore b
  if (body.head?.map isUnderscore).getD true || !underscoresFit body then none
  else
    let value : Int := valueIn base body
    if Number.isSigned64 value then some (.integer value, s.drop body.length) else none

/-- A number that starts with a sign. -/
def signed? (sign : UInt8) (s : Bytes) : Option (Scalar × Bytes) :=
  match s with
  | 0x69 :: _ => (Bytes.after? "inf" s).map fun rest => (.float, rest)
  | 0x6E :: _ => (Bytes.after? "nan" s).map fun rest => (.float, rest)
  | first :: _ =>
    if Bytes.isDigit first then
      let (kind, text, rest) := decimalExtent s
      (scalarOf? kind (sign :: text)).map fun scalar => (scalar, rest)
    else none
  | [] => none

/-- A number or moment that starts with a digit. -/
def unsigned? (s : Bytes) : Option (Scalar × Bytes) :=
  let plain :=
    let (kind, text, rest) := extent s
    (scalarOf? kind text).map fun scalar => (scalar, rest)
  match s with
  | 0x30 :: letter :: rest =>
    match baseOf? letter with
    | some base => basedInteger? base rest
    | none => plain
  | _ => plain

end SecurityRules.Toml
