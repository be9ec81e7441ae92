import SecurityRules.Text.Letter
import SecurityRules.Text.Utf8
import SecurityRules.Token

/-!
# From bytes to tokens

The lexer works on what is left of the input. For a byte that is not white space, `measure` says which
token starts there and how many more bytes belong to it, so every token takes at least one byte and the
scan ends. Nothing is refused: what fits no token is an invalid one.
-/

namespace SecurityRules.Lexer

/-- The bytes between tokens: space, tab, LF, CR, FF and VT. -/
def isBlank (b : UInt8) : Bool :=
  b == 0x20 || b == 0x09 || b == 0x0A || b == 0x0D || b == 0x0C || b == 0x0B

/-- Whether an ASCII byte starts a name. -/
def isNameByte (b : UInt8) : Bool :=
  (0x61 ≤ b && b ≤ 0x7A) || (0x41 ≤ b && b ≤ 0x5A) || b == 0x5F

/-- Whether a character may start a name. -/
def startsName (code : Nat) : Bool := code == 0x5F || Text.isLetter code

/-- Whether a character may stand inside a name. -/
def continuesName (code : Nat) : Bool := startsName code || Text.isDecimalDigit code

/-- The number of bytes at the head of `s` that continue a name. -/
def nameLength (s : Bytes) : Nat :=
  match s with
  | [] => 0
  | b :: rest =>
    let d := Utf8.decodeFrom b rest
    if continuesName d.code then d.size + nameLength (rest.drop (d.size - 1)) else 0
termination_by s.length
decreasing_by simp only [List.length_drop, List.length_cons]; omega

/-- The number of ASCII digits at the head of a text. -/
def digitsLength (s : Bytes) : Nat := (s.takeWhile Bytes.isDigit).length

/-- A dot and the digits behind it: the length of a fraction, zero if no digit follows the dot. -/
def fractionLength : Bytes → Nat
  | 0x2E :: d :: rest => if Bytes.isDigit d then 2 + digitsLength rest else 0
  | _ => 0

/-- The length of a sign at the head of an exponent. -/
def signLength : Bytes → Nat
  | b :: _ => if b == 0x2B || b == 0x2D then 1 else 0
  | [] => 0

/-- The length of an exponent, zero if it has no digit. -/
def exponentLength : Bytes → Nat
  | b :: rest =>
    if b == 0x65 || b == 0x45 then
      let sign := signLength rest
      let digits := digitsLength (rest.drop sign)
      if digits == 0 then 0 else 1 + sign + digits
    else 0
  | [] => 0

/-- The length of a number such as `12`, `1.5`, `.5`, `1e3` or `2.5E-4`. A dot that no digit follows
ends the number. -/
def numberLength (s : Bytes) : Nat :=
  let whole := digitsLength s
  let fraction := fractionLength (s.drop whole)
  whole + fraction + exponentLength (s.drop (whole + fraction))

/-- What a quoted string holds behind its opening quote: the length, and whether the closing quote came
before a line feed or the end. A backslash takes the next byte with it. -/
def stringTail (quote : UInt8) : Bytes → Nat × Bool
  | [] => (0, false)
  | b :: rest =>
    if b == quote then (1, true)
    else if b == 0x5C then
      match rest with
      | [] => (1, false)
      | _ :: rest =>
        let (n, closed) := stringTail quote rest
        (2 + n, closed)
    else if b == 0x0A then (0, false)
    else
      let (n, closed) := stringTail quote rest
      (1 + n, closed)

/-- The length of a block comment behind its opening sign; one that is not closed runs to the end. -/
def blockLength : Bytes → Nat
  | 0x2A :: 0x2F :: _ => 2
  | _ :: rest => 1 + blockLength rest
  | [] => 0

/-- The signs of two bytes. -/
def twoByteSign? (b c : UInt8) : Option TokenKind :=
  if b == 0x26 && c == 0x26 then some .andAnd
  else if b == 0x7C && c == 0x7C then some .orOr
  else if b == 0x3D && c == 0x3D then some .equalEqual
  else if b == 0x21 && c == 0x3D then some .bangEqual
  else if b == 0x3C && c == 0x3D then some .lessEqual
  else if b == 0x3E && c == 0x3D then some .greaterEqual
  else if b == 0x2A && c == 0x2A then some .starStar
  else none

/-- The signs of one byte. -/
def oneByteSign? (b : UInt8) : Option TokenKind :=
  if b == 0x7B then some .leftBrace
  else if b == 0x7D then some .rightBrace
  else if b == 0x28 then some .leftParen
  else if b == 0x29 then some .rightParen
  else if b == 0x5B then some .leftBracket
  else if b == 0x5D then some .rightBracket
  else if b == 0x3B then some .semicolon
  else if b == 0x2C then some .comma
  else if b == 0x3A then some .colon
  else if b == 0x2E then some .dot
  else if b == 0x2F then some .slash
  else if b == 0x3D then some .assign
  else if b == 0x3F then some .question
  else if b == 0x21 then some .bang
  else if b == 0x2B then some .plus
  else if b == 0x2D then some .minus
  else if b == 0x2A then some .star
  else if b == 0x25 then some .percent
  else if b == 0x3C then some .less
  else if b == 0x3E then some .greater
  else if b == 0x24 then some .dollar
  else none

/-- The sign at the head of `b :: rest`, two bytes before one; any other byte is invalid. -/
def measureSign (b : UInt8) (rest : Bytes) : TokenKind × Nat :=
  match rest.head?.bind (twoByteSign? b) with
  | some k => (k, 1)
  | none => ((oneByteSign? b).getD .invalid, 0)

/-- A name or reserved word at the head of `b :: rest`; a character that starts no name is invalid. -/
def measureName (b : UInt8) (rest : Bytes) : TokenKind × Nat :=
  let d := Utf8.decodeFrom b rest
  if startsName d.code then
    let n := d.size - 1 + nameLength (rest.drop (d.size - 1))
    ((TokenKind.keyword? (b :: rest.take n)).getD .identifier, n)
  else (.invalid, d.size - 1)

/-- Whether `//` or a block comment starts at the head of `b :: rest`, and the comment then. -/
def measureComment? (b : UInt8) (rest : Bytes) : Option (TokenKind × Nat) :=
  if b == 0x2F then
    match rest with
    | 0x2F :: rest => some (.lineComment, 1 + (rest.takeWhile (· != 0x0A)).length)
    | 0x2A :: rest => some (.blockComment, 1 + blockLength rest)
    | _ => none
  else none

/-- Which token starts with `b`, and how many bytes of `rest` belong to it. -/
def measure (b : UInt8) (rest : Bytes) : TokenKind × Nat :=
  match measureComment? b rest with
  | some comment => comment
  | none =>
    if isNameByte b || 0x80 ≤ b then measureName b rest
    else if Bytes.isDigit b || fractionLength (b :: rest) != 0 then
      (.number, numberLength (b :: rest) - 1)
    else if b == 0x22 || b == 0x27 then
      let (n, closed) := stringTail b rest
      (if closed then .string else .invalid, n)
    else measureSign b rest

/-- A place in the input: an offset and the bytes from there on. -/
structure Cursor where
  offset : Nat
  rest : Bytes

/-- The start of a text. -/
def Cursor.start (text : Bytes) : Cursor := ⟨0, text⟩

/-- Passes over white space. -/
def Cursor.skipBlanks (c : Cursor) : Cursor :=
  ⟨c.offset + (c.rest.takeWhile isBlank).length, c.rest.dropWhile isBlank⟩

/-- The token that starts with `b` at `offset`. -/
def tokenAt (offset : Nat) (b : UInt8) (rest : Bytes) : Token :=
  let text := b :: rest.take (measure b rest).2
  ⟨(measure b rest).1, offset, offset + text.length, text⟩

/-- The next token and the place behind it. At the end this is the empty token, again and again. -/
def Cursor.next (c : Cursor) : Token × Cursor :=
  match c.skipBlanks with
  | ⟨offset, []⟩ => (Token.endAt offset, ⟨offset, []⟩)
  | ⟨offset, b :: rest⟩ =>
    let token := tokenAt offset b rest
    (token, ⟨token.stop, rest.drop (measure b rest).2⟩)

/-- Every token but the empty one at the end takes input. -/
theorem Cursor.length_next_lt (c : Cursor) (h : c.skipBlanks.rest ≠ []) :
    c.next.2.rest.length < c.rest.length := by
  have bound : c.skipBlanks.rest.length ≤ c.rest.length :=
    (List.dropWhile_sublist isBlank).length_le
  unfold Cursor.next
  split
  · rename_i found
    simp [found] at h
  · rename_i found
    simp only [found, List.length_cons] at bound
    simp only [List.length_drop]
    omega

/-- All tokens from a place on, the empty one at the end included. -/
def tokensFrom (c : Cursor) : List Token :=
  if c.skipBlanks.rest = [] then [c.next.1] else c.next.1 :: tokensFrom c.next.2
termination_by c.rest.length
decreasing_by exact Cursor.length_next_lt c (by assumption)

/-- All tokens of a text. -/
def tokens (text : Bytes) : List Token := tokensFrom (Cursor.start text)

/-- A lexer that can look one token ahead. -/
structure Reader where
  cursor : Cursor
  /-- The token already read, if the last step was a look ahead. -/
  ahead : Option Token := none

/-- A reader at the start of a text. -/
def Reader.start (text : Bytes) : Reader where
  cursor := Cursor.start text

/-- Takes the next token. -/
def Reader.next (r : Reader) : Token × Reader :=
  match r.ahead with
  | some t => (t, { r with ahead := none })
  | none => (r.cursor.next.1, { r with cursor := r.cursor.next.2 })

/-- Shows the next token without taking it. -/
def Reader.peek (r : Reader) : Token × Reader :=
  let (t, r) := r.next
  (t, { r with ahead := some t })

end SecurityRules.Lexer
