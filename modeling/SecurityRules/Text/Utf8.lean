import SecurityRules.Text.Bytes

/-!
# UTF-8

Decoding never fails: a byte that starts no well-formed character is one character of its own, the
replacement character U+FFFD. What is decoded at the head of a text depends only on the bytes of that
one character.
-/

namespace SecurityRules

namespace Utf8

/-- One decoded character: its code point and the number of bytes it takes. -/
structure Decoded where
  code : Nat
  size : Nat
deriving Repr, DecidableEq

/-- The code point that stands for malformed input. -/
def replacementCode : Nat := 0xFFFD

/-- A byte that belongs to no character. -/
def malformed : Decoded := ⟨replacementCode, 1⟩

/-- Whether a byte can only continue a character. -/
def isContinuation (b : UInt8) : Bool := b &&& 0xC0 == 0x80

/-- The six low bits, which are what a continuation byte carries. -/
def payload (b : UInt8) : Nat := b.toNat % 64

/-- The range the second byte of a character must lie in, given the first: it excludes overlong
forms, surrogates and code points above U+10FFFF. -/
def secondRange (lead : UInt8) : UInt8 × UInt8 :=
  if lead == 0xE0 then (0xA0, 0xBF)
  else if lead == 0xED then (0x80, 0x9F)
  else if lead == 0xF0 then (0x90, 0xBF)
  else if lead == 0xF4 then (0x80, 0x8F)
  else (0x80, 0xBF)

/-- Whether `b` may be the second byte after `lead`. -/
def isSecond (lead b : UInt8) : Bool := (secondRange lead).1 ≤ b && b ≤ (secondRange lead).2

/-- The character at the head of `lead :: rest`. -/
def decodeFrom (lead : UInt8) (rest : Bytes) : Decoded :=
  if lead < 0x80 then ⟨lead.toNat, 1⟩
  else if lead < 0xC2 || 0xF4 < lead then malformed
  else
    match rest with
    | [] => malformed
    | b :: rest =>
      if !isSecond lead b then malformed
      else if lead < 0xE0 then ⟨lead.toNat % 32 * 64 + payload b, 2⟩
      else
        match rest with
        | [] => malformed
        | c :: rest =>
          if !isContinuation c then malformed
          else if lead < 0xF0 then ⟨(lead.toNat % 16 * 64 + payload b) * 64 + payload c, 3⟩
          else
            match rest with
            | [] => malformed
            | d :: _ =>
              if !isContinuation d then malformed
              else ⟨((lead.toNat % 8 * 64 + payload b) * 64 + payload c) * 64 + payload d, 4⟩

/-- Whether the character at the head of `lead :: rest` is malformed input. -/
def isMalformed (d : Decoded) : Bool := d.code == replacementCode && d.size == 1

/-- Every character of a text, malformed bytes included. -/
def decodeAll (s : Bytes) : List Decoded :=
  match s with
  | [] => []
  | b :: rest =>
    let d := decodeFrom b rest
    d :: decodeAll (rest.drop (d.size - 1))
termination_by s.length
decreasing_by simp only [List.length_drop, List.length_cons]; omega

/-- The number of characters of a text. -/
def count (s : Bytes) : Nat := (decodeAll s).length

/-- Blanks behind `s` up to `width` characters. -/
def padRight (width : Nat) (s : Bytes) : Bytes := s ++ Bytes.fill (width - count s) 0x20

/-- The UTF-8 bytes of a code point; those of U+FFFD for a number that is none. -/
def encode (code : Nat) : Bytes :=
  if code < 0x80 then [UInt8.ofNat code]
  else if code < 0x800 then [UInt8.ofNat (0xC0 + code / 64), UInt8.ofNat (0x80 + code % 64)]
  else if (0xD800 ≤ code && code < 0xE000) || 0x110000 ≤ code then [0xEF, 0xBF, 0xBD]
  else if code < 0x10000 then
    [UInt8.ofNat (0xE0 + code / 4096), UInt8.ofNat (0x80 + code / 64 % 64),
      UInt8.ofNat (0x80 + code % 64)]
  else
    [UInt8.ofNat (0xF0 + code / 262144), UInt8.ofNat (0x80 + code / 4096 % 64),
      UInt8.ofNat (0x80 + code / 64 % 64), UInt8.ofNat (0x80 + code % 64)]

/-- The number of UTF-16 code units of a code point. -/
def units (code : Nat) : Nat := if 0xFFFF < code then 2 else 1

/-- The text with every malformed byte replaced by U+FFFD. -/
def repaired (s : Bytes) : Bytes := (decodeAll s).flatMap fun d => encode d.code

end Utf8

/-!
## Sets of code points

A set of code points is written as the ascending list of the places where membership changes: the
first run starts at the first number and ends before the second, the next run starts at the third.
-/

/-- A set of code points, as the ascending boundaries of its runs. -/
abbrev CodeRanges := List Nat

/-- Whether `code` lies in a run: an odd number of boundaries are at or before it. -/
def CodeRanges.has (boundaries : CodeRanges) (code : Nat) : Bool :=
  (boundaries.takeWhile (· ≤ code)).length % 2 == 1

end SecurityRules
