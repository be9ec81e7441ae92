import SecurityRules.Text.Printable
import SecurityRules.Text.Utf8

/-!
# Quoted text

Text between double quotes on one line. Printable characters stand for themselves; quotes, backslashes and
all else are escaped, so the bytes can be read off the quoted form.
-/

namespace SecurityRules.Text

/-- The letter of a one-letter escape. -/
def escapeLetter? (code : Nat) : Option UInt8 :=
  match code with
  | 0x07 => some 0x61
  | 0x08 => some 0x62
  | 0x0C => some 0x66
  | 0x0A => some 0x6E
  | 0x0D => some 0x72
  | 0x09 => some 0x74
  | 0x0B => some 0x76
  | 0x22 => some 0x22
  | 0x5C => some 0x5C
  | _ => none

/-- One character of quoted text; a malformed byte is given by its value. -/
def quoteCharacter (raw : Bytes) (d : Utf8.Decoded) : Bytes :=
  if Utf8.isMalformed d then "\\x" ++ Bytes.hex raw
  else
    match escapeLetter? d.code with
    | some letter => [0x5C, letter]
    | none =>
      if isPrintable d.code then raw
      else if d.code < 0x80 then "\\x" ++ Bytes.hexOf 2 d.code
      else if d.code < 0x10000 then "\\u" ++ Bytes.hexOf 4 d.code
      else "\\U" ++ Bytes.hexOf 8 d.code

/-- The characters of a text with the bytes each one takes. -/
def characters (s : Bytes) : List (Bytes × Utf8.Decoded) :=
  match s with
  | [] => []
  | b :: rest =>
    let d := Utf8.decodeFrom b rest
    ((b :: rest.take (d.size - 1)), d) :: characters (rest.drop (d.size - 1))
termination_by s.length
decreasing_by simp only [List.length_drop, List.length_cons]; omega

/-- The text in double quotes. -/
def quoted (s : Bytes) : Bytes :=
  "\"" ++ ((characters s).flatMap fun (raw, d) => quoteCharacter raw d) ++ "\""

/-- Whether a character can stand between backquotes: no control character but a tab, no backquote, no byte
order mark, and well formed. -/
def fitsBackquotes (d : Utf8.Decoded) : Bool :=
  !Utf8.isMalformed d && d.code != 0x60 && d.code != 0x7F && d.code != 0xFEFF &&
    (0x20 ≤ d.code || d.code == 0x09)

/-- The text in backquotes if it can stand there, else in double quotes. -/
def backquoted (s : Bytes) : Bytes :=
  if (Utf8.decodeAll s).all fitsBackquotes then 0x60 :: s ++ [0x60] else quoted s

/-! ## White space -/

/-- The white space characters of Unicode. -/
def isBlank (code : Nat) : Bool :=
  (0x09 ≤ code && code ≤ 0x0D) || code == 0x20 || code == 0x85 || code == 0xA0 || code == 0x1680 ||
    (0x2000 ≤ code && code ≤ 0x200A) || code == 0x2028 || code == 0x2029 || code == 0x202F ||
    code == 0x205F || code == 0x3000

/-- The text without white space at its ends. -/
def trimBlanks (s : Bytes) : Bytes :=
  let blank (c : Bytes × Utf8.Decoded) : Bool := isBlank c.2.code
  (((characters s).dropWhile blank).reverse.dropWhile blank).reverse.flatMap (·.1)

end SecurityRules.Text
