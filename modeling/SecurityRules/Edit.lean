import SecurityRules.SourceFile

/-!
# Edits of a text

Editors report changes by positions in lines and UTF-16 units. A position that does not exist is moved to the
nearest one before it that does.
-/

namespace SecurityRules

/-- A line and a UTF-16 column, both counted from zero. -/
structure EditorPosition where
  line : UInt32 := 0
  character : UInt32 := 0
deriving Repr, DecidableEq

/-- The text between two positions, the second excluded. -/
structure EditorRange where
  start : EditorPosition := {}
  stop : EditorPosition := {}
deriving Repr, DecidableEq

/-- Puts a text in the place of a range, or of the whole document. -/
structure Edit where
  range : Option EditorRange := none
  text : Bytes
deriving Repr, DecidableEq

namespace EditorPosition

/-- What follows the first line feed of a text. -/
def afterLineFeed? (text : Bytes) : Option Bytes := (Bytes.cut? 0x0A text).map (·.2)

/-- The text from the start of a line on, if the line exists. -/
def fromLine? : (line : Nat) → Bytes → Option Bytes
  | 0, text => some text
  | line + 1, text => (afterLineFeed? text).bind (fromLine? line)

/-- The bytes of the characters of a line up to a UTF-16 column, when `units` units lie in front of them. A malformed
byte is one unit. -/
def bytesUpTo (character units : Nat) : List Utf8.Decoded → Nat
  | [] => 0
  | d :: rest =>
    let width := if Utf8.isMalformed d then 1 else Utf8.units d.code
    if character < units + width then 0 else d.size + bytesUpTo character (units + width) rest

/-- The byte offset of a position: the end of the text if the line does not exist, the end of the line if the
column does not, and the start of a character if it lies inside one. -/
def offset (p : EditorPosition) (text : Bytes) : Nat :=
  match fromLine? p.line.toNat text with
  | none => text.length
  | some rest =>
    (text.length - rest.length) +
      bytesUpTo p.character.toNat 0 (Utf8.decodeAll (rest.takeWhile (· != 0x0A)))

end EditorPosition

namespace Edit

/-- The text after an edit. A range that ends before it starts is empty. -/
def apply (text : Bytes) (e : Edit) : Bytes :=
  match e.range with
  | none => e.text
  | some range =>
    let start := range.start.offset text
    let stop := max (range.stop.offset text) start
    text.take start ++ e.text ++ text.drop stop

/-- The text after edits in order. -/
def applyAll (text : Bytes) (edits : List Edit) : Bytes := edits.foldl apply text

end Edit

end SecurityRules
