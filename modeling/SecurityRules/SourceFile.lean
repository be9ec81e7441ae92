import SecurityRules.Digest
import SecurityRules.SlashPath
import SecurityRules.Span
import SecurityRules.Text.Utf8

/-!
# Source files

The content of one rules document with the offsets of its line breaks. A leading byte order mark is
dropped and CR LF becomes LF before anything else looks at the text. Offsets count bytes of the content;
columns are bytes too, or UTF-16 units where editors ask for them.
-/

namespace SecurityRules

/-- One document: where it lies, what it holds, and what normalisation took out of it. -/
structure SourceFile where
  path : Bytes
  content : Bytes
  /-- Offsets of the line feeds, ascending. -/
  lineBreaks : List Nat
  /-- Whether the text came from memory and not from disk. -/
  isVirtual : Bool
  hadByteOrderMark : Bool
  hadCrLf : Bool

namespace SourceFile

/-- The UTF-8 byte order mark. -/
def byteOrderMark : Bytes := [0xEF, 0xBB, 0xBF]

/-- The text without a leading byte order mark, and whether there was one. -/
def dropByteOrderMark (text : Bytes) : Bytes × Bool :=
  match Bytes.after? byteOrderMark text with
  | some rest => (rest, true)
  | none => (text, false)

/-- Drops each CR that stands directly before LF; a lone CR stays. -/
def joinCrLf : Bytes → Bytes
  | [] => []
  | [b] => [b]
  | b :: c :: rest =>
    if b == 0x0D && c == 0x0A then joinCrLf (c :: rest) else b :: joinCrLf (c :: rest)

/-- The offsets of the line feeds of a text whose first byte stands at `offset`. -/
def lineBreaksFrom (offset : Nat) : Bytes → List Nat
  | [] => []
  | b :: rest =>
    if b == 0x0A then offset :: lineBreaksFrom (offset + 1) rest
    else lineBreaksFrom (offset + 1) rest

/-- A file from raw bytes. -/
def ofBytes (path text : Bytes) (isVirtual : Bool) : SourceFile :=
  let (unmarked, hadMark) := dropByteOrderMark text
  let content := joinCrLf unmarked
  { path := if path.isEmpty then [] else SlashPath.clean path
    content
    lineBreaks := lineBreaksFrom 0 content
    isVirtual
    hadByteOrderMark := hadMark
    hadCrLf := content.length != unmarked.length }

/-- A file that exists only in memory, such as an editor buffer. -/
def inMemory (path text : Bytes) : SourceFile := ofBytes path text true

/-- The number of bytes of the content. -/
def size (f : SourceFile) : Nat := f.content.length

/-- The SHA-256 digest of the content. -/
def digest (f : SourceFile) : Bytes := Digest.sha256 f.content

/-- The last element of the path. -/
def baseName (f : SourceFile) : Bytes := SlashPath.base f.path

/-- The number of rows, an empty last one included. -/
def lineCount (f : SourceFile) : Nat := f.lineBreaks.length + 1

/-- The bytes from offset `start` up to `stop`. -/
def bytesBetween (f : SourceFile) (start stop : Nat) : Bytes :=
  (f.content.drop start).take (stop - start)

/-- The offset of the first byte of a row that exists. -/
def rowStart (f : SourceFile) (row : Nat) : Nat :=
  match row with
  | 0 => 0
  | row + 1 => (f.lineBreaks[row]?.map (· + 1)).getD f.size

/-- The byte range of a row without its line feed; a row that does not exist is empty and stands at
the end of the content. -/
def lineBounds (f : SourceFile) (row : UInt32) : Nat × Nat :=
  if f.lineBreaks.length < row.toNat then (f.size, f.size)
  else (f.rowStart row.toNat, f.lineBreaks[row.toNat]?.getD f.size)

/-- The text of a row without its line feed. -/
def line (f : SourceFile) (row : UInt32) : Bytes :=
  f.bytesBetween (f.lineBounds row).1 (f.lineBounds row).2

/-- The point at a byte offset; offsets behind the end count as the end. -/
def pointAt (f : SourceFile) (offset : Nat) : Point :=
  let offset := min offset f.size
  let row := f.lineBreaks.findIdx (offset ≤ ·)
  ⟨UInt32.ofNat row, UInt32.ofNat (offset - (f.lineBounds (UInt32.ofNat row)).1)⟩

/-- Row start and column added as 32-bit words. -/
def columnOffset (f : SourceFile) (p : Point) : Nat :=
  (UInt32.ofNat (f.lineBounds p.row).1 + p.column).toNat

/-- The byte offset of a point, at most the end of its row. -/
def offset (f : SourceFile) (p : Point) : Nat := min (f.columnOffset p) (f.lineBounds p.row).2

/-- The text between two points, the second excluded. -/
def slice (f : SourceFile) (start stop : Point) : Bytes :=
  f.bytesBetween (f.offset start) (f.offset stop)

/-- The number of UTF-16 units of a text. -/
def unitsOf (text : Bytes) : Nat :=
  ((Utf8.decodeAll text).map fun d => Utf8.units d.code).sum

/-- The UTF-16 column of a point. -/
def utf16Column (f : SourceFile) (p : Point) : Nat :=
  unitsOf (f.bytesBetween (f.lineBounds p.row).1 (f.offset p))

/-- The bytes of the characters that lie whole in front of a UTF-16 column, when `seen` units are counted already. -/
def bytesBefore (units seen : UInt32) : List Utf8.Decoded → Nat
  | [] => 0
  | d :: rest =>
    if seen < units then
      let need : UInt32 := if 0xFFFF < d.code then 2 else 1
      if units < seen + need then 0 else d.size + bytesBefore units (seen + need) rest
    else 0

/-- The byte column of a UTF-16 column: the last character boundary not behind it. -/
def byteColumn (f : SourceFile) (row units : UInt32) : Nat :=
  bytesBefore units 0 (Utf8.decodeAll (f.line row))

/-- The number of bytes of the character at a point, zero at the end of a row. -/
def characterSize (f : SourceFile) (p : Point) : Nat :=
  match f.bytesBetween (f.columnOffset p) (f.lineBounds p.row).2 with
  | [] => 0
  | b :: rest => (Utf8.decodeFrom b rest).size

end SourceFile

end SecurityRules
