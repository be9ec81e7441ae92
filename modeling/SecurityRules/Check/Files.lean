import SecurityRules.Disk
import SecurityRules.SlashPath
import SecurityRules.Text.Quoted

/-!
# The files of a check

A check is given paths. A file is checked whatever its name; a directory stands for the files below it whose
names fit one of the patterns, except those in hidden directories.
-/

namespace SecurityRules

/-!
## Name patterns

A star stands for any run of bytes without a slash, a question mark for one character that is no slash, and a
class in brackets for one of its characters. A backslash takes the meaning from the character behind it. A
pattern is read before anything is matched, so a malformed one is malformed for every name.
-/

namespace Glob

/-- One place of a pattern. -/
inductive Part where
  | byte (b : UInt8)
  | anyCharacter
  /-- A character in one of the ranges, or in none of them. -/
  | oneOf (negated : Bool) (ranges : List (Nat × Nat))
deriving Repr, DecidableEq

/-- Places that stand next to each other, and whether a star comes before them. -/
structure Piece where
  star : Bool
  parts : List Part
deriving Repr, DecidableEq

end Glob

/-- A pattern: pieces between stars. Only the last piece can be a star with nothing behind it. -/
structure Glob where
  pieces : List Glob.Piece
deriving Repr, DecidableEq

namespace Glob

/-- A character of the pattern's text. -/
structure Symbol where
  escaped : Bool
  raw : Bytes
  code : Nat
  malformed : Bool

/-- Whether a symbol is this character with its special meaning. -/
def Symbol.is (s : Symbol) (c : Char) : Bool := !s.escaped && s.code == c.toNat

/-- The characters of a pattern, each joined with a backslash before it; none if nothing follows one. -/
def symbols? : List (Bytes × Utf8.Decoded) → Option (List Symbol)
  | [] => some []
  | (raw, d) :: rest =>
    if d.code == 0x5C then
      match rest with
      | [] => none
      | (raw, d) :: rest =>
        (symbols? rest).map fun more => ⟨true, raw, d.code, Utf8.isMalformed d⟩ :: more
    else (symbols? rest).map fun more => ⟨false, raw, d.code, Utf8.isMalformed d⟩ :: more

/-- Whether a symbol can be an end of a range. -/
def Symbol.isMember (s : Symbol) : Bool := !s.is '-' && !s.is ']' && !s.malformed

/-- The ranges of a class up to its closing bracket, and what follows it. `first` says that no range was read
yet: then the bracket closes nothing. -/
def ranges? (first : Bool) : List Symbol → Option (List (Nat × Nat) × List Symbol)
  | [] => none
  | low :: rest =>
    if low.is ']' && !first then some ([], rest)
    else if !low.isMember then none
    else
      match rest with
      | dash :: high :: rest =>
        if dash.is '-' then
          if high.isMember then
            (ranges? false rest).map fun (ranges, rest) => ((low.code, high.code) :: ranges, rest)
          else none
        else (ranges? false (dash :: high :: rest)).map fun (ranges, rest) => ((low.code, low.code) :: ranges, rest)
      | rest => (ranges? false rest).map fun (ranges, rest) => ((low.code, low.code) :: ranges, rest)

/-- A class behind its opening bracket. -/
def class? : List Symbol → Option (Part × List Symbol)
  | [] => none
  | first :: rest =>
    if first.is '^' then (ranges? true rest).map fun (ranges, rest) => (.oneOf true ranges, rest)
    else (ranges? true (first :: rest)).map fun (ranges, rest) => (.oneOf false ranges, rest)

/-- Puts parts in front of the pieces that follow them; those parts have no star before them. -/
def prepend (parts : List Part) : List Piece → List Piece
  | ⟨false, more⟩ :: pieces => ⟨false, parts ++ more⟩ :: pieces
  | pieces => ⟨false, parts⟩ :: pieces

/-- Puts a star in front of the pieces that follow it. -/
def prependStar : List Piece → List Piece
  | ⟨false, parts⟩ :: pieces => ⟨true, parts⟩ :: pieces
  | [] => [⟨true, []⟩]
  | pieces => pieces

/-- The pieces of a pattern. Every step takes a symbol, so their number is fuel enough. -/
def pieces? : (fuel : Nat) → List Symbol → Option (List Piece)
  | _, [] => some []
  | 0, _ => none
  | fuel + 1, s :: rest =>
    if s.is '*' then (pieces? fuel rest).map prependStar
    else if s.is '?' then (pieces? fuel rest).map (prepend [.anyCharacter])
    else if s.is '[' then
      match class? rest with
      | none => none
      | some (part, rest) => (pieces? fuel rest).map (prepend [part])
    else (pieces? fuel rest).map (prepend (s.raw.map .byte))

/-- Reads a pattern; none if it is malformed. -/
def parse? (pattern : Bytes) : Option Glob := do
  let symbols ← symbols? (Text.characters pattern)
  let pieces ← pieces? symbols.length symbols
  return ⟨pieces⟩

/-- Whether the text holds a slash. -/
def holdsSlash (s : Bytes) : Bool := s.elem SlashPath.slash

/-- What is left of a name behind the character that a place stands for. -/
def Part.consume? (part : Part) : Bytes → Option Bytes
  | [] => none
  | b :: rest =>
    let d := Utf8.decodeFrom b rest
    match part with
    | .byte c => if b = c then some rest else none
    | .anyCharacter => if b = SlashPath.slash then none else some (rest.drop (d.size - 1))
    | .oneOf negated ranges =>
      if ranges.any (fun (low, high) => low ≤ d.code && d.code ≤ high) != negated then
        some (rest.drop (d.size - 1))
      else none

/-- What is left of a name behind a run of places. -/
def consumeAll? : List Part → Bytes → Option Bytes
  | [], name => some name
  | part :: parts, name => (part.consume? name).bind (consumeAll? parts)

/-- The name itself and what is left of it after a star took some bytes, none of them a slash. -/
def behindStar : Bytes → List Bytes
  | [] => [[]]
  | b :: rest => (b :: rest) :: (if b = SlashPath.slash then [] else behindStar rest)

/-- Matches pieces one after the other, each at the first place where it fits. The last one has to reach the
end of the name. -/
def matchPieces : List Piece → Bytes → Bool
  | [], name => name.isEmpty
  | piece :: rest, name =>
    if piece.star && piece.parts.isEmpty then !holdsSlash name
    else
      let starts := if piece.star then behindStar name else [name]
      let fits (start : Bytes) : Option Bytes :=
        (consumeAll? piece.parts start).filter fun left => left.isEmpty || !rest.isEmpty
      match starts.findSome? fits with
      | some left => matchPieces rest left
      | none => false

/-- Whether a name fits the pattern as a whole. -/
def isMatch (g : Glob) (name : Bytes) : Bool := matchPieces g.pieces name

/-- Whether a name fits one of the patterns; a malformed pattern fits nothing. -/
def matchesAny (patterns : List Bytes) (name : Bytes) : Bool :=
  patterns.any fun pattern => ((parse? pattern).map fun g => g.isMatch name).getD false

end Glob

namespace Check

/-! ## Files below a directory -/

/-- The names of rules files. -/
def defaultPatterns : List Bytes := ["*.rules"]

/-- Whether a directory is passed over. -/
def isHidden (name : Bytes) : Bool := name.head? == some 0x2E

/-- The path of a file below a directory that was given as `root`. -/
def pathBelow (root : Bytes) (place : List Bytes) : Bytes := place.foldl SlashPath.join root

/-- The files one path stands for. -/
def filesAt (disk : Disk) (patterns : List Bytes) (root : Bytes) : Except PathError (List Bytes) :=
  match disk.stat root with
  | .error e => .error e
  | .ok (.file _) => .ok [SlashPath.clean root]
  | .ok (.directory entries) =>
    let found := DiskEntry.filesOf isHidden [] entries
    let named := found.filter fun (place, _) => (place.getLast?.map (Glob.matchesAny patterns)).getD false
    .ok (named.map fun (place, _) => pathBelow root place)

/-- Drops every path that equals the one before it. -/
def withoutRepeats : List Bytes → List Bytes
  | [] => []
  | [path] => [path]
  | path :: next :: rest =>
    if path = next then withoutRepeats (next :: rest) else path :: withoutRepeats (next :: rest)

/-- The files of a check in order, each one once. No paths at all ask for the working directory, no patterns
for the names of rules files. -/
def listFiles (disk : Disk) (paths patterns : List Bytes) : Except PathError (List Bytes) := do
  let patterns := if patterns.isEmpty then defaultPatterns else patterns
  let paths := if paths.isEmpty then [Bytes.ofString "."] else paths
  let found ← paths.mapM (filesAt disk patterns)
  return withoutRepeats (found.flatten.mergeSort Bytes.notAfter)

/-- The message for a path that leads nowhere. -/
def listingMessage (e : PathError) : Bytes := "stat " ++ e.path ++ ": " ++ e.message

end Check

end SecurityRules
