import SecurityRules.ParseTree

/-!
# Semantic highlighting

Which parts of a document an editor colours and how. The walk takes the outermost trees that have a class;
their bytes are then cut at line ends, counted in UTF-16 units and written as differences.
-/

namespace SecurityRules.Highlight

/-- What a coloured part of a document is. -/
inductive Kind where
  | comment | number | string | variable | operator | keyword | function | memberVariable | property
  | type
deriving Repr, DecidableEq

namespace Kind

/-- All kinds, in the order of their numbers. -/
def all : List Kind :=
  [.comment, .number, .string, .variable, .operator, .keyword, .function, .memberVariable, .property,
    .type]

/-- The name in the legend. -/
def name : Kind → String
  | comment => "comment"
  | number => "number"
  | string => "string"
  | .variable => "variable"
  | operator => "operator"
  | keyword => "keyword"
  | function => "function"
  | memberVariable => "variable"
  | property => "property"
  | type => "type"

/-- The number that editors are sent. -/
def toWord (k : Kind) : UInt32 := UInt32.ofNat (all.idxOf k)

end Kind

/-- The name of the kind with a number. -/
def kindName (number : UInt32) : String := ((Kind.all[number.toNat]?).map Kind.name).getD "unknown"

/-- The names of the kinds, in the order of their numbers. -/
def legendKinds : List String := Kind.all.map Kind.name

/-- The names of the modifiers, in the order of their bits. -/
def legendModifiers : List String := ["declaration"]

/-- The modifier of a name where it is declared. -/
def declarationBit : UInt32 := 1

/-- How a tree is coloured. -/
structure Class where
  kind : Kind
  modifiers : UInt32 := 0
deriving Repr, DecidableEq

/-- The trees in which an identifier stands for a value. -/
def isValueContext : NodeKind → Bool
  | .variableDef | .parameter | .singleSegment | .multiSegment
  | .ternary | .disjunction | .conjunction | .relation | .contains | .typeComparison
  | .addition | .multiplication | .unary | .member | .indexing | .range | .argumentList
  | .list | .mapEntry | .parenthesized | .interpolation | .returnStatement | .ruleDef => true
  | _ => false

/-- The class of a token inside a parent. The slash and the colon are operators only between operands; the
version keyword shares its name with the header around it. -/
def tokenClass? (parent : Option NodeKind) : TokenKind → Option Class
  | .kwRulesVersion => if parent == some .rulesVersion then some ⟨.keyword, 0⟩ else none
  | .kwService | .kwMatch | .kwAllow | .kwIf | .kwFunction | .kwLet | .kwReturn
  | .kwIn | .kwIs | .kwTrue | .kwFalse | .kwNull => some ⟨.keyword, 0⟩
  | .equalEqual | .bangEqual | .less | .lessEqual | .greater | .greaterEqual
  | .andAnd | .orOr | .plus | .minus | .star | .percent | .bang | .question | .assign
  | .starStar => some ⟨.operator, 0⟩
  | .slash => if parent == some .multiplication then some ⟨.operator, 0⟩ else none
  | .colon => if parent == some .ternary then some ⟨.operator, 0⟩ else none
  | _ => none

/-- The class of an identifier inside a parent. -/
def identifierClass? : Option NodeKind → Option Class
  | some .functionDef => some ⟨.function, declarationBit⟩
  | some .functionCall => some ⟨.function, 0⟩
  | some parent => if isValueContext parent then some ⟨.variable, 0⟩ else none
  | none => none

/-- The class of a tree of a given kind inside a parent. -/
def classify? (kind : NodeKind) (parent : Option NodeKind) : Option Class :=
  match kind with
  | .comment => some ⟨.comment, 0⟩
  | .number => some ⟨.number, 0⟩
  | .string | .collectionSegment | .pathSegment => some ⟨.string, 0⟩
  | .boolean | .null => some ⟨.keyword, 0⟩
  | .typeName | .serviceName => some ⟨.type, 0⟩
  | .method => some ⟨.property, 0⟩
  | .fieldIdentifier => some ⟨.memberVariable, 0⟩
  | .identifier => identifierClass? parent
  | .rulesVersion => tokenClass? parent .kwRulesVersion
  | .token token => tokenClass? parent token
  | _ => none

/-- A coloured part: where it starts, how long it is, and its class, all in 32-bit words. -/
structure Mark where
  row : UInt32 := 0
  column : UInt32 := 0
  length : UInt32 := 0
  kind : UInt32 := 0
  modifiers : UInt32 := 0
deriving Repr, DecidableEq

/-- The mark of a tree with a class. -/
def markOf (t : ParseTree) (c : Class) : Mark where
  row := t.extent.startPoint.row
  column := t.extent.startPoint.column
  length := UInt32.ofNat (t.stop - t.start)
  kind := c.kind.toWord
  modifiers := c.modifiers

mutual

/-- The marks of a tree, in document order. What lies inside a tree with a class has no mark of its own. -/
def marks (parent : Option NodeKind) : ParseTree → List Mark
  | .node kind isMissing role extent children =>
    if extent.isEmpty then []
    else
      match classify? kind parent with
      | some c => [markOf (.node kind isMissing role extent children) c]
      | none => marksAll kind children

/-- The marks of the children of a tree. -/
def marksAll (parent : NodeKind) : List ParseTree → List Mark
  | [] => []
  | t :: rest => marks (some parent) t ++ marksAll parent rest

end

/-- The marks of a document. -/
def marksOf (root : ParseTree) : List Mark := marks none root

/-- The parts of the bytes from `start` to `stop` on rows from `row` on, of which `rows` are left. -/
def partsFrom (file : SourceFile) (m : Mark) (start stop : UInt32) : (rows row : Nat) → List Mark
  | 0, _ => []
  | rows + 1, row =>
    let (lineStart, lineStop) := file.lineBounds (UInt32.ofNat row)
    let low := max start (UInt32.ofNat lineStart)
    let high := min stop (UInt32.ofNat lineStop)
    let rest := if stop ≤ UInt32.ofNat lineStop then [] else partsFrom file m start stop rows (row + 1)
    if low < high then
      { m with row := UInt32.ofNat row, column := low - UInt32.ofNat lineStart, length := high - low } ::
        rest
    else rest

/-- The parts of a mark on the rows it covers, without line feeds. -/
def splitMark (file : SourceFile) (m : Mark) : List Mark :=
  let (lineStart, lineStop) := file.lineBounds m.row
  let start := UInt32.ofNat lineStart + m.column
  let stop := start + m.length
  if stop ≤ UInt32.ofNat lineStop then [m]
  else partsFrom file m start stop (file.lineCount - m.row.toNat) m.row.toNat

/-- Cuts marks at line ends. -/
def splitLines (file : SourceFile) (ms : List Mark) : List Mark := ms.flatMap (splitMark file)

/-- The mark with column and length in UTF-16 units. -/
def toUtf16 (file : SourceFile) (m : Mark) : Mark :=
  let start := UInt32.ofNat (file.utf16Column ⟨m.row, m.column⟩)
  let stop := UInt32.ofNat (file.utf16Column ⟨m.row, m.column + m.length⟩)
  { m with column := start, length := stop - start }

/-- One mark as five words, seen from the mark before it: rows are differences, and columns are on the same
row. -/
def encodeAfter (previous m : Mark) : List UInt32 :=
  [m.row - previous.row, if m.row = previous.row then m.column - previous.column else m.column, m.length,
    m.kind, m.modifiers]

/-- Marks as words, each seen from the one before it. -/
def encodeFrom (previous : Mark) : List Mark → List UInt32
  | [] => []
  | m :: rest => encodeAfter previous m ++ encodeFrom m rest

/-- Marks as words; the first one is seen from the start of the document. -/
def encode (ms : List Mark) : List UInt32 := encodeFrom {} ms

/-- Reads marks from words, five at a time. -/
def decodeFrom (previous : Mark) : List UInt32 → Option (List Mark)
  | [] => some []
  | row :: column :: length :: kind :: modifiers :: rest =>
    let m : Mark :=
      { row := row + previous.row
        column := if row = 0 then column + previous.column else column
        length, kind, modifiers }
    (decodeFrom m rest).map (m :: ·)
  | _ => none

/-- Why words are no marks: their number. -/
structure LengthError where
  length : Nat
deriving Repr, DecidableEq

def LengthError.message (e : LengthError) : Bytes :=
  "semantic token data length " ++ Bytes.decimal e.length ++ " is not a multiple of 5"

/-- Reads marks from words. -/
def decode (words : List UInt32) : Except LengthError (List Mark) :=
  match decodeFrom {} words with
  | some ms => .ok ms
  | none => .error ⟨words.length⟩

/-- What an editor is sent: marks on single lines, in UTF-16 units, as differences. -/
def editorWords (file : SourceFile) (root : ParseTree) : List UInt32 :=
  encode ((splitLines file (marksOf root)).map (toUtf16 file))

/-- The marks as words in byte columns. Lines are not cut. -/
def byteWords (root : ParseTree) : List UInt32 := encode (marksOf root)

end SecurityRules.Highlight
