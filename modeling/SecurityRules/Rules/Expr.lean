import SecurityRules.Number.Binary64
import SecurityRules.Span
import SecurityRules.Text.Bytes

/-!
# Expressions

The typed form of an expression. A part that the document lacks, or that could not be understood, is absent.
-/

namespace SecurityRules

/-! ## Operators -/

/-- An operator in front of its operand. -/
inductive UnaryOperator where
  | unknown | not | negate
deriving Repr, DecidableEq

namespace UnaryOperator

def all : List UnaryOperator := [.unknown, .not, .negate]

def symbol : UnaryOperator → String
  | unknown => "?"
  | not => "!"
  | negate => "-"

/-- The operator with a spelling; any other text is unknown. -/
def ofSymbol (text : Bytes) : UnaryOperator :=
  ([.not, .negate].find? fun (op : UnaryOperator) => Bytes.ofString op.symbol == text).getD .unknown

end UnaryOperator

/-- An operator between two operands. -/
inductive BinaryOperator where
  | unknown | add | subtract | multiply | divide | modulo | and | or
  | equal | notEqual | less | lessEqual | greater | greaterEqual | isIn | hasType
deriving Repr, DecidableEq

namespace BinaryOperator

/-- All operators, in the order of their numbers. -/
def all : List BinaryOperator :=
  [.unknown, .add, .subtract, .multiply, .divide, .modulo, .and, .or,
    .equal, .notEqual, .less, .lessEqual, .greater, .greaterEqual, .isIn, .hasType]

/-- The number of an operator. -/
def toNat (op : BinaryOperator) : Nat := all.idxOf op

def symbol : BinaryOperator → String
  | unknown => "?"
  | add => "+"
  | subtract => "-"
  | multiply => "*"
  | divide => "/"
  | modulo => "%"
  | and => "&&"
  | or => "||"
  | equal => "=="
  | notEqual => "!="
  | less => "<"
  | lessEqual => "<="
  | greater => ">"
  | greaterEqual => ">="
  | isIn => "in"
  | hasType => "is"

/-- The operator with a spelling. -/
def ofSymbol? (text : Bytes) : Option BinaryOperator :=
  (all.drop 1).find? fun op => Bytes.ofString op.symbol == text

end BinaryOperator

/-!
## Literals

A constant as written and as read. A number is a double whenever a double can hold its magnitude, also when
it is written without a fraction.
-/

/-- A constant: its spelling and its value. -/
inductive Literal where
  | integer (raw : Bytes) (value : Int)
  | float (raw : Bytes) (bits : UInt64)
  | string (raw value : Bytes)
  | bool (raw : Bytes) (value : Bool)
  | null (raw : Bytes)
deriving Repr, DecidableEq

namespace Literal

/-- The names of the kinds of literals, in the order of their numbers. -/
def kindNames : List String := ["Integer", "Float", "String", "Bool", "Null"]

def kindName : Literal → String
  | integer _ _ => "Integer"
  | float _ _ => "Float"
  | string _ _ => "String"
  | bool _ _ => "Bool"
  | null _ => "Null"

/-- The spelling in the document. -/
def raw : Literal → Bytes
  | integer raw _ => raw
  | float raw _ => raw
  | string raw _ => raw
  | bool raw _ => raw
  | null raw => raw

/-- The number a run of digits stands for; the empty run is zero. -/
def digitsValue (s : Bytes) : Nat := (Bytes.digits? s).getD 0

/-- The exponent of a number, with its sign, from the text behind the `e`. -/
def exponentValue : Bytes → Int
  | 0x2B :: digits => digitsValue digits
  | 0x2D :: digits => -(digitsValue digits : Int)
  | digits => digitsValue digits

/-- The decimal `mantissa · 10 ^ exponent` that a number spells. -/
def decimalOf (raw : Bytes) : Nat × Int :=
  let (body, exponent) :=
    match (Bytes.cut? 0x65 raw).or (Bytes.cut? 0x45 raw) with
    | some (body, exponent) => (body, exponentValue exponent)
    | none => (raw, 0)
  match Bytes.cut? 0x2E body with
  | some (whole, fraction) => (digitsValue (whole ++ fraction), exponent - fraction.length)
  | none => (digitsValue body, exponent)

/-- The largest signed 64-bit number. -/
def maxInteger : Int := 9223372036854775807

/-- The literal of a number. One that is out of the range of doubles is an integer: the largest one if it
is written with digits alone, else zero. -/
def ofNumber (raw : Bytes) : Literal :=
  let (mantissa, exponent) := decimalOf raw
  match Number.Binary64.ofDecimal? mantissa exponent with
  | some bits => .float raw bits
  | none =>
    .integer raw (match Bytes.digits? raw with
      | some n => min maxInteger n
      | none => 0)

/-- The byte that an escape stands for. -/
def unescapeByte (b : UInt8) : UInt8 :=
  if b == 0x6E then 0x0A else if b == 0x74 then 0x09 else if b == 0x72 then 0x0D else b

/-- Resolves the escapes of a string; a backslash at the end stays. -/
def unescape : Bytes → Bytes
  | [] => []
  | [b] => [b]
  | b :: c :: rest =>
    if b == 0x5C then unescapeByte c :: unescape rest else b :: unescape (c :: rest)

/-- The value of a quoted string. -/
def unquote (raw : Bytes) : Bytes :=
  if raw.length < 2 then raw else unescape ((raw.drop 1).dropLast)

/-- The literal of a quoted string. -/
def ofString (raw : Bytes) : Literal := .string raw (unquote raw)

/-- The literal of a truth value. -/
def ofBool (raw : Bytes) : Literal := .bool raw (raw == Bytes.ofString "true")

end Literal

/-! ## Expressions and their parts -/

/-- An expression of a rules document. -/
inductive Expr where
  | unary (span : Span) (op : UnaryOperator) (operand : Option Expr)
  | binary (span : Span) (op : BinaryOperator) (left right : Option Expr)
  | ternary (span : Span) (condition consequence alternative : Option Expr)
  /-- `object.field`; both sides are wrapped, so that a receiver can be told from an accessed name. -/
  | member (span : Span) (object field : Option Expr)
  | memberObject (span : Span) (inner : Option Expr)
  | memberField (span : Span) (inner : Option Expr)
  | memberVariable (span : Span) (name : Bytes)
  | memberFunction (span : Span) (name : Bytes) (nameSpan : Span) (args : List Expr)
  | index (span : Span) (object place : Option Expr)
  | call (span : Span) (name : Bytes) (nameSpan : Span) (args : List Expr)
  | list (span : Span) (items : List Expr)
  | map (span : Span) (entries : List Expr)
  | mapEntry (span : Span) (key value : Option Expr)
  /-- A document path: plain segments are string literals, others the expressions in them. -/
  | path (span : Span) (segments : List Expr)
  | range (span : Span) (start stop : Option Expr)
  | group (span : Span) (inner : Option Expr)
  | literal (span : Span) (value : Literal)
  | reference (span : Span) (name : Bytes)
deriving Repr

namespace Expr

/-- The closed span of an expression. -/
def span : Expr → Span
  | unary span _ _ | binary span _ _ _ | ternary span _ _ _ | member span _ _
  | memberObject span _ | memberField span _ | memberVariable span _ | memberFunction span _ _ _
  | index span _ _ | call span _ _ _ | list span _ | map span _ | mapEntry span _ _
  | path span _ | range span _ _ | group span _ | literal span _ | reference span _ => span

/-- The names of the kinds of expressions, numbered from one. -/
def kindNames : List String :=
  ["Unary", "Binary", "Ternary", "Member", "MemberObject", "MemberField", "MemberVariable",
    "MemberFunction", "Indexing", "FunctionCall", "List", "Map", "MapEntry", "Path", "Range",
    "ExprGroup", "Literal", "Variable"]

/-- What kind of expression this is. -/
def kindName : Expr → String
  | unary _ _ _ => "Unary"
  | binary _ _ _ _ => "Binary"
  | ternary _ _ _ _ => "Ternary"
  | member _ _ _ => "Member"
  | memberObject _ _ => "MemberObject"
  | memberField _ _ => "MemberField"
  | memberVariable _ _ => "MemberVariable"
  | memberFunction _ _ _ _ => "MemberFunction"
  | index _ _ _ => "Indexing"
  | call _ _ _ _ => "FunctionCall"
  | list _ _ => "List"
  | map _ _ => "Map"
  | mapEntry _ _ _ => "MapEntry"
  | path _ _ => "Path"
  | range _ _ _ => "Range"
  | group _ _ => "ExprGroup"
  | literal _ _ => "Literal"
  | reference _ _ => "Variable"

/-- The parts of an expression that each stand at most once. -/
def slots : Expr → List (Option Expr)
  | unary _ _ operand => [operand]
  | binary _ _ left right => [left, right]
  | ternary _ condition consequence alternative => [condition, consequence, alternative]
  | member _ object field => [object, field]
  | memberObject _ inner | memberField _ inner | group _ inner => [inner]
  | index _ object place => [object, place]
  | mapEntry _ key value => [key, value]
  | range _ start stop => [start, stop]
  | _ => []

/-- The direct parts of an expression, in order. -/
def children : Expr → List Expr
  | memberFunction _ _ _ args | call _ _ _ args => args
  | list _ items => items
  | map _ entries => entries
  | path _ segments => segments
  | e => e.slots.filterMap id

/-- A part is smaller than the whole. -/
theorem sizeOf_lt_of_mem_children {e part : Expr} (h : part ∈ e.children) :
    sizeOf part < sizeOf e := by
  cases e
  case memberFunction | call | list | map | path =>
    have := List.sizeOf_lt_of_mem h
    simp only [children] at this
    simp
    omega
  all_goals
    simp only [children, slots, List.mem_filterMap, id, exists_eq_right, List.mem_cons,
      List.not_mem_nil, or_false] at h
  case unary | memberObject | memberField | group =>
    subst h
    simp
    omega
  case binary | member | index | mapEntry | range =>
    rcases h with rfl | rfl <;> simp <;> omega
  case ternary =>
    rcases h with rfl | rfl | rfl <;> simp <;> omega

end Expr

end SecurityRules
