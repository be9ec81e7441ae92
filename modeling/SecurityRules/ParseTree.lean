import SecurityRules.SourceFile
import SecurityRules.Token

/-!
# Parse trees

The concrete tree of a document. Every token is a leaf of it, comments included. A tree is read off its
kind: kinds that are tokens are anonymous, the kind `error` holds input that fits nowhere, the kind
`comment` may stand between any two siblings. A missing tree is an empty placeholder for what the grammar
asked for and the document does not have.
-/

namespace SecurityRules

/-- What a tree is in the grammar. -/
inductive NodeKind where
  | sourceFile | rulesVersion | serviceDef | serviceName | matchBody | matchDef | matchPath
  | collectionSegment | singleSegment | multiSegment
  | functionDef | parameter | functionBody | variableDef | returnStatement | ruleDef | method
  | ternary | disjunction | conjunction | relation | contains | typeComparison
  | addition | multiplication | unary | member | indexing | range
  | functionCall | argumentList | list | map | mapEntry | parenthesized
  | path | pathSegment | interpolation
  | identifier | fieldIdentifier | typeName | number | string | boolean | null
  | comment | error
  | token (kind : TokenKind)
deriving Repr, DecidableEq, Inhabited

namespace NodeKind

/-- The kinds that have a name of their own in the grammar. -/
def allNamed : List NodeKind :=
  [.sourceFile, .rulesVersion, .serviceDef, .serviceName, .matchBody, .matchDef, .matchPath,
    .collectionSegment, .singleSegment, .multiSegment,
    .functionDef, .parameter, .functionBody, .variableDef, .returnStatement, .ruleDef, .method,
    .ternary, .disjunction, .conjunction, .relation, .contains, .typeComparison,
    .addition, .multiplication, .unary, .member, .indexing, .range,
    .functionCall, .argumentList, .list, .map, .mapEntry, .parenthesized,
    .path, .pathSegment, .interpolation,
    .identifier, .fieldIdentifier, .typeName, .number, .string, .boolean, .null,
    .comment, .error]

/-- The name of a kind in the grammar. -/
def name : NodeKind → String
  | sourceFile => "source_file"
  | rulesVersion => "rules_version"
  | serviceDef => "service_def"
  | serviceName => "service_name"
  | matchBody => "match_body"
  | matchDef => "match_def"
  | matchPath => "match_path"
  | collectionSegment => "collection_path_seg"
  | singleSegment => "single_path_seg"
  | multiSegment => "multi_path_seg"
  | functionDef => "function_def"
  | parameter => "parameter"
  | functionBody => "function_body"
  | variableDef => "variable_def"
  | returnStatement => "return_statement"
  | ruleDef => "rule_def"
  | method => "method"
  | ternary => "ternary_expression"
  | disjunction => "or_expression"
  | conjunction => "and_expression"
  | relation => "relation_expression"
  | contains => "contains_expression"
  | typeComparison => "type_comparison_expression"
  | addition => "addition_expression"
  | multiplication => "multiplication_expression"
  | unary => "unary_expression"
  | member => "member_expression"
  | indexing => "indexing_expression"
  | range => "range"
  | functionCall => "function_call"
  | argumentList => "argument_list"
  | list => "list"
  | map => "map"
  | mapEntry => "map_entry"
  | parenthesized => "parenthesized_expression"
  | path => "path"
  | pathSegment => "path_segment"
  | interpolation => "path_interpolation"
  | identifier => "identifier"
  | fieldIdentifier => "field_identifier"
  | typeName => "type_name"
  | number => "number"
  | string => "string"
  | boolean => "boolean"
  | null => "null"
  | comment => "comment"
  | error => "ERROR"
  | token kind => kind.name

/-- The kind with a name; a kind with a name of its own comes before a token spelled the same. -/
def ofName? (name : String) : Option NodeKind :=
  (allNamed ++ TokenKind.all.map NodeKind.token).find? (·.name == name)

/-- Whether trees of this kind have a name of their own, as against tokens. -/
def isNamed : NodeKind → Bool
  | token _ => false
  | _ => true

/-- Whether trees of this kind are expressions; the word `null` is one also where it is a bare token. -/
def isExpression : NodeKind → Bool
  | ternary | disjunction | conjunction | relation | contains | typeComparison
  | addition | multiplication | unary | member | indexing
  | functionCall | list | map | parenthesized | path
  | identifier | number | string | boolean | null | token .kwNull => true
  | _ => false

end NodeKind

/-- The part that a tree plays in its parent. -/
inductive Role where
  | version | name | body | path | param | value | method | condition | consequence | alternative
  | left | operator | right | operand | object | field | index | start | stop | arguments
  | element | entry | key | expression | segment
deriving Repr, DecidableEq

/-- The name of a role in the grammar. -/
def Role.label : Role → String
  | version => "version"
  | name => "name"
  | body => "body"
  | path => "path"
  | param => "param"
  | value => "value"
  | method => "method"
  | condition => "condition"
  | consequence => "consequence"
  | alternative => "alternative"
  | left => "left"
  | operator => "operator"
  | right => "right"
  | operand => "operand"
  | object => "object"
  | field => "field"
  | index => "index"
  | start => "start"
  | stop => "end"
  | arguments => "arguments"
  | element => "element"
  | entry => "entry"
  | key => "key"
  | expression => "expression"
  | segment => "segment"

/-- Where a tree stands. `stop` and `stopPoint` lie behind its last byte, `lastPoint` is the first byte of
its last character. -/
structure Extent where
  start : Nat := 0
  stop : Nat := 0
  startPoint : Point := {}
  stopPoint : Point := {}
  lastPoint : Point := {}
deriving Repr, DecidableEq, Inhabited

namespace Extent

/-- Whether nothing stands there. -/
def isEmpty (e : Extent) : Bool := e.start == e.stop

/-- The closed span; an empty extent is the point where it starts. -/
def span (e : Extent) : Span := ⟨e.startPoint, if e.isEmpty then e.startPoint else e.lastPoint⟩

/-- The extent of a run of siblings that starts like `e` and goes on to `next`. -/
def extend (e next : Extent) : Extent :=
  { e with
    stop := next.stop
    stopPoint := next.stopPoint
    lastPoint := if next.isEmpty then e.lastPoint else next.lastPoint }

/-- The extent of a first child: its last character is its start as long as it is empty. -/
def first (e : Extent) : Extent :=
  { e with lastPoint := if e.isEmpty then e.startPoint else e.lastPoint }

/-- The offset of the first byte of the last character of a text that starts at `start`. -/
def lastCharacter (start : Nat) (text : Bytes) : Nat :=
  start + ((text.drop 1).reverse.dropWhile Utf8.isContinuation).length

/-- The extent of a byte range of a file. -/
def ofRange (file : SourceFile) (start stop : Nat) : Extent where
  start
  stop
  startPoint := file.pointAt start
  stopPoint := file.pointAt stop
  lastPoint := file.pointAt (lastCharacter start (file.bytesBetween start stop))

end Extent

/-- A concrete syntax tree. -/
inductive ParseTree where
  | node (kind : NodeKind) (isMissing : Bool) (role : Option Role) (extent : Extent)
      (children : List ParseTree)
deriving Repr, Inhabited

namespace ParseTree

def kind : ParseTree → NodeKind
  | node kind _ _ _ _ => kind

/-- Whether the tree is a placeholder. -/
def isMissing : ParseTree → Bool
  | node _ isMissing _ _ _ => isMissing

/-- The part the tree plays in its parent. -/
def role : ParseTree → Option Role
  | node _ _ role _ _ => role

def extent : ParseTree → Extent
  | node _ _ _ extent _ => extent

def children : ParseTree → List ParseTree
  | node _ _ _ _ children => children

def isNamed (t : ParseTree) : Bool := t.kind.isNamed

/-- Whether the tree holds input that fits nowhere. -/
def isError (t : ParseTree) : Bool := t.kind == .error

/-- Whether the tree is a comment, which may stand anywhere. -/
def isExtra (t : ParseTree) : Bool := t.kind == .comment

def start (t : ParseTree) : Nat := t.extent.start

def stop (t : ParseTree) : Nat := t.extent.stop

def isEmpty (t : ParseTree) : Bool := t.extent.isEmpty

/-- The closed span of the tree. -/
def span (t : ParseTree) : Span := t.extent.span

/-- The same tree in a given role. -/
def inRole (role : Option Role) : ParseTree → ParseTree
  | node kind isMissing _ extent children => node kind isMissing role extent children

/-- The same tree with another kind. -/
def ofKind (kind : NodeKind) : ParseTree → ParseTree
  | node _ isMissing role extent children => node kind isMissing role extent children

/-- A tree without children yet. -/
def childless (kind : NodeKind) (extent : Extent) : ParseTree := node kind false none extent []

/-- The tree with one more child behind the others. -/
def push (t child : ParseTree) : ParseTree :=
  match t with
  | node kind isMissing role _ [] => node kind isMissing role child.extent.first [child]
  | node kind isMissing role extent children =>
    node kind isMissing role (extent.extend child.extent) (children ++ [child])

/-- The children that are not tokens. -/
def namedChildren (t : ParseTree) : List ParseTree := t.children.filter isNamed

/-- The children that are not comments. -/
def significant (t : ParseTree) : List ParseTree := t.children.filter (!·.isExtra)

/-- The first child in a role. -/
def child? (t : ParseTree) (role : Role) : Option ParseTree :=
  t.children.find? (·.role == some role)

/-- Every child in a role, in order. -/
def childrenIn (t : ParseTree) (role : Role) : List ParseTree :=
  t.children.filter (·.role == some role)

theorem sizeOf_lt_of_mem_children {t child : ParseTree} (h : child ∈ t.children) :
    sizeOf child < sizeOf t := by
  cases t
  have := List.sizeOf_lt_of_mem h
  simp only [children] at this
  simp
  omega

/-- Taking a tree apart makes a list of trees smaller. -/
theorem sizeOf_children_append_lt (t : ParseTree) (rest : List ParseTree) :
    sizeOf (t.children ++ rest) < sizeOf (t :: rest) := by
  have joined (ts : List ParseTree) : sizeOf (ts ++ rest) < sizeOf ts + sizeOf rest := by
    induction ts with
    | nil => simp
    | cons t ts ih =>
      simp only [List.cons_append, List.cons.sizeOf_spec]
      omega
  cases t with
  | node kind isMissing role extent children =>
    have := joined children
    simp only [ParseTree.children, List.cons.sizeOf_spec, node.sizeOf_spec]
    omega

theorem mem_children_of_child? {t child : ParseTree} {role : Role} (h : t.child? role = some child) :
    child ∈ t.children :=
  List.mem_of_find?_eq_some h

/-- The text of the tree. -/
def text (t : ParseTree) (file : SourceFile) : Bytes := file.bytesBetween t.start t.stop

/-- Whether this tree itself is an error or a placeholder. -/
def isFlagged (t : ParseTree) : Bool := t.isError || t.isMissing

mutual

/-- The tree and everything below it, parents first, each with its depth. -/
def preorder (depth : Nat) : ParseTree → List (Nat × ParseTree)
  | node kind isMissing role extent children =>
    (depth, node kind isMissing role extent children) :: preorderAll (depth + 1) children

/-- The trees of a list and everything below them. -/
def preorderAll (depth : Nat) : List ParseTree → List (Nat × ParseTree)
  | [] => []
  | t :: rest => preorder depth t ++ preorderAll depth rest

end

/-- Whether the tree or one below it is an error or a placeholder. -/
def hasError (t : ParseTree) : Bool := (t.preorder 0).any fun (_, u) => u.isFlagged

end ParseTree

end SecurityRules
