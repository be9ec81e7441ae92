import SecurityRules.ParseTree
import SecurityRules.Rules.Tree

/-!
# From parse trees to typed documents

A parse tree that lacks a part gives a typed document that lacks it too; only a document that is not a
service, with a version header in front of it or not, has no body at all. Expressions that nest deeper than
the limit are left out.
-/

namespace SecurityRules.Build

/-- Whether a tree is there and makes sense. -/
def isPresent (t : ParseTree) : Bool := !t.isMissing && !t.isError

/-- The first child in a role, if it is there and makes sense. -/
def presentChild? (t : ParseTree) (role : Role) : Option ParseTree := (t.child? role).filter isPresent

/-- Whether a block starts with its brace. -/
def isOpened (t : ParseTree) : Bool :=
  match t.children with
  | [] => false
  | first :: _ => !first.isMissing

/-- Whether a tree has `n` children besides comments. -/
def hasArity (t : ParseTree) (n : Nat) : Bool := t.significant.length == n

/-- A value if a tree has `n` children besides comments. -/
def ofArity {α : Type} (t : ParseTree) (n : Nat) (value : α) : Option α :=
  if hasArity t n then some value else none

/-- A literal segment of a path as an expression. -/
def segmentLiteral (file : SourceFile) (t : ParseTree) : Expr :=
  .literal t.span (.string (t.text file) (t.text file))

section Expressions

variable (file : SourceFile) (nested : ParseTree → Option Expr)

/-- The expression in a role. -/
def exprIn (t : ParseTree) (role : Role) : Option Expr := (t.child? role).bind nested

/-- The arguments of a call. -/
def arguments (t : ParseTree) : List Expr :=
  match t.child? .arguments with
  | some args => (args.namedChildren.filter (!·.isExtra)).filterMap nested
  | none => []

/-- The name, its span and the arguments of a call. -/
def call? (t : ParseTree) : Option (Bytes × Span × List Expr) :=
  if hasArity t 2 then
    (presentChild? t .name).map fun name => (name.text file, name.span, arguments nested t)
  else none

/-- The receiver of a member access. -/
def memberObject (t : ParseTree) : Option Expr :=
  (presentChild? t .object).map fun object => .memberObject object.span (nested object)

/-- What is accessed of a receiver. -/
def memberField (t : ParseTree) : Option Expr :=
  (presentChild? t .field).bind fun field =>
    match field.kind with
    | .fieldIdentifier =>
      some (.memberField field.span (some (.memberVariable field.span (field.text file))))
    | .functionCall =>
      (call? file nested field).map fun (name, nameSpan, args) =>
        .memberField field.span (some (.memberFunction field.span name nameSpan args))
    | _ => none

/-- The index or range of an indexing. -/
def indexPlace (t : ParseTree) : Option Expr :=
  (t.child? .index).bind fun place =>
    if isPresent place && place.kind == .range then
      some (.range place.span (exprIn nested place .start) (exprIn nested place .stop))
    else nested place

/-- The entries of a map. -/
def mapEntries (t : ParseTree) : List Expr :=
  (t.childrenIn .entry).filterMap fun entry =>
    ofArity entry 3
      (.mapEntry entry.span (exprIn nested entry .key) (exprIn nested entry .value))

/-- The segments of a path. -/
def pathSegments (t : ParseTree) : List Expr :=
  ((t.childrenIn .segment).filter isPresent).filterMap fun segment =>
    match segment.kind with
    | .pathSegment => some (segmentLiteral file segment)
    | .interpolation => exprIn nested segment .expression
    | _ => none

/-- The operator of an expression as written. -/
def operatorText (t : ParseTree) : Bytes :=
  match t.child? .operator with
  | some op => op.text file
  | none => []

/-- The expression of a tree, given how the expressions in it are read. -/
def exprOf (t : ParseTree) : Option Expr :=
  match t.kind with
  | .ternary =>
    ofArity t 5
      (.ternary t.span (exprIn nested t .condition) (exprIn nested t .consequence)
        (exprIn nested t .alternative))
  | .disjunction | .conjunction | .relation | .addition | .multiplication | .contains =>
    ofArity t 3
      (.binary t.span ((BinaryOperator.ofSymbol? (operatorText file t)).getD .unknown)
        (exprIn nested t .left) (exprIn nested t .right))
  | .typeComparison =>
    ofArity t 3
      (.binary t.span .hasType (exprIn nested t .left)
        ((presentChild? t .right).map fun right => .reference right.span (right.text file)))
  | .unary =>
    ofArity t 2
      (.unary t.span (UnaryOperator.ofSymbol (operatorText file t)) (exprIn nested t .operand))
  | .member => ofArity t 3 (.member t.span (memberObject nested t) (memberField file nested t))
  | .indexing => ofArity t 4 (.index t.span (exprIn nested t .object) (indexPlace nested t))
  | .parenthesized => ofArity t 3 (.group t.span (exprIn nested t .expression))
  | .functionCall =>
    (call? file nested t).map fun (name, nameSpan, args) => .call t.span name nameSpan args
  | .list => some (.list t.span ((t.childrenIn .element).filterMap nested))
  | .map => some (.map t.span (mapEntries nested t))
  | .path => some (.path t.span (pathSegments file nested t))
  | .identifier => some (.reference t.span (t.text file))
  | .number => some (.literal t.span (.ofNumber (t.text file)))
  | .string => some (.literal t.span (.ofString (t.text file)))
  | .boolean => some (.literal t.span (.ofBool (t.text file)))
  | .null => some (.literal t.span (.null (t.text file)))
  | _ => none

end Expressions

/-- The expression of a tree in which `budget` expressions may nest, itself included. -/
def exprAt (file : SourceFile) : (budget : Nat) → ParseTree → Option Expr
  | 0, _ => none
  | budget + 1, t => if isPresent t then exprOf file (exprAt file budget) t else none

section Declarations

variable (file : SourceFile) (limit : Nat)

/-- The expression in a role of a statement. -/
def statementExpr (t : ParseTree) (role : Role) : Option Expr := exprIn (exprAt file limit) t role

/-- A tree as text that has no place. -/
def unmapped (t : ParseTree) : Unmapped := ⟨t.text file, t.span⟩

/-- One segment of a match path. -/
def pathPart? (t : ParseTree) : Option PathPart :=
  match t.kind with
  | .collectionSegment => some ⟨t.span, .collection, t.text file⟩
  | .singleSegment => (presentChild? t .name).map fun name => ⟨t.span, .single, name.text file⟩
  | .multiSegment => (presentChild? t .name).map fun name => ⟨t.span, .multi, name.text file⟩
  | _ => none

def matchPath (t : ParseTree) : MatchPath :=
  ⟨t.span, ((t.childrenIn .segment).filter isPresent).filterMap (pathPart? file)⟩

def letDefinition? (t : ParseTree) : Option LetDefinition :=
  (presentChild? t .name).map fun name =>
    ⟨t.span, ⟨name.span, name.text file⟩, statementExpr file limit t .value⟩

/-- The definitions of a function, the value of its last `return`, and what has no place in it. -/
def functionBody (t : ParseTree) : Option FunctionBody × List Unmapped :=
  if isOpened t then
    let definitions := (t.children.filter (·.kind == .variableDef)).filterMap (letDefinition? file limit)
    let result := ((t.children.filter (·.kind == .returnStatement)).getLast?).bind
      (statementExpr file limit · .value)
    (some ⟨t.span, definitions, result⟩, (t.children.filter (·.isError)).map (unmapped file))
  else (none, [])

/-- A parameter, if it has a name. -/
def parameter? (t : ParseTree) : Option DeclaredName :=
  (t.children.head?.filter isPresent).map fun name => ⟨name.span, name.text file⟩

/-- A function with a name, and what has no place in its body; one without a name is left out. -/
def function? (t : ParseTree) : Option FunctionDecl × List Unmapped :=
  match presentChild? t .name with
  | some name =>
    let (body, lost) :=
      match t.child? .body with
      | some body => functionBody file limit body
      | none => (none, [])
    (some ⟨t.span, name.text file, name.span, (t.childrenIn .param).filterMap (parameter? file), body⟩,
      lost)
  | none => (none, [])

def rule (t : ParseTree) : Rule :=
  ⟨t.span, ((t.childrenIn .method).filter isPresent).map fun m => ⟨m.span, m.text file⟩,
    statementExpr file limit t .condition⟩

/-- What one item adds to a match body. -/
structure BodyItem where
  functions : List FunctionDecl := []
  rules : List Rule := []
  blocks : List MatchBlock := []
  unmapped : List Unmapped := []

mutual

/-- The body of a service or match that has an opening brace, and what has no place in it. -/
def matchBody (t : ParseTree) : Option MatchBody × List Unmapped :=
  if isOpened t then
    let items := t.children.attach.map fun ⟨child, _⟩ => bodyItem child
    (some (.mk t.span (items.flatMap (·.functions)) (items.flatMap (·.rules))
      (items.flatMap (·.blocks))), items.flatMap (·.unmapped))
  else (none, [])
termination_by sizeOf t
decreasing_by exact ParseTree.sizeOf_lt_of_mem_children (by assumption)

/-- What a child adds to a match body. -/
def bodyItem (t : ParseTree) : BodyItem :=
  match t.kind with
  | .matchDef =>
    let (body, lost) :=
      match _found : t.child? .body with
      | some body => matchBody body
      | none => (none, [])
    { blocks := [.mk t.span ((t.child? .path).map (matchPath file)) body], unmapped := lost }
  | .functionDef =>
    let (function, lost) := function? file limit t
    { functions := function.toList, unmapped := lost }
  | .ruleDef => { rules := [rule file limit t] }
  | .error => { unmapped := [unmapped file t] }
  | _ => {}
termination_by sizeOf t
decreasing_by
  exact ParseTree.sizeOf_lt_of_mem_children (ParseTree.mem_children_of_child? (by assumption))

end

end Declarations

/-- The service of a document: its first item, or its second behind a version header. Otherwise the tree
that stands where the service should. -/
def service (root : ParseTree) : Except ParseTree ParseTree :=
  let check (t : ParseTree) : Except ParseTree ParseTree :=
    if t.kind == .serviceDef && !t.isMissing then .ok t else .error t
  match root.significant with
  | [] => .error root
  | first :: rest =>
    if first.kind == .rulesVersion then
      match rest with
      | [] => .error first
      | second :: _ => check second
    else check first

/-- The typed document of a parse tree. -/
def build (file : SourceFile) (root : ParseTree) (limit : Nat) : Built :=
  match service root with
  | .error offending => ⟨⟨root.span, .mk root.span [] [] []⟩, [unmapped file offending]⟩
  | .ok service =>
    let (body, lost) :=
      match service.child? .body with
      | some body => matchBody file limit body
      | none => (none, [])
    ⟨⟨root.span, body.getD (.mk service.span [] [] [])⟩,
      lost ++ (root.significant.filter (·.isError)).map (unmapped file)⟩

end SecurityRules.Build
