import SecurityRules.Parser.Recovery

/-!
# Expressions

Each production is given the productions of the parts it contains, so none of them is recursive. The knot
is tied in `expressionAt` and `unaryAt` by the number of nested expressions still allowed: when it is used
up, the rest of the expression collapses into one error tree.
-/

namespace SecurityRules.Parser

/-- How tightly an infix operator binds. -/
inductive Tier where
  | disjunction | conjunction | relation | addition | multiplication
deriving Repr, DecidableEq

/-- Tiers are numbered from the loosest on. -/
def Tier.rank : Tier → Nat
  | disjunction => 1
  | conjunction => 2
  | relation => 3
  | addition => 4
  | multiplication => 5

/-- All tiers, the tightest first. -/
def Tier.tightestFirst : List Tier :=
  [.multiplication, .addition, .relation, .conjunction, .disjunction]

/-- The tier of an infix operator and the kind of tree it makes. -/
def infixOperator? : TokenKind → Option (Tier × NodeKind)
  | .orOr => some (.disjunction, .disjunction)
  | .andAnd => some (.conjunction, .conjunction)
  | .equalEqual | .bangEqual | .less | .lessEqual | .greater | .greaterEqual =>
    some (.relation, .relation)
  | .kwIn => some (.relation, .contains)
  | .kwIs => some (.relation, .typeComparison)
  | .plus | .minus => some (.addition, .addition)
  | .star | .slash | .percent => some (.multiplication, .multiplication)
  | _ => none

/-- The tokens that a path segment is made of. -/
def isSegmentToken (kind : TokenKind) : Bool :=
  kind == .identifier || kind == .number || kind == .minus || kind.isKeyword

/-- The state behind a run of adjacent segment tokens. -/
def State.passSegment (s : State) : State :=
  iterate id
    (fun s => if isSegmentToken s.peek.kind && s.isAdjacent then .again s.advance else .done s)
    s.advance

/-- Adjacent tokens such as `users-v2` as one leaf. -/
def segment (kind : NodeKind) : Production := fun s =>
  let passed := s.passSegment
  (passed.leaf s.peek.start passed.lastStop kind, passed)

/-- One item of a list and the comma behind it. The list ends before `closing`, at a token that starts or
closes an item of a body, or where no comma follows. -/
def itemTurn (closing : TokenKind) (item : Draft → Draft) (d : Draft) : Turn Draft :=
  if d.isAt closing || isBodySync d.state.peek.kind then .done d
  else
    let d := item d
    if d.isAt .comma then .again d.take else .done d

/-- Items between commas up to a closing token. -/
def Draft.items (d : Draft) (closing : TokenKind) (item : Draft → Draft) : Draft :=
  (d.loop (itemTurn closing item)).expect closing

/-- The arguments of a call, in parentheses. -/
def argumentList (expression : Production) : Production :=
  branch .argumentList fun d => d.take.items .rightParen (·.place none expression)

/-- A name with arguments. -/
def functionCall (expression : Production) : Production :=
  branch .functionCall fun d =>
    (d.takeAs (some .name) .identifier).place (some .arguments) (argumentList expression)

/-- An expression in parentheses. -/
def parenthesized (expression : Production) : Production :=
  branch .parenthesized fun d =>
    (d.take.place (some .expression) expression).expect .rightParen

/-- Elements in brackets. -/
def list (expression : Production) : Production :=
  branch .list fun d => d.take.items .rightBracket (·.place (some .element) expression)

/-- A key and a value. -/
def mapEntry (expression : Production) : Production :=
  branch .mapEntry fun d =>
    ((d.place (some .key) expression).expect .colon).place (some .value) expression

/-- Entries in braces. -/
def map (expression : Production) : Production :=
  branch .map fun d => d.take.items .rightBrace (·.place (some .entry) (mapEntry expression))

/-- An expression inside a path. -/
def interpolation (expression : Production) : Production :=
  branch .interpolation fun d =>
    ((d.take.expect .leftParen).place (some .expression) expression).expect .rightParen

/-- A path goes on with a slash directly behind its last segment. -/
def slashTurn (d : Draft) : Turn Draft :=
  if d.isAt .slash && d.state.isAdjacent then .again d else .done d

/-- One slash and the segment behind it. A path ends at a segment that is not there. -/
def pathTurn (expression : Production) (d : Draft) : Turn Draft :=
  let d := d.take
  if d.isAt .dollar then slashTurn (d.place (some .segment) (interpolation expression))
  else if isSegmentToken d.state.peek.kind then
    slashTurn (d.place (some .segment) (segment .pathSegment))
  else .done (d.lacking (some .segment) .pathSegment)

/-- A document path. -/
def path (expression : Production) : Production :=
  branch .path fun d => d.loop (pathTurn expression)

/-- An expression without operators around it. -/
def primary (expression : Production) : Production := fun s =>
  match s.peek.kind with
  | .identifier =>
    if s.peekSecond.kind == .leftParen then functionCall expression s else leafOf .identifier s
  | .number => leafOf .number s
  | .string => leafOf .string s
  | .kwTrue | .kwFalse => leafOf .boolean s
  | .kwNull => leafOf .null s
  | .leftParen => parenthesized expression s
  | .leftBracket => list expression s
  | .leftBrace => map expression s
  | .slash => path expression s
  | kind =>
    if isExpressionStop kind || kind == .question then (s.placeholder .identifier, s) else stray s

/-- The name or call behind a dot; reserved words are names there. -/
def memberField (expression : Production) : Production := fun s =>
  if s.isAt .identifier || s.peek.kind.isKeyword then
    if s.peekSecond.kind == .leftParen then functionCall expression s
    else leafOf .fieldIdentifier s
  else (s.placeholder .fieldIdentifier, s)

/-- A colon and the end of a range, if there is one. -/
def Draft.rangeTail (d : Draft) (expression : Production) : Draft :=
  let d := d.take
  if d.isAtAny [.rightBracket, .endOfInput] then d else d.place (some .stop) expression

/-- An index, or a range `a:b`, `:b`, `a:`. -/
def index (expression : Production) : Production := fun s =>
  if s.isAt .colon then branch .range (·.rangeTail expression) s
  else
    let (first, s) := expression s
    if s.isAt .colon then
      branch .range (fun d => (d.attach (some .start) first).rangeTail expression) s
    else (first, s)

/-- One member access or index behind the expression so far. -/
def postfixTurn (expression : Production) (d : Draft) : Turn Draft :=
  if d.isAt .dot then
    let (tree, state) := branch .member
      (fun n => (n.attach (some .object) d.tree).take.place (some .field) (memberField expression))
      d.state
    .again ⟨tree, state⟩
  else if d.isAt .leftBracket then
    let (tree, state) := branch .indexing
      (fun n => ((n.attach (some .object) d.tree).take.place (some .index)
        (index expression)).expect .rightBracket)
      d.state
    .again ⟨tree, state⟩
  else .done d

/-- A primary expression with the accesses behind it. -/
def postfixed (expression : Production) : Production := fun s =>
  let (tree, state) := primary expression s
  let d := (Draft.mk tree state).loop (postfixTurn expression)
  (d.tree, d.state)

/-- One infix operator that binds at least as tightly as a tier, and its right operand. A tighter one can only
stand behind a type name, which takes no operators; all that is in front of it is then its left operand. -/
def infixTurn (operand : Tier → Production) (tier : Tier) (d : Draft) : Turn Draft :=
  match infixOperator? d.state.peek.kind with
  | some (found, kind) =>
    if tier.rank ≤ found.rank then
      let (tree, state) := branch kind
        (fun n =>
          let n := (n.attach (some .left) d.tree).take (some .operator)
          if kind = .typeComparison then
            if n.isAt .identifier then n.takeAs (some .right) .typeName
            else n.lacking (some .right) .typeName
          else n.place (some .right) (operand found))
        d.state
      .again ⟨tree, state⟩
    else .done d
  | none => .done d

/-- Operands joined by operators that bind at least as tightly as a tier, from left to right. -/
def infixed (operand : Tier → Production) (tier : Tier) : Production := fun s =>
  let (tree, state) := operand tier s
  let d := (Draft.mk tree state).loop (infixTurn operand tier)
  (d.tree, d.state)

/-- The operands of operators, tier by tier. -/
structure Operands where
  /-- What stands beside the operators of a tier. -/
  beside : Tier → Production
  /-- What is joined by the operators of all tiers so far. -/
  joined : Production

/-- Adds the operators of the next looser tier. -/
def Operands.loosen (o : Operands) (tier : Tier) : Operands :=
  let beside := fun t => if t = tier then o.joined else o.beside t
  { beside, joined := infixed beside tier }

/-- Operands joined by infix operators of all tiers. -/
def binary (unary : Production) : Production :=
  (Tier.tightestFirst.foldl Operands.loosen { beside := fun _ => unary, joined := unary }).joined

/-- A condition, and the two branches if a question mark follows it. -/
def ternary (unary expression : Production) : Production := fun s =>
  let (condition, s) := binary unary s
  if s.isAt .question then
    branch .ternary
      (fun d => (((d.attach (some .condition) condition).take.place (some .consequence)
        expression).expect .colon).place (some .alternative) expression)
      s
  else (condition, s)

/-- An operator in front of an operand. -/
def unary (operand : Production) : Production :=
  branch .unary fun d => (d.take (some .operator)).place (some .operand) operand

/-- Whether an operator stands in front of the next operand. -/
def State.isAtUnary (s : State) : Bool := s.isAtAny [.bang, .minus]

mutual

/-- An expression in which `budget` more expressions may nest. -/
def expressionAt : (budget : Nat) → Production
  | 0, s => collapse s
  | budget + 1, s => ternary (unaryAt budget) (expressionAt budget) s

/-- An operand inside an expression in which `budget` more may nest. -/
def unaryAt : (budget : Nat) → Production
  | 0, s => if s.isAtUnary then collapse s else postfixed collapse s
  | budget + 1, s =>
    if s.isAtUnary then unary (unaryAt budget) s
    else postfixed (ternary (unaryAt budget) (expressionAt budget)) s

end

end SecurityRules.Parser
