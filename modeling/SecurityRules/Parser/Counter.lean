import SecurityRules.Parser

/-!
# The parser with a counter

Nested expressions and bodies may as well be counted while they are read. What nests enters before it reads and leaves
behind it, whatever it has read; past the limit an error is read in its place.
-/

namespace SecurityRules.Parser

/-- The state one level deeper. -/
def State.enter (s : State) : State := { s with depth := s.depth + 1 }

/-- The state back out of a level. -/
def State.leave (s : State) : State := { s with depth := s.depth - 1 }

/-- A production one level deeper, or another one in its place where that is past the limit. -/
def entered (limit : Nat) (inside beyond : Production) : Production := fun s =>
  let s := s.enter
  let (tree, s) := if s.depth ≤ limit then inside s else beyond s
  (tree, s.leave)

mutual

/-- An expression. Of the expressions nested in it, `levels` are followed; the counter stops earlier where fewer are
left up to the limit. -/
def countedExpression (limit : Nat) : (levels : Nat) → Production
  | 0 => entered limit collapse collapse
  | levels + 1 => entered limit (ternary (countedUnary limit levels) (countedExpression limit levels)) collapse

/-- An operand inside an expression. -/
def countedUnary (limit : Nat) : (levels : Nat) → Production
  | 0 => fun s =>
    if s.isAtUnary then entered limit collapse collapse s else postfixed (entered limit collapse collapse) s
  | levels + 1 => fun s =>
    if s.isAtUnary then entered limit (unary (countedUnary limit levels)) collapse s
    else
      postfixed (entered limit (ternary (countedUnary limit levels) (countedExpression limit levels)) collapse) s

end

/-- The items of a match body. -/
def bodyItem? (body expression : Production) : TokenKind → Option Production
  | .kwMatch => some (matchDef body)
  | .kwFunction => some (functionDef expression)
  | .kwAllow => some (ruleDef expression)
  | _ => none

/-- A match body that is not looked into. -/
def closedBody : Production := branch .matchBody (·.place none (skipUntil fun _ => true))

/-- A match body. Only behind its opening brace it is entered. -/
def countedBody (limit : Nat) : (levels : Nat) → Production
  | 0 => fun s =>
    if s.isAt .leftBrace then entered limit closedBody closedBody s
    else branch .matchBody (·.lacking none (.token .leftBrace)) s
  | levels + 1 => fun s =>
    if s.isAt .leftBrace then
      entered limit
        (branch .matchBody (·.body (bodyItem? (countedBody limit levels) (countedExpression limit levels))))
        closedBody s
    else branch .matchBody (·.lacking none (.token .leftBrace)) s

/-- A service with a given body. -/
def serviceOf (body : Production) : Production :=
  branch .serviceDef fun d =>
    let d := d.take
    let d := if d.isAt .identifier then d.place (some .name) serviceName
      else d.lacking (some .name) .serviceName
    d.place (some .body) body

/-- One item of the top level, with a given production of services. -/
def documentTurn (service : Production) (d : Draft) : Turn Draft :=
  match d.state.peek.kind with
  | .endOfInput => .done d
  | .kwRulesVersion => .again (d.place none rulesVersion)
  | .kwService => .again (d.place none service)
  | _ => .again (d.place none (skipUntil isTopSync))

/-- All items of a document. -/
def documentItems (service : Production) (file : SourceFile) : Draft :=
  let d := (Draft.opened .sourceFile (State.start file)).loop (documentTurn service)
  if d.tree.children.any (·.kind == .serviceDef) then d else d.lacking none .serviceDef

/-- The tree of a file and what the counter shows in the end. -/
def parseCounted (file : SourceFile) (maxDepth : Int) : ParseTree × Int :=
  let limit := depthLimit maxDepth
  let d := documentItems (serviceOf (countedBody limit limit)) file
  (closeRoot d, d.state.depth)

/-- The productions of the grammar. -/
inductive Nonterminal where
  | rulesVersion | service | serviceName | matchDef | matchPath | captureSegment | segment (kind : NodeKind)
  | matchBody | functionDef | functionBody | variableDef | returnStatement | ruleDef
  | expression | ternary | unary | postfixed | primary | memberField | index
  /-- Operands joined by the operators of some tiers. -/
  | joined (tiers : List Tier)
  | functionCall | argumentList | parenthesized | list | map | mapEntry | path | interpolation
  | leaf (kind : NodeKind) | stray | skipUntil (stop : TokenKind → Bool) | collapse

/-- A production of the parser with a counter. -/
def Nonterminal.read (limit levels : Nat) : Nonterminal → Production
  | rulesVersion => Parser.rulesVersion
  | service => serviceOf (countedBody limit levels)
  | serviceName => Parser.serviceName
  | matchDef => Parser.matchDef (countedBody limit levels)
  | matchPath => Parser.matchPath
  | captureSegment => Parser.captureSegment
  | segment kind => Parser.segment kind
  | matchBody => countedBody limit levels
  | functionDef => Parser.functionDef (countedExpression limit levels)
  | functionBody => Parser.functionBody (countedExpression limit levels)
  | variableDef => Parser.variableDef (countedExpression limit levels)
  | returnStatement => Parser.returnStatement (countedExpression limit levels)
  | ruleDef => Parser.ruleDef (countedExpression limit levels)
  | expression => countedExpression limit levels
  | ternary => Parser.ternary (countedUnary limit levels) (countedExpression limit levels)
  | unary => countedUnary limit levels
  | postfixed => Parser.postfixed (countedExpression limit levels)
  | primary => Parser.primary (countedExpression limit levels)
  | memberField => Parser.memberField (countedExpression limit levels)
  | index => Parser.index (countedExpression limit levels)
  | joined tiers =>
    (tiers.foldl Operands.loosen
      { beside := fun _ => countedUnary limit levels, joined := countedUnary limit levels }).joined
  | functionCall => Parser.functionCall (countedExpression limit levels)
  | argumentList => Parser.argumentList (countedExpression limit levels)
  | parenthesized => Parser.parenthesized (countedExpression limit levels)
  | list => Parser.list (countedExpression limit levels)
  | map => Parser.map (countedExpression limit levels)
  | mapEntry => Parser.mapEntry (countedExpression limit levels)
  | path => Parser.path (countedExpression limit levels)
  | interpolation => Parser.interpolation (countedExpression limit levels)
  | leaf kind => leafOf kind
  | stray => Parser.stray
  | skipUntil stop => Parser.skipUntil stop
  | collapse => Parser.collapse

end SecurityRules.Parser
