import SecurityRules.Parser.Draft

/-!
# What the parser does with input that does not fit

Nothing stops the parser. Tokens that fit nowhere are gathered in an error tree up to a token where the
grammar can go on; a token that is asked for and absent becomes a placeholder.
-/

namespace SecurityRules.Parser

/-- The tokens at which the top level goes on. -/
def isTopSync : TokenKind → Bool
  | .kwService | .kwRulesVersion | .endOfInput => true
  | _ => false

/-- The tokens that start or close an item of a body. -/
def isBodySync : TokenKind → Bool
  | .kwMatch | .kwFunction | .kwAllow | .kwLet | .kwReturn | .rightBrace | .endOfInput => true
  | _ => false

/-- The tokens that can never go on an expression. -/
def isExpressionStop : TokenKind → Bool
  | .semicolon | .comma | .colon | .rightParen | .rightBracket => true
  | kind => isBodySync kind

/-- Whether the grammar can go on at the next token. -/
def State.isAtSync (s : State) : Bool := isBodySync s.peek.kind || isTopSync s.peek.kind

/-- One token that fits nowhere. -/
def stray : Production := branch .error fun d => if d.isAt .endOfInput then d else d.take

namespace Draft

/-- Takes a token of a given kind. One stray token before it is passed over as an error; if it is not
there either, a placeholder is added. -/
def expect (d : Draft) (kind : TokenKind) : Draft :=
  if d.isAt kind then d.take
  else if !d.state.isAtSync && d.state.peekSecond.kind == kind then (d.place none stray).take
  else d.lacking none (.token kind)

/-- Whether `expect` would find a token of this kind. -/
def finds (d : Draft) (kind : TokenKind) : Bool :=
  d.isAt kind || (!d.state.isAtSync && d.state.peekSecond.kind == kind)

end Draft

/-- A draft with a count of open brackets. -/
structure Nested where
  depth : Nat
  draft : Draft

/-- The error tree of a finished skip; one without tokens stands behind the last token. -/
def Nested.toError (n : Nested) : ParseTree × State :=
  if n.draft.isBare then (n.draft.state.emptyError, n.draft.state)
  else (n.draft.tree, n.draft.state)

/-- One turn of `skipUntil`. -/
def skipTurn (stop : TokenKind → Bool) (n : Nested) : Turn Nested :=
  let kind := n.draft.state.peek.kind
  if n.draft.isAt .endOfInput then .done n
  else if n.depth == 0 && !n.draft.isBare && stop kind then .done n
  else
    let depth :=
      match kind with
      | .leftBrace => n.depth + 1
      | .rightBrace => n.depth - 1
      | _ => n.depth
    let next : Nested := ⟨depth, n.draft.take⟩
    if depth == 0 && kind == .semicolon then .done next else .again next

/-- Gathers tokens in an error tree, at least one, until a token outside braces satisfies `stop`. A
semicolon outside braces is the last one gathered. -/
def skipUntil (stop : TokenKind → Bool) : Production := fun s =>
  (iterate (·.draft.state) (skipTurn stop) ⟨0, Draft.opened .error s⟩).toError

/-- One turn of `collapse`. -/
def collapseTurn (n : Nested) : Turn Nested :=
  let kind := n.draft.state.peek.kind
  if n.draft.isAt .endOfInput then .done n
  else if n.depth == 0 && isExpressionStop kind then .done n
  else
    let depth :=
      match kind with
      | .leftParen | .leftBracket | .leftBrace => n.depth + 1
      | .rightParen | .rightBracket | .rightBrace => n.depth - 1
      | _ => n.depth
    .again ⟨depth, n.draft.take⟩

/-- Gathers the rest of an expression in one error tree, brackets included. -/
def collapse : Production := fun s =>
  (iterate (·.draft.state) collapseTurn ⟨0, Draft.opened .error s⟩).toError

end SecurityRules.Parser
