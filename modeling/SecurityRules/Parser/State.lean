import SecurityRules.ParseTree
import SecurityRules.Token.Lexer

/-!
# Where the parser stands

The parser reads significant tokens; comments wait until a tree is found that they lie inside. The state
holds the tokens and comments ahead and the comments passed but not yet placed.
-/

namespace SecurityRules.Parser

/-- The input ahead of the parser and the comments it has passed. -/
structure State where
  file : SourceFile
  /-- Significant tokens ahead, without the empty one at the end. -/
  rest : List Token
  /-- Comments ahead. -/
  comments : List Token
  /-- Comments passed, in order, that no tree holds yet. -/
  pending : List ParseTree
  /-- Offset behind the last token taken. -/
  lastStop : Nat
  /-- Nested expressions and bodies entered and not yet left, where they are counted. -/
  depth : Int := 0

/-- A production: it reads one tree. -/
abbrev Production := State → ParseTree × State

namespace State

/-- The next token; at the end the empty one. -/
def peek (s : State) : Token := s.rest.headD (Token.endAt s.file.size)

/-- The token behind the next one. -/
def peekSecond (s : State) : Token := (s.rest.drop 1).headD (Token.endAt s.file.size)

/-- Whether the next token is of a given kind. -/
def isAt (s : State) (kind : TokenKind) : Bool := s.peek.kind == kind

/-- Whether the next token is of one of the given kinds. -/
def isAtAny (s : State) (kinds : List TokenKind) : Bool := kinds.contains s.peek.kind

/-- Whether the input is used up. -/
def isAtEnd (s : State) : Bool := s.isAt .endOfInput

/-- Whether the next token starts where the last one ended. -/
def isAdjacent (s : State) : Bool := s.peek.start == s.lastStop

/-- A leaf over a byte range. -/
def leaf (s : State) (start stop : Nat) (kind : NodeKind) : ParseTree :=
  ParseTree.childless kind (Extent.ofRange s.file start stop)

/-- A placeholder of a given kind behind the last token. -/
def placeholder (s : State) (kind : NodeKind) : ParseTree :=
  .node kind true none (Extent.ofRange s.file s.lastStop s.lastStop) []

/-- An error without content behind the last token. -/
def emptyError (s : State) : ParseTree := s.leaf s.lastStop s.lastStop .error

/-- Moves the comments before the next token over to the pending ones. -/
def passComments (s : State) : State :=
  let passed := s.comments.takeWhile (·.start < s.peek.start)
  { s with
    comments := s.comments.drop passed.length
    pending := s.pending ++ passed.map fun c => s.leaf c.start c.stop .comment }

/-- The state behind the next token. -/
def advance (s : State) : State :=
  match s.rest with
  | [] => s
  | t :: rest => passComments { s with rest, lastStop := t.stop }

/-- The start of a file. -/
def start (file : SourceFile) : State :=
  let tokens := (Lexer.tokens file.content).filter (·.kind != .endOfInput)
  passComments
    { file
      rest := tokens.filter (!·.kind.isComment)
      comments := tokens.filter (·.kind.isComment)
      pending := []
      lastStop := 0 }

end State

end SecurityRules.Parser
