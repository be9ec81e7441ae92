import SecurityRules.Text.Bytes

/-!
# Tokens

The words, literals and signs a rules document is made of. White space is no token; comments are.
-/

namespace SecurityRules

/-- The category of a token. -/
inductive TokenKind where
  | invalid | endOfInput
  | identifier | number | string | lineComment | blockComment
  | kwRulesVersion | kwService | kwMatch | kwAllow | kwIf | kwFunction | kwLet | kwReturn
  | kwIn | kwIs | kwTrue | kwFalse | kwNull
  | leftBrace | rightBrace | leftParen | rightParen | leftBracket | rightBracket
  | semicolon | comma | colon | dot | slash | assign | question | bang | plus | minus
  | star | starStar | percent | less | lessEqual | greater | greaterEqual
  | equalEqual | bangEqual | andAnd | orOr | dollar
deriving Repr, DecidableEq, Inhabited

namespace TokenKind

/-- All categories, in the order of their numbers. -/
def all : List TokenKind :=
  [.invalid, .endOfInput, .identifier, .number, .string, .lineComment, .blockComment,
    .kwRulesVersion, .kwService, .kwMatch, .kwAllow, .kwIf, .kwFunction, .kwLet, .kwReturn,
    .kwIn, .kwIs, .kwTrue, .kwFalse, .kwNull,
    .leftBrace, .rightBrace, .leftParen, .rightParen, .leftBracket, .rightBracket,
    .semicolon, .comma, .colon, .dot, .slash, .assign, .question, .bang, .plus, .minus,
    .star, .starStar, .percent, .less, .lessEqual, .greater, .greaterEqual,
    .equalEqual, .bangEqual, .andAnd, .orOr, .dollar]

/-- The number of a category. -/
def toNat (k : TokenKind) : Nat := all.idxOf k

/-- The category with a number. -/
def ofNat? (n : Nat) : Option TokenKind := all[n]?

/-- The name of a category in the grammar: the spelling of a keyword or sign, else what it is. -/
def name : TokenKind → String
  | invalid => "invalid"
  | endOfInput => "eof"
  | identifier => "identifier"
  | number => "number"
  | string => "string"
  | lineComment => "comment"
  | blockComment => "comment"
  | kwRulesVersion => "rules_version"
  | kwService => "service"
  | kwMatch => "match"
  | kwAllow => "allow"
  | kwIf => "if"
  | kwFunction => "function"
  | kwLet => "let"
  | kwReturn => "return"
  | kwIn => "in"
  | kwIs => "is"
  | kwTrue => "true"
  | kwFalse => "false"
  | kwNull => "null"
  | leftBrace => "\x7b"
  | rightBrace => "\x7d"
  | leftParen => "("
  | rightParen => ")"
  | leftBracket => "["
  | rightBracket => "]"
  | semicolon => ";"
  | comma => ","
  | colon => ":"
  | dot => "."
  | slash => "/"
  | assign => "="
  | question => "?"
  | bang => "!"
  | plus => "+"
  | minus => "-"
  | star => "*"
  | starStar => "**"
  | percent => "%"
  | less => "<"
  | lessEqual => "<="
  | greater => ">"
  | greaterEqual => ">="
  | equalEqual => "=="
  | bangEqual => "!="
  | andAnd => "&&"
  | orOr => "||"
  | dollar => "$"

/-- Whether the token is a number, a string, a truth value or null. -/
def isLiteral : TokenKind → Bool
  | number | string | kwTrue | kwFalse | kwNull => true
  | _ => false

/-- Whether the token is a comment. -/
def isComment : TokenKind → Bool
  | lineComment | blockComment => true
  | _ => false

/-- The reserved words. -/
def keywords : List TokenKind :=
  [.kwRulesVersion, .kwService, .kwMatch, .kwAllow, .kwIf, .kwFunction, .kwLet, .kwReturn,
    .kwIn, .kwIs, .kwTrue, .kwFalse, .kwNull]

/-- Whether the token is a reserved word. -/
def isKeyword (k : TokenKind) : Bool := keywords.contains k

/-- The reserved word with a given spelling; spelling is case-sensitive. -/
def keyword? (word : Bytes) : Option TokenKind :=
  keywords.find? fun k => Bytes.ofString k.name == word

end TokenKind

/-- One token: its bytes and where they stand. -/
structure Token where
  kind : TokenKind
  /-- Offset of the first byte. -/
  start : Nat
  /-- Offset behind the last byte. -/
  stop : Nat
  text : Bytes
deriving Repr, DecidableEq, Inhabited

/-- The empty token behind the last byte. -/
def Token.endAt (offset : Nat) : Token := ⟨.endOfInput, offset, offset, []⟩

end SecurityRules
