import SecurityRules.Rules.Expr

/-!
# Declarations

The typed form of a rules document: the body of its service, with functions, rules and nested matches.
-/

namespace SecurityRules

/-- A name where it is declared: a parameter, or the target of a `let`. -/
structure DeclaredName where
  span : Span
  name : Bytes
deriving Repr

/-- An operation that a rule names. -/
structure Method where
  span : Span
  name : Bytes
deriving Repr

/-- What a segment of a match path stands for. -/
inductive PathPartKind where
  /-- A literal segment such as `users`. -/
  | collection
  /-- A capture of one segment: `{id}`. -/
  | single
  /-- A capture of all segments that follow: `{rest=**}`. -/
  | multi
deriving Repr, DecidableEq

/-- One segment of a match path. The value of a capture is the name it binds. -/
structure PathPart where
  span : Span
  kind : PathPartKind
  value : Bytes
deriving Repr

/-- The segment as written. -/
def PathPart.render (p : PathPart) : Bytes :=
  match p.kind with
  | .collection => p.value
  | .single => "\x7b" ++ p.value ++ "\x7d"
  | .multi => "\x7b" ++ p.value ++ "=**\x7d"

/-- The path of a match. -/
structure MatchPath where
  span : Span
  parts : List PathPart
deriving Repr

/-- The path as written, such as `/users/{uid}/{rest=**}`. -/
def MatchPath.render (p : MatchPath) : Bytes := p.parts.flatMap fun part => "/" ++ part.render

/-- `let name = value;` -/
structure LetDefinition where
  span : Span
  name : DeclaredName
  value : Option Expr
deriving Repr

/-- The definitions of a function and the expression it returns. -/
structure FunctionBody where
  span : Span
  definitions : List LetDefinition
  result : Option Expr
deriving Repr

/-- A function. -/
structure FunctionDecl where
  span : Span
  name : Bytes
  nameSpan : Span
  params : List DeclaredName
  body : Option FunctionBody
deriving Repr

/-- An `allow` statement. -/
structure Rule where
  span : Span
  methods : List Method
  condition : Option Expr
deriving Repr

mutual

/-- The content of a service or match. -/
inductive MatchBody where
  | mk (span : Span) (functions : List FunctionDecl) (rules : List Rule) (blocks : List MatchBlock)
deriving Repr

/-- A match with its path and its body. -/
inductive MatchBlock where
  | mk (span : Span) (path : Option MatchPath) (body : Option MatchBody)
deriving Repr

end

namespace MatchBody

def span : MatchBody → Span
  | mk span _ _ _ => span

def functions : MatchBody → List FunctionDecl
  | mk _ functions _ _ => functions

def rules : MatchBody → List Rule
  | mk _ _ rules _ => rules

/-- The matches nested in the body. -/
def blocks : MatchBody → List MatchBlock
  | mk _ _ _ blocks => blocks

/-- Whether the body declares nothing. -/
def isEmpty (b : MatchBody) : Bool := b.functions.isEmpty && b.rules.isEmpty && b.blocks.isEmpty

end MatchBody

namespace MatchBlock

def span : MatchBlock → Span
  | mk span _ _ => span

def path : MatchBlock → Option MatchPath
  | mk _ path _ => path

def body : MatchBlock → Option MatchBody
  | mk _ _ body => body

end MatchBlock

/-- A typed document: the body of its service. -/
structure RulesTree where
  span : Span
  body : MatchBody
deriving Repr

/-- Text of a document that has no place in the typed tree. -/
structure Unmapped where
  text : Bytes
  span : Span
deriving Repr

/-- A typed document and what could not be placed in it. -/
structure Built where
  tree : RulesTree
  unmapped : List Unmapped
deriving Repr

end SecurityRules
