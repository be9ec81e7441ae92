import SecurityRules.Rules.Tree

/-!
# The outline of a document

The declarations of a document as a tree that follows the nesting of matches.
-/

namespace SecurityRules

/-- What an entry of the outline is. -/
inductive SymbolKind where
  | matchBlock | function | letDefinition | rule
deriving Repr, DecidableEq

namespace SymbolKind

/-- All kinds, in the order of their numbers. -/
def all : List SymbolKind := [.matchBlock, .function, .letDefinition, .rule]

def name : SymbolKind → String
  | matchBlock => "match"
  | function => "function"
  | letDefinition => "let"
  | rule => "allow"

end SymbolKind

/-- One entry of the outline. -/
inductive OutlineSymbol where
  | mk (kind : SymbolKind) (name detail : Bytes) (span nameSpan : Span) (children : List OutlineSymbol)
deriving Repr

namespace OutlineSymbol

def kind : OutlineSymbol → SymbolKind
  | mk kind _ _ _ _ _ => kind

def name : OutlineSymbol → Bytes
  | mk _ name _ _ _ _ => name

/-- What is shown behind the name. -/
def detail : OutlineSymbol → Bytes
  | mk _ _ detail _ _ _ => detail

def span : OutlineSymbol → Span
  | mk _ _ _ span _ _ => span

/-- Where the name stands. -/
def nameSpan : OutlineSymbol → Span
  | mk _ _ _ _ nameSpan _ => nameSpan

def children : OutlineSymbol → List OutlineSymbol
  | mk _ _ _ _ _ children => children

/-- The entry of a `let`. -/
def ofLet (d : LetDefinition) : OutlineSymbol :=
  mk .letDefinition d.name.name [] d.span d.name.span []

/-- The entry of a function, with its parameters behind the name and its `let`s below it. -/
def ofFunction (f : FunctionDecl) : OutlineSymbol :=
  let params := Bytes.join ", " (f.params.map (·.name))
  mk .function f.name ("(" ++ params ++ ")") f.span f.nameSpan
    (((f.body.map (·.definitions)).getD []).map ofLet)

/-- The entry of a rule, named for the operations it allows. -/
def ofRule (r : Rule) : OutlineSymbol :=
  mk .rule ("allow " ++ Bytes.join ", " (r.methods.map (·.name))) [] r.span r.span []

mutual

/-- The entries of a body: functions, rules, matches. -/
def ofBody : MatchBody → List OutlineSymbol
  | .mk _ functions rules blocks => functions.map ofFunction ++ rules.map ofRule ++ ofBlocks blocks

/-- The entries of matches. -/
def ofBlocks : List MatchBlock → List OutlineSymbol
  | [] => []
  | block :: rest => ofBlock block :: ofBlocks rest

/-- The entry of a match, named for its path. -/
def ofBlock : MatchBlock → OutlineSymbol
  | .mk span path body =>
    mk .matchBlock ((path.map MatchPath.render).getD []) [] span ((path.map (·.span)).getD span)
      (ofOptionalBody body)

/-- The entries of a body that may be absent. -/
def ofOptionalBody : Option MatchBody → List OutlineSymbol
  | none => []
  | some body => ofBody body

end

end OutlineSymbol

/-- The outline of a document. -/
def RulesTree.outline (t : RulesTree) : List OutlineSymbol := OutlineSymbol.ofBody t.body

end SecurityRules
