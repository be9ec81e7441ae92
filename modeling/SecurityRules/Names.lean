import SecurityRules.Check.Event
import SecurityRules.Outline
import SecurityRules.Rules.Expr
import SecurityRules.Scope
import SecurityRules.Token

/-!
# Names of numbered things

Kinds and operators are numbered where they leave the program. A number beyond the last one has a name that
says so.
-/

namespace SecurityRules.Names

/-- The name with a number, or a fallback. -/
def nameOr (names : List String) (number : Nat) (fallback : Bytes) : Bytes :=
  (names[number]?.map Bytes.ofString).getD fallback

/-- A number behind a word. -/
def numbered (word : String) (number : Nat) : Bytes := word ++ "(" ++ Bytes.decimal number ++ ")"

def tokenKind (n : UInt8) : Bytes := nameOr (TokenKind.all.map TokenKind.name) n.toNat "unknown"

/-- Expressions are numbered from one. -/
def exprKind (n : UInt8) : Bytes :=
  if n = 0 then numbered "ExprKind" 0
  else nameOr Expr.kindNames (n.toNat - 1) (numbered "ExprKind" n.toNat)

def literalKind (n : UInt8) : Bytes :=
  nameOr Literal.kindNames n.toNat (numbered "LiteralKind" n.toNat)

def unaryOperator (n : UInt8) : Bytes :=
  nameOr (UnaryOperator.all.map UnaryOperator.symbol) n.toNat "?"

def binaryOperator (n : UInt8) : Bytes :=
  nameOr (BinaryOperator.all.map BinaryOperator.symbol) n.toNat "?"

def policy (n : UInt8) : Bytes :=
  nameOr (ScopePolicy.all.map ScopePolicy.name) n.toNat (numbered "Policy" n.toNat)

def symbolKind (n : UInt8) : Bytes :=
  nameOr (SymbolKind.all.map SymbolKind.name) n.toNat "unknown"

def stage (n : UInt8) : Bytes := nameOr (Check.Stage.all.map Check.Stage.name) n.toNat "unknown"

end SecurityRules.Names
