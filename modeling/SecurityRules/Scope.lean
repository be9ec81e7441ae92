import SecurityRules.Rules.Element
import SecurityRules.Text.Quoted

/-!
# Scopes

A call refers to a function of an enclosing body; a name refers to a capture of an enclosing match path or to
a `let` of the enclosing function. When several scopes declare a name, a policy decides which one counts.
-/

namespace SecurityRules

/-! ## Definitions of a document -/

/-- A function or `let` of a document. -/
inductive Definition where
  | function (value : FunctionDecl)
  | letDefinition (value : LetDefinition)
deriving Repr

namespace Definition

def kindName : Definition → String
  | function _ => "function"
  | letDefinition _ => "let"

def name : Definition → Bytes
  | function f => f.name
  | letDefinition d => d.name.name

/-- Where the name stands. -/
def nameSpan : Definition → Span
  | function f => f.nameSpan
  | letDefinition d => d.name.span

/-- Where the whole definition stands. -/
def span : Definition → Span
  | function f => f.span
  | letDefinition d => d.span

/-- An element as a definition. -/
def ofElement? : Element → Option Definition
  | .function f => some (function f)
  | .letDefinition d => some (letDefinition d)
  | _ => none

end Definition

/-- All definitions, in the order of a walk. -/
def RulesTree.definitions (t : RulesTree) : List Definition :=
  ((Element.tree t).walk []).filterMap fun (_, e) => Definition.ofElement? e

/-! ## Scopes and policies -/

/-- Which of several scopes that declare a name counts. -/
inductive ScopePolicy where
  /-- The one nearest to the document. -/
  | outermost
  /-- The one nearest to the reference. -/
  | innermost
deriving Repr, DecidableEq

namespace ScopePolicy

def all : List ScopePolicy := [.outermost, .innermost]

def name : ScopePolicy → String
  | outermost => "outermost"
  | innermost => "innermost"

/-- The complaint about a name that is no policy. -/
def unknownMessage (name : Bytes) : Bytes :=
  "unknown scope policy " ++ Text.quoted name ++ " (want outermost or innermost)"

/-- The policy with a name; an empty name is the default. -/
def ofName? (name : Bytes) : Option ScopePolicy :=
  if name.isEmpty then some .outermost
  else all.find? fun p => Bytes.ofString p.name == name

/-- The scopes of a chain in the order in which they are asked. -/
def order (p : ScopePolicy) (chain : List Element) : List Element :=
  match p with
  | outermost => chain
  | innermost => chain.reverse

end ScopePolicy

/-- What a reference can refer to. -/
inductive Declaration where
  | function (value : FunctionDecl)
  | capture (value : PathPart)
  | letDefinition (value : LetDefinition)
deriving Repr

namespace Declaration

def kindName : Declaration → String
  | function _ => "function"
  | capture _ => "path variable"
  | letDefinition _ => "let"

def name : Declaration → Bytes
  | function f => f.name
  | capture p => p.value
  | letDefinition d => d.name.name

/-- Where the declaration stands. -/
def span : Declaration → Span
  | function f => f.span
  | capture p => p.span
  | letDefinition d => d.span

/-- Where the declared name stands; for a capture that is the whole segment. -/
def nameSpan : Declaration → Span
  | function f => f.nameSpan
  | capture p => p.span
  | letDefinition d => d.name.span

end Declaration

/-- What is looked up: a call or a name. -/
inductive Reference where
  | call (name : Bytes)
  | variable (name : Bytes)
deriving Repr, DecidableEq

/-- Why a reference has no definition. -/
inductive ResolveError where
  /-- There is no reference to look up. -/
  | noTarget
  /-- No enclosing scope declares it. -/
  | unresolved (reference : Reference)
deriving Repr, DecidableEq

/-- The wording of an error. -/
def ResolveError.message : ResolveError → Bytes
  | noTarget => "no reference to resolve"
  | unresolved (.call name) => "function " ++ Text.quoted name ++ ": no definition found"
  | unresolved (.variable name) => "variable " ++ Text.quoted name ++ ": no definition found"

namespace Scope

/-- The first function of a given name that a scope declares. -/
def function? (name : Bytes) : Element → Option Declaration
  | .matchBody body => (body.functions.find? (·.name == name)).map .function
  | _ => none

/-- The first capture or `let` of a given name that a scope declares. Of the captures only those of a single
segment count; parameters of functions do not. -/
def binding? (name : Bytes) : Element → Option Declaration
  | .matchBlock block =>
    ((block.path.map (·.parts)).getD []).find? (fun p => p.kind == .single && p.value == name)
      |>.map .capture
  | .functionBody body => (body.definitions.find? (·.name.name == name)).map .letDefinition
  | _ => none

/-- What a scope declares for a reference. -/
def declared? : Reference → Element → Option Declaration
  | .call name => function? name
  | .variable name => binding? name

/-- The declaration of a reference in the scopes around it. -/
def resolveIn (policy : ScopePolicy) (reference : Reference) (scopes : List Element) :
    Except ResolveError Declaration :=
  match (policy.order scopes).findSome? (declared? reference) with
  | some declaration => .ok declaration
  | none => .error (.unresolved reference)

/-- An element as a reference. -/
def reference? : Element → Option Reference
  | .expr (.call _ name _ _) => some (.call name)
  | .expr (.reference _ name) => some (.variable name)
  | _ => none

/-- The innermost reference of a chain, the element it is, and the chain in front of it; the chain is given
innermost first. -/
def targetOfReverse : List Element → Option (Element × Reference × List Element)
  | [] => none
  | e :: outer =>
    match reference? e with
    | some reference => some (e, reference, outer.reverse)
    | none => targetOfReverse outer

/-- The innermost reference of a chain with the chain in front of it. -/
def target? (chain : List Element) : Option (Element × Reference × List Element) :=
  if chain.length < 2 then none else targetOfReverse chain.reverse

/-- The declaration of the innermost reference of a chain. -/
def resolve (policy : ScopePolicy) (chain : List Element) : Except ResolveError Declaration :=
  match target? chain with
  | some (_, reference, outer) => resolveIn policy reference outer
  | none => .error .noTarget

end Scope

end SecurityRules
