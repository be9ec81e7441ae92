import SecurityRules.Outline
import SecurityRules.ParseTree
import SecurityRules.Rules.Element
import SecurityRules.Text.Bytes
import SecurityRules.Text.Quoted

/-!
# Trees of a document as text
-/

namespace SecurityRules.Report

/-!
## Drawings

A label a line, with lines that show which node a label belongs to.
-/

/-- A tree of labels. -/
inductive Drawing where
  | node (label : Bytes) (children : List Drawing)

namespace Drawing

def label : Drawing → Bytes
  | node label _ => label

mutual

/-- What stands below a label, a line each. -/
def linesBelow (margin : Bytes) : Drawing → Bytes
  | node _ children => branches margin children

/-- Siblings with all below them. The last one closes the line beside it. -/
def branches (margin : Bytes) : List Drawing → Bytes
  | [] => []
  | [last] => margin ++ "└─ " ++ last.label ++ "\n" ++ linesBelow (margin ++ "   ") last
  | first :: next :: rest =>
    margin ++ "├─ " ++ first.label ++ "\n" ++ linesBelow (margin ++ "│  ") first ++
      branches margin (next :: rest)

end

/-- The drawing as text. -/
def render (d : Drawing) : Bytes := d.label ++ "\n" ++ d.linesBelow []

end Drawing

/-! ## Trees of a document -/

/-- A label with the place it stands for. -/
def placed (label : Bytes) (span : Span) : Bytes := label ++ " [" ++ span.renderFromOne ++ "]"

/-- The label of a parse tree. Named leaves show their text. -/
def treeLabel (file : SourceFile) (t : ParseTree) : Bytes :=
  let role : Bytes := (t.role.map fun r => r.label ++ Bytes.ofString ": ").getD []
  let missing : Bytes := if t.isMissing then "MISSING " else ""
  let text : Bytes :=
    if t.children.isEmpty && !t.isEmpty && t.isNamed then " " ++ Text.quoted (t.text file) else []
  let extra : Bytes := if t.isExtra then " (extra)" else ""
  placed (role ++ missing ++ t.kind.name) t.span ++ text ++ extra

mutual

/-- The drawing of a parse tree with all its tokens. -/
def treeDrawing (file : SourceFile) : ParseTree → Drawing
  | .node kind isMissing role extent children =>
    .node (treeLabel file (.node kind isMissing role extent children)) (treeDrawings file children)

/-- The drawings of parse trees. -/
def treeDrawings (file : SourceFile) : List ParseTree → List Drawing
  | [] => []
  | t :: rest => treeDrawing file t :: treeDrawings file rest

end

/-- A parse tree with a line for each of its parts. -/
def parseTree (file : SourceFile) (root : ParseTree) : Bytes := (treeDrawing file root).render

mutual

/-- A parse tree between brackets on one line. Tokens are left out, placeholders for them are not. -/
def brackets : ParseTree → Bytes
  | .node kind isMissing role _ children =>
    let role : Bytes := (role.map fun r => r.label ++ Bytes.ofString ": ").getD []
    let missing : Bytes := if isMissing then "MISSING " else ""
    role ++ "(" ++ missing ++ kind.name ++ bracketsAll children ++ ")"

/-- Parse trees on one line, each behind a blank. -/
def bracketsAll : List ParseTree → Bytes
  | [] => []
  | t :: rest =>
    (if t.isNamed || t.isMissing then " " ++ brackets t else []) ++ bracketsAll rest

end

/-- The label of an expression. -/
def exprLabel (e : Expr) : Bytes :=
  match e with
  | .unary _ op _ => "Unary " ++ Bytes.ofString op.symbol
  | .binary _ op _ _ => "Binary " ++ Bytes.ofString op.symbol
  | .call _ name _ _ => "Call " ++ name
  | .memberVariable _ name => "MemberVariable " ++ name
  | .memberFunction _ name _ _ => "MemberFunction " ++ name
  | .reference _ name => "VariableExpr " ++ name
  | .literal _ value => value.kindName ++ Bytes.ofString " " ++ value.raw
  | _ => e.kindName

/-- The label of an element of a typed document. -/
def elementLabel : Element → Bytes
  | .matchBlock block =>
    match block.path with
    | some path => "Match " ++ path.render
    | none => "Match"
  | .pathPart part => "PathPart " ++ part.render
  | .function f => "Function " ++ f.name
  | .letDefinition _ => "Let"
  | .declaredName n => "Variable " ++ n.name
  | .method m => "Method " ++ m.name
  | .expr e => exprLabel e
  | e => e.typeName

/-- The drawing of an element with all its parts. -/
def elementDrawing (e : Element) : Drawing :=
  .node (placed (elementLabel e) e.span) (e.children.attach.map fun ⟨part, _⟩ => elementDrawing part)
termination_by sizeOf e
decreasing_by exact Element.sizeOf_lt_of_mem_children (by assumption)

/-- A typed document with a line for each of its parts, then what has no place in it. -/
def typedTree (b : Built) : Bytes :=
  let complaint (u : Unmapped) : Bytes :=
    "error [" ++ u.span.renderFromOne ++ "] " ++ Text.quoted u.text ++ "\n"
  (elementDrawing (.tree b.tree)).render ++ b.unmapped.flatMap complaint

/-- The label of an entry of an outline. The name of a rule says what it is. -/
def symbolLabel (s : OutlineSymbol) : Bytes :=
  match s.kind with
  | .rule => placed s.name s.nameSpan
  | kind => placed (kind.name ++ Bytes.ofString " " ++ s.name ++ s.detail) s.nameSpan

mutual

/-- The drawing of an entry. -/
def symbolDrawing : OutlineSymbol → Drawing
  | .mk kind name detail span nameSpan children =>
    .node (symbolLabel (.mk kind name detail span nameSpan children)) (symbolDrawings children)

/-- The drawings of entries. -/
def symbolDrawings : List OutlineSymbol → List Drawing
  | [] => []
  | s :: rest => symbolDrawing s :: symbolDrawings rest

end

/-- An outline below the path of its document. -/
def outline (path : Bytes) (symbols : List OutlineSymbol) : Bytes :=
  (Drawing.node path (symbolDrawings symbols)).render

end SecurityRules.Report
