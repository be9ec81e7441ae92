import SecurityRules.Parser.Declaration

/-!
# Parsing a document

Parsing gives a tree for every input.
-/

namespace SecurityRules.Parser

/-- The number of nested bodies and expressions allowed unless a caller says otherwise. -/
def defaultDepth : Nat := 256

/-- The limit on nesting for a requested depth: a depth that is not positive asks for the default. -/
def depthLimit (requested : Int) : Nat := if requested ≤ 0 then defaultDepth else requested.toNat

/-- One item of the top level: a header, a service, or an error. -/
def topTurn (limit : Nat) (d : Draft) : Turn Draft :=
  match d.state.peek.kind with
  | .endOfInput => .done d
  | .kwRulesVersion => .again (d.place none rulesVersion)
  | .kwService => .again (d.place none (serviceDef limit))
  | _ => .again (d.place none (skipUntil isTopSync))

/-- Puts a comment in front of the first tree that starts behind it. -/
def insertComment (trees : List ParseTree) (comment : ParseTree) : List ParseTree :=
  let (earlier, later) := trees.span fun t => t.start ≤ comment.start
  earlier ++ comment :: later

/-- The whole document: all items, the comments that lie outside them, and the extent of the file. -/
def closeRoot (d : Draft) : ParseTree :=
  .node .sourceFile false none (Extent.ofRange d.state.file 0 d.state.file.size)
    (d.state.pending.foldl insertComment d.tree.children)

/-- The tree of a file. A document without a service gets a placeholder for it. -/
def parse (file : SourceFile) (maxDepth : Int) : ParseTree :=
  let d := (Draft.opened .sourceFile (State.start file)).loop (topTurn (depthLimit maxDepth))
  let hasService := d.tree.children.any (·.kind == .serviceDef)
  closeRoot (if hasService then d else d.lacking none .serviceDef)

end SecurityRules.Parser
