import SecurityRules.Parser.State

/-!
# Trees in the making

A draft is a tree that still gains children, together with the state of the parser. Productions are chains
of draft steps. A loop goes on only while it takes tokens, so every loop ends.
-/

namespace SecurityRules.Parser

/-- A tree in the making and where the parser stands. -/
structure Draft where
  tree : ParseTree
  state : State

/-- What a loop does after one turn. -/
inductive Turn (α : Type) where
  | again (value : α)
  | done (value : α)

/-- Turn after turn, as long as a turn asks for another and has taken tokens. -/
def iterate {α : Type} (stateOf : α → State) (turn : α → Turn α) (value : α) : α :=
  match turn value with
  | .done next => next
  | .again next =>
    if (stateOf next).rest.length < (stateOf value).rest.length then iterate stateOf turn next
    else next
termination_by (stateOf value).rest.length

/-- The kind of leaf that a token becomes: names and literals have kinds of their own, any other token is
anonymous. -/
def leafKind : TokenKind → NodeKind
  | .identifier => .identifier
  | .number => .number
  | .string => .string
  | kind => .token kind

/-- Reads the next token as a leaf of a given kind. -/
def leafOf (kind : NodeKind) : Production := fun s =>
  (s.leaf s.peek.start s.peek.stop kind, s.advance)

/-- Adds a pending comment to the tree if it lies between the tree's end and `limit`, and keeps it pending
otherwise. -/
def placeComment (limit : Nat) : ParseTree × List ParseTree → ParseTree → ParseTree × List ParseTree
  | (tree, kept), comment =>
    if tree.stop ≤ comment.start && comment.start < limit then (tree.push comment, kept)
    else (tree, kept ++ [comment])

namespace Draft

/-- A draft of a given kind without children. -/
def opened (kind : NodeKind) (s : State) : Draft := ⟨ParseTree.childless kind {}, s⟩

def isAt (d : Draft) (kind : TokenKind) : Bool := d.state.isAt kind

def isAtAny (d : Draft) (kinds : List TokenKind) : Bool := d.state.isAtAny kinds

/-- Whether the draft has no child yet. -/
def isBare (d : Draft) : Bool := d.tree.children.isEmpty

/-- Adds a child. Comments that lie between the children so far and the new one go in front of it. -/
def attach (d : Draft) (role : Option Role) (child : ParseTree) : Draft :=
  if d.isBare then { d with tree := d.tree.push (child.inRole role) }
  else
    let (tree, kept) := d.state.pending.foldl (placeComment child.start) (d.tree, [])
    ⟨tree.push (child.inRole role), { d.state with pending := kept }⟩

/-- Reads a tree and adds it. -/
def place (d : Draft) (role : Option Role) (production : Production) : Draft :=
  let (child, state) := production d.state
  { d with state }.attach role child

/-- Takes the next token as a leaf of a given kind. -/
def takeAs (d : Draft) (role : Option Role) (kind : NodeKind) : Draft := d.place role (leafOf kind)

/-- Takes the next token. -/
def take (d : Draft) (role : Option Role := none) : Draft :=
  d.takeAs role (leafKind d.state.peek.kind)

/-- Adds a placeholder. -/
def lacking (d : Draft) (role : Option Role) (kind : NodeKind) : Draft :=
  d.attach role (d.state.placeholder kind)

/-- Takes an identifier, or adds a placeholder for one. -/
def takeName (d : Draft) (role : Option Role) : Draft :=
  if d.isAt .identifier then d.takeAs role .identifier else d.lacking role .identifier

/-- The same draft with another kind. -/
def ofKind (d : Draft) (kind : NodeKind) : Draft := { d with tree := d.tree.ofKind kind }

/-- Repeats a step of a draft. -/
def loop (d : Draft) (turn : Draft → Turn Draft) : Draft := iterate Draft.state turn d

end Draft

/-- The production of one kind of tree, given how its children are read. -/
def branch (kind : NodeKind) (fill : Draft → Draft) : Production := fun s =>
  let d := fill (Draft.opened kind s)
  (d.tree, d.state)

end SecurityRules.Parser
