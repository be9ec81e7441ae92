import SecurityRules.Toml.Reader

/-!
# The tables of a settings file

Statements are carried out one after the other on a tree of tables. A table that only came about because
something was put below it may still be opened by name, once. A key that holds an array may be given another
value; any other key may not.
-/

namespace SecurityRules.Toml

/-- A value in its place. -/
inductive Node where
  | scalar (s : Scalar)
  | list (items : List Node)
  | table (entries : List (Bytes × Node))
  /-- Tables that were opened one by one under the same key, the last of them last. -/
  | tables (elements : List (List (Bytes × Node)))

/-- The entries of a table, in the order in which they came about. -/
abbrev Entries := List (Bytes × Node)

/-- Gives a name a value, in place of an old one if there is one. -/
def Entries.set (name : Bytes) (node : Node) : Entries → Entries
  | [] => [(name, node)]
  | (other, old) :: rest =>
    if other = name then (name, node) :: rest else (other, old) :: Entries.set name node rest

/-- Changes the entries of the table that a key leads to; of tables under one key, the last one counts. None if
the key leads to no table or the change is refused. -/
def Entries.modify? (change : Entries → Option Entries) : Key → Entries → Option Entries
  | [], entries => change entries
  | name :: key, entries =>
    match entries.lookup name with
    | some (.table inner) =>
      (Entries.modify? change key inner).map fun inner => entries.set name (.table inner)
    | some (.tables elements) =>
      match elements.getLast? with
      | none => none
      | some inner =>
        (Entries.modify? change key inner).map fun inner =>
          entries.set name (.tables (elements.dropLast ++ [inner]))
    | _ => none

/-- The tables built so far. -/
structure Draft where
  root : Entries := []
  /-- The table that pairs go into. -/
  current : Key := []
  /-- Tables that came about by what was put below them. -/
  implicit : List Key := []
  /-- Keys whose latest value is an array. -/
  arrays : List Key := []
  /-- All keys in the order of the file. -/
  order : List Key := []

namespace Draft

def markImplicit (d : Draft) (key : Key) : Draft := { d with implicit := key :: d.implicit }

def unmarkImplicit (d : Draft) (key : Key) : Draft :=
  { d with implicit := d.implicit.filter (· != key) }

/-- Notes what kind of value a name has. An empty name stands for its table. -/
def noteKind (d : Draft) (table : Key) (name : Bytes) (isArray : Bool) : Draft :=
  let key : Key :=
    if name.isEmpty then (if table.isEmpty then [[]] else table) else table ++ [name]
  let others := d.arrays.filter (· != key)
  { d with arrays := if isArray then key :: others else others }

/-- Notes the place of a key in the file. -/
def noteOrder (d : Draft) (key : Key) : Draft := { d with order := d.order ++ [key] }

/-- Gives a name of a table a value. A name that has one already is refused, unless it holds an array, which
is replaced, or a table that came about by itself, which stays. -/
def assign? (d : Draft) (table : Key) (name : Bytes) (node : Node) : Option Draft :=
  let key := table ++ [name]
  let change (entries : Entries) : Option Entries :=
    match entries.lookup name with
    | none => some (entries.set name node)
    | some _ =>
      if d.arrays.elem key then some (entries.set name node)
      else if d.implicit.elem key then some entries
      else none
  let isNew (entries : Entries) : Option Entries :=
    if (entries.lookup name).isNone then some entries else none
  match d.root.modify? change table with
  | none => none
  | some root =>
    let d' := if (d.root.modify? isNew table).isSome then d else d.unmarkImplicit key
    some { d' with root }

/-- Makes sure that there is a table under a key whose own table exists. -/
def ensureTable? (d : Draft) (key : Key) : Option Draft :=
  match key.getLast? with
  | none => some d
  | some name =>
    let isNew (entries : Entries) : Option Entries :=
      if (entries.lookup name).isNone then some (entries.set name (.table [])) else none
    let isTable (entries : Entries) : Option Entries :=
      match entries.lookup name with
      | some (.table _) => some entries
      | some (.tables _) => some entries
      | _ => none
    match d.root.modify? isNew key.dropLast with
    | some root => some { d.markImplicit key with root }
    | none => (d.root.modify? isTable key.dropLast).map fun _ => d

/-- Makes sure that there are tables on the way to a key. -/
def ensureParents? (d : Draft) (key : Key) : Option Draft :=
  (List.range (key.length - 1)).foldlM (fun d n => d.ensureTable? (key.take (n + 1))) d

/-- Opens the table under a key. -/
def openTable? (d : Draft) (key : Key) : Option Draft := do
  let name ← key.getLast?
  let d ← d.ensureParents? key
  let d ← d.assign? key.dropLast name (.table [])
  return { d with current := key }

/-- Opens a new element of the list of tables under a key. -/
def openElement? (d : Draft) (key : Key) : Option Draft := do
  let name ← key.getLast?
  let d ← d.ensureParents? key
  let root ← d.root.modify? (fun entries =>
    match entries.lookup name with
    | none => some (entries.set name (.tables [[]]))
    | some (.tables elements) => some (entries.set name (.tables (elements ++ [[]])))
    | some _ => none) key.dropLast
  return { d with root, current := key }

/-- Opens the tables on the way to the last name of a key inside a table; they count as having come about by
themselves. -/
def openDotted? (d : Draft) (table key : Key) : Option Draft :=
  (List.range (key.length - 1)).foldlM
    (fun d n => (d.markImplicit (table ++ key.take (n + 1))).openTable? (table ++ key.take (n + 1))) d

/-- Whether a value is an array. -/
def isArray : Value → Bool
  | .array _ => true
  | _ => false

mutual

/-- Works out a value that is about to be given to a name of a table. An inline table is built in its place at
once; what stands for it elsewhere knows its pairs by their last names only. -/
def value? (table : Key) (name : Bytes) (inArray : Bool) : Value → Draft → Option (Node × Draft)
  | .scalar s, d => some (.scalar s, d)
  | .array items, d =>
    (items? table name items (d.noteKind table name true)).map fun (nodes, d) => (.list nodes, d)
  | .inlineTable pairs, d =>
    let key := table ++ [name]
    let d := d.markImplicit key
    match if inArray then d.openElement? key else d.openTable? key with
    | none => none
    | some d => (pairs? key [] pairs d).map fun (entries, d) => (.table entries, d)

/-- The items of an array. -/
def items? (table : Key) (name : Bytes) : List Value → Draft → Option (List Node × Draft)
  | [], d => some ([], d)
  | item :: rest, d =>
    match value? table name true item d with
    | none => none
    | some (node, d) => (items? table name rest d).map fun (nodes, d) => (node :: nodes, d)

/-- Gives the values of pairs to their keys in a table. -/
def pairs? (table : Key) (entries : Entries) : List (Key × Value) → Draft → Option (Entries × Draft)
  | [], d => some (entries, d)
  | (key, value) :: rest, d =>
    let inner := table ++ key.dropLast
    let name := key.getLast?.getD []
    match d.openDotted? table key with
    | none => none
    | some d =>
      match value? inner name false value (d.noteOrder (inner ++ [name])) with
      | none => none
      | some (node, d) =>
        match d.assign? inner name node with
        | none => none
        | some d => pairs? table (entries.set name node) rest (d.noteKind inner name (isArray value))

end

/-- Carries out a statement. -/
def run? (d : Draft) : Statement → Option Draft
  | .table key => (d.openTable? key).map fun d => (d.noteKind key [] false).noteOrder key
  | .tableElement key => (d.openElement? key).map fun d => (d.noteKind key [] false).noteOrder key
  | .pair key value =>
    (pairs? d.current [] [(key, value)] d).map fun (_, after) => { after with current := d.current }

end Draft

/-- The tables of a settings file and all its keys in the order of the text. -/
structure Document where
  entries : Entries
  order : List Key

/-- Reads a settings file into tables. -/
def parse? (text : Bytes) : Option Document := do
  let statements ← read? text
  let draft ← statements.foldlM Draft.run? {}
  return { entries := draft.root, order := draft.order }

end SecurityRules.Toml
