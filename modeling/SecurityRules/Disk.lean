import SecurityRules.SlashPath

/-!
# Disks

A disk is a tree of directories and files, seen from a working directory. Paths are followed element by
element: `..` leads to the directory above, whatever stands before it has to exist, and only directories can
be passed through. Actions on a disk either give their result or say which path failed and why.
-/

namespace SecurityRules

/-- What a name on a disk stands for. -/
inductive DiskEntry where
  | file (content : Bytes)
  | directory (entries : List (Bytes × DiskEntry))

/-- Why a path does not lead where it should. -/
inductive DiskError where
  | noEntry
  | notDirectory
  | isDirectory
  | alreadyExists
  | nameTooLong
  | invalidPath
deriving Repr, DecidableEq

/-- The reason in words. -/
def DiskError.message : DiskError → String
  | .noEntry => "no such file or directory"
  | .notDirectory => "not a directory"
  | .isDirectory => "is a directory"
  | .alreadyExists => "file exists"
  | .nameTooLong => "file name too long"
  | .invalidPath => "invalid argument"

/-- An action on a path that failed. -/
structure PathError where
  action : String
  path : Bytes
  cause : DiskError
deriving Repr, DecidableEq

/-- What failed, where and why. -/
def PathError.message (e : PathError) : Bytes :=
  e.action ++ (" " ++ e.path ++ ": " ++ e.cause.message)

/-- Whether the failed path, or one on the way to it, does not exist. -/
def PathError.isMissing (e : PathError) : Bool := e.cause == .noEntry

namespace DiskEntry

/-- The entry of a name in a directory. -/
def child? (entry : DiskEntry) (name : Bytes) : Option DiskEntry :=
  match entry with
  | .file _ => none
  | .directory entries => entries.lookup name

def isDirectory : DiskEntry → Bool
  | .file _ => false
  | .directory _ => true

/-- Gives a name of a directory a new entry; the others stay as they are. -/
def setName (name : Bytes) (entry : DiskEntry) (entries : List (Bytes × DiskEntry)) :
    List (Bytes × DiskEntry) :=
  match entries with
  | [] => [(name, entry)]
  | (other, old) :: rest =>
    if other = name then (name, entry) :: rest else (other, old) :: setName name entry rest

/-- Puts an entry at a place below a directory. A place that does not exist changes nothing. -/
def put : DiskEntry → (place : List Bytes) → DiskEntry → DiskEntry
  | _, [], entry => entry
  | .file content, _, _ => .file content
  | .directory entries, [name], entry => .directory (setName name entry entries)
  | .directory entries, name :: place, entry =>
    match entries.lookup name with
    | none => .directory entries
    | some child => .directory (setName name (put child place entry) entries)

/-- Takes away the entry at a place below a directory. -/
def remove : DiskEntry → (place : List Bytes) → DiskEntry
  | entry, [] => entry
  | .file content, _ => .file content
  | .directory entries, [name] => .directory (entries.filter fun (other, _) => other != name)
  | .directory entries, name :: place =>
    match entries.lookup name with
    | none => .directory entries
    | some child => .directory (setName name (remove child place) entries)

mutual

/-- All files at or below an entry with their names from there on. Directories that `skip` names are left
out. -/
def files (skip : Bytes → Bool) (place : List Bytes) : DiskEntry → List (List Bytes × Bytes)
  | .file content => [(place, content)]
  | .directory entries => filesOf skip place entries

/-- The same for the entries of a directory. -/
def filesOf (skip : Bytes → Bool) (place : List Bytes) :
    List (Bytes × DiskEntry) → List (List Bytes × Bytes)
  | [] => []
  | (name, entry) :: rest =>
    (if skip name && entry.isDirectory then [] else files skip (place ++ [name]) entry)
      ++ filesOf skip place rest

end

end DiskEntry

/-- A disk and the place on it from which relative paths start. -/
structure Disk where
  root : DiskEntry := .directory []
  workingDirectory : Bytes := [SlashPath.slash]

namespace Disk

/-- The most bytes of one name. -/
def longestName : Nat := 255

/-- The most bytes of a path. -/
def longestPath : Nat := 4095

/-- What is wrong with a path whatever the disk holds. -/
def pathFault? (path : Bytes) : Option DiskError :=
  if path.elem 0 then some .invalidPath
  else if path.isEmpty then some .noEntry
  else if longestPath < path.length then some .nameTooLong
  else none

/-- The entry at a place, given by the names from the root on. -/
def entry? (d : Disk) (place : List Bytes) : Option DiskEntry := place.foldlM DiskEntry.child? d.root

/-- The place where a path starts. -/
def start (d : Disk) (path : Bytes) : List Bytes :=
  if SlashPath.isAbsolute path then [] else SlashPath.resolvedElements d.workingDirectory

/-- Follows one element of a path. -/
def step (d : Disk) (place : List Bytes) (element : Bytes) : Except DiskError (List Bytes) :=
  match d.entry? place with
  | none => .error .noEntry
  | some (.file _) => .error .notDirectory
  | some (.directory entries) =>
    if element = Bytes.ofString "." then .ok place
    else if element = Bytes.ofString ".." then .ok place.dropLast
    else if longestName < element.length then .error .nameTooLong
    else if (entries.lookup element).isSome then .ok (place ++ [element])
    else .error .noEntry

/-- Whether a path ends in a slash, which only directories may. -/
def asksForDirectory (path : Bytes) : Bool := path.getLast? == some SlashPath.slash

/-- The place a path leads to, and what is there. -/
def resolve (d : Disk) (path : Bytes) : Except DiskError (List Bytes × DiskEntry) := do
  if let some fault := pathFault? path then throw fault
  let place ← (SlashPath.elements path).foldlM d.step (d.start path)
  match d.entry? place with
  | none => throw .noEntry
  | some entry =>
    if asksForDirectory path && !entry.isDirectory then throw .notDirectory
    return (place, entry)

/-- The place where a path leads or would lead if its last element existed. -/
def parentPlace (d : Disk) (path : Bytes) : Except DiskError (List Bytes × Bytes) := do
  if let some fault := pathFault? path then throw fault
  match (SlashPath.elements path).getLast? with
  | none => throw .alreadyExists
  | some name =>
    let place ← ((SlashPath.elements path).dropLast).foldlM d.step (d.start path)
    match d.entry? place with
    | some (.directory _) =>
      if longestName < name.length then throw .nameTooLong
      return (place, name)
    | some (.file _) => throw .notDirectory
    | none => throw .noEntry

/-- Names the action and the path of a failure. -/
def named {α : Type} (action : String) (path : Bytes) (result : Except DiskError α) : Except PathError α :=
  result.mapError fun cause => { action, path, cause }

/-- What a path stands for. -/
def stat (d : Disk) (path : Bytes) : Except PathError DiskEntry :=
  named "stat" path ((d.resolve path).map (·.2))

/-- The bytes of a file. -/
def read (d : Disk) (path : Bytes) : Except PathError Bytes := do
  match ← named "open" path (d.resolve path) with
  | (_, .file content) => return content
  | (_, .directory _) => throw { action := "read", path, cause := .isDirectory }

/-- The disk with a file written, new or in place of an old one. -/
def write (d : Disk) (path content : Bytes) : Except PathError Disk :=
  named "open" path do
    match d.parentPlace path with
    | .error .alreadyExists => throw .isDirectory
    | .error e => throw e
    | .ok (place, name) =>
      if asksForDirectory path || name = Bytes.ofString "." || name = Bytes.ofString ".." then
        throw .isDirectory
      match d.entry? (place ++ [name]) with
      | some (.directory _) => throw .isDirectory
      | _ => return { d with root := d.root.put (place ++ [name]) (.file content) }

/-- The disk with one more directory. -/
def makeDirectory (d : Disk) (path : Bytes) : Except PathError Disk :=
  named "mkdir" path do
    let (place, name) ← d.parentPlace path
    if name = Bytes.ofString "." || name = Bytes.ofString ".." then throw .alreadyExists
    match d.entry? (place ++ [name]) with
    | some _ => throw .alreadyExists
    | none => return { d with root := d.root.put (place ++ [name]) (.directory []) }

/-- The part of a path before its last element, with the slash at its end. -/
def leading (path : Bytes) : Bytes :=
  ((path.reverse.dropWhile (· == SlashPath.slash)).dropWhile (· != SlashPath.slash)).reverse

theorem length_leading_lt {path : Bytes} (h : leading path ≠ []) : (leading path).length < path.length := by
  unfold leading at h ⊢
  rw [List.length_reverse]
  generalize hr : path.reverse.dropWhile (· == SlashPath.slash) = rest at h ⊢
  have hle : rest.length ≤ path.length := by
    rw [← hr]
    simpa using (List.dropWhile_suffix (l := path.reverse) (· == SlashPath.slash)).length_le
  cases rest with
  | nil => simp at h
  | cons b rest =>
    have hb : (b == SlashPath.slash) = false := by
      have := List.head?_dropWhile_not (p := (· == SlashPath.slash)) path.reverse
      rw [hr] at this
      simpa using this
    have hb' : (b != SlashPath.slash) = true := by simp [bne, hb]
    rw [List.dropWhile_cons_of_pos (by simpa using hb')]
    have := (List.dropWhile_suffix (l := rest) (· != SlashPath.slash)).length_le
    simp only [List.length_cons] at hle
    omega

/-- Makes a directory together with those above it. What was made before a failure stays. -/
def makeDirectories (d : Disk) (path : Bytes) : Disk × Option PathError :=
  match d.resolve path with
  | .ok (_, .directory _) => (d, none)
  | .ok (_, .file _) => (d, some { action := "mkdir", path, cause := .notDirectory })
  | .error _ =>
    let (d, failed) := if _h : leading path = [] then (d, none) else makeDirectories d (leading path)
    match failed with
    | some e => (d, some e)
    | none =>
      match d.makeDirectory path with
      | .ok d => (d, none)
      | .error e =>
        match d.resolve path with
        | .ok (_, .directory _) => (d, none)
        | _ => (d, some e)
termination_by path.length
decreasing_by exact length_leading_lt (by assumption)

/-- The disk without what a path leads to. -/
def removeTree (d : Disk) (path : Bytes) : Disk :=
  match d.resolve path with
  | .ok (place, _) => { d with root := d.root.remove place }
  | .error _ => d

end Disk

/-!
## What differs between two disks

The steps that make a disk hold what another one holds. Directories are made before what lies in them.
-/

/-- One step from one disk to another. -/
inductive DiskChange where
  | makeDirectory (place : List Bytes)
  | write (place : List Bytes) (content : Bytes)
  | remove (place : List Bytes)
deriving Repr, DecidableEq

namespace DiskEntry

/-- The names of a directory with their entries; a file and a missing entry have none. -/
def entriesOf : Option DiskEntry → List (Bytes × DiskEntry)
  | some (.directory entries) => entries
  | _ => []

/-- The names that are no longer there. -/
def removals (place : List Bytes) (old new : List (Bytes × DiskEntry)) : List DiskChange :=
  (old.filter fun (name, _) => (new.lookup name).isNone).map fun (name, _) => .remove (place ++ [name])

mutual

/-- The steps from what is at a place to an entry. -/
def changes (place : List Bytes) (old : Option DiskEntry) : DiskEntry → List DiskChange
  | .file content =>
    match old with
    | some (.file before) => if before = content then [] else [.write place content]
    | some (.directory _) => [.remove place, .write place content]
    | none => [.write place content]
  | .directory entries =>
    let start : List DiskChange :=
      match old with
      | some (.directory _) => []
      | some (.file _) => [.remove place, .makeDirectory place]
      | none => [.makeDirectory place]
    start ++ removals place (entriesOf old) entries ++ changesOf place (entriesOf old) entries

/-- The same for the entries of a directory. -/
def changesOf (place : List Bytes) (old : List (Bytes × DiskEntry)) :
    List (Bytes × DiskEntry) → List DiskChange
  | [] => []
  | (name, entry) :: rest =>
    changes (place ++ [name]) (old.lookup name) entry ++ changesOf place old rest

end

end DiskEntry

/-- The steps from one disk to another. -/
def Disk.changes (old new : Disk) : List DiskChange := new.root.changes [] (some old.root)

end SecurityRules
