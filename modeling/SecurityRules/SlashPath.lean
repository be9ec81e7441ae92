import SecurityRules.Text.Bytes

/-!
# Paths

Paths whose elements are separated by slashes. All functions here look at the text alone; which files
exist is the business of a workspace.
-/

namespace SecurityRules.SlashPath

/-- The separator of path elements. -/
def slash : UInt8 := 0x2F

/-- Whether a path starts at the root. -/
def isAbsolute (path : Bytes) : Bool := path.head? == some slash

/-- The elements of a path that are not empty, as written. -/
def elements (path : Bytes) : List Bytes := (Bytes.splitOn slash path).filter fun e => !e.isEmpty

/-- Adds one element to elements that are already resolved, the last of them first. `.` adds nothing;
`..` takes the last element back, stays in front of a relative path, and is dropped at the root. -/
def resolveElement (rooted : Bool) (resolved : List Bytes) (element : Bytes) : List Bytes :=
  if element = Bytes.ofString "." then resolved
  else if element = Bytes.ofString ".." then
    match resolved with
    | [] => if rooted then [] else [element]
    | last :: rest => if last = Bytes.ofString ".." then element :: resolved else rest
  else element :: resolved

/-- The elements of a path after `.` and `..` are resolved. -/
def resolvedElements (path : Bytes) : List Bytes :=
  ((elements path).foldl (resolveElement (isAbsolute path)) []).reverse

/-- A path from its elements. -/
def ofElements (rooted : Bool) (elements : List Bytes) : Bytes :=
  if rooted then slash :: Bytes.join [slash] elements
  else if elements.isEmpty then Bytes.ofString "." else Bytes.join [slash] elements

/-- The shortest path that names the same place by text alone. -/
def clean (path : Bytes) : Bytes := ofElements (isAbsolute path) (resolvedElements path)

/-- The last element of a path: `.` for an empty path, a slash for a path of slashes. -/
def base (path : Bytes) : Bytes :=
  if path.isEmpty then Bytes.ofString "."
  else ((elements path).getLast?).getD [slash]

/-- The path without its last element. -/
def directory (path : Bytes) : Bytes :=
  clean (path.take (path.length - (path.reverse.takeWhile (· != slash)).length))

/-- Two paths put together; empty parts are left out. -/
def join (path rest : Bytes) : Bytes :=
  if path.isEmpty then (if rest.isEmpty then [] else clean rest)
  else clean (path ++ [slash] ++ rest)

/-- The path seen from the root, given the working directory. -/
def absolute (workingDirectory path : Bytes) : Bytes :=
  if isAbsolute path then clean path else join workingDirectory path

/-- The elements of `xs` behind `ys`, if `xs` starts with `ys`. -/
def below? : (ys xs : List Bytes) → Option (List Bytes)
  | [], xs => some xs
  | _ :: _, [] => none
  | y :: ys, x :: xs => if y = x then below? ys xs else none

/-- The path of `target` seen from `start`, if it lies at or below it; both are absolute. -/
def belowDirectory? (start target : Bytes) : Option Bytes :=
  (below? (resolvedElements start) (resolvedElements target)).map (ofElements false)

/-- The suffix of the last element from its last dot on. -/
def extension (path : Bytes) : Bytes :=
  let last := (path.reverse.takeWhile (· != slash)).reverse
  match Bytes.cutLast? 0x2E last with
  | some (_, tail) => 0x2E :: tail
  | none => []

end SecurityRules.SlashPath
