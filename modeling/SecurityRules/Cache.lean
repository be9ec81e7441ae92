import SecurityRules.Cache.Entry
import SecurityRules.Disk

/-!
# The cache of results

Results are kept on a disk, each in a file that is named for its key. The files are spread over directories by
the first byte of the key.
-/

namespace SecurityRules

/-- A directory in which results are kept. -/
structure Cache where
  directory : Bytes

namespace Cache

/-- The suffix of the files that hold results. -/
def suffix : Bytes := ".mp"

/-- The directory below which the files lie. -/
def filesDirectory (c : Cache) : Bytes := SlashPath.join c.directory "files"

/-- The file for a key. -/
def pathFor (c : Cache) (key : CacheKey) : Bytes :=
  let name := key.render
  SlashPath.join (SlashPath.join c.filesDirectory (name.take 2)) (name ++ suffix)

/-- Makes sure that the directory is there. -/
def create (directory : Bytes) (disk : Disk) : Disk × Except PathError Cache :=
  match disk.makeDirectories directory with
  | (disk, some e) => (disk, .error e)
  | (disk, none) => (disk, .ok ⟨directory⟩)

/-- The message for a directory that cannot be made. -/
def createMessage (e : PathError) : Bytes := "open cache: " ++ e.message

/-- Writes the bytes of a file together with the directories above it. -/
def plant (c : Cache) (key : CacheKey) (content : Bytes) (disk : Disk) : Disk × Option PathError :=
  let path := c.pathFor key
  match disk.makeDirectories (SlashPath.directory path) with
  | (disk, some e) => (disk, some e)
  | (disk, none) =>
    match disk.write path content with
    | .ok disk => (disk, none)
    | .error e => (disk, some e)

/-- Keeps a result. -/
def put (c : Cache) (key : CacheKey) (entry : CacheEntry) (disk : Disk) : Disk × Option PathError :=
  c.plant key { entry with layout := UInt16.ofNat CacheKey.layout }.encode disk

/-- Why a result that is there cannot be had. -/
inductive ReadError where
  | unreadable (cause : PathError)
  | malformed
deriving Repr

/-- The result for a key. One that was written in another layout counts as missing. -/
def get (c : Cache) (key : CacheKey) (disk : Disk) : Except ReadError (Option CacheEntry) :=
  match disk.read (c.pathFor key) with
  | .error cause => if cause.isMissing then .ok none else .error (.unreadable cause)
  | .ok content =>
    match CacheEntry.decode? content with
    | none => .error .malformed
    | some entry => .ok (if entry.layout.toNat = CacheKey.layout then some entry else none)

/-- How many results there are and how many bytes they take. -/
structure Stats where
  entries : Nat := 0
  bytes : Nat := 0
deriving Repr, DecidableEq

/-- Counts the results. Other files do not count. -/
def stats (c : Cache) (disk : Disk) : Stats :=
  match disk.stat c.filesDirectory with
  | .error _ => {}
  | .ok root =>
    let found := (root.files (fun _ => false) [c.filesDirectory]).filter fun (place, _) =>
      SlashPath.extension (place.getLast?.getD []) == suffix
    ⟨found.length, (found.map fun (_, content) => content.length).sum⟩

/-- Forgets all results and leaves an empty directory. -/
def clear (c : Cache) (disk : Disk) : Disk × Option PathError :=
  (disk.removeTree c.directory).makeDirectories c.directory

end Cache

end SecurityRules
