import SecurityRules.Analysis

/-!
# Open documents

The newest version of each open document. Entries stand in the order of their names, byte by byte.
-/

namespace SecurityRules

/-- Documents by name, with the options they are analysed with. -/
structure DocumentStore where
  options : AnalysisOptions
  documents : List (Bytes × Document) := []

namespace DocumentStore

/-- The document with a name. -/
def get? (s : DocumentStore) (uri : Bytes) : Option Document := s.documents.lookup uri

/-- Puts an entry in its place, instead of an older one of the same name. -/
def insertEntry (uri : Bytes) (d : Document) : List (Bytes × Document) → List (Bytes × Document)
  | [] => [(uri, d)]
  | (name, old) :: rest =>
    if name = uri then (uri, d) :: rest
    else if Bytes.before uri name then (uri, d) :: (name, old) :: rest
    else (name, old) :: insertEntry uri d rest

/-- Analyses a text and keeps it, unless a newer version is there already. Gives the document that is kept
and whether it is this one. -/
def update (s : DocumentStore) (uri : Bytes) (version : Int) (path text : Bytes) :
    DocumentStore × Document × Bool :=
  match s.get? uri with
  | some kept =>
    if version < kept.version then (s, kept, false)
    else
      let d := Document.analyze uri version (SourceFile.inMemory path text) s.options
      ({ s with documents := insertEntry uri d s.documents }, d, true)
  | none =>
    let d := Document.analyze uri version (SourceFile.inMemory path text) s.options
    ({ s with documents := insertEntry uri d s.documents }, d, true)

/-- Forgets a document. -/
def remove (s : DocumentStore) (uri : Bytes) : DocumentStore :=
  { s with documents := s.documents.filter fun (name, _) => name != uri }

/-- The names of the documents, sorted. -/
def uris (s : DocumentStore) : List Bytes := s.documents.map (·.1)

end DocumentStore

/-!
## A store with several callers

Writers and readers use one store at the same time, and no document is forgotten meanwhile. The names are behind a lock,
and every name has a slot that is read and exchanged on its own. What a caller does is a row of actions, each of which
happens at once; how the actions of different callers follow each other is left to chance.
-/

/-- A document in memory. It does not change, and another one with the same contents lies in another place. -/
structure Snapshot where
  address : Nat
  document : Document

/-- What the callers share. -/
structure SharedStore where
  options : AnalysisOptions
  /-- The documents made so far. The address of a document is its place among them. -/
  made : List Document := []
  /-- The slots of the names. -/
  slots : List (Bytes × Nat) := []
  /-- What the slots hold. -/
  content : Nat → Option Snapshot := fun _ => none

namespace SharedStore

/-- The slot of a name. -/
def slot? (s : SharedStore) (uri : Bytes) : Option Nat := s.slots.lookup uri

/-- The document that is kept under a name. -/
def held (s : SharedStore) (uri : Bytes) : Option Snapshot := (s.slot? uri).bind s.content

/-- Makes a document. Nobody else knows of it yet. -/
def make (s : SharedStore) (d : Document) : SharedStore × Snapshot :=
  ({ s with made := s.made ++ [d] }, ⟨s.made.length, d⟩)

/-- Makes a slot for a name, unless somebody else has made one by now. -/
def place (s : SharedStore) (uri : Bytes) : SharedStore × Nat :=
  match s.slot? uri with
  | some n => (s, n)
  | none =>
    ({ s with
      slots := (uri, s.slots.length) :: s.slots
      content := fun n => if n = s.slots.length then none else s.content n }, s.slots.length)

/-- Exchanges what a slot holds, if that is still what was seen in it. -/
def exchange (s : SharedStore) (slot : Nat) (seen : Option Snapshot) (own : Snapshot) : Option SharedStore :=
  if (s.content slot).map (·.address) = seen.map (·.address) then
    some { s with content := fun n => if n = slot then some own else s.content n }
  else none

/-- What an update is given. -/
structure Request where
  uri : Bytes
  version : Int
  path : Bytes
  text : Bytes

/-- The document that an update is to keep. -/
def Request.document (r : Request) (options : AnalysisOptions) : Document :=
  Document.analyze r.uri r.version (SourceFile.inMemory r.path r.text) options

/-- How far an update has come. -/
inductive Progress where
  | waiting
  | analyzed (own : Snapshot)
  /-- The name had no slot. -/
  | unplaced (own : Snapshot)
  | placed (own : Snapshot) (slot : Nat)
  /-- The slot was seen to hold nothing that is newer. -/
  | looked (own : Snapshot) (slot : Nat) (seen : Option Snapshot)
  | finished (own answer : Snapshot) (isFresh : Bool)

/-- One that updates a document. -/
structure Writer where
  request : Request
  progress : Progress := .waiting

namespace Writer

/-- The document that the writer has made. -/
def own? (w : Writer) : Option Snapshot :=
  match w.progress with
  | .waiting => none
  | .analyzed own | .unplaced own | .placed own _ | .looked own _ _ | .finished own _ _ => some own

/-- The slot that the writer has got. -/
def slot? (w : Writer) : Option Nat :=
  match w.progress with
  | .placed _ slot | .looked _ slot _ => some slot
  | _ => none

def isFinished (w : Writer) : Bool :=
  match w.progress with
  | .finished .. => true
  | _ => false

/-- What the writer was given and what it got, once it is finished. -/
def call? (w : Writer) : Option (Request × Document × Bool) :=
  match w.progress with
  | .finished _ answer isFresh => some (w.request, answer.document, isFresh)
  | _ => none

/-- The next action of a writer. One that finds that its slot has been exchanged looks at it once more. -/
def advance (s : SharedStore) (w : Writer) : SharedStore × Writer :=
  match w.progress with
  | .waiting =>
    let (s, own) := s.make (w.request.document s.options)
    (s, { w with progress := .analyzed own })
  | .analyzed own =>
    match s.slot? w.request.uri with
    | some slot => (s, { w with progress := .placed own slot })
    | none => (s, { w with progress := .unplaced own })
  | .unplaced own =>
    let (s, slot) := s.place w.request.uri
    (s, { w with progress := .placed own slot })
  | .placed own slot =>
    match s.content slot with
    | some kept =>
      if w.request.version < kept.document.version then (s, { w with progress := .finished own kept false })
      else (s, { w with progress := .looked own slot (some kept) })
    | none => (s, { w with progress := .looked own slot none })
  | .looked own slot seen =>
    match s.exchange slot seen own with
    | some s => (s, { w with progress := .finished own own true })
    | none => (s, { w with progress := .placed own slot })
  | .finished .. => (s, w)

end Writer

/-- One that asks for the same document again and again. -/
structure Reader where
  uri : Bytes
  /-- The slot that the question under way has found. -/
  slot : Option Nat := none
  /-- The answers so far, the latest first. -/
  answers : List (Option Snapshot) := []

/-- The next action of a reader. -/
def Reader.advance (s : SharedStore) (r : Reader) : Reader :=
  match r.slot with
  | some slot => { r with slot := none, answers := s.content slot :: r.answers }
  | none =>
    match s.slot? r.uri with
    | some slot => { r with slot := some slot }
    | none => { r with answers := none :: r.answers }

/-- A store and its callers. -/
structure Crowd where
  store : SharedStore
  writers : List Writer
  readers : List Reader

namespace Crowd

/-- Nobody has done anything yet. -/
def start (options : AnalysisOptions) (requests : List Request) (uris : List Bytes) : Crowd where
  store := { options }
  writers := requests.map fun request => { request }
  readers := uris.map fun uri => { uri }

/-- Whether every update has its answer and no question is under way. -/
def isFinished (c : Crowd) : Bool := c.writers.all (·.isFinished) && c.readers.all (·.slot.isNone)

/-- What happens next. -/
inductive Step : Crowd → Crowd → Prop
  | write {store : SharedStore} {earlier later : List Writer} {w : Writer} {readers : List Reader}
    (unfinished : w.isFinished = false) :
    Step ⟨store, earlier ++ w :: later, readers⟩
      ⟨(w.advance store).1, earlier ++ (w.advance store).2 :: later, readers⟩
  | read {store : SharedStore} {writers : List Writer} {earlier later : List Reader} {r : Reader} :
    Step ⟨store, writers, earlier ++ r :: later⟩ ⟨store, writers, earlier ++ r.advance store :: later⟩

end Crowd

end SharedStore

end SecurityRules
