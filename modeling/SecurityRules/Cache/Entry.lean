import SecurityRules.Analysis
import SecurityRules.Diagnostic
import SecurityRules.Digest
import SecurityRules.MessagePack
import SecurityRules.Timing

/-!
# Cached results

The result of checking one text, and how it is packed. Records are packed as maps from names to values, and
lists without items as nothing. Reading is lenient: a record may lack fields or have unknown ones, it may be
an array of its fields in order, and a number may have any width.
-/

namespace SecurityRules

/-!
## Keys

A result is kept under a digest of all that it depends on: the layout of results, the options of the analysis
and the text.
-/

/-- The key of a cached result. -/
structure CacheKey where
  digest : Bytes
deriving Repr, DecidableEq

namespace CacheKey

/-- The number of the layout in which results are kept. -/
def layout : Nat := 1

/-- The low `width` bytes of a number, the least significant first. -/
def littleEndian : (width : Nat) → (n : Nat) → Bytes
  | 0, _ => []
  | width + 1, n => UInt8.ofNat n :: littleEndian width (n / 256)

/-- All that a result depends on, one behind the other. Names end in a zero byte, and a byte that is in no
name ends them all. -/
def material (content : Bytes) (options : AnalysisOptions) : Bytes :=
  littleEndian 2 layout ++ littleEndian 8 (options.maxDepth.emod (2 ^ 64)).toNat ++
    Bytes.ofString options.policy.name ++ [0] ++
    (options.builtins.flatMap fun name => name ++ [0]) ++ [0xFF] ++ content

/-- The key for a text under given options. -/
def ofText (content : Bytes) (options : AnalysisOptions) : CacheKey := ⟨Digest.sha256 (material content options)⟩

/-- The key that no text has been given. -/
def unset : CacheKey := ⟨Bytes.fill 32 0⟩

def isUnset (k : CacheKey) : Bool := k == unset

/-- The key in hexadecimal. -/
def render (k : CacheKey) : Bytes := Bytes.hex k.digest

end CacheKey

/-! ## Entries -/

/-- The result of checking one text. -/
structure CacheEntry where
  /-- The layout in which the result was written. -/
  layout : UInt16 := 0
  path : Bytes := []
  diagnostics : List Diagnostic := []
  total : Float := 0
  /-- The phases of the analysis, if it was timed. -/
  phases : Option (List Timing.Phase) := none
  /-- Whether there is an error. -/
  isBroken : Bool := false

namespace CacheEntry

/-- The timings of the analysis. -/
def timings (e : CacheEntry) : Timing.Report := ⟨e.total, e.phases.getD []⟩

/-! ## Packing -/

/-- A record from its fields. -/
def packRecord (fields : List (String × MessagePack)) : MessagePack :=
  .map (fields.map fun (name, value) => (.text name, value))

/-- A list, or nothing if it has no items. -/
def packList {α : Type} (pack : α → MessagePack) (items : List α) : MessagePack :=
  if items.isEmpty then .nil else .array (items.map pack)

def packPoint (p : Point) : MessagePack :=
  packRecord [("Row", .integer .unsigned32 p.row.toNat), ("Column", .integer .unsigned32 p.column.toNat)]

def packSpan (s : Span) : MessagePack :=
  packRecord [("Start", packPoint s.start), ("End", packPoint s.stop)]

def packNote (n : Note) : MessagePack := packRecord [("Span", packSpan n.span), ("Msg", .text n.message)]

def packDiagnostic (d : Diagnostic) : MessagePack :=
  packRecord [("Severity", .integer .unsigned8 d.severity.level.toNat),
    ("Code", .integer .unsigned16 d.code.number.toNat), ("Message", .text d.message),
    ("Primary", packSpan d.span), ("Notes", packList packNote d.notes)]

def packPhase (p : Timing.Phase) : MessagePack :=
  packRecord ([("name", .text p.name), ("duration_ms", .double p.duration.toBits)] ++
    if p.note.isEmpty then [] else [("note", .text p.note)])

/-- The packed form of a result. -/
def pack (e : CacheEntry) : MessagePack :=
  packRecord [("Schema", .integer .unsigned16 e.layout.toNat), ("Path", .text e.path),
    ("Diagnostics", packList packDiagnostic e.diagnostics),
    ("Timings", packRecord [("total_ms", .double e.total.toBits),
      ("phases", (e.phases.map fun ps => .array (ps.map packPhase)).getD .nil)]),
    ("Broken", .bool e.isBroken)]

/-! ## Unpacking -/

/-- A number modulo `2 ^ 64`; nothing is zero. -/
def asNumber? : MessagePack → Option Nat
  | .nil => some 0
  | .integer _ n => some (n.emod (2 ^ 64)).toNat
  | _ => none

def asText? : MessagePack → Option Bytes
  | .nil => some []
  | .text s => some s
  | .binary s => some s
  | _ => none

def asBool? : MessagePack → Option Bool
  | .nil => some false
  | .bool b => some b
  | _ => none

def asDouble? : MessagePack → Option Float
  | .nil => some 0
  | .double bits => some (Float.ofBits bits)
  | .single bits => some (Float32.ofBits bits).toFloat
  | .integer _ n => some (Float.ofInt (Int.bmod n (2 ^ 64)))
  | _ => none

/-- A field of a record: its name, and how its packed value changes the record. -/
structure Field (α : Type) where
  name : String
  read : MessagePack → α → Option α

/-- A field that holds a value of its own. -/
def Field.plain {α β : Type} (name : String) (unpack : MessagePack → Option β) (set : α → β → α) : Field α :=
  ⟨name, fun packed record => (unpack packed).map (set record)⟩

/-- Reads a record over an older one. -/
def unpackRecord {α : Type} (blank : α) (fields : List (Field α)) (packed : MessagePack) (old : α) :
    Option α :=
  match packed with
  | .nil => some blank
  | .map pairs =>
    pairs.foldlM (fun record (key, value) => do
      let name ← asText? key
      match fields.find? fun f => Bytes.ofString f.name == name with
      | some f => f.read value record
      | none => some record) old
  | .array items =>
    if items.isEmpty then some blank
    else if items.length = fields.length then
      (fields.zip items).foldlM (fun record (f, value) => f.read value record) old
    else none
  | _ => none

/-- Reads a list over an older one, item by item. -/
def unpackList {α : Type} (blank : α) (unpack : MessagePack → α → Option α) (packed : MessagePack)
    (old : List α) : Option (List α) :=
  match packed with
  | .nil => some []
  | .array items => items.zipIdx.mapM fun (item, i) => unpack item (old[i]?.getD blank)
  | _ => none

def asWord? (packed : MessagePack) : Option UInt32 := (asNumber? packed).map UInt32.ofNat

def unpackPoint : MessagePack → Point → Option Point :=
  unpackRecord {} [.plain "Row" asWord? fun p n => { p with row := n },
    .plain "Column" asWord? fun p n => { p with column := n }]

def unpackSpan : MessagePack → Span → Option Span :=
  unpackRecord {} [⟨"Start", fun v s => (unpackPoint v s.start).map fun p => { s with start := p }⟩,
    ⟨"End", fun v s => (unpackPoint v s.stop).map fun p => { s with stop := p }⟩]

def blankNote : Note := ⟨{}, []⟩

def unpackNote : MessagePack → Note → Option Note :=
  unpackRecord blankNote [⟨"Span", fun v n => (unpackSpan v n.span).map fun s => { n with span := s }⟩,
    .plain "Msg" asText? fun n s => { n with message := s }]

def blankDiagnostic : Diagnostic := ⟨⟨0⟩, ⟨0⟩, [], {}, []⟩

def unpackDiagnostic : MessagePack → Diagnostic → Option Diagnostic :=
  unpackRecord blankDiagnostic [
    .plain "Severity" asNumber? fun d n => { d with severity := ⟨UInt8.ofNat n⟩ },
    .plain "Code" asNumber? fun d n => { d with code := ⟨UInt16.ofNat n⟩ },
    .plain "Message" asText? fun d s => { d with message := s },
    ⟨"Primary", fun v d => (unpackSpan v d.span).map fun s => { d with span := s }⟩,
    ⟨"Notes", fun v d => (unpackList blankNote unpackNote v d.notes).map fun ns => { d with notes := ns }⟩]

def blankPhase : Timing.Phase := ⟨[], 0, []⟩

def unpackPhase : MessagePack → Timing.Phase → Option Timing.Phase :=
  unpackRecord blankPhase [.plain "name" asText? fun p s => { p with name := s },
    .plain "duration_ms" asDouble? fun p x => { p with duration := x },
    .plain "note" asText? fun p s => { p with note := s }]

/-- Reads the timings of a result. -/
def unpackTimings (packed : MessagePack) (e : CacheEntry) : Option CacheEntry :=
  unpackRecord { e with total := 0, phases := none } [
    .plain "total_ms" asDouble? fun e x => { e with total := x },
    ⟨"phases", fun v e => (unpackList blankPhase unpackPhase v (e.phases.getD [])).map fun ps =>
      { e with phases := some ps }⟩] packed e

/-- Reads a packed result. -/
def unpack? (packed : MessagePack) : Option CacheEntry :=
  unpackRecord {} [
    .plain "Schema" asNumber? fun e n => { e with layout := UInt16.ofNat n },
    .plain "Path" asText? fun e s => { e with path := s },
    ⟨"Diagnostics", fun v e => (unpackList blankDiagnostic unpackDiagnostic v e.diagnostics).map fun ds =>
      { e with diagnostics := ds }⟩,
    ⟨"Timings", unpackTimings⟩,
    .plain "Broken" asBool? fun e b => { e with isBroken := b }] packed {}

/-- The bytes in which a result is kept. -/
def encode (e : CacheEntry) : Bytes := e.pack.encode

/-- Reads the bytes of a result; what stands behind it does not matter. -/
def decode? (s : Bytes) : Option CacheEntry := (MessagePack.decode? s).bind fun (packed, _) => unpack? packed

end CacheEntry

end SecurityRules
