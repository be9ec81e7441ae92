import SecurityRules.Json
import SecurityRules.Number.Signed
import SecurityRules.Text.Lower

/-!
# Records in JSON

Values of a known shape. The case of ASCII letters in names does not matter, nor do names that the shape does
not have. A name may be given several times: then a later value takes the place of an earlier one, records are
merged, and `null` says nothing new. A value of the wrong kind spoils the whole record.
-/

namespace SecurityRules.Json

/-- The members of a record. -/
abbrev Members := List (Bytes × Json)

/-- All values given for a name, in order. -/
def Members.values (ms : Members) (name : String) : List Json :=
  (ms.filter fun (given, _) => Text.foldName given == Text.foldName name).map (·.2)

/-- The last value given for a name, as it stands. -/
def Members.raw? (ms : Members) (name : String) : Option Json := (ms.values name).getLast?

/-- A value from all that are given for it, where `null` keeps what was there. -/
def latest {α : Type} (read : Json → Option α) (start : α) (given : List Json) : Option α :=
  given.foldlM (fun old value =>
    match value with
    | null => some old
    | value => read value) start

/-- The same for a value that `null` takes away. -/
def latest? {α : Type} (read : Json → Option α) (given : List Json) : Option (Option α) :=
  given.foldlM (fun _ value =>
    match value with
    | null => some none
    | value => (read value).map some) none

def asText? : Json → Option Bytes
  | string s => some s
  | _ => none

def asBool? : Json → Option Bool
  | bool b => some b
  | _ => none

/-- An integer between two bounds, written without fraction and exponent. -/
def asInteger? (low high : Int) : Json → Option Int
  | number spelling => (Number.signed? spelling).filter fun n => low ≤ n && n ≤ high
  | _ => none

/-- A signed 32-bit number. -/
def asSigned32? : Json → Option Int := asInteger? (-2147483648) 2147483647

/-- A signed 64-bit number. -/
def asSigned64? : Json → Option Int := asInteger? (-Number.maxSigned - 1) Number.maxSigned

/-- An unsigned 32-bit number; no sign may stand in front of it. -/
def asWord? : Json → Option UInt32
  | number spelling =>
    ((Bytes.digits? spelling).filter fun n => decide (n < 4294967296)).map UInt32.ofNat
  | _ => none

def asArray? : Json → Option (List Json)
  | array items => some items
  | _ => none

/-- The members of all records given for one name. -/
def merged (given : List Json) : Option Members :=
  given.foldlM (fun members value =>
    match value with
    | null => some members
    | object more => some (members ++ more)
    | _ => none) []

/-- The same where `null` takes away what was given before. Each record is read when it is met. -/
def merged? {α : Type} (read : Members → Option α) (given : List Json) : Option (Option α) := do
  let members ← given.foldlM (fun (members : Option Members) value =>
    match value with
    | null => some none
    | object more => (read more).map fun _ => some (members.getD [] ++ more)
    | _ => none) none
  match members with
  | none => return none
  | some members => return some (← read members)

/-- The members of a value as a whole. -/
def members? (value : Json) : Option Members := merged [value]

namespace Members

def text (ms : Members) (name : String) : Option Bytes := latest asText? [] (ms.values name)

def text? (ms : Members) (name : String) : Option (Option Bytes) := latest? asText? (ms.values name)

def bool? (ms : Members) (name : String) : Option (Option Bool) := latest? asBool? (ms.values name)

def signed32 (ms : Members) (name : String) : Option Int := latest asSigned32? 0 (ms.values name)

def signed64 (ms : Members) (name : String) : Option Int := latest asSigned64? 0 (ms.values name)

def signed64? (ms : Members) (name : String) : Option (Option Int) :=
  latest? asSigned64? (ms.values name)

def word (ms : Members) (name : String) : Option UInt32 := latest asWord? 0 (ms.values name)

def record (ms : Members) (name : String) : Option Members := merged (ms.values name)

/-- The items of a list; `null` is the empty one. -/
def list {α : Type} (ms : Members) (name : String) (read : Json → Option α) : Option (List α) := do
  let items ← latest? (fun value => (asArray? value).bind fun items => items.mapM read) (ms.values name)
  return items.getD []

end Members

end SecurityRules.Json
