import SecurityRules.Number.Signed
import SecurityRules.Text.Quoted

/-!
# Framed messages

A message is sent as header lines, an empty line, and as many bytes as the header `Content-Length` says. Other
headers are skipped; of several lengths the last one counts.
-/

namespace SecurityRules.Server

/-- The most bytes that one message may have. -/
def maxMessageSize : Nat := 67108864

/-- Why input is no sequence of framed messages. -/
inductive FrameError where
  | noLength
  | badLength (value : Bytes)
  | tooLong (size : Nat)
  /-- The input ended inside a message. -/
  | cutOff
deriving Repr, DecidableEq

def FrameError.message : FrameError → Bytes
  | noLength => "missing Content-Length header"
  | badLength value => "invalid Content-Length " ++ Text.quoted value
  | tooLong size =>
    "message of " ++ Bytes.decimal size ++ " bytes exceeds limit of " ++ Bytes.decimal maxMessageSize
  | cutOff => "read payload: unexpected EOF"

/-- What stands at the head of the input. -/
inductive FrameRead where
  /-- A whole message and what follows it. -/
  | message (payload rest : Bytes)
  | failed (error : FrameError)
  /-- The header is not complete. -/
  | needHeader
  /-- The header is complete; of the payload only `got` bytes are there and `missing` ones are not. -/
  | needPayload (got missing : Nat)
deriving Repr

namespace Frame

/-- Drops line ends at the end of a text. -/
def dropLineEnd (line : Bytes) : Bytes :=
  (line.reverse.dropWhile fun b => b == 0x0D || b == 0x0A).reverse

/-- The value of a length header; none for any other line. -/
def lengthHeader? (line : Bytes) : Option Bytes :=
  match Bytes.cut? 0x3A line with
  | none => none
  | some (name, value) =>
    if (Text.trimBlanks name).map Bytes.toLowerByte == Bytes.ofString "content-length" then
      some (Text.trimBlanks value)
    else none

/-- The length that a header line gives, if it is one. -/
def lengthOf (line : Bytes) (known : Option Nat) : Except FrameError (Option Nat) :=
  match lengthHeader? line with
  | none => .ok known
  | some value =>
    match Number.signed? value with
    | none => .error (.badLength value)
    | some n =>
      if n < 0 then .error (.badLength value)
      else if (maxMessageSize : Int) < n then .error (.tooLong n.toNat)
      else .ok (some n.toNat)

/-- The payload behind a header. -/
def payload (size : Nat) (s : Bytes) : FrameRead :=
  if s.length < size then .needPayload s.length (size - s.length) else .message (s.take size) (s.drop size)

theorem length_lt_of_cut? {b : UInt8} {s left right : Bytes} (h : Bytes.cut? b s = some (left, right)) :
    right.length < s.length := by
  induction s generalizing left with
  | nil => simp [Bytes.cut?] at h
  | cons a rest ih =>
    simp only [Bytes.cut?] at h
    split at h
    · obtain ⟨-, rfl⟩ := by simpa using h
      simp
    · obtain ⟨⟨l, r⟩, found, same⟩ := Option.map_eq_some_iff.mp h
      obtain ⟨-, rfl⟩ := by simpa using same
      exact Nat.lt_succ_of_lt (ih found)

/-- Reads header lines up to the empty one, and the payload. -/
def read (known : Option Nat) (s : Bytes) : FrameRead :=
  match _cut : Bytes.cut? 0x0A s with
  | none => .needHeader
  | some (line, rest) =>
    let line := dropLineEnd line
    if line.isEmpty then
      match known with
      | none => .failed .noLength
      | some size => payload size rest
    else
      match lengthOf line known with
      | .error e => .failed e
      | .ok known => read known rest
termination_by s.length
decreasing_by exact length_lt_of_cut? (by assumption)

/-- The first message of the input. -/
def next (s : Bytes) : FrameRead := read none s

/-- A payload with its header. -/
def write (payload : Bytes) : Bytes :=
  "Content-Length: " ++ Bytes.decimal payload.length ++ "\r\n\r\n" ++ payload

end Frame

end SecurityRules.Server
