import SecurityRules.SlashPath
import SecurityRules.Text.Bytes
import SecurityRules.Text.Letter
import SecurityRules.Text.Utf8

/-!
# File URIs

Editors name documents by URIs such as `file:///tmp/a%20b.rules`. A path is taken out of such a URI if it is
well formed; what names a host is checked and then dropped.
-/

namespace SecurityRules.HostAddress

/-!
## Addresses of hosts

An address is eight groups of up to four hexadecimal digits with colons between them. Two colons next to each other
stand for one or more groups that are zero, once in an address. The last two groups may be written as four decimal
numbers with dots between them.
-/

/-- Whether a text is one to four hexadecimal digits. -/
def isGroup (s : Bytes) : Bool :=
  !s.isEmpty && s.length ≤ 4 && s.all fun b => (Bytes.hexValue? b).isSome

/-- Whether a text is a number below 256 without zeros in front. -/
def isSmallNumber (s : Bytes) : Bool :=
  match Bytes.digits? s with
  | none => false
  | some n => n < 256 && (s.length == 1 || s.head? != some 0x30)

/-- Whether a text is four decimal numbers with dots between them. -/
def isDotted (s : Bytes) : Bool :=
  let numbers := Bytes.splitOn 0x2E s
  numbers.length == 4 && numbers.all isSmallNumber

/-- How many groups the pieces between colons stand for; none if a piece is malformed. Only the last piece may have
dots. -/
def groupCount? : List Bytes → Option Nat
  | [] => some 0
  | [piece] => if isGroup piece then some 1 else if isDotted piece then some 2 else none
  | piece :: rest => if isGroup piece then (groupCount? rest).map (· + 1) else none

/-- The pieces between colons; an empty text has none. -/
def pieces (s : Bytes) : List Bytes := if s.isEmpty then [] else Bytes.splitOn 0x3A s

/-- Whether a text is an address. -/
def isAddress (s : Bytes) : Bool :=
  match Bytes.cutBefore? "::" s with
  | none => groupCount? (pieces s) == some 8
  | some (left, right) =>
    let left := pieces left
    match groupCount? (pieces (right.drop 2)) with
    | none => false
    | some count => left.all isGroup && left.length + count < 8

end SecurityRules.HostAddress

namespace SecurityRules.FileUri

/-! ## Paths of documents -/

/-- What a file URI starts with. -/
def scheme : Bytes := "file://"

/-- Letters, digits and the signs that never need an escape. -/
def isUnreserved (b : UInt8) : Bool :=
  Bytes.isDigit b || (0x41 ≤ b && b ≤ 0x5A) || (0x61 ≤ b && b ≤ 0x7A) ||
    (Bytes.ofString "-_.~").elem b

/-- The bytes that stand for themselves in a path. -/
def isPathByte (b : UInt8) : Bool := isUnreserved b || (Bytes.ofString "$&+,/:;=@").elem b

/-- The ASCII bytes that stand for themselves in the name of a host. -/
def isHostByte (b : UInt8) : Bool :=
  isUnreserved b || (Bytes.ofString "!$&'()*+,;=:[]<>\"").elem b

/-- The upper-case hexadecimal digit of a number below sixteen. -/
def hexDigit (n : Nat) : UInt8 := UInt8.ofNat (if n < 10 then 0x30 + n else 0x37 + n)

/-- One byte of a path. -/
def escapeByte (b : UInt8) : Bytes :=
  if isPathByte b then [b] else [0x25, hexDigit (b.toNat / 16), hexDigit (b.toNat % 16)]

/-- A path with its escapes. -/
def escape (path : Bytes) : Bytes := path.flatMap escapeByte

/-- Resolves escapes. Fails on an escape that is malformed or not allowed, and on a byte that is not
allowed. -/
def unescape? (allowEscape allowByte : UInt8 → Bool) : Bytes → Option Bytes
  | [] => some []
  | [b] => if b == 0x25 || !allowByte b then none else some [b]
  | [a, b] =>
    if a == 0x25 || b == 0x25 || !allowByte a || !allowByte b then none else some [a, b]
  | a :: b :: c :: rest =>
    if a == 0x25 then
      match Bytes.hexValue? b, Bytes.hexValue? c with
      | some high, some low =>
        let value := UInt8.ofNat (high * 16 + low)
        if allowEscape value then (unescape? allowEscape allowByte rest).map (value :: ·) else none
      | _, _ => none
    else if allowByte a then (unescape? allowEscape allowByte (b :: c :: rest)).map (a :: ·)
    else none

/-- A path without its escapes. -/
def unescapePath? (path : Bytes) : Option Bytes := unescape? (fun _ => true) (fun _ => true) path

/-- Whether a name of a host is well formed: only bytes beyond ASCII and the percent sign may be escaped. -/
def isHostName (host : Bytes) : Bool :=
  (unescape? (fun b => 0x80 ≤ b || b == 0x25) (fun b => 0x80 ≤ b || isHostByte b) host).isSome

/-- Whether a text is empty or a colon with digits. -/
def isOptionalPort : Bytes → Bool
  | [] => true
  | b :: digits => b == 0x3A && digits.all Bytes.isDigit

/-- Whether a zone of an address is well formed. -/
def isZone (zone : Bytes) : Bool :=
  (unescape? (fun b => b == 0x25 || b == 0x20 || isHostByte b)
    (fun b => 0x80 ≤ b || isHostByte b) zone).isSome

/-- Whether the text between brackets is an address. A zone behind the address starts with an escaped percent sign
and must not be empty. -/
def isBracketed (address : Bytes) : Bool :=
  match Bytes.cutBefore? "%25" address with
  | none => HostAddress.isAddress address
  | some (address, zone) => HostAddress.isAddress address && 3 < zone.length && isZone zone

/-- Whether the text behind the user is a host with an optional port. Only an address stands between brackets, and
only at the start. -/
def isHost (host : Bytes) : Bool :=
  if host.head? == some 0x5B then
    match Bytes.cutLast? 0x5D (host.drop 1) with
    | none => false
    | some (address, port) => !address.elem 0x5B && isBracketed address && isOptionalPort port
  else if host.elem 0x5B then false
  else
    match Bytes.cutLast? 0x3A host with
    | some (_, port) => port.all Bytes.isDigit && isHostName host
    | none => isHostName host

/-- The bytes that may name a user. -/
def isUserByte (b : UInt8) : Bool :=
  Bytes.isDigit b || (0x41 ≤ b && b ≤ 0x5A) || (0x61 ≤ b && b ≤ 0x7A) ||
    (Bytes.ofString "-._:~!$&'()*+,;=%@").elem b

/-- Whether the part between the slashes in front of the path is well formed. -/
def isAuthority (authority : Bytes) : Bool :=
  match Bytes.cutLast? 0x40 authority with
  | none => isHost authority
  | some (user, host) =>
    isHost host && user.all isUserByte && ((Bytes.splitOn 0x3A user).all fun part =>
      (unescapePath? part).isSome)

/-- Whether a byte is a control character. -/
def isControl (b : UInt8) : Bool := b < 0x20 || b == 0x7F

/-- Whether a path starts with a drive letter and a colon. -/
def hasDrive (path : Bytes) : Bool :=
  match path with
  | letter :: 0x3A :: _ :: _ :: _ => Text.isLetter letter.toNat
  | _ => false

/-- A path without the slash in front of a drive. -/
def dropDriveSlash (path : Bytes) : Bytes :=
  match path with
  | 0x2F :: letter :: 0x3A :: rest =>
    if Text.isLetter letter.toNat && !rest.isEmpty then letter :: 0x3A :: rest else path
  | _ => path

/-- The path in a file URI; none if it is not a well-formed file URI. A query is dropped. -/
def parse? (uri : Bytes) : Option Bytes :=
  match Bytes.after? scheme uri with
  | none => none
  | some rest =>
    if uri.any isControl then none
    else
      let hierarchy := (rest.takeWhile (· != 0x3F))
      let authority := hierarchy.takeWhile (· != SlashPath.slash)
      if !isAuthority authority then none
      else (unescapePath? (hierarchy.drop authority.length)).map dropDriveSlash

/-- The path in a URI, empty if there is none. -/
def toPath (uri : Bytes) : Bytes := (parse? uri).getD []

/-- How a document is named to readers: by its path, or else by its URI. -/
def displayPath (uri : Bytes) : Bytes := if (toPath uri).isEmpty then uri else toPath uri

/-- The URI of a path, given the working directory. Paths with a drive are absolute; an empty path has an empty
URI. -/
def ofPath (workingDirectory path : Bytes) : Bytes :=
  if path.isEmpty then []
  else
    let path := if hasDrive path then path else SlashPath.absolute workingDirectory path
    let path := if hasDrive path then SlashPath.slash :: path else path
    scheme ++ escape path

end SecurityRules.FileUri
