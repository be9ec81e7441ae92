import SecurityRules.Text.Quoted
import SecurityRules.Text.Utf8

/-!
# JSON values

Objects keep the order of their members and numbers their spelling.
-/

namespace SecurityRules

/-- A JSON value. -/
inductive Json where
  | null
  | bool (value : Bool)
  | number (spelling : Bytes)
  | string (value : Bytes)
  | array (items : List Json)
  | object (members : List (Bytes × Json))
deriving Repr, Inhabited

namespace Json

def ofNat (n : Nat) : Json := number (Bytes.decimal n)

def ofInt (n : Int) : Json := number (Bytes.decimalInt n)

def ofWord (n : UInt32) : Json := ofNat n.toNat

def ofText (s : String) : Json := string s

/-- An object with names from literals. -/
def fields (members : List (String × Json)) : Json :=
  object (members.map fun (name, value) => (Bytes.ofString name, value))

/-- A member that is left out when a number is zero. -/
def unlessZero (name : String) (n : UInt32) : List (String × Json) :=
  if n = 0 then [] else [(name, ofWord n)]

/-- A member that is left out when a text is empty. -/
def unlessEmpty (name : String) (s : Bytes) : List (String × Json) :=
  if s.isEmpty then [] else [(name, string s)]

/-!
## Writing

Two layouts: on one line, and indented by two spaces with a member or item a line. Characters with a meaning
in HTML and the line separators U+2028 and U+2029 are escaped; malformed bytes become U+FFFD.
-/

/-- Four hexadecimal digits behind `\u`. -/
def unicodeEscape (code : Nat) : Bytes := "\\u" ++ Bytes.hexOf 4 code

/-- One character inside a string. -/
def writeCharacter (raw : Bytes) (d : Utf8.Decoded) : Bytes :=
  if Utf8.isMalformed d then Utf8.encode Utf8.replacementCode
  else
    match d.code with
    | 0x22 => "\\\""
    | 0x5C => "\\\\"
    | 0x08 => "\\b"
    | 0x0C => "\\f"
    | 0x0A => "\\n"
    | 0x0D => "\\r"
    | 0x09 => "\\t"
    | code =>
      if code < 0x20 || code == 0x3C || code == 0x3E || code == 0x26 || code == 0x2028 ||
          code == 0x2029 then
        unicodeEscape code
      else raw

/-- A string with its quotes. -/
def writeString (s : Bytes) : Bytes :=
  "\"" ++ ((Text.characters s).flatMap fun (raw, d) => writeCharacter raw d) ++ "\""

mutual

/-- The value on one line, without blanks. -/
def compact : Json → Bytes
  | null => "null"
  | bool true => "true"
  | bool false => "false"
  | number spelling => spelling
  | string s => writeString s
  | array items => "[" ++ Bytes.join "," (compactItems items) ++ "]"
  | object members => "\x7b" ++ Bytes.join "," (compactMembers members) ++ "\x7d"

/-- Each item on its own. -/
def compactItems : List Json → List Bytes
  | [] => []
  | item :: rest => compact item :: compactItems rest

/-- Each member on its own. -/
def compactMembers : List (Bytes × Json) → List Bytes
  | [] => []
  | (name, value) :: rest => (writeString name ++ ":" ++ compact value) :: compactMembers rest

end

/-- A line feed and two spaces for each level. -/
def newLine (level : Nat) : Bytes := "\n" ++ Bytes.fill (2 * level) 0x20

/-- Parts between brackets, a line each; empty brackets stay together. -/
def bracketed (level : Nat) (left right : String) (parts : List Bytes) : Bytes :=
  if parts.isEmpty then left ++ Bytes.ofString right
  else
    left ++ newLine (level + 1) ++ Bytes.join ("," ++ newLine (level + 1)) parts ++ newLine level ++
      right

mutual

/-- The value with a member or item a line, inside `level` brackets. -/
def indentedAt (level : Nat) : Json → Bytes
  | null => "null"
  | bool true => "true"
  | bool false => "false"
  | number spelling => spelling
  | string s => writeString s
  | array items => bracketed level "[" "]" (indentedItems (level + 1) items)
  | object members => bracketed level "\x7b" "\x7d" (indentedMembers (level + 1) members)

/-- Each item on its own. -/
def indentedItems (level : Nat) : List Json → List Bytes
  | [] => []
  | item :: rest => indentedAt level item :: indentedItems level rest

/-- Each member on its own. -/
def indentedMembers (level : Nat) : List (Bytes × Json) → List Bytes
  | [] => []
  | (name, value) :: rest =>
    (writeString name ++ ": " ++ indentedAt level value) :: indentedMembers level rest

end

/-- The indented value and a line feed. -/
def indented (j : Json) : Bytes := indentedAt 0 j ++ "\n"

end Json

end SecurityRules
