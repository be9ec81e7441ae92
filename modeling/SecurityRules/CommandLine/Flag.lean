import SecurityRules.Number.Signed
import SecurityRules.Text.Quoted

/-!
# Flags of the command line

A flag has a name behind two dashes, and some have a letter behind one. Switches stand alone or with their
value behind an equals sign; other flags have their value there or in the next word. The last value counts.
-/

namespace SecurityRules.CommandLine

/-- The value of a flag, which also says what kind of flag it is. -/
inductive FlagValue where
  | switch (on : Bool)
  | number (n : Int)
  | text (s : Bytes)
deriving Repr, DecidableEq

/-- A flag, with the value it has if it is not given. -/
structure Flag where
  name : String
  /-- The letter of a switch. -/
  letter : Option UInt8 := none
  initial : FlagValue
  usage : String
deriving Repr, DecidableEq

namespace Flag

/-- Whether the flag can stand without a value. -/
def isSwitch (f : Flag) : Bool :=
  match f.initial with
  | .switch _ => true
  | _ => false

/-- The flag as it is given, in its forms. -/
def forms (f : Flag) : Bytes :=
  match f.letter with
  | some letter => "-" ++ [letter] ++ ", --" ++ Bytes.ofString f.name
  | none => "--" ++ Bytes.ofString f.name

end Flag

/-- Why a value does not fit a flag. -/
inductive ValueError where
  | switch
  | number (cause : Number.LiteralError)
deriving Repr, DecidableEq

/-- The reason in words. -/
def ValueError.message (value : Bytes) : ValueError → Bytes
  | .switch => "strconv.ParseBool: parsing " ++ Text.quoted value ++ ": invalid syntax"
  | .number cause => "strconv.ParseInt: parsing " ++ Text.quoted value ++ ": " ++ cause.message

/-- The words for on and off. -/
def switchOf? (value : Bytes) : Option Bool :=
  let words (names : List String) : Bool := names.any fun name => Bytes.ofString name == value
  if words ["1", "t", "T", "TRUE", "true", "True"] then some true
  else if words ["0", "f", "F", "FALSE", "false", "False"] then some false
  else none

/-- Reads a value of the kind of a flag. -/
def Flag.read (f : Flag) (value : Bytes) : Except ValueError FlagValue :=
  match f.initial with
  | .switch _ =>
    match switchOf? value with
    | some on => .ok (.switch on)
    | none => .error .switch
  | .number _ =>
    match Number.literal value with
    | .ok n => .ok (.number n)
    | .error cause => .error (.number cause)
  | .text _ => .ok (.text value)

/-- What is wrong with the flags of a command line. -/
inductive FlagError where
  | unknown (name : Bytes)
  | unknownLetter (letter : UInt8) (letters : Bytes)
  | missingValue (word : Bytes)
  | malformed (word : Bytes)
  | invalidValue (flag : Flag) (value : Bytes) (cause : ValueError)
deriving Repr, DecidableEq

/-- A character between single quotes. -/
def quotedLetter (letter : UInt8) : Bytes :=
  let inner : Bytes :=
    if letter == 0x27 then "\\'"
    else if letter == 0x22 then "\""
    else
      let raw := Utf8.encode letter.toNat
      Text.quoteCharacter raw ⟨letter.toNat, raw.length⟩
  "'" ++ inner ++ "'"

def FlagError.message : FlagError → Bytes
  | .unknown name => "unknown flag: --" ++ name
  | .unknownLetter letter letters =>
    "unknown shorthand flag: " ++ quotedLetter letter ++ " in -" ++ letters
  | .missingValue word => "flag needs an argument: " ++ word
  | .malformed word => "bad flag syntax: " ++ word
  | .invalidValue flag value cause =>
    "invalid argument " ++ Text.quoted value ++ " for " ++ Text.quoted flag.forms ++ " flag: " ++
      cause.message value

/-- The values that were given, the last of them first, and the words that are no flags. -/
structure Given where
  values : List (String × FlagValue) := []
  arguments : List Bytes := []

namespace Given

/-- Whether a flag was given. -/
def has (g : Given) (name : String) : Bool := g.values.any fun (other, _) => other == name

/-- The text of a flag; `initial` if it was not given. -/
def text (g : Given) (name : String) (initial : Bytes := []) : Bytes :=
  match g.values.lookup name with
  | some (.text s) => s
  | _ => initial

/-- Whether a switch is on. -/
def isOn (g : Given) (name : String) : Bool :=
  match g.values.lookup name with
  | some (.switch on) => on
  | _ => false

/-- The number of a flag, if it was given. -/
def number? (g : Given) (name : String) : Option Int :=
  match g.values.lookup name with
  | some (.number n) => some n
  | _ => none

/-- Takes over a value. -/
def set (g : Given) (flag : Flag) (value : Bytes) : Except FlagError Given :=
  match flag.read value with
  | .ok v => .ok { g with values := (flag.name, v) :: g.values }
  | .error cause => .error (.invalidValue flag value cause)

end Given

/-- The flag with a name. -/
def named? (flags : List Flag) (name : Bytes) : Option Flag :=
  flags.find? fun f => Bytes.ofString f.name == name

/-- Whether a word starts with a dash and has more than that. -/
def isFlagWord : Bytes → Bool
  | 0x2D :: _ :: _ => true
  | _ => false

/-- Reads the letters behind one dash. -/
def readLetters (flags : List Flag) : Bytes → Given → Except FlagError Given
  | [], g => .ok g
  | letter :: rest, g =>
    if (Bytes.ofString "test.").isPrefixOf (letter :: rest) then .ok g
    else
      match flags.find? fun f => f.letter == some letter with
      | none => .error (.unknownLetter letter (letter :: rest))
      | some flag =>
        match rest with
        | 0x3D :: b :: value => g.set flag (b :: value)
        | rest =>
          match g.set flag "true" with
          | .error e => .error e
          | .ok g => readLetters flags rest g

/-- Reads the words of a command line. Two dashes alone end the flags. -/
def readWords (flags : List Flag) : List Bytes → Given → Except FlagError Given
  | [], g => .ok g
  | word :: rest, g =>
    if !isFlagWord word then readWords flags rest { g with arguments := g.arguments ++ [word] }
    else
      match word with
      | [0x2D, 0x2D] => .ok { g with arguments := g.arguments ++ rest }
      | 0x2D :: 0x2D :: body =>
        let (name, value?) := match Bytes.cut? 0x3D body with
          | some (name, value) => (name, some value)
          | none => (body, none)
        if name.isEmpty || name.head? == some 0x2D then .error (.malformed word)
        else
          match named? flags name with
          | none => .error (.unknown name)
          | some flag =>
            match value? with
            | some value =>
              match g.set flag value with
              | .error e => .error e
              | .ok g => readWords flags rest g
            | none =>
              if flag.isSwitch then
                match g.set flag "true" with
                | .error e => .error e
                | .ok g => readWords flags rest g
              else
                match rest with
                | [] => .error (.missingValue word)
                | value :: rest =>
                  match g.set flag value with
                  | .error e => .error e
                  | .ok g => readWords flags rest g
      | _ =>
        match readLetters flags (word.drop 1) g with
        | .error e => .error e
        | .ok g => readWords flags rest g

end SecurityRules.CommandLine
