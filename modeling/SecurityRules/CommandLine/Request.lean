import SecurityRules.CommandLine.Command
import SecurityRules.Text.Bytes
import SecurityRules.Text.Lower

/-!
# What a command line asks for

The words that are no flags lead from the program to a command as far as they name commands; what is left goes
to that command.
-/

namespace SecurityRules.Text

/-! ## Edit distance -/

/-- The next row of the table of distances: `above` is the row for one byte of `s` less, `left` the entry just
computed. -/
def distanceRow (b : UInt8) : (t : Bytes) → (diagonal : Nat) → (above : List Nat) → (left : Nat) → List Nat
  | c :: t, diagonal, up :: above, left =>
    let entry := if b = c then diagonal else min diagonal (min up left) + 1
    entry :: distanceRow b t up above entry
  | _, _, _, _ => []

/-- The last row of the table for `s` and `t`, given the row for what stands before `s`. -/
def distanceRows (t : Bytes) : (s : Bytes) → (row : List Nat) → List Nat
  | [], row => row
  | b :: s, row =>
    match row with
    | [] => []
    | first :: above => distanceRows t s ((first + 1) :: distanceRow b t first above (first + 1))

/-- The least number of bytes to insert, drop or replace on the way from `s` to `t`. -/
def editDistance (s t : Bytes) : Nat :=
  (distanceRows t s (List.range (t.length + 1))).getLast?.getD 0

end SecurityRules.Text

namespace SecurityRules.CommandLine

/-! ## Requests -/

/-- What is wrong with a command line. -/
inductive UsageError where
  | flag (e : FlagError)
  | unknownCommand (name owner : Bytes) (suggestions : List String)
  | argumentCount (expected given : Nat)
deriving Repr, DecidableEq

def UsageError.message : UsageError → Bytes
  | .flag e => e.message
  | .unknownCommand name owner suggestions =>
    let hint : Bytes := if suggestions.isEmpty then "" else
      "\n\nDid you mean this?\n" ++ (suggestions.flatMap fun s => Bytes.ofString ("\t" ++ s ++ "\n"))
    "unknown command " ++ Text.quoted name ++ " for " ++ Text.quoted owner ++ hint
  | .argumentCount expected given =>
    "accepts " ++ Bytes.decimal expected ++ " arg(s), received " ++ Bytes.decimal given

/-- What a command line asks for. -/
inductive Request where
  | run (command : Command) (action : Action) (given : Given)
  | help (command : Command)
  | version
  | refused (e : UsageError)

/-- Whether a flag is known to stand alone. -/
def standsAlone (flag : Option Flag) : Bool := (flag.map Flag.isSwitch).getD false

/-- Whether the word behind a word is taken for its value. This is so for every flag that is not known to stand
alone. -/
def takesNext (flags : List Flag) (word : Bytes) : Bool :=
  if word.elem 0x3D then false
  else
    match word with
    | 0x2D :: 0x2D :: name => !standsAlone (named? flags name)
    | [0x2D, letter] => !standsAlone (flags.find? fun f => f.letter == some letter)
    | _ => false

/-- Whether a word cannot be a flag. -/
def isPlain (word : Bytes) : Bool := word.head? != some 0x2D

/-- Two dashes, which end the flags. -/
def endOfFlags : Bytes := "--"

/-- The words that are neither flags nor their values. The value of a flag needs a word behind it. -/
def plainWords (flags : List Flag) : List Bytes → List Bytes
  | [] => []
  | word :: rest =>
    if word = endOfFlags then []
    else if takesNext flags word then
      match rest with
      | _ :: next :: more => plainWords flags (next :: more)
      | _ => []
    else if !word.isEmpty && isPlain word then word :: plainWords flags rest
    else plainWords flags rest

/-- The words without the first plain one that equals `name`. -/
def withoutFirst (flags : List Flag) (name : Bytes) : List Bytes → List Bytes
  | [] => []
  | word :: rest =>
    if word = endOfFlags then word :: rest
    else if takesNext flags word then
      match rest with
      | [] => [word]
      | value :: rest => word :: value :: withoutFirst flags name rest
    else if isPlain word && word = name then rest
    else word :: withoutFirst flags name rest

/-- The command that words lead to, and the words left for it. Every step takes a word away, so their number is
fuel enough. -/
def find (c : Command) (words : List Bytes) : (fuel : Nat) → Command × List Bytes
  | 0 => (c, words)
  | fuel + 1 =>
    match plainWords c.searchFlags words with
    | [] => (c, words)
    | name :: _ =>
      match c.child? name with
      | none => (c, words)
      | some d => find d (withoutFirst c.searchFlags name words) fuel

/-- Whether a command does something, or one below it does; the help for commands is not counted. -/
def isAvailable (c : Command) : Bool :=
  c.action != some .help && (c.action.isSome || c.children.any (·.action.isSome))

/-- The commands whose names resemble a word: at most two letters differ, or the word is their beginning. -/
def suggestions (word : Bytes) : List String :=
  let word := Text.lowered word
  let resembles (c : Command) : Bool :=
    isAvailable c &&
      (Text.editDistance word c.name ≤ 2 || word.isPrefixOf (Bytes.ofString c.name))
  (program.children.filter resembles).map Command.name

/-- Finds a command from the program on. Only the program itself minds words that name no command. -/
def locate (words : List Bytes) : Except UsageError (Command × List Bytes) :=
  let (c, rest) := find program words words.length
  match plainWords c.searchFlags rest with
  | name :: _ =>
    if c.path.isEmpty then .error (.unknownCommand name c.fullName (suggestions name)) else .ok (c, rest)
  | [] => .ok (c, rest)

/-- Whether arguments fit a command. -/
def argumentFault? (c : Command) (arguments : List Bytes) : Option UsageError :=
  match c.arguments with
  | .any => none
  | .none => arguments.head?.map fun word => .unknownCommand word c.fullName []
  | .exactly n => if arguments.length = n then none else some (.argumentCount n arguments.length)

/-- Reads a command line. Asking for help goes before everything that is well formed, and a command without an
action is answered by its help. -/
def read (words : List Bytes) : Request :=
  match locate words with
  | .error e => .refused e
  | .ok (c, rest) =>
    match readWords c.allFlags rest {} with
    | .error e => .refused (.flag e)
    | .ok given =>
      if given.isOn "help" then .help c
      else if c.path.isEmpty && given.isOn "version" then .version
      else
        match c.action with
        | none => .help c
        | some action =>
          match argumentFault? c given.arguments with
          | some e => .refused e
          | none => .run c action given

end SecurityRules.CommandLine
