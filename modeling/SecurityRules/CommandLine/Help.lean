import SecurityRules.CommandLine.Request

/-!
# Help

What is printed about a command: what it does, how it is called, the commands below it and its flags.
-/

namespace SecurityRules.CommandLine

/-- The text without white space at its end. -/
def trimEnd (s : Bytes) : Bytes :=
  (s.reverse.dropWhile fun b => b == 0x20 || b == 0x0A || b == 0x09 || b == 0x0D).reverse

/-- What stands for the value of a flag. -/
def valueWord (f : Flag) : Bytes :=
  match f.initial with
  | .switch _ => ""
  | .number _ => " int"
  | .text _ => " string"

/-- A remark on the value of a flag that is not given, unless that is nothing. -/
def initialRemark (f : Flag) : Bytes :=
  match f.initial with
  | .switch false => ""
  | .switch true => " (default true)"
  | .number n => if n = 0 then "" else " (default " ++ Bytes.decimalInt n ++ ")"
  | .text s => if s.isEmpty then "" else " (default " ++ Text.quoted s ++ ")"

/-- A flag as it is given. -/
def flagWord (f : Flag) : Bytes :=
  let lead : Bytes := match f.letter with
    | some letter => "  -" ++ [letter] ++ ", "
    | none => "      "
  lead ++ "--" ++ Bytes.ofString f.name ++ valueWord f

/-- A line for each flag in the order of their names. -/
def flagLines (flags : List Flag) : Bytes :=
  let flags := flags.mergeSort fun f g => Bytes.notAfter (Bytes.ofString f.name) (Bytes.ofString g.name)
  let widest := (flags.map fun f => (flagWord f).length).foldl max 0
  flags.flatMap fun f =>
    flagWord f ++ Bytes.fill (widest - (flagWord f).length + 3) 0x20 ++
      (Bytes.ofString f.usage ++ initialRemark f ++ "\n")

/-- A heading with lines below it; nothing without lines. -/
def titled (heading : String) (lines : Bytes) : Bytes :=
  if lines.isEmpty then "" else "\n\n" ++ Bytes.ofString heading ++ "\n" ++ trimEnd lines

/-- A line for each command below a command in the order of their names. -/
def commandLines (c : Command) : Bytes :=
  let listed := (c.children.filter fun d => isAvailable d || d.action == some .help).mergeSort fun d e =>
    Bytes.notAfter (Bytes.ofString d.name) (Bytes.ofString e.name)
  let widest := (c.children.map fun d => (Bytes.ofString d.name).length).foldl max 11
  listed.flatMap fun d => "  " ++ Utf8.padRight widest d.name ++ " " ++ Bytes.ofString d.short ++ "\n"

/-- How a command is called. -/
def usage (c : Command) : Bytes :=
  let pattern := Bytes.enclosed " " c.pattern ""
  let calls : Bytes := if c.action.isSome then "\n  " ++ c.fullName ++ pattern ++ " [flags]" else ""
  let below : Bytes := if c.children.isEmpty then "" else "\n  " ++ c.fullName ++ " [command]"
  let own := c.flags ++ [c.helpFlag] ++ if c.path.isEmpty then Command.versionFlag :: globalFlags else []
  let inherited := if c.path.isEmpty then [] else globalFlags
  let closing : Bytes := if c.children.isEmpty then "" else
    "\n\nUse \"" ++ c.fullName ++ " [command] --help\" for more information about a command."
  "Usage:" ++ calls ++ below ++ titled "Available Commands:" (commandLines c) ++
    titled "Flags:" (flagLines own) ++ titled "Global Flags:" (flagLines inherited) ++ closing ++ "\n"

/-- The help for a command. -/
def help (c : Command) : Bytes :=
  let about : String := if c.long.isEmpty then c.short else c.long
  trimEnd about ++ "\n\n" ++ usage c

/-- The version of the program on one line. -/
def versionLine : Bytes :=
  Bytes.ofString Release.tool ++ " version " ++ Release.current.version ++ "\n"

end SecurityRules.CommandLine
