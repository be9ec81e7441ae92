import SecurityRules.CommandLine.Flag
import SecurityRules.Release

/-!
# The commands of the program

Each command is known by the names that lead to it from the program's own name. Global flags go with every
command.
-/

namespace SecurityRules.CommandLine

/-- What a command does. -/
inductive Action where
  | serve | check | marks | parse | resolve | symbols | cacheInfo | cacheClean | version | help | completion
deriving Repr, DecidableEq

/-- Which arguments a command takes. -/
inductive Arguments where
  | any
  | none
  | exactly (n : Nat)
deriving Repr, DecidableEq

/-- A command. One without an action only stands for those below it. -/
structure Command where
  path : List String
  /-- The words for its arguments. -/
  pattern : String := ""
  short : String
  /-- A longer text in place of the short one. -/
  long : String := ""
  flags : List Flag := []
  arguments : Arguments := .any
  action : Option Action := .none
deriving Repr, DecidableEq

namespace Command

def name (c : Command) : String := c.path.getLast?.getD Release.tool

/-- The names that lead to the command, that of the program first. -/
def fullName (c : Command) : Bytes := Bytes.join " " ((Release.tool :: c.path).map Bytes.ofString)

end Command

/-- The flags that go with every command. -/
def globalFlags : List Flag := [
  { name := "config", initial := .text "", usage := "path to firerules.toml (default: search upwards)" },
  { name := "color", initial := .text "auto", usage := "colorize output (auto|on|off)" },
  { name := "timings", initial := .switch false, usage := "show timing information" },
  { name := "max-diagnostics", initial := .number 100, usage := "maximum number of diagnostics per file" },
  { name := "cpu-profile", initial := .text "", usage := "write a CPU profile to file" },
  { name := "mem-profile", initial := .text "", usage := "write a heap profile to file on exit" },
  { name := "trace", initial := .text "", usage := "write a runtime trace to file" }]

/-- The format flag of commands with two formats. -/
def formatFlag : Flag :=
  { name := "format", initial := .text "pretty", usage := "output format (pretty|json)" }

/-- The program itself. -/
def program : Command where
  path := []
  short := "Firestore security rules analyzer and language server"
  long := "firerules parses Firestore security rules, reports diagnostics and serves editors over LSP"

def checkCommand : Command where
  path := ["check"]
  pattern := "[paths...]"
  short := "Diagnose rules files and directories"
  long := "Diagnose every *.rules file under the given paths (default: the current directory).\n" ++
    "Exits with status 1 when any error is reported."
  flags := [
    { name := "format", initial := .text ""
      usage := "output format (pretty|short|json), default from config" },
    { name := "jobs", initial := .number 0, usage := "max parallel workers (0 = config or GOMAXPROCS)" },
    { name := "ui", initial := .text "auto", usage := "progress UI mode (auto|on|off)" },
    { name := "watch", initial := .switch false, usage := "re-check when rules files change" },
    { name := "no-cache", initial := .switch false, usage := "disable the on-disk result cache" }]
  action := some .check

def parseCommand : Command where
  path := ["parse"]
  pattern := "<file.rules>"
  short := "Parse a rules file and print its tree"
  long := "Parse prints the typed rules tree of a file, or its concrete syntax tree with --cst. " ++
    "Diagnostics go to stderr."
  flags := [
    { name := "cst", initial := .switch false, usage := "print the concrete syntax tree" },
    { name := "sexp", initial := .switch false
      usage := "print the concrete syntax tree as an s-expression of named nodes" }]
  arguments := .exactly 1
  action := some .parse

/-- The commands below the completion of command lines, one for each shell. -/
def completionCommands : List Command :=
  ["bash", "fish", "powershell", "zsh"].map fun shell =>
    { path := ["completion", shell]
      short := "Generate the autocompletion script for " ++ shell
      flags := [{ name := "no-descriptions", initial := .switch false
                  usage := "disable completion descriptions" }]
      arguments := .none
      action := some .completion }

/-- All commands below the program, in the order in which they are suggested. -/
def commands : List Command := [
  { path := ["lsp"], short := "Run the Firestore rules language server over stdio"
    flags := [{ name := "stdio", initial := .switch true
                usage := "communicate over stdin/stdout (the only transport)" }]
    arguments := .none, action := some .serve },
  checkCommand,
  { path := ["tokens"], pattern := "<file.rules>", short := "Print the semantic tokens of a rules file"
    long := "Print the absolute semantic tokens (byte columns) of a rules file followed by\n" ++
      "the delta-encoded integers an editor receives (UTF-16 columns)."
    flags := [formatFlag], arguments := .exactly 1, action := some .marks },
  parseCommand,
  { path := ["resolve"], pattern := "<file.rules> <line:col>"
    short := "Resolve the reference at a position to its definition"
    long := "Resolve runs position lookup and scope resolution like go-to-definition does.\n" ++
      "Line and column are 1-based; the column counts characters."
    arguments := .exactly 2, action := some .resolve },
  { path := ["symbols"], pattern := "<file.rules>"
    short := "Print the outline and definitions index of a rules file"
    flags := [formatFlag], arguments := .exactly 1, action := some .symbols },
  { path := ["cache"], short := "Inspect or clear the check result cache" },
  { path := ["cache", "info"], short := "Show the cache location and size", arguments := .none
    action := some .cacheInfo },
  { path := ["cache", "clean"], short := "Remove every cached result", arguments := .none
    action := some .cacheClean },
  { path := ["version"], short := "Show firerules build metadata", flags := [formatFlag]
    arguments := .none, action := some .version },
  { path := ["help"], pattern := "[command]", short := "Help about any command"
    long := "Help provides help for any command in the application.\n" ++
      "Simply type firerules help [path to command] for full details."
    action := some .help },
  { path := ["completion"], short := "Generate the autocompletion script for the specified shell"
    long := "Generate the autocompletion script for firerules for the specified shell.\n" ++
      "See each sub-command's help for details on how to use the generated script.\n"
    arguments := .none }] ++ completionCommands

namespace Command

/-- The commands right below a command. -/
def children (c : Command) : List Command := commands.filter fun d => d.path.dropLast == c.path && !d.path.isEmpty

/-- The command with a name right below a command. -/
def child? (c : Command) (name : Bytes) : Option Command :=
  c.children.find? fun d => Bytes.ofString d.name == name

/-- The flag that asks for help. -/
def helpFlag (c : Command) : Flag :=
  { name := "help", letter := some 0x68, initial := .switch false, usage := "help for " ++ c.name }

/-- The flag that asks for the version, which only the program itself has. -/
def versionFlag : Flag :=
  { name := "version", letter := some 0x76, initial := .switch false, usage := "version for " ++ Release.tool }

/-- The flags that are known while the command is looked for. -/
def searchFlags (c : Command) : List Flag := c.flags ++ globalFlags

/-- The flags that a command understands. -/
def allFlags (c : Command) : List Flag :=
  c.searchFlags ++ [c.helpFlag] ++ if c.path.isEmpty then [versionFlag] else []

end Command

end SecurityRules.CommandLine
