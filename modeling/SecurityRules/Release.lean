import SecurityRules.Json
import SecurityRules.RulesVersion
import SecurityRules.Text.Quoted
import SecurityRules.Text.Style

/-!
# What this program is
-/

namespace SecurityRules

/-- A build of the program. -/
structure Release where
  version : Bytes
  commit : Bytes := []
  date : Bytes := []

namespace Release

/-- The name of the program. -/
def tool : String := "firerules"

/-- This build. -/
def current : Release where
  version := "0.1.0-dev"

/-- The version with colours, if it has three numbers. -/
def pretty (r : Release) (colours : Bool) : Bytes :=
  let (core, suffix) := (Bytes.cut? 0x2D r.version).getD (r.version, [])
  match Bytes.cut? 0x2E core with
  | none => r.version
  | some (major, rest) =>
    match Bytes.cut? 0x2E rest with
    | none => r.version
    | some (minor, patch) =>
      Text.styled colours [.yellow, .bold] major ++ "." ++
        Text.styled colours [.green, .bold] minor ++ "." ++
        Text.styled colours [.blue, .bold] patch ++
        Bytes.enclosed "-" suffix ""

/-- A line for each thing that is known. -/
def summary (r : Release) (colours : Bool) : Bytes :=
  Bytes.ofString tool ++ " " ++ r.pretty colours ++ "\n" ++
    Bytes.enclosed "commit: " r.commit "\n" ++ Bytes.enclosed "built:  " r.date "\n"

/-- The same for programs. -/
def machine (r : Release) : Bytes :=
  (Json.fields ([("tool", .ofText tool), ("version", .string (Text.trimBlanks r.version)),
      ("rules_versions", .ofText RulesVersion.supportedRange)] ++
    Json.unlessEmpty "git_commit" (Text.trimBlanks r.commit) ++
    Json.unlessEmpty "build_date" (Text.trimBlanks r.date))).indented

end Release

end SecurityRules
