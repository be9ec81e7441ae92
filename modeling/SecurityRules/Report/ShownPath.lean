import SecurityRules.SlashPath

/-!
# Paths in reports
-/

namespace SecurityRules.Report

/-- How a path is shown. -/
inductive PathMode where
  /-- Seen from the base directory if it lies below it, else as given. -/
  | auto
  /-- Seen from the root. -/
  | absolute
  /-- Seen from the base directory if it lies below it, else from the root. -/
  | relative
  /-- The last element only. -/
  | baseName
deriving Repr, DecidableEq

/-- What shown paths depend on besides the path. -/
structure PathView where
  mode : PathMode := .auto
  /-- The directory that paths are seen from; empty if there is none. -/
  base : Bytes := []
  workingDirectory : Bytes := "/"

namespace PathView

/-- The path seen from the base directory, if it lies at or below it. -/
def relative? (v : PathView) (path : Bytes) : Option Bytes :=
  if v.base.isEmpty then none
  else
    SlashPath.belowDirectory? (SlashPath.absolute v.workingDirectory v.base)
      (SlashPath.absolute v.workingDirectory path)

/-- The path as it is shown. A document without a path has a name in angle brackets. -/
def shown (v : PathView) (path : Bytes) : Bytes :=
  if path.isEmpty then "<input>"
  else
    match v.mode with
    | .absolute => SlashPath.absolute v.workingDirectory path
    | .baseName => SlashPath.base path
    | .relative => (v.relative? path).getD (SlashPath.absolute v.workingDirectory path)
    | .auto => (v.relative? path).getD path

end PathView

end SecurityRules.Report
