import SecurityRules.Diagnostic
import SecurityRules.ParseTree
import SecurityRules.RulesVersion
import SecurityRules.Scope

/-!
# Findings about a document

Three independent checks: of the parse tree, of the version header, and of the calls in the typed document.
-/

namespace SecurityRules.Diagnose

/-- An error without notes. -/
def errorAt (code : Code) (span : Span) (message : Bytes) : Diagnostic :=
  { severity := .error, code, message, span }

/-- The finding about a tree that is an error or a placeholder. -/
def flagged (t : ParseTree) : Diagnostic :=
  if t.isMissing then
    errorAt .missingElement t.span ("Missing `" ++ Bytes.ofString t.kind.name ++ "`")
  else errorAt .syntaxError t.span "Error"

mutual

/-- A finding for each error and placeholder that lies in no other one, in document order. -/
def parseErrors : ParseTree → List Diagnostic
  | .node kind isMissing role extent children =>
    if kind == .error || isMissing then [flagged (.node kind isMissing role extent children)]
    else parseErrorsAll children

/-- The findings of a list of trees. -/
def parseErrorsAll : List ParseTree → List Diagnostic
  | [] => []
  | t :: rest => parseErrors t ++ parseErrorsAll rest

end

/-- The findings of a stack of trees, behind those already made. A tree that is an error or a placeholder is left at
once, any other one makes room for its children. -/
def sweep (found : List Diagnostic) : List ParseTree → List Diagnostic
  | [] => found
  | t :: rest => if t.isFlagged then sweep (found ++ [flagged t]) rest else sweep found (t.children ++ rest)
termination_by stack => sizeOf stack
decreasing_by
  · simp only [List.cons.sizeOf_spec]
    omega
  · exact t.sizeOf_children_append_lt rest

/-- Whether a byte is a quote. -/
def isQuote (b : UInt8) : Bool := b == 0x27 || b == 0x22

/-- The finding about a version, given as written: an unreadable one is an error, an unsupported one a
warning. -/
def versionText (span : Span) (raw : Bytes) : List Diagnostic :=
  match RulesVersion.parse? raw with
  | none => [errorAt .invalidVersion span ("Invalid rules_version " ++ Text.quoted raw)]
  | some version =>
    if version.isSupported then []
    else
      [{ severity := .warning
         code := .unsupportedVersion
         span
         message := "Unsupported rules_version " ++ Text.quoted raw ++ " (supported: " ++
           RulesVersion.supportedRange ++ ")" }]

/-- The finding about the first version header. A document without one, or without a version in it, has
none. -/
def version (root : ParseTree) (file : SourceFile) : List Diagnostic :=
  match root.children.find? (·.kind == .rulesVersion) with
  | none => []
  | some header =>
    match header.child? .version with
    | none => []
    | some text =>
      if text.isMissing then [] else versionText text.span (Bytes.trim isQuote (text.text file))

/-- What is said of a call that no enclosing body defines. -/
def noFunctionMessage : String := "No function definition found"

/-- The functions that the rules runtime provides. -/
def runtimeBuiltins : List Bytes :=
  ["bool", "debug", "exists", "existsAfter", "float", "get", "getAfter", "int", "path", "string"].map
    Bytes.ofString

/-- The finding about an element, given the elements around it. -/
def unresolvedCall? (policy : ScopePolicy) (builtins : List Bytes) (scopes : List Element) :
    Element → Option Diagnostic
  | .expr (.call span name _ _) =>
    if builtins.contains name then none
    else
      match Scope.resolveIn policy (.call name) scopes with
      | .ok _ => none
      | .error _ => some (errorAt .unresolvedFunction span noFunctionMessage)
  | _ => none

/-- A finding for each call that is neither built in nor defined in an enclosing body, in the order of a
walk. -/
def unresolvedCalls (tree : RulesTree) (policy : ScopePolicy) (builtins : List Bytes) : List Diagnostic :=
  ((Element.tree tree).walk []).filterMap fun (scopes, e) => unresolvedCall? policy builtins scopes e

end SecurityRules.Diagnose
