import SecurityRules.Diagnose
import SecurityRules.Highlight
import SecurityRules.Outline
import SecurityRules.Parser
import SecurityRules.Rules.Build
import SecurityRules.Timing

/-!
# Analysis of a document

All that is known about one version of one text: its trees, its diagnostics, and what can be asked of them.
-/

namespace SecurityRules

/-- How documents are analysed. -/
structure AnalysisOptions where
  /-- The limit on nesting; a limit that is not positive asks for the default. -/
  maxDepth : Int := Parser.defaultDepth
  policy : ScopePolicy := .outermost
  /-- The names of calls that need no definition. -/
  builtins : List Bytes := []

/-- The result of an analysis. -/
structure Document where
  uri : Bytes
  version : Int
  file : SourceFile
  root : ParseTree
  built : Built
  policy : ScopePolicy
  parseErrors : List Diagnostic
  versionFindings : List Diagnostic
  semanticErrors : List Diagnostic

namespace Document

/-- Analyses a file. -/
def analyze (uri : Bytes) (version : Int) (file : SourceFile) (options : AnalysisOptions) : Document :=
  let root := Parser.parse file options.maxDepth
  let built := Build.build file root (Parser.depthLimit options.maxDepth)
  { uri, version, file, root, built
    policy := options.policy
    parseErrors := Diagnose.parseErrors root
    versionFindings := Diagnose.version root file
    semanticErrors := Diagnose.unresolvedCalls built.tree options.policy options.builtins }

/-- All diagnostics: those of the parse, of the header, of the calls. -/
def diagnostics (d : Document) : List Diagnostic :=
  d.parseErrors ++ d.versionFindings ++ d.semanticErrors

/-- Whether there is an error. -/
def hasErrors (d : Document) : Bool := d.diagnostics.any (·.severity.isError)

/-- The elements around a point. -/
def lookup (d : Document) (p : Point) : List Element := d.built.tree.lookup p

/-- The declaration of the reference at a point. -/
def definition (d : Document) (p : Point) : Except ResolveError Declaration :=
  Scope.resolve d.policy (d.lookup p)

/-- All functions and `let`s. -/
def definitions (d : Document) : List Definition := d.built.tree.definitions

/-- The outline. -/
def outline (d : Document) : List OutlineSymbol := d.built.tree.outline

/-- The coloured parts, by bytes. -/
def marks (d : Document) : List Highlight.Mark := Highlight.marksOf d.root

/-- What an editor is sent to colour the document. -/
def editorWords (d : Document) : List UInt32 := Highlight.editorWords d.file d.root

/-- The phases of the analysis with how long each one took and what it did. The clock is the caller's; without one, no
phase takes any time. -/
def phases (d : Document) (took : Bytes → Float := fun _ => 0) : List Timing.Phase :=
  [{ name := "parse", duration := took "parse", note := Bytes.decimal d.file.size ++ " bytes" },
    { name := "build", duration := took "build" },
    { name := "diagnose", duration := took "diagnose", note := Bytes.decimal d.diagnostics.length ++ " found" }]

end Document

end SecurityRules
