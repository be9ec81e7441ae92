import SecurityRules.Analysis
import SecurityRules.ByteSize
import SecurityRules.Cache
import SecurityRules.Cache.Entry
import SecurityRules.Check.Event
import SecurityRules.Check.Files
import SecurityRules.Check.Progress
import SecurityRules.Check.Run
import SecurityRules.Check.Workers
import SecurityRules.CommandLine.Answer
import SecurityRules.CommandLine.Command
import SecurityRules.CommandLine.Flag
import SecurityRules.CommandLine.Help
import SecurityRules.CommandLine.Request
import SecurityRules.CommandLine.Run
import SecurityRules.Diagnose
import SecurityRules.Diagnostic
import SecurityRules.Digest
import SecurityRules.Disk
import SecurityRules.DocumentStore
import SecurityRules.Edit
import SecurityRules.FileUri
import SecurityRules.Highlight
import SecurityRules.Json
import SecurityRules.Json.Reader
import SecurityRules.Json.Record
import SecurityRules.Main
import SecurityRules.MessagePack
import SecurityRules.Names
import SecurityRules.Number.Binary64
import SecurityRules.Number.Signed
import SecurityRules.Outline
import SecurityRules.ParseTree
import SecurityRules.Parser
import SecurityRules.Parser.Counter
import SecurityRules.Parser.Declaration
import SecurityRules.Parser.Draft
import SecurityRules.Parser.Expression
import SecurityRules.Parser.Recovery
import SecurityRules.Parser.State
import SecurityRules.Position
import SecurityRules.Proofs.Cache.Entries
import SecurityRules.Proofs.Cache.Key
import SecurityRules.Proofs.Check.Agreement
import SecurityRules.Proofs.Check.Listing
import SecurityRules.Proofs.Check.Schedule
import SecurityRules.Proofs.Check.Selection
import SecurityRules.Proofs.Check.Verdict
import SecurityRules.Proofs.Content.Diagnostics
import SecurityRules.Proofs.Depth.Counter
import SecurityRules.Proofs.Diagnostic.Bag
import SecurityRules.Proofs.Diagnostic.ShortReport
import SecurityRules.Proofs.Disk.Growth
import SecurityRules.Proofs.Disk.Paths
import SecurityRules.Proofs.DocumentStore.Callers
import SecurityRules.Proofs.DocumentStore.Newest
import SecurityRules.Proofs.DocumentStore.Sharing
import SecurityRules.Proofs.DocumentStore.Update
import SecurityRules.Proofs.Edit.Positions
import SecurityRules.Proofs.Edit.Splices
import SecurityRules.Proofs.Findings.Coverage
import SecurityRules.Proofs.Findings.Severity
import SecurityRules.Proofs.Findings.Topmost
import SecurityRules.Proofs.Grammar.Declarations
import SecurityRules.Proofs.Grammar.Document
import SecurityRules.Proofs.Grammar.Expressions
import SecurityRules.Proofs.Grammar.Operators
import SecurityRules.Proofs.Grammar.Rules
import SecurityRules.Proofs.Grammar.Steps
import SecurityRules.Proofs.Highlight.Marks
import SecurityRules.Proofs.Highlight.Parts
import SecurityRules.Proofs.Landmark.Declarations
import SecurityRules.Proofs.Landmark.Document
import SecurityRules.Proofs.Landmark.Expressions
import SecurityRules.Proofs.Landmark.Landmarks
import SecurityRules.Proofs.Landmark.Layout
import SecurityRules.Proofs.Landmark.Legible
import SecurityRules.Proofs.Landmark.Values
import SecurityRules.Proofs.Lookup.Calls
import SecurityRules.Proofs.Lookup.Completeness
import SecurityRules.Proofs.Lookup.Points
import SecurityRules.Proofs.Lookup.Spans
import SecurityRules.Proofs.Lookup.Walk
import SecurityRules.Proofs.Mirror.Document
import SecurityRules.Proofs.Mirror.Expressions
import SecurityRules.Proofs.Mirror.Steps
import SecurityRules.Proofs.Nesting.Blocks
import SecurityRules.Proofs.Nesting.Containment
import SecurityRules.Proofs.Nesting.Cuts
import SecurityRules.Proofs.Nesting.Declarations
import SecurityRules.Proofs.Nesting.Expressions
import SecurityRules.Proofs.Nesting.Operators
import SecurityRules.Proofs.Nesting.Statements
import SecurityRules.Proofs.Nesting.Steps
import SecurityRules.Proofs.Origin.Declarations
import SecurityRules.Proofs.Origin.Drawn
import SecurityRules.Proofs.Origin.Expressions
import SecurityRules.Proofs.Origin.Makes
import SecurityRules.Proofs.Origin.Origins
import SecurityRules.Proofs.Outline.Definitions
import SecurityRules.Proofs.Outline.Ranges
import SecurityRules.Proofs.Outline.Symbols
import SecurityRules.Proofs.ParseTree.Cover
import SecurityRules.Proofs.ParseTree.Nodes
import SecurityRules.Proofs.ParseTree.Sound
import SecurityRules.Proofs.Parser.Declarations
import SecurityRules.Proofs.Parser.Expressions
import SecurityRules.Proofs.Parser.Lossless
import SecurityRules.Proofs.Parser.Place
import SecurityRules.Proofs.Parser.Reading
import SecurityRules.Proofs.Parser.Steps
import SecurityRules.Proofs.Precedence.Document
import SecurityRules.Proofs.Precedence.Expressions
import SecurityRules.Proofs.Precedence.Steps
import SecurityRules.Proofs.Progress.Document
import SecurityRules.Proofs.Progress.Productions
import SecurityRules.Proofs.Recovery.Bodies
import SecurityRules.Proofs.Recovery.Containment
import SecurityRules.Proofs.Recovery.Declarations
import SecurityRules.Proofs.Recovery.Expressions
import SecurityRules.Proofs.Recovery.Gap
import SecurityRules.Proofs.Recovery.Insertion
import SecurityRules.Proofs.Recovery.Sketch
import SecurityRules.Proofs.Recovery.Statements
import SecurityRules.Proofs.Recovery.Steps
import SecurityRules.Proofs.Recovery.Stray
import SecurityRules.Proofs.Report.Declarations
import SecurityRules.Proofs.Report.Locations
import SecurityRules.Proofs.Report.Positions
import SecurityRules.Proofs.Scope.Policies
import SecurityRules.Proofs.Server.Cache
import SecurityRules.Proofs.Server.Copies
import SecurityRules.Proofs.Server.Endurance
import SecurityRules.Proofs.Server.Framing
import SecurityRules.Proofs.Server.Handlers
import SecurityRules.Proofs.Server.History
import SecurityRules.Proofs.Server.Input
import SecurityRules.Proofs.Server.Publishing
import SecurityRules.Proofs.Server.Refinement
import SecurityRules.Proofs.Server.Snapshots
import SecurityRules.Proofs.Server.Stateless
import SecurityRules.Proofs.Server.Steps
import SecurityRules.Proofs.Server.Timers
import SecurityRules.Proofs.Server.Traffic
import SecurityRules.Proofs.SourceFile.Clamping
import SecurityRules.Proofs.SourceFile.Positions
import SecurityRules.Proofs.Text.Boundary
import SecurityRules.Proofs.Text.Fields
import SecurityRules.Proofs.Text.LineEnds
import SecurityRules.Proofs.Text.Order
import SecurityRules.Proofs.Text.Utf16
import SecurityRules.Proofs.Token.Edges
import SecurityRules.Proofs.Token.Heads
import SecurityRules.Proofs.Token.Layout
import SecurityRules.Proofs.Token.Measures
import SecurityRules.Proofs.Token.Quotes
import SecurityRules.Proofs.Token.Splitting
import SecurityRules.Proofs.Token.Tiling
import SecurityRules.Proofs.Trivia.Alike
import SecurityRules.Proofs.Trivia.Build
import SecurityRules.Proofs.Trivia.Document
import SecurityRules.Proofs.Trivia.Expressions
import SecurityRules.Proofs.Trivia.Meaning
import SecurityRules.Proofs.Trivia.Steps
import SecurityRules.Proofs.Trivia.Unplaced
import SecurityRules.Release
import SecurityRules.Report.Machine
import SecurityRules.Report.Pretty
import SecurityRules.Report.ShownPath
import SecurityRules.Report.Trees
import SecurityRules.Rules.Build
import SecurityRules.Rules.Element
import SecurityRules.Rules.Expr
import SecurityRules.Rules.Tree
import SecurityRules.RulesVersion
import SecurityRules.Scope
import SecurityRules.Server.Frame
import SecurityRules.Server.Message
import SecurityRules.Server.Reply
import SecurityRules.Server.Session
import SecurityRules.Settings
import SecurityRules.SlashPath
import SecurityRules.SourceFile
import SecurityRules.Span
import SecurityRules.Text.Bytes
import SecurityRules.Text.GraphemeClass
import SecurityRules.Text.Letter
import SecurityRules.Text.Lower
import SecurityRules.Text.Printable
import SecurityRules.Text.Quoted
import SecurityRules.Text.Style
import SecurityRules.Text.Utf8
import SecurityRules.Text.Width
import SecurityRules.Timing
import SecurityRules.Token
import SecurityRules.Token.Lexer
import SecurityRules.Toml.Document
import SecurityRules.Toml.Reader
import SecurityRules.Toml.Scalar
