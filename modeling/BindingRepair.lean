import BindingRepair.Calendar
import BindingRepair.CommandLine
import BindingRepair.CommandLine.Command
import BindingRepair.CommandLine.Options
import BindingRepair.Config
import BindingRepair.Diagnostic
import BindingRepair.Diff
import BindingRepair.Diff.Alignment
import BindingRepair.Diff.Compaction
import BindingRepair.Diff.Hunk
import BindingRepair.Digest.Blocks
import BindingRepair.Digest.Sha1
import BindingRepair.Digest.Sha256
import BindingRepair.Digest.Uuid
import BindingRepair.FileSystem
import BindingRepair.FileSystem.Store
import BindingRepair.FileSystem.WriteLog
import BindingRepair.Fix
import BindingRepair.Glob
import BindingRepair.Identifier
import BindingRepair.Instant
import BindingRepair.Intake
import BindingRepair.Intake.Record
import BindingRepair.Json.Basic
import BindingRepair.Json.Decode
import BindingRepair.Json.Reader
import BindingRepair.Json.Writer
import BindingRepair.Main
import BindingRepair.Path
import BindingRepair.Planning
import BindingRepair.Proofs.Accounts
import BindingRepair.Proofs.BindingSearch
import BindingRepair.Proofs.Blocks
import BindingRepair.Proofs.BodyDeclarations
import BindingRepair.Proofs.Characters
import BindingRepair.Proofs.Component
import BindingRepair.Proofs.Components
import BindingRepair.Proofs.Decoding
import BindingRepair.Proofs.Documents
import BindingRepair.Proofs.DroppedFixes
import BindingRepair.Proofs.Edit
import BindingRepair.Proofs.EditTexts
import BindingRepair.Proofs.Entries
import BindingRepair.Proofs.FileTraces
import BindingRepair.Proofs.FixKeys
import BindingRepair.Proofs.Fixes
import BindingRepair.Proofs.Frame
import BindingRepair.Proofs.Freshness
import BindingRepair.Proofs.Grammar.Adjacent
import BindingRepair.Proofs.Grammar.Constructs
import BindingRepair.Proofs.Grammar.Declared
import BindingRepair.Proofs.Grammar.EscapedNames
import BindingRepair.Proofs.Grammar.Evaluation
import BindingRepair.Proofs.Grammar.Expressions
import BindingRepair.Proofs.Grammar.Following
import BindingRepair.Proofs.Grammar.Groups
import BindingRepair.Proofs.Grammar.Grown
import BindingRepair.Proofs.Grammar.Growth
import BindingRepair.Proofs.Grammar.Imports
import BindingRepair.Proofs.Grammar.Inserted
import BindingRepair.Proofs.Grammar.InsertedImports
import BindingRepair.Proofs.Grammar.Items
import BindingRepair.Proofs.Grammar.Layout
import BindingRepair.Proofs.Grammar.Levels
import BindingRepair.Proofs.Grammar.Nodes
import BindingRepair.Proofs.Grammar.Parsed
import BindingRepair.Proofs.Grammar.RenamedBindings
import BindingRepair.Proofs.Grammar.Runs
import BindingRepair.Proofs.Grammar.Trials
import BindingRepair.Proofs.Grammar.WellFormed
import BindingRepair.Proofs.GuardedWrites
import BindingRepair.Proofs.History
import BindingRepair.Proofs.ImportEdits
import BindingRepair.Proofs.IntakeGroups
import BindingRepair.Proofs.Interleavings
import BindingRepair.Proofs.LastRename
import BindingRepair.Proofs.Lexer.Gaps
import BindingRepair.Proofs.Lexer.LineEnds
import BindingRepair.Proofs.Lexer.Locality
import BindingRepair.Proofs.Lexer.Names
import BindingRepair.Proofs.Lexer.Newlines
import BindingRepair.Proofs.Lexer.Reach
import BindingRepair.Proofs.Lexer.SingleWords
import BindingRepair.Proofs.Lexer.Spelling
import BindingRepair.Proofs.Lexer.Tiling
import BindingRepair.Proofs.Lexer.TokensInFront
import BindingRepair.Proofs.Lexer.Trivia
import BindingRepair.Proofs.Lexer.Words
import BindingRepair.Proofs.LineEndings
import BindingRepair.Proofs.ManagedPaths
import BindingRepair.Proofs.MergedImports
import BindingRepair.Proofs.NameIndex
import BindingRepair.Proofs.NameTable
import BindingRepair.Proofs.Overlaps
import BindingRepair.Proofs.Pieces
import BindingRepair.Proofs.PlanContents
import BindingRepair.Proofs.Plans
import BindingRepair.Proofs.Positions
import BindingRepair.Proofs.PrintedImports
import BindingRepair.Proofs.PrintedRenames
import BindingRepair.Proofs.Printing
import BindingRepair.Proofs.Pristine
import BindingRepair.Proofs.QuotedNames
import BindingRepair.Proofs.RenamedPlaces
import BindingRepair.Proofs.ReportOrder
import BindingRepair.Proofs.ReportShapes
import BindingRepair.Proofs.Resolution
import BindingRepair.Proofs.RunAccounts
import BindingRepair.Proofs.RuntimeGlobals
import BindingRepair.Proofs.Schedules
import BindingRepair.Proofs.ScopeForest
import BindingRepair.Proofs.ScopeGrowth
import BindingRepair.Proofs.ScopeNesting
import BindingRepair.Proofs.SettledFixes
import BindingRepair.Proofs.Shape
import BindingRepair.Proofs.SortedTables
import BindingRepair.Proofs.Spacing
import BindingRepair.Proofs.Splicing
import BindingRepair.Proofs.SuffixSearch
import BindingRepair.Proofs.Termination.Expressions
import BindingRepair.Proofs.Termination.Functions
import BindingRepair.Proofs.Termination.Items
import BindingRepair.Proofs.Termination.Operations
import BindingRepair.Proofs.Termination.Parsers
import BindingRepair.Proofs.Termination.Parsing
import BindingRepair.Proofs.Termination.Searches
import BindingRepair.Proofs.Termination.Tokens
import BindingRepair.Proofs.Termination.Types
import BindingRepair.Proofs.Traversal
import BindingRepair.Proofs.Untouched
import BindingRepair.Proofs.WalkCalls
import BindingRepair.Proofs.WellScoped
import BindingRepair.QuotedName
import BindingRepair.Repair
import BindingRepair.Repair.Drop
import BindingRepair.Repair.FreshName
import BindingRepair.Repair.Progress
import BindingRepair.Report
import BindingRepair.Run
import BindingRepair.Run.FileProgram
import BindingRepair.Run.FileRun
import BindingRepair.Script.Edit
import BindingRepair.Script.Globals
import BindingRepair.Script.Grammar
import BindingRepair.Script.Grammar.Declarations
import BindingRepair.Script.Grammar.Elements
import BindingRepair.Script.Grammar.Expressions
import BindingRepair.Script.Grammar.Functions
import BindingRepair.Script.Grammar.Lookahead
import BindingRepair.Script.Grammar.Modules
import BindingRepair.Script.Grammar.Patterns
import BindingRepair.Script.Grammar.Rule
import BindingRepair.Script.Grammar.State
import BindingRepair.Script.Grammar.Statements
import BindingRepair.Script.Grammar.Types
import BindingRepair.Script.Lexer
import BindingRepair.Script.Printer
import BindingRepair.Script.Scope
import BindingRepair.Script.Token
import BindingRepair.Script.Tree
import BindingRepair.Script.Walk
import BindingRepair.Settings
import BindingRepair.SortedTable
import BindingRepair.Summary
import BindingRepair.Text.Cursor
import BindingRepair.Text.Digits
import BindingRepair.Text.Lines
import BindingRepair.Text.Span
import BindingRepair.Toml.Document
import BindingRepair.Toml.Moment
import BindingRepair.Toml.Reader
import BindingRepair.Toml.Value
import BindingRepair.Toml.Word
import BindingRepair.Unicode.Alphabetic
import BindingRepair.Unicode.Blank
import BindingRepair.Unicode.Interval
import BindingRepair.Unicode.Lowercase
import BindingRepair.Unicode.Numeric
import BindingRepair.Unicode.Uppercase
import BindingRepair.Vocabulary
