import CombinatorGrammar.Cli.Command
import CombinatorGrammar.Cli.Options
import CombinatorGrammar.Cli.Report
import CombinatorGrammar.Diagnostic.Basic
import CombinatorGrammar.Diagnostic.Code
import CombinatorGrammar.Diagnostic.Excerpt
import CombinatorGrammar.Diagnostic.Queue
import CombinatorGrammar.Grammar.Basic
import CombinatorGrammar.Grammar.Check
import CombinatorGrammar.Grammar.Combinator
import CombinatorGrammar.Grammar.Defect
import CombinatorGrammar.Lkt.FrontEnd
import CombinatorGrammar.Lkt.Lexer
import CombinatorGrammar.Lkt.Nodes
import CombinatorGrammar.Lkt.Piece
import CombinatorGrammar.Lkt.Rules
import CombinatorGrammar.Lkt.Vocabulary
import CombinatorGrammar.Main
import CombinatorGrammar.Parse.Basic
import CombinatorGrammar.Parse.Failure
import CombinatorGrammar.Parse.Fault
import CombinatorGrammar.Parse.Nesting
import CombinatorGrammar.Parse.Parser
import CombinatorGrammar.Parse.Run
import CombinatorGrammar.Parse.State
import CombinatorGrammar.Program.Basic
import CombinatorGrammar.Program.Linking
import CombinatorGrammar.Program.Listing
import CombinatorGrammar.Program.Matcher
import CombinatorGrammar.Program.Shape
import CombinatorGrammar.Program.Signature
import CombinatorGrammar.Program.Summary
import CombinatorGrammar.Program.Validation
import CombinatorGrammar.Proofs.Lkt.Agreement
import CombinatorGrammar.Proofs.Lkt.Chart
import CombinatorGrammar.Proofs.Lkt.LeftRecursion
import CombinatorGrammar.Proofs.Lkt.Recovery
import CombinatorGrammar.Proofs.Machine.Basic
import CombinatorGrammar.Proofs.Machine.Halting
import CombinatorGrammar.Proofs.Machine.Simulation
import CombinatorGrammar.Proofs.Machine.Upkeep
import CombinatorGrammar.Proofs.Program.Arity
import CombinatorGrammar.Proofs.Program.Idle
import CombinatorGrammar.Proofs.Program.Inference
import CombinatorGrammar.Proofs.Program.ItemList
import CombinatorGrammar.Proofs.Program.Parts
import CombinatorGrammar.Proofs.Program.Resolution
import CombinatorGrammar.Proofs.Program.Skipping
import CombinatorGrammar.Proofs.Program.Starts
import CombinatorGrammar.Proofs.Recovery.Agreement
import CombinatorGrammar.Proofs.Recovery.Coverage
import CombinatorGrammar.Proofs.Recovery.ErrorNodes
import CombinatorGrammar.Proofs.Recovery.Reports
import CombinatorGrammar.Proofs.Recovery.Skipless
import CombinatorGrammar.Proofs.Run.Commit
import CombinatorGrammar.Proofs.Run.Descent
import CombinatorGrammar.Proofs.Run.HardEnds
import CombinatorGrammar.Proofs.Run.History
import CombinatorGrammar.Proofs.Run.Idle
import CombinatorGrammar.Proofs.Run.Independence
import CombinatorGrammar.Proofs.Run.Interpreter
import CombinatorGrammar.Proofs.Run.Levels
import CombinatorGrammar.Proofs.Run.NestingLimit
import CombinatorGrammar.Proofs.Run.Recursion
import CombinatorGrammar.Proofs.Run.Rules
import CombinatorGrammar.Proofs.Run.Steps
import CombinatorGrammar.Proofs.Run.Transaction
import CombinatorGrammar.Proofs.Schema.ErrorTypes
import CombinatorGrammar.Proofs.Schema.FieldLists
import CombinatorGrammar.Proofs.Schema.Inheritance
import CombinatorGrammar.Proofs.Semantics.Completeness
import CombinatorGrammar.Proofs.Semantics.Count
import CombinatorGrammar.Proofs.Semantics.Matches
import CombinatorGrammar.Proofs.Semantics.Soundness
import CombinatorGrammar.Proofs.Semantics.Strict
import CombinatorGrammar.Proofs.Values.Conformance
import CombinatorGrammar.Proofs.Values.Construction
import CombinatorGrammar.Proofs.Values.Count
import CombinatorGrammar.Proofs.Values.Shape
import CombinatorGrammar.Proofs.Values.Whole
import CombinatorGrammar.Schema.Basic
import CombinatorGrammar.Schema.Declaration
import CombinatorGrammar.Symbol.Interner
import CombinatorGrammar.Symbol.Table
import CombinatorGrammar.Text.Bytes
import CombinatorGrammar.Text.CodePoints
import CombinatorGrammar.Text.GraphemeExtend
import CombinatorGrammar.Text.Lines
import CombinatorGrammar.Text.Quoted
import CombinatorGrammar.Text.Span
import CombinatorGrammar.Text.Unprintable
import CombinatorGrammar.Text.Uppercase
import CombinatorGrammar.Token.Stream
import CombinatorGrammar.Token.Vocabulary
import CombinatorGrammar.Tree.Outline
import CombinatorGrammar.Tree.Value
import CombinatorGrammar.Proofs.Likeness.Basic
import CombinatorGrammar.Proofs.Likeness.Parsers
import CombinatorGrammar.Proofs.Recovery.FatalErrors
import CombinatorGrammar.Proofs.Likeness.RaisedLimit
import CombinatorGrammar.Proofs.Program.Linking
import CombinatorGrammar.Proofs.Likeness.Output
import CombinatorGrammar.Proofs.Likeness.Texts
import CombinatorGrammar.Proofs.Lkt.Texts
import CombinatorGrammar.Proofs.Lkt.Formatting
import CombinatorGrammar.Proofs.Machine.Furthest
import CombinatorGrammar.Proofs.Schema.Layouts
import CombinatorGrammar.Proofs.Derivation.Basic
import CombinatorGrammar.Proofs.Derivation.Leaves
import CombinatorGrammar.Proofs.Derivation.Spans
import CombinatorGrammar.Proofs.Symbol.Embedding
import CombinatorGrammar.Proofs.Renaming.Basic
import CombinatorGrammar.Proofs.Renaming.Runs
import CombinatorGrammar.Proofs.Renaming.Output
import CombinatorGrammar.Proofs.Renaming.Resolution
import CombinatorGrammar.Proofs.Lkt.Reading
import CombinatorGrammar.Proofs.Lkt.Interners
import CombinatorGrammar.Proofs.Lkt.SharedInterner
import CombinatorGrammar.Proofs.Values.NodeTypes
import CombinatorGrammar.Proofs.Likeness.Words
import CombinatorGrammar.Proofs.Listing.ReadBack
import CombinatorGrammar.Proofs.Listing.Sameness
import CombinatorGrammar.Proofs.Program.Rounds
import CombinatorGrammar.Proofs.Program.Assembly
import CombinatorGrammar.Proofs.Program.Defects
import CombinatorGrammar.Proofs.Program.Unlinking
import CombinatorGrammar.Proofs.Program.Productivity
import CombinatorGrammar.Proofs.Renumbering.Basic
import CombinatorGrammar.Proofs.Renumbering.Inference
import CombinatorGrammar.Proofs.Renumbering.Reordering
import CombinatorGrammar.Proofs.Lkt.Patterns
import CombinatorGrammar.Proofs.Lkt.Accounting
import CombinatorGrammar.Proofs.Lkt.Relexing
import CombinatorGrammar.Proofs.Listing.Handles
import CombinatorGrammar.Proofs.Machine.Bounds
import CombinatorGrammar.Proofs.Machine.Accesses
import CombinatorGrammar.Proofs.Recovery.TokenReports
import CombinatorGrammar.Proofs.Diagnostic.Queue
import CombinatorGrammar.Proofs.Cli.ExitStatus
import CombinatorGrammar.Proofs.Recovery.Protection
import CombinatorGrammar.Proofs.Recovery.Stops
import CombinatorGrammar.Proofs.Listing.Faithful
import CombinatorGrammar.Proofs.Values.ShapeOrder
import CombinatorGrammar.Proofs.Schema.Extension
import CombinatorGrammar.Proofs.Program.Findings
import CombinatorGrammar.Proofs.Program.Sources
import CombinatorGrammar.Proofs.Program.Settling
import CombinatorGrammar.Proofs.Program.AddedTypes
import CombinatorGrammar.Proofs.Program.Fixpoint
import CombinatorGrammar.Proofs.Program.Mentions
import CombinatorGrammar.Proofs.Program.Dependence
import CombinatorGrammar.Proofs.Cli.Places
import CombinatorGrammar.Proofs.Diagnostic.History
import CombinatorGrammar.Proofs.Text.Bytes
import CombinatorGrammar.Proofs.Text.Lines
import CombinatorGrammar.Proofs.Text.Quoting
import CombinatorGrammar.Proofs.Diagnostic.Markers
import CombinatorGrammar.Proofs.Tree.Outlines
import CombinatorGrammar.Proofs.Values.Spelling
import CombinatorGrammar.Proofs.Lkt.Outlines
import CombinatorGrammar.Proofs.Program.OptionalGroups
import CombinatorGrammar.Proofs.Run.SoftEnds
import CombinatorGrammar.Proofs.Run.Shadowing
import CombinatorGrammar.Proofs.Values.EmptyGroups
import CombinatorGrammar.Proofs.Lkt.OptionalGroups
import CombinatorGrammar.Proofs.Schema.Ancestors
import CombinatorGrammar.Proofs.Program.PartOrder
import CombinatorGrammar.Proofs.Symbol.History
import CombinatorGrammar.Proofs.Token.Vocabulary
