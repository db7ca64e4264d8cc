import PluginLint.Grammar.Parse
import PluginLint.Syntax.Chain
import PluginLint.Docs.Comment
import PluginLint.Text.Capital
import PluginLint.Text.Quoted
import PluginLint.Model.SemanticModel
import PluginLint.Text.Message
import PluginLint.Findings.Json
import PluginLint.Edit.Batch
import PluginLint.Rules.Dispatch
import PluginLint.Binding.FileModel
import PluginLint.Rules.Presets
import PluginLint.Edit.History
import PluginLint.Project.Check
import PluginLint.Toml.Document
import PluginLint.Files.FileTree
import PluginLint.Files.Pattern
import PluginLint.Files.IgnorePattern
import PluginLint.Files.Walk
import PluginLint.Project.Analyzer
import PluginLint.Cli.Commands
import PluginLint.Main
import PluginLint.Proofs.Lexing
import PluginLint.Proofs.Lexing.InStep
import PluginLint.Proofs.Lexing.Runs
import PluginLint.Proofs.Lexing.TriviaPlacement
import PluginLint.Proofs.Lexing.Offsets
import PluginLint.Proofs.Lexing.Boundaries
import PluginLint.Proofs.Lexing.OffsetsInStep
import PluginLint.Proofs.Lexing.BrokenStrings
import PluginLint.Proofs.Lexing.Unbraced
import PluginLint.Proofs.Lexing.AddedBraces
import PluginLint.Proofs.Parsing.Shape
import PluginLint.Proofs.Parsing.Growth
import PluginLint.Proofs.Parsing.Steps
import PluginLint.Proofs.Parsing.Types
import PluginLint.Proofs.Parsing.Lists
import PluginLint.Proofs.Parsing.Expressions
import PluginLint.Proofs.Parsing.Statements
import PluginLint.Proofs.Parsing.Members
import PluginLint.Proofs.Parsing.Files
import PluginLint.Proofs.Progress.Lookahead
import PluginLint.Proofs.Progress.Steps
import PluginLint.Proofs.Progress.Types
import PluginLint.Proofs.Progress.Lists
import PluginLint.Proofs.Progress.Expressions
import PluginLint.Proofs.Progress.Statements
import PluginLint.Proofs.Progress.Members
import PluginLint.Proofs.Progress.Files
import PluginLint.Proofs.Progress.AllOrNothing
import PluginLint.Proofs.Parsing.Readings
import PluginLint.Proofs.Parsing.FollowedTypes
import PluginLint.Proofs.Parsing.TypeReadings
import PluginLint.Proofs.LosslessParsing
import PluginLint.Proofs.Trees.Leaves
import PluginLint.Proofs.Trees.Places
import PluginLint.Proofs.Trees.Nodes
import PluginLint.Proofs.Trees.Outlines
import PluginLint.Proofs.Trees.Layout
import PluginLint.Proofs.Trees.Updates
import PluginLint.Proofs.Trees.Search
import PluginLint.Proofs.Trees.Positions
import PluginLint.Proofs.Trees.Measured
import PluginLint.Proofs.Running
import PluginLint.Proofs.Selection
import PluginLint.Proofs.Locations
import PluginLint.Proofs.Edits.Replacing
import PluginLint.Proofs.Edits.Splicing
import PluginLint.Proofs.Edits.Accounting
import PluginLint.Proofs.Edits.Frames
import PluginLint.Proofs.Edits.Undoing
import PluginLint.Proofs.Edits.BraceRules
import PluginLint.Proofs.Edits.BraceRemoval
import PluginLint.Proofs.Edits.BraceAddition
import PluginLint.Proofs.Edits.LostTrivia
import PluginLint.Proofs.Edits.Wholeness
import PluginLint.Proofs.Edits.Asked
import PluginLint.Proofs.LineColumns
import PluginLint.Proofs.LineTable
import PluginLint.Proofs.Edits.LostLines
import PluginLint.Proofs.Edits.Passes
import PluginLint.Proofs.Edits.Nesting
import PluginLint.Proofs.Edits.Outermost
import PluginLint.Proofs.Edits.Repairs
import PluginLint.Proofs.WorkerPool
import PluginLint.Proofs.Binding.BaseChains
import PluginLint.Proofs.Binding.Building
import PluginLint.Proofs.Binding.BaseTypes
import PluginLint.Proofs.Binding.Depth
import PluginLint.Proofs.Binding.TypeScopes
import PluginLint.Proofs.Binding.Bodies
import PluginLint.Proofs.Binding.Enclosure
import PluginLint.Proofs.Lexing.Levels
import PluginLint.Proofs.Lexing.Verbatim
import PluginLint.Proofs.Docs.Entities
import PluginLint.Proofs.Docs.Marks
import PluginLint.Proofs.Docs.Comments
import PluginLint.Proofs.Moves.Operators
import PluginLint.Proofs.Moves.Steps
import PluginLint.Proofs.Moves.Lists
import PluginLint.Proofs.Moves.Expressions
import PluginLint.Proofs.Moves.Operands
import PluginLint.Proofs.Moves.Climbing
import PluginLint.Proofs.Moves.Statements
import PluginLint.Proofs.Moves.Files
import PluginLint.Proofs.Moves.Problems
import PluginLint.Proofs.Reachability
import PluginLint.Proofs.Binding.Totality
import PluginLint.Proofs.Binding.FrameworkText
import PluginLint.Proofs.Binding.Nearness
import PluginLint.Proofs.RepeatedServices
import PluginLint.Proofs.Chains
import PluginLint.Proofs.Messages
import PluginLint.Proofs.Trees.Spans
import PluginLint.Proofs.Docs.OnePass
import PluginLint.Proofs.Binding.Substitution
