import LayoutGrammar.CommandLine.Options
import LayoutGrammar.CommandLine.Run
import LayoutGrammar.Diagnostic.Basic
import LayoutGrammar.Diagnostic.Report
import LayoutGrammar.Evaluation.Attempt
import LayoutGrammar.Evaluation.Basic
import LayoutGrammar.Evaluation.Cursor
import LayoutGrammar.Evaluation.Journal
import LayoutGrammar.Evaluation.Parse
import LayoutGrammar.Evaluation.Session
import LayoutGrammar.Grammar.Basic
import LayoutGrammar.Grammar.Nonterminal
import LayoutGrammar.Grammar.Production
import LayoutGrammar.Log
import LayoutGrammar.Main
import LayoutGrammar.Program.Grammar
import LayoutGrammar.Text.Blank
import LayoutGrammar.Text.Hidden
import LayoutGrammar.Text.Line
import LayoutGrammar.Text.Offset
import LayoutGrammar.Text.Quoted
import LayoutGrammar.Text.Window
import LayoutGrammar.Token.Basic
import LayoutGrammar.Token.Literal
import LayoutGrammar.Token.Pattern
import LayoutGrammar.Token.Position
import LayoutGrammar.Token.Scan
import LayoutGrammar.Token.Stream
import LayoutGrammar.Token.Terminal
import LayoutGrammar.Tree.Basic
import LayoutGrammar.Tree.Display
import LayoutGrammar.Proofs.Evaluation.Furthest
import LayoutGrammar.Proofs.Prediction.Outlook
import LayoutGrammar.Proofs.Evaluation.Ends
import LayoutGrammar.Proofs.Prediction.Choice
import LayoutGrammar.Proofs.Prediction.Production
import LayoutGrammar.Proofs.Program.Outlook
import LayoutGrammar.Proofs.Program.Tree
import LayoutGrammar.Proofs.Program.Meaning
import LayoutGrammar.Proofs.Program.Solution
import LayoutGrammar.Proofs.Program.Statement
import LayoutGrammar.Proofs.Program.Evaluation
import LayoutGrammar.Proofs.Program.Language
import LayoutGrammar.Proofs.Program.Readings
import LayoutGrammar.Proofs.Program.Parse
import LayoutGrammar.Proofs.Evaluation.Leaves
import LayoutGrammar.Proofs.Scan.Lossless
import LayoutGrammar.Proofs.Scan.RoundTrip
import LayoutGrammar.Proofs.Evaluation.Conduct
import LayoutGrammar.Proofs.Evaluation.Progress
import LayoutGrammar.Proofs.Evaluation.Reuse
import LayoutGrammar.Proofs.Evaluation.Nesting
import LayoutGrammar.Proofs.Evaluation.Limit
import LayoutGrammar.Proofs.Program.Depth
import LayoutGrammar.Proofs.Program.Schema
import LayoutGrammar.Proofs.Scan.Columns
import LayoutGrammar.Proofs.Scan.Offside
import LayoutGrammar.Proofs.Scan.Shape
import LayoutGrammar.Proofs.Scan.Seam
import LayoutGrammar.Proofs.Scan.Concatenation
import LayoutGrammar.Proofs.Evaluation.Runs
import LayoutGrammar.Proofs.Evaluation.Again
import LayoutGrammar.Proofs.Evaluation.Places
import LayoutGrammar.Proofs.Evaluation.Parts
import LayoutGrammar.Proofs.Evaluation.Correspondence
import LayoutGrammar.Proofs.Evaluation.Edge
import LayoutGrammar.Proofs.Evaluation.Simulation
import LayoutGrammar.Proofs.Evaluation.Context
import LayoutGrammar.Proofs.Program.Sequence
import LayoutGrammar.Proofs.Evaluation.LookAhead
import LayoutGrammar.Proofs.Evaluation.Silence
import LayoutGrammar.Proofs.Evaluation.Alternatives
import LayoutGrammar.Proofs.Precedence.Tiers
import LayoutGrammar.Proofs.Precedence.Chain
import LayoutGrammar.Proofs.Evaluation.Reachable
import LayoutGrammar.Proofs.Evaluation.LeftRecursion
import LayoutGrammar.Proofs.Grammar.Validation
import LayoutGrammar.Proofs.Evaluation.Flat
import LayoutGrammar.Proofs.Evaluation.Hoisting
import LayoutGrammar.Proofs.Evaluation.Kinds
import LayoutGrammar.Proofs.Evaluation.Room
import LayoutGrammar.Proofs.Program.Parentheses
import LayoutGrammar.Proofs.Scan.Languages
import LayoutGrammar.Proofs.Scan.Literals
import LayoutGrammar.Proofs.Scan.Faults
import LayoutGrammar.Proofs.Scan.BlankLines
import LayoutGrammar.Proofs.Scan.LineEnds
import LayoutGrammar.Proofs.Scan.Longest
import LayoutGrammar.Proofs.Text.Lines
import LayoutGrammar.Proofs.Tree.Compact
import LayoutGrammar.Proofs.Diagnostic.Report
import LayoutGrammar.Proofs.Diagnostic.Located
