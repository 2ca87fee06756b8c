import Conditionals.Text.Basic
import Conditionals.Text.Blank
import Conditionals.Text.Decimal
import Conditionals.LineTable
import Conditionals.Directive.Kind
import Conditionals.Directive.Keyword
import Conditionals.Directive.Basic
import Conditionals.Directive.Occurrence
import Conditionals.Condition
import Conditionals.Diagnostic
import Conditionals.LineRange
import Conditionals.ActivePath
import Conditionals.Cursor.Basic
import Conditionals.Log.Category
import Conditionals.Log.Event
import Conditionals.Fold.Block
import Conditionals.Fold.Scan
import Conditionals.Section
import Conditionals.Decoration.Hint
import Conditionals.Decoration.Chain
import Conditionals.Decoration.Scan
import Conditionals.Cursor.Tracker
import Conditionals.Cursor.Decorator
import Conditionals.Cursor.Replay
import Conditionals.Document
import Conditionals.Report
import Conditionals.CommandLine.Error
import Conditionals.CommandLine.Invocation
import Conditionals.CommandLine.Usage
import Conditionals.CommandLine.WorkingDirectory
import Conditionals.CommandLine.Run
import Conditionals.Main
import Conditionals.Proofs.Text.Slice
import Conditionals.Proofs.Text.Trim
import Conditionals.Proofs.Condition.NormalForm
import Conditionals.Proofs.Condition.Clean
import Conditionals.Proofs.Condition.Nesting
import Conditionals.Proofs.Condition.OpenName
import Conditionals.Proofs.Sorting
import Conditionals.Proofs.Chain
import Conditionals.Proofs.Chain.Members
import Conditionals.Proofs.Fold.Trace
import Conditionals.Proofs.Fold.Cancellation
import Conditionals.Proofs.Fold.Laminar
import Conditionals.Proofs.Fold.Grammar
import Conditionals.Proofs.Fold.Cover
import Conditionals.Proofs.Occurrence.Lines
import Conditionals.Proofs.LineTable
import Conditionals.Proofs.Occurrence.Anchored
import Conditionals.Proofs.Occurrence.Classifier
import Conditionals.Proofs.Occurrence.Stretches
import Conditionals.Proofs.Decoration.Trace
import Conditionals.Proofs.Decoration.Hints
import Conditionals.Proofs.Decoration.Path
import Conditionals.Proofs.Decoration.Encounter
import Conditionals.Proofs.Decoration.Names
import Conditionals.Proofs.Decoration.Closers
import Conditionals.Proofs.Decoration.Conservation
import Conditionals.Proofs.Decoration.Merging
import Conditionals.Proofs.Decoration.Locality
import Conditionals.Proofs.Agreement
import Conditionals.Proofs.Faults
import Conditionals.Proofs.ClosedPrefix
import Conditionals.Proofs.View
import Conditionals.Proofs.LineEnding
import Conditionals.Proofs.Cursor.Session
import Conditionals.Proofs.Cursor.Replay
import Conditionals.Proofs.Log
import Conditionals.Proofs.Category
import Conditionals.Proofs.CommandLine.Options
import Conditionals.Proofs.CommandLine.Help
import Conditionals.Proofs.CommandLine.RoundTrip
import Conditionals.Proofs.CommandLine.Outcome
import Conditionals.Proofs.Section
