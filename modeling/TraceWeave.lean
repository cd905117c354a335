import TraceWeave.Ascending
import TraceWeave.Body.Basic
import TraceWeave.ClassFile.Body
import TraceWeave.ClassFile.Expr
import TraceWeave.ClassFile.Probe
import TraceWeave.ClassFile.Program
import TraceWeave.ClassFile.Value
import TraceWeave.Console.Arguments
import TraceWeave.Console.ClassStore
import TraceWeave.Console.Command
import TraceWeave.Console.Display
import TraceWeave.Console.Documents
import TraceWeave.Console.Error
import TraceWeave.Console.FileTree
import TraceWeave.Console.Host
import TraceWeave.Console.Path
import TraceWeave.Console.Perform
import TraceWeave.Console.Running
import TraceWeave.Console.Summarizing
import TraceWeave.Console.Verbosity
import TraceWeave.Console.Weaving
import TraceWeave.Expr.Basic
import TraceWeave.Expr.Operator
import TraceWeave.Failure
import TraceWeave.Floating.Convert
import TraceWeave.Floating.Format
import TraceWeave.Floating.Shortest
import TraceWeave.Floating.Text
import TraceWeave.Flow.Anchor
import TraceWeave.Flow.Graph
import TraceWeave.Flow.LineIndex
import TraceWeave.Json.Basic
import TraceWeave.Json.Fields
import TraceWeave.Json.Printer
import TraceWeave.Json.Reader
import TraceWeave.Json.Token
import TraceWeave.Listing
import TraceWeave.Machine.Basic
import TraceWeave.Machine.Fault
import TraceWeave.Machine.Natives
import TraceWeave.Machine.Table
import TraceWeave.Machine.Tests
import TraceWeave.Main
import TraceWeave.Numeral.Basic
import TraceWeave.Numeral.Float
import TraceWeave.Probe
import TraceWeave.Program
import TraceWeave.Selection.Fields
import TraceWeave.Selection.LineSet
import TraceWeave.Selection.Lines
import TraceWeave.Settings
import TraceWeave.SettingsFile
import TraceWeave.Text.Blank
import TraceWeave.Text.Escape
import TraceWeave.Text.Printable
import TraceWeave.Text.Split
import TraceWeave.Trace.Event
import TraceWeave.Trace.Record
import TraceWeave.Trace.Recorder
import TraceWeave.Trace.Summary
import TraceWeave.Ty
import TraceWeave.Value.Basic
import TraceWeave.Value.Number
import TraceWeave.Value.Operator
import TraceWeave.Weave.Basic
import TraceWeave.Weave.Condition
import TraceWeave.Weave.FieldAccess
import TraceWeave.Weave.Ledger
import TraceWeave.Weave.Lifecycle
import TraceWeave.Weave.Product
import TraceWeave.Weave.Report
import TraceWeave.Weave.Session
import TraceWeave.Proofs.Body.Consistency
import TraceWeave.Proofs.Body.Temporaries
import TraceWeave.Proofs.Expr.Induction
import TraceWeave.Proofs.Value.Conforms
import TraceWeave.Proofs.Expr.Typing
import TraceWeave.Proofs.Flow.Anchor
import TraceWeave.Proofs.Stateful
import TraceWeave.Proofs.Machine.Congruence
import TraceWeave.Proofs.Machine.Checked
import TraceWeave.Proofs.Machine.Follows
import TraceWeave.Proofs.Machine.Evaluation
import TraceWeave.Proofs.Machine.StraightLine
import TraceWeave.Proofs.Machine.Repetition
import TraceWeave.Proofs.Machine.Reaching
import TraceWeave.Proofs.Machine.Block
import TraceWeave.Proofs.Weave.Layout
import TraceWeave.Proofs.Weave.Edits
import TraceWeave.Proofs.Weave.Script
import TraceWeave.Proofs.Weave.Weavers
import TraceWeave.Proofs.Weave.Methods
import TraceWeave.Proofs.Weave.Product
import TraceWeave.Proofs.Weave.Malformed
import TraceWeave.Proofs.Weave.ProductPhase
import TraceWeave.Proofs.Weave.RequestedLines
import TraceWeave.Proofs.Weave.LineAttribution
import TraceWeave.Proofs.Weave.Told
import TraceWeave.Proofs.Weave.Telling
import TraceWeave.Proofs.Weave.Positions
import TraceWeave.Proofs.Weave.FieldProbes
import TraceWeave.Proofs.Weave.Woven
import TraceWeave.Proofs.Weave.Simulation
import TraceWeave.Proofs.Weave.Refinement
import TraceWeave.Proofs.Weave.Preservation
import TraceWeave.Proofs.Weave.Faithful
import TraceWeave.Proofs.Text.Numerals
import TraceWeave.Proofs.Text.Reading
import TraceWeave.Proofs.Machine.Effect
import TraceWeave.Proofs.Machine.Offers
import TraceWeave.Proofs.Machine.Initialization
import TraceWeave.Proofs.Machine.Budget
import TraceWeave.Proofs.Trace.Kept
import TraceWeave.Proofs.Trace.Records
import TraceWeave.Proofs.Trace.Markers
import TraceWeave.Proofs.Trace.Summaries
import TraceWeave.Proofs.Trace.TestLog
import TraceWeave.Proofs.Weave.LineKeys
import TraceWeave.Proofs.Weave.Upkeep
import TraceWeave.Proofs.Weave.WrappedTests
import TraceWeave.Proofs.Weave.BranchIndices
import TraceWeave.Proofs.Weave.Permits
import TraceWeave.Proofs.Weave.TestMarkers
import TraceWeave.Proofs.Weave.MarkedTests
import TraceWeave.Proofs.Weave.PlainNames
import TraceWeave.Proofs.ClassFile.Constants
import TraceWeave.Proofs.ClassFile.Nesting
import TraceWeave.Proofs.Weave.Literals
import TraceWeave.Proofs.Weave.Nesting
import TraceWeave.Proofs.Machine.Bracketed
import TraceWeave.Proofs.Machine.TestRuns
import TraceWeave.Proofs.Trace.TestBrackets
import TraceWeave.Proofs.Trace.LogSummaries
import TraceWeave.Proofs.Trace.Conservation
import TraceWeave.Proofs.Trace.RecordKeys
import TraceWeave.Proofs.Trace.Recovery
import TraceWeave.Proofs.Trace.Deduplication
import TraceWeave.Proofs.Flow.Reachability
import TraceWeave.Proofs.Flow.Contraction
import TraceWeave.Proofs.Body.FreshLabels
import TraceWeave.Proofs.Weave.EditClosed
import TraceWeave.Proofs.Weave.ControlFlow
import TraceWeave.Proofs.Selection.LineSet
import TraceWeave.Proofs.Selection.LineEntries
import TraceWeave.Proofs.Selection.FieldEntries
import TraceWeave.Proofs.Machine.Walks
import TraceWeave.Proofs.Machine.Steps
import TraceWeave.Proofs.Machine.Guards
import TraceWeave.Proofs.Weave.KeptGuards
import TraceWeave.Proofs.Weave.LineProbes
import TraceWeave.Proofs.Weave.FieldEvents
import TraceWeave.Proofs.Weave.ProbeCounts
import TraceWeave.Proofs.Weave.Accounting
import TraceWeave.Proofs.Weave.Totals
import TraceWeave.Proofs.Flow.Execution
import TraceWeave.Proofs.Flow.Choice
import TraceWeave.Proofs.Weave.FieldReads
import TraceWeave.Proofs.Weave.Rollback
import TraceWeave.Proofs.Json.Shape
import TraceWeave.Proofs.Json.Building
import TraceWeave.Proofs.Numeral.WellFormed
import TraceWeave.Proofs.Json.Lexing
import TraceWeave.Proofs.ClassFile.ReadsBack
import TraceWeave.Proofs.ClassFile.Terms
import TraceWeave.Proofs.ClassFile.RoundTrip
import TraceWeave.Proofs.Floating.Nearest
import TraceWeave.Proofs.Floating.Product
import TraceWeave.Proofs.Floating.Shortest
import TraceWeave.Proofs.Numeral.Scaling
import TraceWeave.Proofs.Floating.Text
import TraceWeave.Proofs.ClassFile.Floats
import TraceWeave.Proofs.Weave.Reloading
import TraceWeave.Proofs.Weave.InsertedBlock
import TraceWeave.Proofs.Weave.Divisible
import TraceWeave.Proofs.Machine.HostCalls
import TraceWeave.Proofs.Weave.Negations
import TraceWeave.Proofs.Weave.Clashes
import TraceWeave.Proofs.Machine.Courses
import TraceWeave.Proofs.Machine.Accounts
import TraceWeave.Proofs.Machine.Limits
import TraceWeave.Proofs.Value.Wholes
import TraceWeave.Proofs.Weave.SkipReasons
