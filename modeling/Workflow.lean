import Workflow.Archive.Backup
import Workflow.Archive.Files
import Workflow.Check.Gate
import Workflow.Check.Report
import Workflow.Document.Exchange
import Workflow.Execution.Outcome
import Workflow.Graph.Connection
import Workflow.History
import Workflow.Main
import Workflow.Notice
import Workflow.Proofs.Graph.Cycle
import Workflow.Registry
import Workflow.Run.Entry
import Workflow.Run.Hook
import Workflow.Settings
import Workflow.Shell.Startup
import Workflow.Store.Execute
import Workflow.Proofs.Document.Gate
import Workflow.Proofs.Store.Request
import Workflow.Proofs.Store.Soundness
import Workflow.Proofs.Store.Travel
import Workflow.Proofs.Run.Tree
import Workflow.Proofs.Run.BreadthFirst
import Workflow.Proofs.Run.Paths
import Workflow.Proofs.Value.Parts
import Workflow.Proofs.Value.Text
import Workflow.Proofs.Document.Reading
import Workflow.Proofs.Graph.Regular
import Workflow.Proofs.Document.Codec
import Workflow.Proofs.Archive.Slot
import Workflow.Proofs.Store.Answer
import Workflow.Proofs.Store.Unheard
import Workflow.Proofs.Store.Import
import Workflow.Proofs.Binary64.Decimal
import Workflow.Proofs.Number.Spelling
import Workflow.Proofs.Json.RoundTrip
import Workflow.Proofs.Document.Exchange
import Workflow.Proofs.Store.Restore
import Workflow.Proofs.Graph.Precheck
import Workflow.Proofs.Check.Report
import Workflow.Proofs.Run.Log
import Workflow.Proofs.Run.Release
import Workflow.Proofs.Run.Cancel
import Workflow.Proofs.Run.Verdict
import Workflow.Proofs.Run.Course
import Workflow.Proofs.Run.KeptLog
import Workflow.Proofs.Store.Verdict
import Workflow.Proofs.Shell.Verdict
import Workflow.Proofs.Shell.Answer
import Workflow.Proofs.Document.Validation
import Workflow.Proofs.Graph.Circuit
import Workflow.Proofs.Store.Refusal
import Workflow.Proofs.Run.Branching
import Workflow.Proofs.Archive.Runs
import Workflow.Proofs.Document.Format
import Workflow.Proofs.Graph.Admission
import Workflow.Proofs.Graph.PathSearch
import Workflow.Proofs.History.Zipper
import Workflow.Proofs.Store.Admission
import Workflow.Proofs.Run.Carriage
import Workflow.Proofs.Run.Queue
import Workflow.Proofs.Execution.Outcome
import Workflow.Proofs.Run.DataFlow
import Workflow.Proofs.Binary64.Rounding
import Workflow.Proofs.Value.Operand
import Workflow.Proofs.Graph.DepthFirst
import Workflow.Proofs.Value.Equality
import Workflow.Proofs.Execution.Comparison
import Workflow.Proofs.Execution.Arithmetic
import Workflow.Proofs.Store.Selection
import Workflow.Proofs.Store.EdgeNames
import Workflow.Proofs.Store.Configure
import Workflow.Proofs.Notice
import Workflow.Proofs.Registry
import Workflow.Proofs.Store.Reentry
import Workflow.Proofs.Value.Reread
import Workflow.Proofs.Graph.Turns
import Workflow.Proofs.Shell.Completion
import Workflow.Proofs.Execution.Parity
