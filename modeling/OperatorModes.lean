import OperatorModes.Backend.Connect
import OperatorModes.Backend.Verify
import OperatorModes.Main
import OperatorModes.Proofs.Inference
import OperatorModes.Proofs.Check
import OperatorModes.Proofs.Acceptance
import OperatorModes.Proofs.Exit
import OperatorModes.Proofs.Report
import OperatorModes.Proofs.Attribution
import OperatorModes.Proofs.Agreement
import OperatorModes.Proofs.Json.Token
import OperatorModes.Proofs.Json.Printer
import OperatorModes.Proofs.Json.Reader
import OperatorModes.Proofs.Json.Indented
import OperatorModes.Proofs.Json.Run
import OperatorModes.Proofs.Json.Extension
import OperatorModes.Proofs.Json.Skim
import OperatorModes.Proofs.Json.Draft
import OperatorModes.Proofs.Json.Record
import OperatorModes.Proofs.Json.Variant
import OperatorModes.Proofs.Json.Written
import OperatorModes.Proofs.Json.Fields
import OperatorModes.Proofs.Document.Effect
import OperatorModes.Proofs.Document.RoundTrip
import OperatorModes.Proofs.Document.Tolerance
import OperatorModes.Proofs.Document.Normal
import OperatorModes.Proofs.Document.CheckResult
import OperatorModes.Proofs.Document.ResultRoundTrip
import OperatorModes.Proofs.ClosedForm
import OperatorModes.Proofs.Representation
import OperatorModes.Proofs.Rendering
import OperatorModes.Proofs.Json.Lookup
import OperatorModes.Proofs.Json.Mirror
import OperatorModes.Proofs.Backend.Response
import OperatorModes.Proofs.Backend.Connect
import OperatorModes.Proofs.Backend.Clock
import OperatorModes.Proofs.Backend.Counter
import OperatorModes.Proofs.Switches
import OperatorModes.Proofs.Monotonicity
import OperatorModes.Proofs.Reordering
import OperatorModes.Proofs.Currying
import OperatorModes.Proofs.Readability
import OperatorModes.Proofs.EventLog
import OperatorModes.Proofs.FirstFault
import OperatorModes.Proofs.Redeclaration
import OperatorModes.Proofs.Json.Order
import OperatorModes.Proofs.Backend.Request
import OperatorModes.Proofs.Text.Words
import OperatorModes.Proofs.Spelling
import OperatorModes.Proofs.Siblings
import OperatorModes.Proofs.Traversal
