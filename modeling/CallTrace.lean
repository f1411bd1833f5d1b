import CallTrace.Alphanumeric
import CallTrace.Arena.Basic
import CallTrace.Arena.Build
import CallTrace.Arena.Record
import CallTrace.Arena.Scope
import CallTrace.Arena.Walk
import CallTrace.Binary64
import CallTrace.Binary64.Shortest
import CallTrace.Command.Args
import CallTrace.Command.Files
import CallTrace.Command.Log
import CallTrace.Command.Process
import CallTrace.Command.Run
import CallTrace.Import
import CallTrace.Json.Basic
import CallTrace.Json.Numeral
import CallTrace.Json.Printer
import CallTrace.Json.Reader
import CallTrace.Json.Text
import CallTrace.Main
import CallTrace.Node.Basic
import CallTrace.Node.Record
import CallTrace.Proofs.Agreement
import CallTrace.Proofs.Ancestors
import CallTrace.Proofs.Attribution
import CallTrace.Proofs.Bindings
import CallTrace.Proofs.Bodies
import CallTrace.Proofs.Callees
import CallTrace.Proofs.Cutoff
import CallTrace.Proofs.Depth
import CallTrace.Proofs.Descent
import CallTrace.Proofs.Documents
import CallTrace.Proofs.Editing
import CallTrace.Proofs.Grammar
import CallTrace.Proofs.Layout
import CallTrace.Proofs.Limit
import CallTrace.Proofs.Locality
import CallTrace.Proofs.Nesting
import CallTrace.Proofs.Numbering
import CallTrace.Proofs.Printing
import CallTrace.Proofs.ReadBack
import CallTrace.Proofs.Reading
import CallTrace.Proofs.Registration
import CallTrace.Proofs.Renaming
import CallTrace.Proofs.Reports
import CallTrace.Proofs.Rounding
import CallTrace.Proofs.ScopeChains
import CallTrace.Proofs.Scopes
import CallTrace.Proofs.Shape
import CallTrace.Proofs.Spot
import CallTrace.Proofs.Stability
import CallTrace.Proofs.Storage
import CallTrace.Proofs.Structure
import CallTrace.Proofs.Walk
import CallTrace.Record
import CallTrace.Trace.Basic
import CallTrace.Trace.Callee
import CallTrace.Trace.Limit
import CallTrace.Trace.Record
import CallTrace.Trace.Resolve
import CallTrace.Tree.Basic
import CallTrace.Tree.Error
import CallTrace.Tree.Read
