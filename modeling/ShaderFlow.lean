import ShaderFlow.Binary64.Basic
import ShaderFlow.Binary64.Format
import ShaderFlow.Binary64.Shortest
import ShaderFlow.Cli.Arguments
import ShaderFlow.Cli.Command
import ShaderFlow.Cli.Number
import ShaderFlow.Cli.Printed
import ShaderFlow.Cli.Run
import ShaderFlow.Config
import ShaderFlow.Emit
import ShaderFlow.Error
import ShaderFlow.Evaluation.Basic
import ShaderFlow.Evaluation.Order
import ShaderFlow.Event
import ShaderFlow.Files
import ShaderFlow.Fragment
import ShaderFlow.Graph.Basic
import ShaderFlow.Graph.Document
import ShaderFlow.Graph.Edit
import ShaderFlow.Graph.Interchange
import ShaderFlow.Graph.Link
import ShaderFlow.Graph.NodeId
import ShaderFlow.Header
import ShaderFlow.Json.Basic
import ShaderFlow.Json.Coerce
import ShaderFlow.Json.Display
import ShaderFlow.Json.Fields
import ShaderFlow.Json.Key
import ShaderFlow.Json.Parser
import ShaderFlow.Json.Printer
import ShaderFlow.Kind.Basic
import ShaderFlow.Kind.Combine
import ShaderFlow.Kind.Interchange
import ShaderFlow.Kind.Registry
import ShaderFlow.Kind.Socket
import ShaderFlow.Kind.Source
import ShaderFlow.Logged
import ShaderFlow.Main
import ShaderFlow.Number.Arithmetic
import ShaderFlow.Number.Basic
import ShaderFlow.Path
import ShaderFlow.Poller
import ShaderFlow.Program.Basic
import ShaderFlow.Program.Lowering
import ShaderFlow.Program.Resolution
import ShaderFlow.Proofs.Cli.Export
import ShaderFlow.Proofs.Cli.Step
import ShaderFlow.Proofs.Evaluation.Arrangement
import ShaderFlow.Proofs.Evaluation.Counting
import ShaderFlow.Proofs.Evaluation.Greedy
import ShaderFlow.Proofs.Evaluation.Linearity
import ShaderFlow.Proofs.Evaluation.LivePart
import ShaderFlow.Proofs.Evaluation.Order
import ShaderFlow.Proofs.Evaluation.Preservation
import ShaderFlow.Proofs.Evaluation.Reading
import ShaderFlow.Proofs.Evaluation.Record
import ShaderFlow.Proofs.Evaluation.Recursion
import ShaderFlow.Proofs.Evaluation.Rest
import ShaderFlow.Proofs.Evaluation.Run
import ShaderFlow.Proofs.Evaluation.Spelling
import ShaderFlow.Proofs.Evaluation.Totality
import ShaderFlow.Proofs.Fragment.Combination
import ShaderFlow.Proofs.Fragment.Finish
import ShaderFlow.Proofs.Fragment.Scope
import ShaderFlow.Proofs.Graph.Acceptance
import ShaderFlow.Proofs.Graph.Atomicity
import ShaderFlow.Proofs.Graph.Document
import ShaderFlow.Proofs.Graph.Invariant
import ShaderFlow.Proofs.Graph.Loading
import ShaderFlow.Proofs.Graph.RoundTrip
import ShaderFlow.Proofs.Graph.Socket
import ShaderFlow.Proofs.Graph.Stability
import ShaderFlow.Proofs.Json.Fault
import ShaderFlow.Proofs.Json.Members
import ShaderFlow.Proofs.Kind.Cost
import ShaderFlow.Proofs.Kind.Formula
import ShaderFlow.Proofs.Kind.Reading
import ShaderFlow.Proofs.Kind.Spelling
import ShaderFlow.Proofs.Outcome
import ShaderFlow.Proofs.Poller.Polls
import ShaderFlow.Proofs.Poller.Viewing
import ShaderFlow.Proofs.Program.Emission
import ShaderFlow.Proofs.Program.Generation
import ShaderFlow.Proofs.Program.Hygiene
import ShaderFlow.Proofs.Program.Lowering
import ShaderFlow.Proofs.Program.Naming
import ShaderFlow.Proofs.Program.Replacement
import ShaderFlow.Proofs.Program.Respelling
import ShaderFlow.Proofs.Program.Search
import ShaderFlow.Proofs.Program.Sharing
import ShaderFlow.Proofs.Program.Size
import ShaderFlow.Proofs.Program.Table
import ShaderFlow.Proofs.Program.Unfolding
import ShaderFlow.Proofs.Reading.Grammar
import ShaderFlow.Proofs.Reading.Lexicon
import ShaderFlow.Proofs.Reading.Phrase
import ShaderFlow.Proofs.Reading.Scanner
import ShaderFlow.Proofs.Render.Cleanup
import ShaderFlow.Proofs.Render.Ledger
import ShaderFlow.Proofs.Render.Lifetime
import ShaderFlow.Proofs.Render.Ownership
import ShaderFlow.Proofs.Render.Work
import ShaderFlow.Proofs.Sequence
import ShaderFlow.Proofs.Session.Acknowledgement
import ShaderFlow.Proofs.Session.Currency
import ShaderFlow.Proofs.Session.History
import ShaderFlow.Proofs.Session.Order
import ShaderFlow.Proofs.Session.Pass
import ShaderFlow.Proofs.Session.Progress
import ShaderFlow.Proofs.Session.Request
import ShaderFlow.Proofs.Session.Turn
import ShaderFlow.Proofs.Term.Alike
import ShaderFlow.Proofs.Term.Inlining
import ShaderFlow.Proofs.Term.Shape
import ShaderFlow.Proofs.Term.Size
import ShaderFlow.Proofs.Term.Traversal
import ShaderFlow.Proofs.Text.Label
import ShaderFlow.Proofs.Text.Numeral
import ShaderFlow.Render.Calendar
import ShaderFlow.Render.Canvas
import ShaderFlow.Render.Device
import ShaderFlow.Render.FloatForm
import ShaderFlow.Render.Frame
import ShaderFlow.Render.Interchange
import ShaderFlow.Render.Pacing
import ShaderFlow.Render.Picture
import ShaderFlow.Render.Raster
import ShaderFlow.Render.Sample
import ShaderFlow.Render.SampleForm
import ShaderFlow.Render.SampleType
import ShaderFlow.Render.TimeStep
import ShaderFlow.Render.WideNumeral
import ShaderFlow.Render.Window
import ShaderFlow.Session.Basic
import ShaderFlow.Session.Edit
import ShaderFlow.Session.Loop
import ShaderFlow.Store
import ShaderFlow.Target
import ShaderFlow.Term.Basic
import ShaderFlow.Term.Interchange
import ShaderFlow.Term.Traverse
import ShaderFlow.Text.Class
import ShaderFlow.Text.Hex
import ShaderFlow.Text.Line
import ShaderFlow.Text.Numeral
import ShaderFlow.Text.Printable
import ShaderFlow.Text.Quoted
import ShaderFlow.Text.Surrogate
import ShaderFlow.Text.Upper
import ShaderFlow.Text.Utf8
import ShaderFlow.Watch
