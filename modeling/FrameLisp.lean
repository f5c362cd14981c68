import FrameLisp.Code.Analysis
import FrameLisp.Code.Check
import FrameLisp.Code.Form
import FrameLisp.Code.Parameters
import FrameLisp.Code.WellFormed
import FrameLisp.Console.Command
import FrameLisp.Console.Inspection
import FrameLisp.Console.Output
import FrameLisp.Console.Repl
import FrameLisp.Console.Transcript
import FrameLisp.Datum.Arity
import FrameLisp.Datum.Basic
import FrameLisp.Datum.Chain
import FrameLisp.Datum.Equality
import FrameLisp.Datum.Legible
import FrameLisp.Datum.Mentions
import FrameLisp.Datum.Primitive
import FrameLisp.Datum.Profile
import FrameLisp.Datum.Readable
import FrameLisp.Datum.Strings
import FrameLisp.Datum.Text
import FrameLisp.Datum.Trace
import FrameLisp.Eval.Action
import FrameLisp.Eval.Arithmetic
import FrameLisp.Eval.Direct
import FrameLisp.Eval.Error
import FrameLisp.Eval.Failure
import FrameLisp.Eval.Run
import FrameLisp.Eval.Tally
import FrameLisp.Main
import FrameLisp.Numeric.Binary64
import FrameLisp.Numeric.FloatText
import FrameLisp.Numeric.Literal
import FrameLisp.Numeric.Number
import FrameLisp.Numeric.Rounding
import FrameLisp.Numeric.Shortest
import FrameLisp.Proofs.Code.Check
import FrameLisp.Proofs.Code.Compiling
import FrameLisp.Proofs.Code.Definitions
import FrameLisp.Proofs.Code.Language
import FrameLisp.Proofs.Code.Parameters
import FrameLisp.Proofs.Code.Renaming
import FrameLisp.Proofs.Console.Agreement
import FrameLisp.Proofs.Datum.Equality
import FrameLisp.Proofs.Datum.Likeness
import FrameLisp.Proofs.Datum.Observation
import FrameLisp.Proofs.Datum.Renaming
import FrameLisp.Proofs.Eval.Arguments
import FrameLisp.Proofs.Eval.Arithmetic
import FrameLisp.Proofs.Eval.Calls
import FrameLisp.Proofs.Eval.Comparison
import FrameLisp.Proofs.Eval.Confinement
import FrameLisp.Proofs.Eval.Congruence
import FrameLisp.Proofs.Eval.Depth
import FrameLisp.Proofs.Eval.Direct
import FrameLisp.Proofs.Eval.Failures
import FrameLisp.Proofs.Eval.Growth
import FrameLisp.Proofs.Eval.Legible
import FrameLisp.Proofs.Eval.Likeness
import FrameLisp.Proofs.Eval.Relocation
import FrameLisp.Proofs.Eval.Renaming
import FrameLisp.Proofs.Eval.Settings
import FrameLisp.Proofs.Numeric.Order
import FrameLisp.Proofs.Numeric.Overflow
import FrameLisp.Proofs.Numeric.Rounding
import FrameLisp.Proofs.Numeric.Shortest
import FrameLisp.Proofs.Outcomes
import FrameLisp.Proofs.Report.Position
import FrameLisp.Proofs.Session.Accounting
import FrameLisp.Proofs.Session.Application
import FrameLisp.Proofs.Session.Diagnostics
import FrameLisp.Proofs.Session.Footprint
import FrameLisp.Proofs.Session.Hosts
import FrameLisp.Proofs.Session.Loading
import FrameLisp.Proofs.Session.Places
import FrameLisp.Proofs.Session.Printing
import FrameLisp.Proofs.Session.Reclamation
import FrameLisp.Proofs.Session.Refusal
import FrameLisp.Proofs.Session.Requests
import FrameLisp.Proofs.Session.Running
import FrameLisp.Proofs.Session.Sources
import FrameLisp.Proofs.Source.Atoms
import FrameLisp.Proofs.Source.Built
import FrameLisp.Proofs.Source.Chunks
import FrameLisp.Proofs.Source.Classes
import FrameLisp.Proofs.Source.Completion
import FrameLisp.Proofs.Source.Continuation
import FrameLisp.Proofs.Source.Counting
import FrameLisp.Proofs.Source.Coverage
import FrameLisp.Proofs.Source.Cuts
import FrameLisp.Proofs.Source.Derivation
import FrameLisp.Proofs.Source.Extents
import FrameLisp.Proofs.Source.Faults
import FrameLisp.Proofs.Source.Items
import FrameLisp.Proofs.Source.Joining
import FrameLisp.Proofs.Source.Legible
import FrameLisp.Proofs.Source.Lookahead
import FrameLisp.Proofs.Source.Lossless
import FrameLisp.Proofs.Source.NumberText
import FrameLisp.Proofs.Source.Numerals
import FrameLisp.Proofs.Source.Outcome
import FrameLisp.Proofs.Source.Printed
import FrameLisp.Proofs.Source.Readable
import FrameLisp.Proofs.Source.Scanning
import FrameLisp.Proofs.Source.Shift
import FrameLisp.Proofs.Source.Spans
import FrameLisp.Proofs.Source.Spelled
import FrameLisp.Proofs.Source.Stream
import FrameLisp.Proofs.Source.Truncation
import FrameLisp.Proofs.Store.Bindings
import FrameLisp.Proofs.Store.Collection
import FrameLisp.Proofs.Store.Evolution
import FrameLisp.Proofs.Store.Growth
import FrameLisp.Proofs.Store.Ledger
import FrameLisp.Proofs.Store.Likeness
import FrameLisp.Proofs.Store.Lineage
import FrameLisp.Proofs.Store.Marking
import FrameLisp.Proofs.Store.Relocation
import FrameLisp.Proofs.Store.Scopes
import FrameLisp.Proofs.Store.Slots
import FrameLisp.Proofs.Text.Decoding
import FrameLisp.Proofs.Text.Encoding
import FrameLisp.Report.Diagnostic
import FrameLisp.Report.Ink
import FrameLisp.Report.Snippet
import FrameLisp.Session.Files
import FrameLisp.Session.Host
import FrameLisp.Session.State
import FrameLisp.Session.Text
import FrameLisp.Source.Atom
import FrameLisp.Source.Chunk
import FrameLisp.Source.Fault
import FrameLisp.Source.Feed
import FrameLisp.Source.Grammar
import FrameLisp.Source.Lookahead
import FrameLisp.Source.Reading
import FrameLisp.Source.Scan
import FrameLisp.Source.Span
import FrameLisp.Source.Spelling
import FrameLisp.Source.Stream
import FrameLisp.Source.Token
import FrameLisp.Store.Arena
import FrameLisp.Store.Collection
import FrameLisp.Store.Environments
import FrameLisp.Store.Frame
import FrameLisp.Store.Handle
import FrameLisp.Store.History
import FrameLisp.Store.Reachability
import FrameLisp.Text.Blank
import FrameLisp.Text.Columns
import FrameLisp.Text.Decoding
import FrameLisp.Text.Lines
import FrameLisp.Text.Printable
import FrameLisp.Text.Quoted
import FrameLisp.Text.Ranges
