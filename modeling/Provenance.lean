import Provenance.Command.Arguments
import Provenance.Command.Ingest
import Provenance.Command.Program
import Provenance.Command.Run
import Provenance.Decimal.Layout
import Provenance.Decimal.Shortest
import Provenance.Files.Basic
import Provenance.Files.Workspace
import Provenance.Json.Basic
import Provenance.Json.Decode
import Provenance.Json.Number
import Provenance.Json.Printer
import Provenance.Json.Tree
import Provenance.Log.Basic
import Provenance.Log.Buffered
import Provenance.Log.Location
import Provenance.Log.Memory
import Provenance.Log.Store
import Provenance.Log.Table
import Provenance.Log.TableText
import Provenance.Markup.Assignment
import Provenance.Markup.ClosingTags
import Provenance.Markup.Codec
import Provenance.Markup.Correction
import Provenance.Markup.Diagnostic
import Provenance.Markup.Escape
import Provenance.Markup.Fragment
import Provenance.Markup.Html
import Provenance.Markup.Mapper
import Provenance.Markup.Mapping
import Provenance.Markup.Origin
import Provenance.Markup.Reference
import Provenance.Named
import Provenance.Proofs.Log.Memory
import Provenance.Proofs.Markup.Agreement
import Provenance.Proofs.Markup.Canonical
import Provenance.Proofs.Markup.ClosingTags
import Provenance.Proofs.Markup.FixedPoint
import Provenance.Proofs.Markup.Layout
import Provenance.Proofs.Markup.Lookup
import Provenance.Proofs.Markup.Reference
import Provenance.Proofs.Markup.Tree
import Provenance.Proofs.Markup.Verbatim
import Provenance.Proofs.Record.Batch
import Provenance.Proofs.Record.Acceptance
import Provenance.Proofs.Text.Lowercase
import Provenance.Proofs.Trace.Chain
import Provenance.Proofs.Trace.Characters
import Provenance.Proofs.Trace.Cycles
import Provenance.Proofs.Trace.Descent
import Provenance.Record.Basic
import Provenance.Record.Codec
import Provenance.Record.Draft
import Provenance.Record.Id
import Provenance.Record.Kind
import Provenance.Script.Evaluation
import Provenance.Script.Lexer
import Provenance.Script.Parser
import Provenance.Script.Reduction
import Provenance.Script.Syntax
import Provenance.Script.Value
import Provenance.Settings.Basic
import Provenance.Text.Blank
import Provenance.Text.Duration
import Provenance.Text.Lines
import Provenance.Text.Lowercase
import Provenance.Text.Natural
import Provenance.Text.Quoted
import Provenance.Text.Ranges
import Provenance.Trace.Basic
import Provenance.Trace.Codec
import Provenance.Trace.Inspection
import Provenance.Trace.Rule
import Provenance.Trace.Walk
import Provenance.Main
import Provenance.Proofs.Trace.Backward
import Provenance.Proofs.Trace.Inspection
import Provenance.Proofs.Json.RoundTrip
import Provenance.Proofs.Json.Fields
import Provenance.Proofs.Record.RoundTrip
import Provenance.Proofs.Log.Table
import Provenance.Proofs.Log.Buffered
import Provenance.Proofs.Log.Durability
import Provenance.Proofs.Log.Equivalence
import Provenance.Proofs.Log.AllOrNothing
import Provenance.Proofs.Log.Closed
import Provenance.Proofs.Log.Shared
import Provenance.Proofs.Trace.Lockstep
import Provenance.Proofs.Trace.Waiting
import Provenance.Proofs.Trace.Stability
import Provenance.Proofs.Json.Lossless
import Provenance.Proofs.Record.Lossless
import Provenance.Proofs.Trace.Lossless
import Provenance.Proofs.Markup.Lossless
import Provenance.Proofs.Lossless
import Provenance.Proofs.Markup.Leads
import Provenance.Proofs.Markup.Correction
import Provenance.Proofs.Markup.Spelling
import Provenance.Proofs.Markup.Onward
import Provenance.Proofs.Markup.Confined
import Provenance.Proofs.Markup.Passage
import Provenance.Proofs.Markup.CharSource
import Provenance.Proofs.Markup.Stepping
import Provenance.Proofs.Markup.TextReading
import Provenance.Proofs.Markup.KeptText
import Provenance.Proofs.Markup.OutOfStep
import Provenance.Proofs.Markup.AttributeSource
import Provenance.Proofs.Markup.Openings
import Provenance.Proofs.Markup.AttributeReading
import Provenance.Proofs.Markup.TagSpelling
import Provenance.Proofs.Markup.SpelledTree
import Provenance.Proofs.Text.Blank
import Provenance.Proofs.Log.Due
import Provenance.Proofs.Markup.ExactLookup
import Provenance.Proofs.Markup.LoneElement
import Provenance.Proofs.Markup.Ignored
import Provenance.Proofs.Markup.Trail
import Provenance.Proofs.Markup.Reach
import Provenance.Proofs.Markup.Shift
import Provenance.Proofs.Markup.Assignment
import Provenance.Proofs.Log.Rebase
import Provenance.Proofs.Log.Places
import Provenance.Proofs.Trace.Limit
import Provenance.Proofs.Markup.Forest
import Provenance.Proofs.Markup.Recursion
import Provenance.Proofs.Markup.Escaping
import Provenance.Proofs.Log.Identifiers
import Provenance.Proofs.Markup.Extent
import Provenance.Proofs.Command.Ingest
