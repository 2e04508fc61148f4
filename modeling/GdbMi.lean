import GdbMi.Text.Basic
import GdbMi.Text.Ranges
import GdbMi.Text.Blank
import GdbMi.Text.Digit
import GdbMi.Text.Printable
import GdbMi.Text.Display
import GdbMi.Text.Lines
import GdbMi.Text.Utf8
import GdbMi.Text.Utf8.RoundTrip
import GdbMi.Decimal
import GdbMi.Reading.Error
import GdbMi.Reading.Basic
import GdbMi.Reading.Token
import GdbMi.Literal
import GdbMi.Literal.RoundTrip
import GdbMi.Value.Basic
import GdbMi.Value.Keyed
import GdbMi.Value.Display
import GdbMi.Value.Query
import GdbMi.Value.Same
import GdbMi.Value.Reader
import GdbMi.Value.Nesting
import GdbMi.Value.Stepwise
import GdbMi.Value.Writer
import GdbMi.Value.Plain
import GdbMi.Value.Builder
import GdbMi.Value.Workshop
import GdbMi.Payload
import GdbMi.Json
import GdbMi.Record.Basic
import GdbMi.Record.Reader
import GdbMi.Record.Response
import GdbMi.Record.Writer
import GdbMi.Transcript
import GdbMi.CommandLine.Options
import GdbMi.CommandLine.Program
import GdbMi.Main
import GdbMi.Proofs.Grammar
import GdbMi.Proofs.Grammar.Soundness
import GdbMi.Proofs.Grammar.Completeness
import GdbMi.Proofs.Value.Shape
import GdbMi.Proofs.Value.Normal
import GdbMi.Proofs.Value.RoundTrip
import GdbMi.Proofs.Record.Head
import GdbMi.Proofs.Record.Classification
import GdbMi.Proofs.Text.Numeral
import GdbMi.Proofs.Record.RoundTrip
import GdbMi.Proofs.Reading.Fault
import GdbMi.Proofs.Value.Fault
import GdbMi.Proofs.Value.Lookahead
import GdbMi.Proofs.Value.Tokens
import GdbMi.Proofs.Value.Errors
import GdbMi.Proofs.Value.Brackets
import GdbMi.Proofs.Value.Respaced
import GdbMi.Proofs.Value.Ending
import GdbMi.Proofs.Value.Descent
import GdbMi.Proofs.Value.Descent.Loops
import GdbMi.Proofs.Value.Descent.Termination
import GdbMi.Proofs.Literal.Language
import GdbMi.Proofs.Literal.Canonical
import GdbMi.Proofs.Value.Compact
import GdbMi.Proofs.Value.Image
import GdbMi.Proofs.Text.Lines
import GdbMi.Proofs.Value.Ascii
import GdbMi.Proofs.Value.Writable
import GdbMi.Proofs.Value.Built
import GdbMi.Proofs.CommandLine.Report
import GdbMi.Proofs.Record.Trailing
import GdbMi.Proofs.CommandLine.Formats
import GdbMi.Proofs.Transcript.Policies
import GdbMi.Proofs.Value.OpenEnd
import GdbMi.Proofs.Value.Interleaving
import GdbMi.Proofs.Value.Sameness
import GdbMi.Proofs.Payload
import GdbMi.Proofs.Json
import GdbMi.Proofs.Value.Indexed
import GdbMi.Proofs.Value.Paths
import GdbMi.Proofs.Text.LineEnds
import GdbMi.Proofs.CommandLine.LineEnds
import GdbMi.Proofs.Value.Tasks
import GdbMi.Proofs.Value.Stored
import GdbMi.Proofs.Value.Workshop
import GdbMi.Proofs.Reading.Cursor
import GdbMi.Proofs.Literal.Cursor
import GdbMi.Proofs.Value.Cursor
