import SteppedConvolution.Canvas.Arrays
import SteppedConvolution.Canvas.Basic
import SteppedConvolution.Canvas.Grid
import SteppedConvolution.Canvas.Lists
import SteppedConvolution.Canvas.Nearest
import SteppedConvolution.Compliance.Arrays
import SteppedConvolution.Compliance.Check
import SteppedConvolution.Compliance.Comparison
import SteppedConvolution.Compliance.Lists
import SteppedConvolution.Compliance.Report
import SteppedConvolution.Compliance.Written
import SteppedConvolution.Convolution.Sum
import SteppedConvolution.Convolution.Support
import SteppedConvolution.Decimal.Expansion
import SteppedConvolution.Decimal.Layout
import SteppedConvolution.Decimal.Shortest
import SteppedConvolution.Deviation
import SteppedConvolution.Expression.Basic
import SteppedConvolution.Expression.Bracket
import SteppedConvolution.Expression.Evaluation
import SteppedConvolution.Expression.Lexer
import SteppedConvolution.Expression.Machine
import SteppedConvolution.Expression.Parser
import SteppedConvolution.Expression.Reading
import SteppedConvolution.Expression.Token
import SteppedConvolution.Expression.Written
import SteppedConvolution.Fault.Basic
import SteppedConvolution.Fault.Message
import SteppedConvolution.Indexing
import SteppedConvolution.Input
import SteppedConvolution.Journal.Event
import SteppedConvolution.Journal.Format
import SteppedConvolution.Journal.Logged
import SteppedConvolution.Journal.Logger
import SteppedConvolution.Journal.Written
import SteppedConvolution.Main
import SteppedConvolution.Numeral.Basic
import SteppedConvolution.Numeral.Entries
import SteppedConvolution.Numeral.Reading
import SteppedConvolution.Numeral.Scan
import SteppedConvolution.Proofs.Binary.Agreement
import SteppedConvolution.Proofs.Binary.Arithmetic
import SteppedConvolution.Proofs.Binary.Comparison
import SteppedConvolution.Proofs.Binary.Encoding
import SteppedConvolution.Proofs.Binary.Mantissa
import SteppedConvolution.Proofs.Binary.Order
import SteppedConvolution.Proofs.Binary.Percent
import SteppedConvolution.Proofs.Binary.Progression
import SteppedConvolution.Proofs.Binary.Ranges
import SteppedConvolution.Proofs.Binary.Rounding
import SteppedConvolution.Proofs.Binary.SharedGrid
import SteppedConvolution.Proofs.Binary.Sign
import SteppedConvolution.Proofs.Canvas.Alignment
import SteppedConvolution.Proofs.Canvas.Closest
import SteppedConvolution.Proofs.Canvas.Extent
import SteppedConvolution.Proofs.Canvas.Hosting
import SteppedConvolution.Proofs.Canvas.Lattice
import SteppedConvolution.Proofs.Canvas.Lookup
import SteppedConvolution.Proofs.Canvas.OnGrid
import SteppedConvolution.Proofs.Canvas.Placement
import SteppedConvolution.Proofs.Canvas.Separation
import SteppedConvolution.Proofs.Canvas.Shifted
import SteppedConvolution.Proofs.Canvas.Translation
import SteppedConvolution.Proofs.Canvas.Vicinity
import SteppedConvolution.Proofs.Compliance.Distance
import SteppedConvolution.Proofs.Compliance.Errors
import SteppedConvolution.Proofs.Compliance.Hidden
import SteppedConvolution.Proofs.Compliance.Meaning
import SteppedConvolution.Proofs.Compliance.Shifted
import SteppedConvolution.Proofs.Compliance.Verdict
import SteppedConvolution.Proofs.Convolution.Addends
import SteppedConvolution.Proofs.Convolution.Commutative
import SteppedConvolution.Proofs.Decimal.General
import SteppedConvolution.Proofs.Expression.Accepted
import SteppedConvolution.Proofs.Expression.Conventional
import SteppedConvolution.Proofs.Expression.Grammar
import SteppedConvolution.Proofs.Expression.Heights
import SteppedConvolution.Proofs.Expression.Induction
import SteppedConvolution.Proofs.Expression.LeadingSign
import SteppedConvolution.Proofs.Expression.Levels
import SteppedConvolution.Proofs.Expression.Lexing
import SteppedConvolution.Proofs.Expression.Listing
import SteppedConvolution.Proofs.Expression.Nesting
import SteppedConvolution.Proofs.Expression.Outline
import SteppedConvolution.Proofs.Expression.Patterns
import SteppedConvolution.Proofs.Expression.Pieces
import SteppedConvolution.Proofs.Expression.Regular
import SteppedConvolution.Proofs.Expression.Rereading
import SteppedConvolution.Proofs.Expression.Respelled
import SteppedConvolution.Proofs.Expression.RoundTrip
import SteppedConvolution.Proofs.Expression.Spelling
import SteppedConvolution.Proofs.Expression.Splits
import SteppedConvolution.Proofs.Expression.Unambiguous
import SteppedConvolution.Proofs.Expression.Unsigned
import SteppedConvolution.Proofs.Expression.Value
import SteppedConvolution.Proofs.Expression.Words
import SteppedConvolution.Proofs.Journal.Formats
import SteppedConvolution.Proofs.Journal.History
import SteppedConvolution.Proofs.Journal.Levels
import SteppedConvolution.Proofs.Journal.LineFormats
import SteppedConvolution.Proofs.Numeral.Entries
import SteppedConvolution.Proofs.Numeral.Format
import SteppedConvolution.Proofs.Numeral.Grammar
import SteppedConvolution.Proofs.Numeral.Listed
import SteppedConvolution.Proofs.Numeral.Scanning
import SteppedConvolution.Proofs.Outcome
import SteppedConvolution.Proofs.Scalar.Exact
import SteppedConvolution.Proofs.Scalar.Peak
import SteppedConvolution.Proofs.Scalar.Signed
import SteppedConvolution.Proofs.Session.Atomicity
import SteppedConvolution.Proofs.Session.Consistency
import SteppedConvolution.Proofs.Session.Cursor
import SteppedConvolution.Proofs.Session.History
import SteppedConvolution.Proofs.Session.Moves
import SteppedConvolution.Proofs.Session.Opening
import SteppedConvolution.Proofs.Session.Percent
import SteppedConvolution.Proofs.Session.Phase
import SteppedConvolution.Proofs.Session.Replay
import SteppedConvolution.Proofs.Session.Shifted
import SteppedConvolution.Proofs.Session.ShiftedHistory
import SteppedConvolution.Proofs.Session.Sliding
import SteppedConvolution.Proofs.Session.Start
import SteppedConvolution.Proofs.Session.TimeAxis
import SteppedConvolution.Proofs.Session.Trimming
import SteppedConvolution.Proofs.Session.Undo
import SteppedConvolution.Proofs.Session.Views
import SteppedConvolution.Proofs.Signal.Locality
import SteppedConvolution.Proofs.Signal.Sampled
import SteppedConvolution.Proofs.Text.Characters
import SteppedConvolution.Proofs.Text.Longest
import SteppedConvolution.Proofs.Text.Strip
import SteppedConvolution.Proofs.TimeGrid.Admissible
import SteppedConvolution.Proofs.TimeGrid.BracketTexts
import SteppedConvolution.Proofs.TimeGrid.Bracketed
import SteppedConvolution.Proofs.TimeGrid.RangeTexts
import SteppedConvolution.Proofs.TimeGrid.Ranges
import SteppedConvolution.Proofs.TimeGrid.Reading
import SteppedConvolution.Proofs.TimeGrid.Regular
import SteppedConvolution.Proofs.TimeGrid.Repair
import SteppedConvolution.Proofs.TimeGrid.Shifted
import SteppedConvolution.Proofs.TimeGrid.Spacing
import SteppedConvolution.Rounding
import SteppedConvolution.Scalar.Basic
import SteppedConvolution.Scalar.Binary
import SteppedConvolution.Scalar.Rational
import SteppedConvolution.Scalar.Text
import SteppedConvolution.Session.Basic
import SteppedConvolution.Session.Engine
import SteppedConvolution.Session.Status
import SteppedConvolution.Shaped.Basic
import SteppedConvolution.Shaped.Lemmas
import SteppedConvolution.Shaped.Stretch
import SteppedConvolution.Signal.Basic
import SteppedConvolution.Signal.Samples
import SteppedConvolution.Signal.Sampling
import SteppedConvolution.Switch
import SteppedConvolution.Text.Blank
import SteppedConvolution.Text.Boundary
import SteppedConvolution.Text.Digit
import SteppedConvolution.Text.Printable
import SteppedConvolution.Text.Quoted
import SteppedConvolution.Text.Split
import SteppedConvolution.Text.Word
import SteppedConvolution.TimeGrid.Basic
import SteppedConvolution.TimeGrid.Bracketed
import SteppedConvolution.TimeGrid.Range
import SteppedConvolution.TimeGrid.Reading
import SteppedConvolution.TimeGrid.Written
import SteppedConvolution.Tolerances
import SteppedConvolution.Walkthrough
