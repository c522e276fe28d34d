import SteppedConvolution.Compliance.Written
import SteppedConvolution.Expression.Written
import SteppedConvolution.Journal.Event
import SteppedConvolution.Text.Quoted
import SteppedConvolution.TimeGrid.Written

/-! # Written events

The wording of events and the lines in which they are shown. Events below a
threshold are left out.
-/

namespace SteppedConvolution

open Binary Text

/-- The word for a severity. -/
def Severity.label : Severity → String
  | debug => "DEBUG"
  | info => "INFO"
  | warning => "WARNING"
  | error => "ERROR"
  | critical => "CRITICAL"

/-- The name under which a part of the library notes events. -/
def Source.label : Source → String
  | timeGrid => "sigconv.signals.timegrid"
  | expression => "sigconv.parser.expression"
  | evaluation => "sigconv.parser.evaluate"
  | sampling => "sigconv.parser.signal_parser"
  | canvas => "sigconv.engine.materialize"
  | engine => "sigconv.engine.core"

/-- The wording of an event. -/
def Event.message : Event Float → String
  | readingGrid text => "Parsing time grid " ++ quote text
  | sortedGrid text => "Time grid " ++ quote text ++ " was not strictly increasing; sorting"
  | removedDuplicates text => "Removed duplicate positions from time grid " ++ quote text
  | readGrid text grid => "Parsed time grid " ++ quote text ++ " into " ++ grid.text
  | parsedExpression text e => "Parsed " ++ quote text ++ " as " ++ e.text generalText
  | truncatedVector entries positions =>
    "Input vector has " ++ toString entries ++ " elements but time grid has only " ++
      toString positions ++ "; truncating"
  | readingSignal text grid => "Parsing " ++ quote? text ++ " over " ++ grid.text
  | replacedNonFinite text count =>
    "Signal " ++ quote text ++ " contains " ++ toString count ++
      " non-finite values; replacing them with zero"
  | misaligned count =>
    toString count ++ " non-zero samples are more than half a step away from the unified grid; " ++
      "placing them at the nearest position"
  | unified grid =>
    "Unified grid [" ++ generalText grid.start ++ ":" ++ generalText grid.stop ++ "] with " ++
      toString grid.size ++ " points"
  | usedLeading count total =>
    "Using the first " ++ toString count ++ " of " ++ toString total ++ " grid positions"
  | started samplesX samplesH samplesY start stop =>
    "Initialized convolution: Lx=" ++ toString samplesX ++ ", Lh=" ++ toString samplesH ++
      ", output length " ++ toString samplesY ++ " on " ++ intervalText start stop
  | revealed cursor total position sample =>
    "Step " ++ toString cursor ++ "/" ++ toString total ++ ": y[" ++ generalText position ++
      "] = " ++ generalText sample
  | completed => "Convolution complete"
  | rewound index => "Rewound to index " ++ toString index
  | dropped => "Engine reset"
  | clampedProducts position count =>
    "Step at n=" ++ generalText position ++ " produced " ++ toString count ++
      " non-finite products; clamping to zero"
  | compliant => "Compliance: THEORY COMPLIANT"
  | violated failed =>
    "Compliance: THEORY VIOLATION (" ++ "; ".intercalate (failed.map Check.text) ++ ")"

/-- An event in one line. -/
def Event.line (e : Event Float) : String :=
  "[" ++ e.severity.label ++ "] " ++ e.source.label ++ ": " ++ e.message

/-- The lines of the events that reach a level. -/
def Event.lines (threshold : Int) (events : List (Event Float)) : List String :=
  (events.filter fun e => decide (threshold ≤ e.severity.level)).map Event.line

end SteppedConvolution
