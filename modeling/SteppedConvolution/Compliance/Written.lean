import SteppedConvolution.Compliance.Comparison
import SteppedConvolution.Compliance.Report
import SteppedConvolution.Scalar.Text

/-! # Written reports

The texts of checks, of verdicts and of comparisons.
-/

namespace SteppedConvolution

open Binary

/-- The text of a deviation, given the text of a number. -/
def Deviation.text (write : Float → String) : Deviation Float → String
  | .unbounded => "inf"
  | .value e => write e

/-- The label of a check. -/
def CheckName.label : CheckName → String
  | outputLength => "Output length"
  | commutativity => "Commutativity"
  | impulseResponse => "Impulse response"
  | timeIndexing => "Time indexing"
  | selfConsistency => "Self-consistency"

/-- The word for an outcome. -/
def CheckStatus.label : CheckStatus → String
  | pass => "PASS"
  | fail => "FAIL"
  | notApplicable => "N/A"

/-- An interval between two positions. -/
def intervalText (start stop : Float) : String :=
  "[" ++ generalText start ++ ", " ++ generalText stop ++ "]"

/-- What a check measured. -/
def Measurement.text : Measurement Float → String
  | length actual expected => toString actual ++ " (expected: " ++ toString expected ++ ")"
  | error largest => "max error " ++ largest.text errorText
  | notImpulse => "not delta input"
  | range start stop expectedStart expectedStop =>
    intervalText start stop ++ " (expected: " ++ intervalText expectedStart expectedStop ++ ")"
  | noRange => "no output range"
  | revealed count total largest =>
    toString count ++ "/" ++ toString total ++ " samples revealed, max error " ++
      largest.text errorText

/-- A check with its outcome and what it measured. -/
def Check.text (c : Check Float) : String :=
  c.name.label ++ ": " ++ c.status.label ++ " (" ++ c.measurement.text ++ ")"

namespace Report

/-- The verdict in words. -/
def verdict {K : Type} (r : Report K) : String :=
  if r.isValid then "THEORY COMPLIANT" else "THEORY VIOLATION"

/-- A line for each check, and the verdict. -/
def lines (r : Report Float) : List String := r.checks.map Check.text ++ [r.verdict]

end Report

/-- A grade with the error it was given for. -/
def Grade.text : Grade Float → String
  | perfect => "PERFECT MATCH"
  | excellent e => "EXCELLENT (max error: " ++ e.text errorText ++ ")"
  | good e => "GOOD (max error: " ++ e.text errorText ++ ")"
  | error e => "ERROR (max error: " ++ e.text errorText ++ ")"

end SteppedConvolution
