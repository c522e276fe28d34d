import SteppedConvolution.Expression.Evaluation
import SteppedConvolution.Expression.Reading
import SteppedConvolution.Signal.Basic

/-! # Sampling expressions

The signal that the text of an expression stands for on a time grid. Values that
are not finite become zero.
-/

namespace SteppedConvolution

variable {K : Type} [Scalar K]

namespace Signal

/-- Sample the text of an expression over a grid. The text is parsed on a stack of a number of
levels. -/
def ofText (levels : Nat) (interpretation : Interpretation K) (tolerances : Tolerances K)
    (text : Option String) (grid : GridInput K) : Logged K (Signal K) := do
  let grid ← Logged.ofExcept (TimeGrid.ofInput tolerances.gridUniformity grid)
  Logged.note (.readingSignal text grid)
  let expression ← SignalExpr.read levels text
  let values ← expression.evaluate interpretation tolerances.deltaWidth grid.values
  if values.length ≠ grid.size then
    Logged.fail (.text (.wrongLength values.length grid.size) text)
  else
    let (samples, replaced) := Samples.clampNonFinite values
    Logged.noteIf (decide (replaced ≠ 0)) (.replacedNonFinite (text.getD "") replaced)
    Logged.ofExcept (ofSamples grid samples)

end Signal

end SteppedConvolution
