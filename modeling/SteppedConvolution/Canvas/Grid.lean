import SteppedConvolution.Fault.Basic
import SteppedConvolution.TimeGrid.Range

/-! # The shared grid

Two signals may live on different grids. The shared grid starts at the earlier
start, has the step of the first grid that has one, and is long enough for the
convolution and for the ends of both grids.
-/

namespace SteppedConvolution.Canvas

variable {K : Type} [Scalar K]

/-- The step of the first grid with at least two positions, else 1. -/
def sharedStep (nx nh : TimeGrid K) : K :=
  if 1 < nx.size then nx.step else if 1 < nh.size then nh.step else 1

/-- What is taken off a quotient before it is rounded up. -/
def slack : K := Scalar.ofDecimal 1 (-9)

/-- The number of positions needed for the convolution and for the span of both grids. -/
def sharedSize (nx nh : TimeGrid K) (convolutionLength : Int) : Except NotWhole Int :=
  let start := Scalar.smaller nx.start nh.start
  let span := Scalar.larger nx.stop nh.stop - start
  (Scalar.ceil (span / sharedStep nx nh - slack)).toInt?.map fun reach =>
    max (convolutionLength + max nx.size nh.size) (reach + 1)

/-- The shared grid of two grids. -/
def sharedGrid (nx nh : TimeGrid K) (convolutionLength : Int) :
    Except (Fault K) (TimeGrid K) :=
  match sharedSize nx nh convolutionLength with
  | .error e => .error (.plain (.notWhole e))
  | .ok n => do
    let vs ← Range.positions (Scalar.smaller nx.start nh.start) (sharedStep nx nh) n
    (TimeGrid.ofValues TimeGrid.defaultTolerance vs).mapError TimeGrid.fault

end SteppedConvolution.Canvas
