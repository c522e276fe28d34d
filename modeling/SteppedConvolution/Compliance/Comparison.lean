import SteppedConvolution.Deviation
import SteppedConvolution.Input

/-! # Comparing outputs

How closely one output reproduces another: the largest error, also in proportion
to the largest sample of either, and a grade. Outputs of different shape, and
empty ones, have errors without bound.
-/

namespace SteppedConvolution

variable {K : Type} [Scalar K]

/-- How good a match is. -/
inductive Grade (K : Type) where
  | perfect
  | excellent (error : Deviation K)
  | good (error : Deviation K)
  | error (error : Deviation K)
  deriving DecidableEq, Repr

/-- A comparison of an output with its reference. -/
structure Comparison (K : Type) where
  lengthMatch : Bool
  valuesMatch : Bool
  maxError : Deviation K
  relativeError : Deviation K
  grade : Grade K
  deriving DecidableEq, Repr

namespace Comparison

/-- The grade of an error: one below a millionth is excellent, one below a thousandth good. -/
def gradeOf (isMatch : Bool) (error : Deviation K) : Grade K :=
  if isMatch then .perfect
  else if error.isBelow (Scalar.ofDecimal 1 (-6)) then .excellent error
  else if error.isBelow (Scalar.ofDecimal 1 (-3)) then .good error
  else .error error

/-- An error in proportion to a peak; none when the peak is not positive. -/
def proportion (error : Deviation K) (peak : K) : Deviation K :=
  match error with
  | .unbounded => .unbounded
  | .value e => .value (if 0 < peak then e / peak else 0)

/-- The comparison of outputs without any common sample. -/
def incomparable (lengthMatch : Bool) : Comparison K :=
  ⟨lengthMatch, false, .unbounded, .unbounded, gradeOf false .unbounded⟩

/-- The comparison of two non-empty outputs of the same length. -/
def ofSameLength (tolerance : K) (y reference : List K) : Comparison K :=
  let error := Deviation.between y reference
  let isMatch := error.isBelow tolerance
  let peak := Scalar.larger (Scalar.peak y) (Scalar.peak reference)
  ⟨true, isMatch, error, proportion error peak, gradeOf isMatch error⟩

/-- The comparison of two lists of samples. -/
def ofLists (tolerance : K) (y reference : List K) : Comparison K :=
  if y.length ≠ reference.length then incomparable false
  else if y = [] then incomparable true
  else ofSameLength tolerance y reference

/-- The comparison of two arrays, which match in length when they have the same shape. -/
def ofShaped (tolerance : K) (y reference : Shaped K) : Comparison K :=
  if y.shape ≠ reference.shape then incomparable false
  else if y.entries = [] then incomparable true
  else ofSameLength tolerance y.entries reference.entries

end Comparison

end SteppedConvolution
