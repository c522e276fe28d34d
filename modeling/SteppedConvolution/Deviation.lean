import SteppedConvolution.Scalar.Basic

/-! # Deviations

How far one list of numbers is from another: the largest magnitude of a
difference, or without bound when the lists have different lengths. A deviation
without bound is below no tolerance.
-/

namespace SteppedConvolution

variable {K : Type} [Scalar K]

/-- A largest error, or the absence of any bound. -/
inductive Deviation (K : Type) where
  | unbounded
  | value (error : K)
  deriving DecidableEq, Repr

namespace Deviation

/-- The error is smaller than a tolerance. -/
def isBelow (d : Deviation K) (tolerance : K) : Bool :=
  match d with
  | unbounded => false
  | value e => decide (e < tolerance)

/-- The largest magnitude of a difference of entries at the same place. -/
def between (a b : List K) : Deviation K :=
  if a.length ≠ b.length then unbounded
  else value (Scalar.peak (List.zipWith (fun x y => x - y) a b))

end Deviation

/-- A single sample that is 1 within a tolerance. -/
def isUnitImpulse (atol : K) : List K → Bool
  | [a] => decide (Scalar.magnitude (a - 1) < atol)
  | _ => false

end SteppedConvolution
