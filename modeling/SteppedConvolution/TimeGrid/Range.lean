import SteppedConvolution.Fault.Basic

/-! # Ranges

Positions from a start in equal steps up to and including an end. The number of
positions is rounded down with a slack, so that an end missed by rounding alone
is still reached.
-/

namespace SteppedConvolution

variable {K : Type} [Scalar K]

namespace Range

/-- What is added to the quotient before it is rounded down. -/
def slack : K := Scalar.ofDecimal 1 (-10)

/-- The number of positions from `start` to `stop`, which need not be positive. -/
def count (start step stop : K) : Except NotWhole Int :=
  (Scalar.floor ((stop - start) / step + slack)).toInt?.map (· + 1)

/-- The first `n` terms of an arithmetic progression. -/
def progression (start step : K) (n : Nat) : List K :=
  (List.range n).map fun k => start + step * Scalar.ofNat k

/-- The number of positions from which on a list of them is refused: with eight bytes for each it
would take 2 ^ 63 bytes. -/
def sizeLimit : Nat := Nat.pow 2 60

/-- The positions of a progression, which has to be shorter than the limit. -/
def positions (start step : K) (n : Int) : Except (Fault K) (List K) :=
  if sizeLimit ≤ n.toNat then .error (.plain .tooManyPositions)
  else .ok (progression start step n.toNat)

/-- Positions in increasing order. -/
def sorted (vs : List K) : List K := vs.mergeSort fun a b => decide (a ≤ b)

end Range

namespace TimeGrid

/-- The grid of a range. A negative step walks down, and its positions are sorted. -/
def ofRange (start step stop : K) : Except (Fault K) (TimeGrid K) :=
  if step == 0 then .error (.plain .zeroStep)
  else
    match Range.count start step stop with
    | .error e => .error (.plain (.notWhole e))
    | .ok n =>
      if n ≤ 0 then .error (.data (.emptyRange start stop step))
      else do
        let vs ← Range.positions start step n
        (ofValues defaultTolerance (Range.sorted vs)).mapError fault

end TimeGrid

end SteppedConvolution
