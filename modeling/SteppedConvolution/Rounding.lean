/-! # Rounding of quotients

Division with a positive denominator, rounded to an integer. A tie goes to the
even neighbour.
-/

namespace SteppedConvolution

/-- The integer closest to `num / den`, ties to the even neighbour. -/
def roundQuotient (num : Int) (den : Nat) : Int :=
  let below := num / (den : Int)
  let rest := num % (den : Int)
  if 2 * rest < den then below
  else if den < 2 * rest then below + 1
  else if below % 2 = 0 then below else below + 1

end SteppedConvolution
