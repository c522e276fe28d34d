import SteppedConvolution.Rounding
import SteppedConvolution.Scalar.Basic

/-! # Rational scalars

Exact arithmetic. Every rational is finite, and the decimal `m * 10 ^ e` is its
own nearest value.
-/

namespace SteppedConvolution.Rational

/-- The rational `m * 10 ^ e`. -/
def ofDecimal (m : Nat) (e : Int) : Rat :=
  if 0 ≤ e then ((m * Nat.pow 10 e.toNat : Nat) : Rat)
  else (m : Rat) / (Nat.pow 10 (-e).toNat : Rat)

instance : Scalar Rat where
  zero := 0
  one := 1
  decideLt := inferInstance
  decideLe := inferInstance
  ofNat n := (n : Rat)
  ofDecimal := ofDecimal
  infinity? := none
  undefined? := none
  magnitude a := if a < 0 then -a else a
  isNegative a := decide (a < 0)
  isUndefined _ := false
  isFinite _ := true
  floor a := .exactly a.floor
  ceil a := .exactly a.ceil
  nearest a := .exactly (roundQuotient a.num a.den)
  summation := .fromLeft

end SteppedConvolution.Rational
