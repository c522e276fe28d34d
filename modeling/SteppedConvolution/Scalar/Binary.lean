import SteppedConvolution.Rounding
import SteppedConvolution.Scalar.Basic

/-! # Binary floating-point scalars

A double is read from its bits as `m * 2 ^ q` with integers `m` and `q`, and all
rounding to integers works on that pair. Nothing here depends on the rounding
functions of the machine.
-/

namespace SteppedConvolution.Binary

/-- The value of a double: a signed `significand * 2 ^ exponent`, or none of the numbers. -/
inductive Value where
  | finite (negative : Bool) (significand : Nat) (exponent : Int)
  | infinite (negative : Bool)
  | undefined
  deriving DecidableEq, Repr

/-- Decode the sign, exponent and fraction fields. -/
def value (a : Float) : Value :=
  let bits := a.toBits.toNat
  let negative := decide (Nat.pow 2 63 ≤ bits)
  let exponent : Nat := bits / Nat.pow 2 52 % Nat.pow 2 11
  let fraction : Nat := bits % Nat.pow 2 52
  if exponent = 2047 then
    if fraction = 0 then .infinite negative else .undefined
  else if exponent = 0 then .finite negative fraction (-1074)
  else .finite negative (Nat.pow 2 52 + fraction) ((exponent : Int) - 1075)

/-- The fraction `num / den` that equals `significand * 2 ^ exponent`. -/
def quotient (significand : Nat) (exponent : Int) : Nat × Nat :=
  (significand * Nat.pow 2 exponent.toNat, Nat.pow 2 (-exponent).toNat)

/-- Apply a rounding rule for quotients to a decoded double. -/
def Value.round (rule : Int → Nat → Int) : Value → Whole
  | .finite negative m q =>
    let (num, den) := quotient m q
    .exactly (rule (if negative then -num else num) den)
  | .infinite negative => if negative then .below else .above
  | .undefined => .undefined

/-- The double nearest to `m * 10 ^ e`. Exponents far outside the range of doubles are
settled by the number of digits alone. -/
def ofDecimal (m : Nat) (e : Int) : Float :=
  if m = 0 then 0
  else
    let leading := e + (Nat.toDigits 10 m).length
    if 400 < leading then 1 / 0
    else if leading < -400 then 0
    else if 0 ≤ e then Float.ofScientific m false e.toNat
    else Float.ofScientific m true (-e).toNat

instance : Scalar Float where
  decideLt := Float.decLt
  decideLe := Float.decLe
  ofNat := Float.ofNat
  ofDecimal := ofDecimal
  infinity? := some (1 / 0)
  undefined? := some (0 / 0)
  magnitude := Float.abs
  isNegative a := decide (Nat.pow 2 63 ≤ a.toBits.toNat)
  isUndefined := Float.isNaN
  isFinite := Float.isFinite
  floor a := (value a).round fun num den => num / den
  ceil a := (value a).round fun num den => -(-num / den)
  nearest a := (value a).round roundQuotient
  summation := .fromLeft

end SteppedConvolution.Binary
