import SteppedConvolution.Rounding

/-! # Decimal expansions

A positive number in decimal: its leading digits and the power of ten of the
first one. Expansions are computed from exact fractions.
-/

namespace SteppedConvolution.Decimal

/-- `digits` and `exponent` stand for `d₁.d₂d₃… * 10 ^ exponent`. -/
structure Expansion where
  digits : List Char
  exponent : Int
  deriving DecidableEq, Repr

/-- The power of ten of the first digit of `num / den`, for positive `num` and `den`. -/
def leadingExponent (num den : Nat) : Int :=
  let guess : Int := (Nat.toDigits 10 num).length - (Nat.toDigits 10 den).length
  if den * Nat.pow 10 guess.toNat ≤ num * Nat.pow 10 (-guess).toNat then guess else guess - 1

namespace Expansion

/-- The expansion of `count * 10 ^ unit`. -/
def ofCount (count : Nat) (unit : Int) : Expansion :=
  let digits := Nat.toDigits 10 count
  ⟨digits, unit + digits.length - 1⟩

/-- The `n` leading digits of `num / den`, rounded to nearest. -/
def ofQuotient (n num den : Nat) : Expansion :=
  if num = 0 then ⟨List.replicate n '0', 0⟩
  else
    let unit := leadingExponent num den - (n - 1)
    let count :=
      roundQuotient (num * Nat.pow 10 (-unit).toNat : Nat) (den * Nat.pow 10 unit.toNat)
    let full := ofCount count.toNat unit
    { full with digits := full.digits.take n }

/-- Drop the zeros at the end, keeping at least one digit. -/
def trimmed (d : Expansion) : Expansion :=
  match d.digits with
  | [] => d
  | first :: rest =>
    { d with digits := first :: (rest.reverse.dropWhile (· = '0')).reverse }

end Expansion

end SteppedConvolution.Decimal
