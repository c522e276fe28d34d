import SteppedConvolution.Decimal.Expansion

/-! # Layouts of decimal numbers

The ways in which an expansion is written: with a point among the digits, with a
power of ten behind them, or with the one of the two that suits its size.
-/

namespace SteppedConvolution.Decimal

/-- A number's digits before and after the point. -/
def joinPoint (whole fraction : List Char) : List Char :=
  if fraction = [] then whole else whole ++ '.' :: fraction

namespace Expansion

/-- The digits around a point, without an exponent. -/
def positional (d : Expansion) : List Char :=
  if d.exponent < 0 then
    joinPoint ['0'] (List.replicate (-d.exponent - 1).toNat '0' ++ d.digits)
  else
    let places := d.exponent.toNat + 1
    joinPoint (d.digits.take places ++ List.replicate (places - d.digits.length) '0')
      (d.digits.drop places)

/-- One digit before the point and a signed power of ten of at least two digits. -/
def scientific (d : Expansion) : List Char :=
  let power := Nat.toDigits 10 d.exponent.natAbs
  joinPoint (d.digits.take 1) (d.digits.drop 1) ++
    'e' :: (if d.exponent < 0 then '-' else '+') ::
      (List.replicate (2 - power.length) '0' ++ power)

end Expansion

/-- At most `n` significant digits, without trailing zeros; a power of ten is split off
from numbers below `10 ^ (-4)` and from those with more than `n` digits before the point. -/
def general (n num den : Nat) : List Char :=
  let d := (Expansion.ofQuotient n num den).trimmed
  if -4 ≤ d.exponent ∧ d.exponent < n then d.positional else d.scientific

/-- One digit before the point, `places` behind it and a power of ten. -/
def scientific (places num den : Nat) : List Char :=
  (Expansion.ofQuotient (places + 1) num den).scientific

/-- A fixed number of `places` behind the point. -/
def fixed (places num den : Nat) : List Char :=
  let count := (roundQuotient (num * Nat.pow 10 places : Nat) den).toNat
  let digits := Nat.toDigits 10 count
  let padded := List.replicate (places + 1 - digits.length) '0' ++ digits
  joinPoint (padded.take (padded.length - places)) (padded.drop (padded.length - places))

/-- Spaces in front, up to a width. -/
def alignRight (width : Nat) (text : List Char) : List Char :=
  List.replicate (width - text.length) ' ' ++ text

end SteppedConvolution.Decimal
