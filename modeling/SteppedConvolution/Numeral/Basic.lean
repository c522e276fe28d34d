import SteppedConvolution.Scalar.Basic
import SteppedConvolution.Text.Digit

/-! # Written numbers

An unsigned decimal number as it stands in a text, with its point and its power
of ten. The structure keeps every character, so the text is recovered from it,
and the value is computed from the digits.
-/

namespace SteppedConvolution

/-- A power of ten behind a number: the mark, an optional sign and digits. -/
structure Numeral.Power where
  mark : Char
  sign : Option Char
  digits : List Char
  deriving DecidableEq, Repr

/-- An unsigned number: digits, a point with digits behind it, a power of ten. -/
structure Numeral where
  whole : List Char
  fraction : Option (List Char)
  power : Option Numeral.Power
  deriving DecidableEq, Repr

namespace Numeral

/-- The characters of a power. -/
def Power.text (p : Power) : List Char := p.mark :: (p.sign.toList ++ p.digits)

/-- The exponent that a power stands for. -/
def Power.value (p : Power) : Int :=
  if p.sign = some '-' then -(Text.digitsValue p.digits : Int) else Text.digitsValue p.digits

/-- The digits behind the point. -/
def places (n : Numeral) : List Char := n.fraction.getD []

/-- A point and the digits behind it, if there is a point. -/
def fractionText : Option (List Char) → List Char
  | some ds => '.' :: ds
  | none => []

/-- The characters of a number. -/
def text (n : Numeral) : List Char :=
  n.whole ++ fractionText n.fraction ++ (n.power.map Power.text).getD []

/-- The value of a number, rounded once. -/
def value {K : Type} [Scalar K] (n : Numeral) : K :=
  let exponent := (n.power.map Power.value).getD 0
  Scalar.ofDecimal (Text.digitsValue (n.whole ++ n.places)) (exponent - n.places.length)

end Numeral

end SteppedConvolution
