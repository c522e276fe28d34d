import SteppedConvolution.Decimal.Shortest
import SteppedConvolution.Scalar.Binary

/-! # Texts of scalars

Every text is computed from the exact value of a double. A text carries a minus
sign when the double does, also for zero.
-/

namespace SteppedConvolution.Binary

/-- Write a value with a layout for the finite ones. -/
def Value.write (body : Nat → Int → List Char) (v : Value) : String :=
  String.ofList <|
    match v with
    | .finite negative m q => if negative then '-' :: body m q else body m q
    | .infinite negative => if negative then ['-', 'i', 'n', 'f'] else ['i', 'n', 'f']
    | .undefined => ['n', 'a', 'n']

/-- Write a value with a layout of fractions. -/
def Value.writeQuotient (layout : Nat → Nat → List Char) (v : Value) : String :=
  v.write fun m q => layout (quotient m q).1 (quotient m q).2

/-- The shortest text that reads back to the double. -/
def exactText (a : Float) : String := (value a).write Decimal.shortestText

/-- Up to six significant digits. -/
def generalText (a : Float) : String := (value a).writeQuotient (Decimal.general 6)

/-- Up to twelve significant digits; a zero loses its sign. -/
def roundedText (a : Float) : String :=
  (value (if a == 0 then 0 else a)).writeQuotient (Decimal.general 12)

/-- Three significant digits and a power of ten. -/
def errorText (a : Float) : String := (value a).writeQuotient (Decimal.scientific 2)

/-- A fixed number of places behind the point. -/
def fixedText (places : Nat) (a : Float) : String := (value a).writeQuotient (Decimal.fixed places)

end SteppedConvolution.Binary
