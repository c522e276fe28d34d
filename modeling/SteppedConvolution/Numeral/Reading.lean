import SteppedConvolution.Numeral.Scan
import SteppedConvolution.Text.Blank

/-! # Reading a whole text as a number

A text that stands for one number: blanks around it, an optional sign, and a
numeral whose digits may be grouped by single underscores, or the name of
infinity or of the undefined number in either case of its letters.
-/

namespace SteppedConvolution

/-- The number that a text stands for. -/
inductive Reading where
  | finite (negative : Bool) (numeral : Numeral)
  | infinite (negative : Bool)
  | undefined
  deriving DecidableEq, Repr

namespace Reading

open Text

/-- The blanks around a number; the information separators are not among them. -/
def isMargin (c : Char) : Bool := isBlank c && !(0x1c ≤ c.toNat && c.toNat ≤ 0x1f)

/-- Drop underscores that stand between two digits; refuse any other. -/
def ungroup? (before : Option Char) : List Char → Option (List Char)
  | [] => some []
  | '_' :: next :: cs =>
    if before.any isDigit ∧ isDigit next then ungroup? none (next :: cs) else none
  | '_' :: [] => none
  | c :: cs => (ungroup? (some c) cs).map (c :: ·)

/-- The names of infinity and of the undefined number. -/
def ofName? (negative : Bool) (cs : List Char) : Option Reading :=
  let name := String.ofList (cs.map Char.toLower)
  if name = "inf" ∨ name = "infinity" then some (.infinite negative)
  else if name = "nan" then some .undefined
  else none

/-- Read a text as one number. -/
def ofText? (cs : List Char) : Option Reading :=
  let (sign, body) := Numeral.spanSign (stripBy isMargin cs)
  let negative := decide (sign = some '-')
  match ofName? negative body with
  | some r => some r
  | none =>
    match ungroup? none body with
    | none => none
    | some digits =>
      match Numeral.scan? .mayTrail digits with
      | some (n, []) => some (.finite negative n)
      | _ => none

/-- The scalar that a reading stands for, if the scalars have it. -/
def value? {K : Type} [Scalar K] : Reading → Option K
  | .finite negative n => some (if negative then -n.value else n.value)
  | .infinite negative => (Scalar.infinity? : Option K).map fun a => if negative then -a else a
  | .undefined => Scalar.undefined?

/-- The finite scalar that a reading stands for. -/
def finiteValue? {K : Type} [Scalar K] (r : Reading) : Option K :=
  r.value?.filter Scalar.isFinite

end Reading

end SteppedConvolution
