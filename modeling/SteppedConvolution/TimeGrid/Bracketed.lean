import SteppedConvolution.Fault.Basic
import SteppedConvolution.Numeral.Entries
import SteppedConvolution.Text.Split

/-! # Numbers in brackets

The numbers of a text `[v₁, v₂, …]`. The ends of the text are dropped whatever
they are; the caller has looked at them.
-/

namespace SteppedConvolution.Bracketed

open Text

/-- The numerals of a text in brackets, of which there is at least one. -/
def numerals (text : List Char) {K : Type} : Except (TextFault K) (List SignedNumeral) :=
  let content := strip (dropEnds (strip text))
  if content = [] then .error .emptyBrackets
  else if content.contains '[' || content.contains ']' then .error .nestedBrackets
  else
    match SignedNumeral.entries? content with
    | some (s :: rest) => .ok (s :: rest)
    | _ => .error .malformedEntries

/-- The values of the numbers in brackets. -/
def values {K : Type} [Scalar K] (text : List Char) : Except (TextFault K) (List K) :=
  (numerals text).map fun ns => ns.map SignedNumeral.value

end SteppedConvolution.Bracketed
