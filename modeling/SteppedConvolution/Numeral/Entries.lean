import SteppedConvolution.Numeral.Scan
import SteppedConvolution.Text.Blank

/-! # Lists of numbers

Signed numbers separated by commas and blanks, in any amount. A separator may be
missing where two numbers can be told apart without one.
-/

namespace SteppedConvolution

/-- A number with an optional sign. -/
structure SignedNumeral where
  sign : Option Char
  numeral : Numeral
  deriving DecidableEq, Repr

namespace SignedNumeral

/-- The characters of a signed number. -/
def text (s : SignedNumeral) : List Char := s.sign.toList ++ s.numeral.text

/-- The value of a signed number. -/
def value {K : Type} [Scalar K] (s : SignedNumeral) : K :=
  if s.sign = some '-' then -s.numeral.value else s.numeral.value

/-- The longest signed number at the front of a text and what follows it. -/
def scan? (cs : List Char) : Option (SignedNumeral × List Char) :=
  let signed := Numeral.spanSign cs
  (Numeral.scan? .needsDigits signed.2).map fun n => (⟨signed.1, n.1⟩, n.2)

/-- A scan splits the text in front of it. -/
theorem scan?_append {cs rest : List Char} {s : SignedNumeral}
    (h : scan? cs = some (s, rest)) : s.text ++ rest = cs := by
  unfold scan? at h
  obtain ⟨⟨n, after⟩, hn, he⟩ := Option.map_eq_some_iff.1 h
  cases he
  rw [text, List.append_assoc, Numeral.scan?_append hn, Numeral.spanSign_append]

theorem scan?_length {cs rest : List Char} {s : SignedNumeral}
    (h : scan? cs = some (s, rest)) : rest.length < cs.length := by
  unfold scan? at h
  obtain ⟨⟨n, after⟩, hn, he⟩ := Option.map_eq_some_iff.1 h
  cases he
  have hl := Numeral.scan?_length hn
  have hs := congrArg List.length (Numeral.spanSign_append cs)
  simp only [List.length_append] at hs
  change after.length < cs.length
  omega

/-- What may stand between two numbers. -/
def isSeparator (c : Char) : Bool := c = ',' || Text.isBlank c

/-- The numbers of a text, if it holds nothing but numbers and separators. -/
def entries? (cs : List Char) : Option (List SignedNumeral) :=
  match h : scan? cs with
  | some (s, rest) =>
    have := scan?_length h
    (entries? rest).map (s :: ·)
  | none =>
    match cs with
    | [] => some []
    | c :: rest => if isSeparator c then entries? rest else none
termination_by cs.length

end SignedNumeral

end SteppedConvolution
