/-! # Splitting texts

The parts of a text between the occurrences of a separator. There is one part
more than there are separators.
-/

namespace SteppedConvolution.Text

/-- The parts between the occurrences of a character. -/
def splitAt (separator : Char) : List Char → List (List Char)
  | [] => [[]]
  | c :: cs =>
    if c = separator then [] :: splitAt separator cs
    else
      match splitAt separator cs with
      | [] => [[c]]
      | part :: parts => (c :: part) :: parts

theorem length_splitAt (separator : Char) (cs : List Char) :
    (splitAt separator cs).length = cs.count separator + 1 := by
  induction cs with
  | nil => rfl
  | cons c cs ih =>
    by_cases h : c = separator
    · simp [splitAt, h, ih]
    · unfold splitAt
      cases hs : splitAt separator cs with
      | nil => simp [hs] at ih
      | cons part parts => simp_all

/-- Drop the first and the last character, whatever they are. -/
def dropEnds (cs : List Char) : List Char := cs.tail.dropLast

end SteppedConvolution.Text
