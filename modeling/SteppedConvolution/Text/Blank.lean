/-! # Blanks

White space is what separates numbers in brackets and is dropped from
expressions: the Unicode white-space characters and the four information
separators.
-/

namespace SteppedConvolution.Text

/-- White space, with the information separators. -/
def isBlank (c : Char) : Bool :=
  let n := c.toNat
  (0x09 ≤ n && n ≤ 0x0d) || (0x1c ≤ n && n ≤ 0x20) || n == 0x85 || n == 0xa0 || n == 0x1680 ||
    (0x2000 ≤ n && n ≤ 0x200a) || n == 0x2028 || n == 0x2029 || n == 0x202f || n == 0x205f ||
    n == 0x3000

/-- Drop the characters of a class from both ends. -/
def stripBy (drop : Char → Bool) (cs : List Char) : List Char :=
  ((cs.dropWhile drop).reverse.dropWhile drop).reverse

/-- Drop blanks from both ends. -/
def strip (cs : List Char) : List Char := stripBy isBlank cs

/-- Drop every blank. -/
def compact (cs : List Char) : List Char := cs.filter fun c => !isBlank c

/-- Nothing but blanks. -/
def isBlankText (cs : List Char) : Bool := cs.all isBlank

end SteppedConvolution.Text
