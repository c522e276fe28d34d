/-! # Character classes by their boundaries

A set of code points is given by the increasing list of the points at which
membership changes, starting from outside. A code point belongs to the set when
an odd number of boundaries do not exceed it.
-/

namespace SteppedConvolution.Text

/-- Whether a code point lies in the set with these boundaries. -/
def withinBoundaries (bounds : List Nat) (code : Nat) : Bool :=
  bounds.foldl (fun inside b => if b ≤ code then !inside else inside) false

end SteppedConvolution.Text
