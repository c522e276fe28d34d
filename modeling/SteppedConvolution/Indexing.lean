/-! # Lists indexed from both ends

An index from 0 on counts from the front, a negative one from the end, so that -1
is the last entry.
-/

namespace SteppedConvolution.Indexing

variable {α : Type}

/-- The place of an index in a list of `n` entries. -/
def place? (n : Nat) (i : Int) : Option Nat :=
  if 0 ≤ i then (if i.toNat < n then some i.toNat else none)
  else if -(n : Int) ≤ i then some (n + i).toNat
  else none

/-- The entry at an index. -/
def entryAt? (xs : List α) (i : Int) : Option α := (place? xs.length i).bind (xs[·]?)

/-- The list with another entry at an index. -/
def replaceAt? (xs : List α) (i : Int) (a : α) : Option (List α) :=
  (place? xs.length i).map fun k => xs.set k a

/-- The entries from an index on overwritten. -/
def overwriteFrom (xs : List α) (i : Nat) (a : α) : List α :=
  xs.take i ++ (xs.drop i).map fun _ => a

end SteppedConvolution.Indexing
