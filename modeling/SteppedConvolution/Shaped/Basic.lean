/-! # Arrays

Entries in order together with the lengths of their dimensions. The rows of an
array are its parts along the first dimension; a single number has no dimension
and no rows.
-/

namespace SteppedConvolution

/-- Entries in order with the lengths of their dimensions; a single number has none. -/
structure Shaped (K : Type) where
  shape : List Nat
  entries : List K
  deriving DecidableEq, Repr

namespace Shaped

variable {K : Type}

/-- The greatest number of dimensions. -/
def rankLimit : Nat := 64

/-- The number of entries that an array of a shape has. -/
def volume (shape : List Nat) : Nat := shape.foldr (· * ·) 1

/-- The one-dimensional array of a list. -/
def ofList (xs : List K) : Shaped K := ⟨[xs.length], xs⟩

/-- The number of dimensions. -/
def rank (s : Shaped K) : Nat := s.shape.length

/-- The number of rows of an array that has a first dimension. -/
def rowCount? (s : Shaped K) : Option Nat := s.shape.head?

/-- The shape of a row of an array that has one. -/
def rowShape? (s : Shaped K) : Option (List Nat) :=
  match s.shape with
  | 0 :: _ | [] => none
  | _ :: rest => some rest

/-- The entries of the first `n` rows. -/
def leadingRows (n : Nat) (s : Shaped K) : List K := s.entries.take (n * volume s.shape.tail)

/-- The first parts of a list, each with `size` entries. -/
def parts (size : Nat) : Nat → List K → List (List K)
  | 0, _ => []
  | n + 1, xs => xs.take size :: parts size n (xs.drop size)

theorem flatten_parts {size n : Nat} {xs : List K} (h : xs.length = n * size) :
    (parts size n xs).flatten = xs := by
  induction n generalizing xs with
  | zero => simp_all [parts]
  | succ n ih =>
    have hd : (xs.drop size).length = n * size := by
      rw [List.length_drop, h, Nat.succ_mul, Nat.add_sub_cancel]
    rw [parts, List.flatten_cons, ih hd, List.take_append_drop]

/-- The row at each entry of an array of indices. -/
def gather? (s : Shaped K) (indices : Shaped Nat) : Option (Shaped K) :=
  match s.shape with
  | [] => none
  | count :: rest =>
    let rows := (parts (volume rest) count s.entries).toArray
    if rankLimit < indices.rank + rest.length then none
    else (indices.entries.mapM (rows[·]?)).map fun found => ⟨indices.shape ++ rest, found.flatten⟩

/-- The parts of an array that a mask on its leading dimensions keeps, as rows. A mask without
dimensions keeps or drops the whole array. -/
def select? (s : Shaped K) (mask : Shaped Bool) : Option (Shaped K) :=
  let rest := s.shape.drop mask.rank
  if s.shape.take mask.rank ≠ mask.shape ∨ rankLimit ≤ rest.length then none
  else
    let places := mask.entries.zip (parts (volume rest) mask.entries.length s.entries)
    let kept := (places.filter Prod.fst).map Prod.snd
    some ⟨kept.length :: rest, kept.flatten⟩

end Shaped

end SteppedConvolution
