import SteppedConvolution.Shaped.Basic

/-! # Stretching arrays

Arrays of different shapes are combined entry by entry once they are stretched to
one shape. Shapes are compared from their last dimension on; a dimension of length
1 is repeated, and dimensions that are missing in front count as such.
-/

namespace SteppedConvolution.Shaped

variable {K : Type}

/-- The common length of two dimensions, of which one may be stretched. -/
def joinLengths? (m n : Nat) : Option Nat :=
  if m = n then some m else if m = 1 then some n else if n = 1 then some m else none

/-- The common shape of two shapes that are given from their last dimension on. -/
def joinReversed? : List Nat → List Nat → Option (List Nat)
  | [], t => some t
  | s, [] => some s
  | m :: s, n :: t => do
    let d ← joinLengths? m n
    let rest ← joinReversed? s t
    pure (d :: rest)

/-- The shape that arrays of two shapes are stretched to. -/
def commonShape? (s t : List Nat) : Option (List Nat) :=
  (joinReversed? s.reverse t.reverse).map List.reverse

/-- A shape with dimensions of length 1 in front, up to a number of dimensions. -/
def padShape (rank : Nat) (shape : List Nat) : List Nat :=
  List.replicate (rank - shape.length) 1 ++ shape

/-- Entries of one shape repeated along the dimensions in which another of the same rank
differs. -/
def spread : List Nat → List Nat → List K → List K
  | m :: shape, n :: target, xs =>
    if m = n then ((parts (volume shape) m xs).map (spread shape target)).flatten
    else (List.replicate n (spread shape target xs)).flatten
  | _, _, xs => xs

/-- An array stretched to a shape, where that shape is common to both. -/
def stretch? (target : List Nat) (s : Shaped K) : Option (Shaped K) :=
  if commonShape? s.shape target = some target then
    some ⟨target, spread (padShape target.length s.shape) target s.entries⟩
  else none

/-- Combine two arrays entry by entry in their common shape. -/
def zipWith? {A B : Type} (f : A → B → K) (a : Shaped A) (b : Shaped B) : Option (Shaped K) := do
  let shape ← commonShape? a.shape b.shape
  let left ← a.stretch? shape
  let right ← b.stretch? shape
  pure ⟨shape, List.zipWith f left.entries right.entries⟩

theorem spread_self {shape : List Nat} {xs : List K} (h : xs.length = volume shape) :
    spread shape shape xs = xs := by
  induction shape generalizing xs with
  | nil => rfl
  | cons m shape ih =>
    have hv : xs.length = m * volume shape := h
    have hm : ∀ (n : Nat) (ys : List K), ys.length = n * volume shape →
        (parts (volume shape) n ys).map (spread shape shape) = parts (volume shape) n ys := by
      intro n
      induction n with
      | zero => intro ys _; rfl
      | succ n ihn =>
        intro ys hy
        rw [Nat.succ_mul] at hy
        rw [parts, List.map_cons, ih (by rw [List.length_take]; omega),
          ihn _ (by rw [List.length_drop]; omega)]
    rw [spread, if_pos rfl, hm m xs hv, flatten_parts hv]

end SteppedConvolution.Shaped
