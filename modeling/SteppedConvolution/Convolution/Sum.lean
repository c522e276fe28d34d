import SteppedConvolution.Signal.Samples

/-! # Convolution

The full convolution of two lists: sample `i` is the sum of `x[j] * h[i - j]` over
all `j` for which both factors exist.
-/

namespace SteppedConvolution.Convolution

variable {K : Type} [Scalar K]

/-- The product `x[j] * h[i - j]`, where both factors exist. -/
def product? (x h : Array K) (i j : Nat) : Option K :=
  if j ≤ i then
    match x[j]?, h[i - j]? with
    | some a, some b => some (a * b)
    | _, _ => none
  else none

/-- Sample `i` of the convolution. The products are taken in the order of the longer list. -/
def sample (x h : Array K) (i : Nat) : K :=
  let products := (List.range x.size).filterMap (product? x h i)
  Scalar.sum (if x.size < h.size then products.reverse else products)

/-- The number of samples of a full convolution. -/
def length (x h : List K) : Nat := x.length + h.length - 1

/-- All samples of the convolution. -/
def full (x h : List K) : List K :=
  (List.range (length x h)).map (sample x.toArray h.toArray)

/-- The convolution of two lists of samples, which have to be finite and non-empty. -/
def convolve (x h : List K) : Except (Fault K) (List K) := do
  let x ← Samples.check "x" x
  let h ← Samples.check "h" h
  pure (full x h)

/-- The convolution of two inputs. -/
def ofInputs (x h : Input K) : Except (Fault K) (List K) := do
  let x ← Samples.ofInput "x" x
  let h ← Samples.ofInput "h" h
  convolve x h

@[simp] theorem length_full (x h : List K) : (full x h).length = x.length + h.length - 1 := by
  simp [full, length]

end SteppedConvolution.Convolution
