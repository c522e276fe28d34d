import SteppedConvolution.Signal.Samples
import SteppedConvolution.TimeGrid.Range

/-! # Output support

The positions of the samples of a convolution: from the sum of the first
positions to the sum of the last ones, in equal steps.
-/

namespace SteppedConvolution.Support

variable {K : Type} [Scalar K]

/-- Entry `k` of `n` positions in equal steps from `a` to `b`, other than the last. A step that
rounds to zero is applied as a fraction of the whole distance. -/
def spreadEntry (a b : K) (n k : Nat) : K :=
  let distance := b - a
  let divisions : K := Scalar.ofNat (n - 1)
  let step := distance / divisions
  if step == 0 then Scalar.ofNat k / divisions * distance + a else Scalar.ofNat k * step + a

/-- `n ≥ 2` positions in equal steps from `a` to `b`, both included. -/
def spread (a b : K) (n : Nat) : List K :=
  (List.range (n - 1)).map (spreadEntry a b n) ++ [b]

/-- The positions of `length` output samples for inputs at positions `nx` and `nh`. -/
def output (nx nh : List K) (length : Nat) : Except (Fault K) (List K) := do
  if length = 0 then throw (.plain (.emptyOutput 0))
  let nx ← Samples.check "nx" nx
  let nh ← Samples.check "nh" nh
  match nx.head?, nh.head?, nx.getLast?, nh.getLast? with
  | some x₀, some h₀, some x₁, some h₁ =>
    if length = 1 then pure [x₀ + h₀] else pure (spread (x₀ + h₀) (x₁ + h₁) length)
  | _, _, _, _ => throw (.plain .noSuchEntry)

/-- The output positions of inputs that are still to be checked. -/
def outputOfInput (nx nh : Input K) (length : Int) : Except (Fault K) (List K) := do
  if length ≤ 0 then throw (.plain (.emptyOutput length))
  let nx ← Samples.ofInput "nx" nx
  let nh ← Samples.ofInput "nh" nh
  if Range.sizeLimit ≤ length.toNat then throw (.plain .tooManyPositions)
  output nx nh length.toNat

end SteppedConvolution.Support
