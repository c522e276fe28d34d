import SteppedConvolution.Signal.Samples

/-! # Signals

Finite samples over a time grid, one for each position.
-/

namespace SteppedConvolution

variable {K : Type} [Scalar K]

/-- Positions as a caller gives them: numbers still to be checked, or a grid. -/
inductive GridInput (K : Type) [Scalar K] where
  | positions (input : Input K)
  | grid (grid : TimeGrid K)

/-- The grid of given positions. The tolerance applies to numbers only; a grid is taken as it
is. -/
def TimeGrid.ofInput (atol : K) : GridInput K → Except (Fault K) (TimeGrid K)
  | .grid g => .ok g
  | .positions input =>
    match Samples.shapedInput input with
    | .error f => .error f
    | .ok s => (TimeGrid.ofShaped atol s).mapError TimeGrid.fault

/-- A sampled signal. -/
structure Signal (K : Type) [Scalar K] where
  grid : TimeGrid K
  samples : List K
  length_eq : samples.length = grid.size
  finite : ∀ a ∈ samples, Scalar.isFinite a = true

namespace Signal

/-- The signal with given samples on a grid. -/
def ofSamples (grid : TimeGrid K) (samples : List K) : Except (Fault K) (Signal K) :=
  match h : Samples.defect? samples with
  | some d => .error (.data (.samples "Signal samples" d))
  | none =>
    if hl : samples.length = grid.size then
      .ok ⟨grid, samples, hl, (Samples.defect?_eq_none_iff.1 h).2.2⟩
    else .error (.data (.signalLength samples.length grid.size))

/-- The signal of an input, whose grid is built first. -/
def ofInput (grid : GridInput K) (input : Input K) : Except (Fault K) (Signal K) := do
  let grid ← TimeGrid.ofInput TimeGrid.defaultTolerance grid
  let samples ← Samples.ofInput "Signal samples" input
  ofSamples grid samples

/-- The first and the last position. -/
def support (s : Signal K) : K × K := (s.grid.start, s.grid.stop)

/-- The positions of samples whose magnitude exceeds a threshold. -/
def nonzeroPositions (s : Signal K) (atol : K) : List K :=
  ((s.grid.values.zip s.samples).filter fun p => decide (atol < Scalar.magnitude p.2)).map Prod.fst

/-- Equality of grids and samples. -/
def same (s t : Signal K) : Bool := s.grid.same t.grid && s.samples == t.samples

end Signal

end SteppedConvolution
