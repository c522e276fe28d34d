import SteppedConvolution.Canvas.Basic
import SteppedConvolution.Convolution.Support
import SteppedConvolution.Convolution.Sum
import SteppedConvolution.Indexing
import SteppedConvolution.Signal.Basic

/-! # Sessions

One convolution that is revealed sample by sample. The reference holds the whole
result from the start; the cursor counts the samples revealed so far, and the
output buffer holds them, with zeros behind.

A session keeps what its consistency check looks at as it is found: the positions
of `x` may be unchecked, and the buffer may be missing.
-/

namespace SteppedConvolution

variable {K : Type} [Scalar K]

/-- Positions that passed the checks of a grid, or that did not go through them. -/
inductive Axis (K : Type) [Scalar K] where
  | checked (grid : TimeGrid K)
  | unchecked (positions : List K)

/-- The positions of an axis. -/
def Axis.positions : Axis K → List K
  | checked g => g.values
  | unchecked vs => vs

/-- A convolution in progress. -/
structure Session (K : Type) [Scalar K] where
  x : List K
  h : List K
  nx : Axis K
  nh : TimeGrid K
  /-- The full convolution of `x` and `h`. -/
  reference : List K
  /-- The positions of the reference. -/
  outputGrid : TimeGrid K
  canvas : Canvas K
  /-- The number of revealed samples. -/
  cursor : Int
  /-- The revealed samples with zeros behind them. -/
  output : Option (List K)

/-- What one step shows: the output sample and its position, the other signal flipped and
shifted to that position, and the products whose sum the sample is. -/
structure Step (K : Type) where
  position : K
  sample : K
  shifted : List K
  product : List K
  deriving DecidableEq, Repr

/-- A signal as a caller gives it: numbers, or samples with their grid. -/
inductive SignalInput (K : Type) [Scalar K] where
  | samples (input : Input K)
  | signal (signal : Signal K)

namespace SignalInput

/-- The samples of an input and the grid they are on, as far as one is known. A grid that is
given beside the signal wins over the signal's own. -/
def resolve (atol : K) (name : String) (signal : SignalInput K) (grid? : Option (GridInput K)) :
    Except (Fault K) (List K × Option (TimeGrid K)) := do
  let (values, own) ←
    match signal with
    | .signal s => pure (s.samples, some s.grid)
    | .samples input => do pure (← Samples.ofInput name input, none)
  match grid? with
  | none => pure (values, own)
  | some g => do pure (values, some (← TimeGrid.ofInput atol g))

end SignalInput

namespace Session

/-- The number of output samples. -/
def length (s : Session K) : Nat := s.reference.length

/-- Every sample is revealed. -/
def isComplete (s : Session K) : Bool := decide ((s.length : Int) ≤ s.cursor)

/-- Refuse a signal that is longer than its grid. -/
def requireRoom (name : String) (samples : List K) (grid : TimeGrid K) : Except (Fault K) Unit :=
  if grid.size < samples.length then
    .error (.data (.shortGrid name samples.length grid.size))
  else .ok ()

/-- The leading positions of a grid, one for each sample. -/
def leading (atol : K) (grid : TimeGrid K) (count : Nat) : Logged K (TimeGrid K) :=
  if grid.size = count then pure grid
  else do
    Logged.note (.usedLeading count grid.size)
    Logged.ofExcept ((TimeGrid.ofValues atol (grid.values.take count)).mapError TimeGrid.fault)

/-- The session of two signals with a grid for each. Positions behind the samples carry no
signal and are left out of the output's positions. -/
def ofSignals (tolerances : Tolerances K) (x : List K) (nx : TimeGrid K) (h : List K)
    (nh : TimeGrid K) : Logged K (Session K) := do
  let atol := tolerances.gridUniformity
  Logged.ofExcept (requireRoom "x" x nx)
  Logged.ofExcept (requireRoom "h" h nh)
  let nx ← leading atol nx x.length
  let nh ← leading atol nh h.length
  let reference ← Logged.ofExcept (Convolution.convolve x h)
  let positions ← Logged.ofExcept (Support.output nx.values nh.values reference.length)
  let outputGrid ← Logged.ofExcept ((TimeGrid.ofValues atol positions).mapError TimeGrid.fault)
  let canvas ← Canvas.ofSignals tolerances.nonzero x nx h nh
  Logged.note (.started x.length h.length reference.length outputGrid.start outputGrid.stop)
  pure
    { x, h, nx := .checked nx, nh, reference, outputGrid, canvas
      cursor := 0
      output := some (List.replicate reference.length 0) }

/-- The session of two signals as a caller gives them. The grid of `h` is that of `x` where
there is no other. -/
def ofInputs (tolerances : Tolerances K) (x h : SignalInput K) (nx nh : Option (GridInput K)) :
    Logged K (Session K) := do
  let atol := tolerances.gridUniformity
  let (xs, nx) ← Logged.ofExcept (x.resolve atol "x" nx)
  let (hs, nh) ← Logged.ofExcept (h.resolve atol "h" nh)
  match nx with
  | none => Logged.fail (.data .missingGrid)
  | some nx => ofSignals tolerances xs nx hs (nh.getD nx)

/-- The entry of a list at an index, or a fault. -/
def entry (xs : List K) (i : Int) : Except (Fault K) K :=
  match Indexing.entryAt? xs i with
  | some a => .ok a
  | none => .error (.plain .noSuchEntry)

/-- Products with a zero in place of each one that is not finite. -/
def clampProducts (position : K) (products : List K) : Logged K (List K) := do
  let (kept, astray) := Samples.clampNonFinite products
  Logged.noteIf (decide (astray ≠ 0)) (.clampedProducts position astray)
  pure kept

/-- What the step to an output index shows. -/
def stepAt (s : Session K) (i : Int) : Logged K (Step K) := do
  let position ← Logged.ofExcept (entry s.outputGrid.values i)
  let sample ← Logged.ofExcept (entry s.reference i)
  let grid := s.canvas.grid
  let shifted ← Logged.ofExcept
    (Canvas.sampleAt s.canvas.h grid (grid.values.map fun k => position - k))
  let product ← clampProducts position (List.zipWith (· * ·) s.canvas.x shifted)
  pure ⟨position, sample, shifted, product⟩

/-- Every part is present, the lengths agree and the cursor is in range. -/
def isConsistent (s : Session K) : Bool :=
  !s.x.isEmpty && !s.h.isEmpty && !s.nx.positions.isEmpty && !s.reference.isEmpty &&
    s.output.any (·.length = s.length) && s.outputGrid.size = s.length &&
    0 ≤ s.cursor && s.cursor ≤ s.length

/-- The share of a count in percent, cut off at 0 and 100. -/
def percent (count : Int) (whole : Nat) : K :=
  Scalar.smaller (Scalar.ofNat 100)
    (Scalar.larger 0 (Scalar.ofNat 100 * Scalar.ofInt count / Scalar.ofNat whole))

/-- The share of revealed samples in percent. -/
def progress (s : Session K) : K := if s.length = 0 then 0 else percent s.cursor s.length

/-- The share of revealed samples for displays. A cursor beyond all scalars has none. -/
def shownProgress (s : Session K) : Except (Fault K) K :=
  if s.length ≠ 0 ∧ !Scalar.isFinite (Scalar.ofNat s.cursor.natAbs : K) then
    .error (.plain .tooLarge)
  else .ok s.progress

end Session

end SteppedConvolution
