import SteppedConvolution.Canvas.Grid
import SteppedConvolution.Canvas.Nearest

/-! # Canvases

Two signals on one shared grid, for showing how one slides along the other.
Samples are placed by position and never resampled, so isolated ones survive.
-/

namespace SteppedConvolution

variable {K : Type} [Scalar K]

/-- Two signals on a shared grid. -/
structure Canvas (K : Type) [Scalar K] where
  grid : TimeGrid K
  x : List K
  h : List K

namespace Canvas

/-- Place two signals on their shared grid. Samples sit on the leading positions of their own
grids. -/
def ofSignals (threshold : K) (x : List K) (nx : TimeGrid K) (h : List K) (nh : TimeGrid K) :
    Logged K (Canvas K) := do
  let grid ← Logged.ofExcept (sharedGrid nx nh ((x.length : Int) + h.length - 1))
  let placedX ← place threshold x (nx.values.take x.length) grid
  let placedH ← place threshold h (nh.values.take h.length) grid
  Logged.note (.unified grid)
  pure ⟨grid, placedX, placedH⟩

end Canvas

end SteppedConvolution
