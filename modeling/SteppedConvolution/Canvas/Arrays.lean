import SteppedConvolution.Canvas.Basic
import SteppedConvolution.Shaped.Stretch

/-! # Arrays on grids

Placing and looking up samples that come as arrays. The positions of an array of
samples are those at the same places of the leading dimensions, and what is
written or compared is stretched to the shape of the positions.
-/

namespace SteppedConvolution.Canvas

variable {K : Type} [Scalar K]

/-- The values at positions, looked up row by row at the closest grid position where that is
within half a step, and 0 elsewhere. -/
def sampleArrayAt (values : Shaped K) (g : TimeGrid K) (positions : Shaped K) :
    Except (Fault K) (Shaped K) := do
  let found ← nearestPositions g positions.entries
  let looked ← Fault.require .noSuchEntry
    (values.gather? ⟨positions.shape, found.map Prod.fst⟩)
  let hits := List.zipWith (isHit (Scalar.half g.step)) positions.entries found
  Fault.require .incompatibleShapes
    (Shaped.zipWith? (fun hit a => if hit then a else 0) ⟨positions.shape, hits⟩ looked)

/-- Place the samples of an array that count on a grid, each at the closest position to every one
of its own. -/
def placeArray (threshold : K) (samples positions : Shaped K) (target : TimeGrid K) :
    Logged K (List K) := do
  let mask : Shaped Bool := ⟨samples.shape, samples.entries.map (counts threshold)⟩
  if !mask.entries.any id then pure (blank target)
  else
    let places ← Logged.ofExcept (Fault.require .noSuchEntry (positions.select? mask))
    let indices ← locate target places.entries
    let kept ← Logged.ofExcept (Fault.require .noSuchEntry (samples.select? mask))
    let written ← Logged.ofExcept
      (Fault.require .incompatibleShapes (kept.stretch? places.shape))
    pure (writeEntries (indices.zip written.entries) (blank target))

/-- Place two arrays of samples on their shared grid. Their rows sit on the leading positions of
their own grids. -/
def ofArrays (threshold : K) (x : Shaped K) (nx : TimeGrid K) (h : Shaped K) (nh : TimeGrid K) :
    Logged K (Canvas K) := do
  let countX ← Logged.ofExcept (Fault.require .noLength x.rowCount?)
  let countH ← Logged.ofExcept (Fault.require .noLength h.rowCount?)
  let grid ← Logged.ofExcept (sharedGrid nx nh ((countX : Int) + countH - 1))
  let placedX ← placeArray threshold x (.ofList (nx.values.take countX)) grid
  let placedH ← placeArray threshold h (.ofList (nh.values.take countH)) grid
  Logged.note (.unified grid)
  pure ⟨grid, placedX, placedH⟩

end SteppedConvolution.Canvas
