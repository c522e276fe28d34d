import SteppedConvolution.Scalar.Text
import SteppedConvolution.TimeGrid.Basic

/-! # Written time grids

The short text of a grid in messages: its range and size, or its only position.
-/

namespace SteppedConvolution.TimeGrid

open Binary

/-- The short text of a grid. -/
def text (g : TimeGrid Float) : String :=
  if g.size = 1 then "TimeGrid([" ++ generalText g.start ++ "])"
  else
    "TimeGrid(" ++ generalText g.start ++ ":" ++ generalText g.step ++ ":" ++ generalText g.stop ++
      ", n=" ++ toString g.size ++ ")"

end SteppedConvolution.TimeGrid
