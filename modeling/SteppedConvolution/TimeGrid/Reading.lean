import SteppedConvolution.Journal.Logged
import SteppedConvolution.TimeGrid.Bracketed
import SteppedConvolution.TimeGrid.Range

/-! # Reading time grids

A time grid is written as a range `start:stop` or `start:step:stop`, as numbers in
brackets, or as a single number. Positions that are out of order are sorted and
repeated ones are dropped; what then is no grid is refused.
-/

namespace SteppedConvolution.TimeGrid

open Text

variable {K : Type} [Scalar K]

/-- The number that a part of the text stands for. -/
def readPart (part : List Char) : Except (TextFault K) Reading :=
  match Reading.ofText? (strip part) with
  | some r => .ok r
  | none => .error (.unreadableNumber (String.ofList (strip part)))

/-- All parts are read before any of them has to be finite. -/
def readParts (parts : List (List Char)) : Except (TextFault K) (List K) := do
  let readings ← parts.mapM readPart
  match readings.mapM Reading.finiteValue? with
  | some values => .ok values
  | none => .error .nonFiniteGrid

/-- Refuse a range that does not run the way of its step. The step is left out in `start:stop`. -/
def checkRange (start : K) (step? : Option K) (stop : K) : Except (TextFault K) Unit :=
  match step? with
  | none => if stop ≤ start then .error (.rangeNotRising start stop) else .ok ()
  | some step =>
    if step == 0 then .error .zeroStep
    else if 0 < step ∧ stop ≤ start then .error (.risingRangeNotRising start stop)
    else if step < 0 ∧ start ≤ stop then .error (.fallingRangeNotFalling start stop)
    else .ok ()

/-- The positions of a range, before they are sorted. -/
def rangePositions (start : K) (step? : Option K) (stop : K) :
    Except (TextFault K) (Except (Fault K) (List K)) := do
  checkRange start step? stop
  let step := step?.getD 1
  match Range.count start step stop with
  | .error e => pure (.error (.plain (.notWhole e)))
  | .ok n => pure (Range.positions start step n)

/-- The positions that a text with colons stands for. -/
def readRange (text : List Char) : Except (TextFault K) (Except (Fault K) (List K)) :=
  let parts := splitAt ':' text
  if 3 < parts.length then .error .tooManyColons
  else do
    match ← readParts parts with
    | [start, stop] => rangePositions start none stop
    | [start, step, stop] => rangePositions start (some step) stop
    | values => pure (.ok values)

/-- A text in square brackets. -/
def isBracketed (text : List Char) : Bool := text.head? = some '[' && text.getLast? = some ']'

/-- The positions that a text stands for, in the order in which it gives them. -/
def readPositions (text : List Char) : Except (TextFault K) (Except (Fault K) (List K)) :=
  if text.contains ':' then readRange text
  else if isBracketed text then (Bracketed.values text).map .ok
  else (readParts [text]).map .ok

/-- Drop repeated neighbours. -/
def dropRepeats : List K → List K
  | a :: b :: rest => if a == b then dropRepeats (a :: rest) else a :: dropRepeats (b :: rest)
  | vs => vs

/-- Positions in strictly increasing order, as far as sorting and dropping repeats goes. -/
def repair (text : String) (vs : List K) : Logged K (List K) := do
  if Positions.hasDescent vs then
    Logged.note (.sortedGrid text)
    let sorted := Range.sorted vs
    if Positions.hasDescent sorted then
      Logged.note (.removedDuplicates text)
      pure (dropRepeats sorted)
    else pure sorted
  else pure vs

/-- The grid of a text from which the blanks around it have been dropped. -/
def readStripped (text : List Char) : Logged K (TimeGrid K) := do
  let shown := String.ofList text
  let refuse (cause : TextFault K) : Fault K := .text cause (some shown)
  Logged.note (.readingGrid shown)
  let positions ← Logged.ofExcept ((readPositions text).mapError refuse)
  let vs ← Logged.ofExcept positions
  if !vs.all Scalar.isFinite then
    Logged.fail (refuse .nonFiniteGrid)
  else
    let repaired ← repair shown vs
    if Positions.hasDescent repaired then
      Logged.fail (refuse .stillNotIncreasing)
    else
      match ofValues defaultTolerance repaired with
      | .error d => Logged.fail (refuse (.invalidGrid d))
      | .ok grid => do
        Logged.note (.readGrid shown grid)
        pure grid

/-- The grid that a text stands for. -/
def read (text : Option String) : Logged K (TimeGrid K) :=
  match text with
  | none => Logged.fail (.text .emptyGrid none)
  | some s =>
    if isBlankText s.toList then Logged.fail (.text .emptyGrid (some s))
    else readStripped (strip s.toList)

end SteppedConvolution.TimeGrid
