import SteppedConvolution.Journal.Logged

/-! # Nearest positions

Looking up and placing samples by the grid position that is closest to a given
one. Positions beyond the grid belong to its ends.
-/

namespace SteppedConvolution.Canvas

variable {K : Type} [Scalar K]

/-- The index closest to `p` among `size` positions in equal steps from a start, ties to the
even index. Every position belongs to a single one; otherwise an undefined one has no index. -/
def indexOf (size : Nat) (start step p : K) : Option Nat :=
  if size = 1 then some 0 else (Scalar.nearest ((p - start) / step)).clampBelow size

/-- The index of the grid position closest to `p`. -/
def nearestIndex (g : TimeGrid K) (p : K) : Option Nat := indexOf g.size g.start g.step p

/-- The number that listings show for an index; a missing one is the least 64-bit integer. -/
def indexNumber (index : Option Nat) : Int :=
  match index with
  | some i => i
  | none => -(Nat.pow 2 63 : Nat)

/-- The closest grid position to each of some positions, with its index. -/
def nearestPositions (g : TimeGrid K) (positions : List K) :
    Except (Fault K) (List (Nat × K)) :=
  let index := indexOf g.size g.start g.step
  let values := g.values.toArray
  positions.mapM fun p =>
    match index p with
    | none => .error (.plain .noSuchEntry)
    | some i =>
      match values[i]? with
      | none => .error (.plain .noSuchEntry)
      | some v => .ok (i, v)

/-- A grid position with its index lies within reach of the position that it was looked up for. -/
def isHit (reach p : K) (found : Nat × K) : Bool :=
  decide (Scalar.magnitude (found.2 - p) < reach)

/-- The values at positions, looked up at the closest grid position where that is within half
a step, and 0 elsewhere. -/
def sampleAt (values : List K) (g : TimeGrid K) (positions : List K) :
    Except (Fault K) (List K) := do
  let found ← nearestPositions g positions
  let table := values.toArray
  let reach := Scalar.half g.step
  (positions.zip found).mapM fun e =>
    (Fault.require .noSuchEntry table[e.2.1]?).map fun a => if isHit reach e.1 e.2 then a else 0

/-- Write entries into a list, later ones over earlier ones. -/
def writeEntries (entries : List (Nat × K)) (xs : List K) : List K :=
  entries.foldl (fun ys e => ys.set e.1 e.2) xs

/-- A sample counts when its magnitude exceeds a threshold. -/
def counts (threshold a : K) : Bool := decide (threshold < Scalar.magnitude a)

/-- The samples of a signal that count, with their positions. -/
def keptSamples (threshold : K) (samples positions : List K) : List (K × K) :=
  (samples.zip positions).filter fun e => counts threshold e.1

/-- The index of the closest grid position to each of some positions. Those half a step or more
away from theirs are reported. -/
def locate (target : TimeGrid K) (positions : List K) : Logged K (List Nat) := do
  let found ← Logged.ofExcept (nearestPositions target positions)
  let reach := Scalar.half target.step
  let astray := (positions.zip found).countP fun (p, _, v) =>
    decide (reach ≤ Scalar.magnitude (v - p))
  Logged.noteIf (decide (astray ≠ 0)) (.misaligned astray)
  pure (found.map Prod.fst)

/-- A list of zeros for a grid. -/
def blank (target : TimeGrid K) : List K := target.values.map fun _ => 0

/-- Place the samples that count on a grid, each at the closest position. -/
def place (threshold : K) (samples positions : List K) (target : TimeGrid K) :
    Logged K (List K) := do
  if !samples.any (counts threshold) then pure (blank target)
  else if samples.length ≠ positions.length then Logged.fail (.plain .noSuchEntry)
  else
    let kept := keptSamples threshold samples positions
    let indices ← locate target (kept.map Prod.snd)
    pure (writeEntries (indices.zip (kept.map Prod.fst)) (blank target))

end SteppedConvolution.Canvas
