import SteppedConvolution.Input

/-! # Time grids

The positions of a sampled signal: at least one, finite, strictly increasing and
uniformly spaced up to a tolerance. A grid carries the fact that it passed these
checks, so its first and last position always exist.
-/

namespace SteppedConvolution

variable {K : Type} [Scalar K]

/-- What keeps positions from being a time grid. -/
inductive GridDefect where
  | notOneDimensional (rank : Nat)
  | empty
  | nonFinite
  | notIncreasing
  | notUniform
  deriving DecidableEq, Repr

namespace Positions

/-- The differences of consecutive positions. -/
def steps (vs : List K) : List K := List.zipWith (fun a b => b - a) vs vs.tail

/-- Some position is not larger than the one before it. -/
def hasDescent (vs : List K) : Bool := (steps vs).any fun d => decide (d ≤ 0)

/-- All steps equal the first one within a tolerance; fewer than two steps always do. -/
def isUniform (atol : K) (vs : List K) : Bool :=
  match steps vs with
  | first :: second :: rest =>
    (first :: second :: rest).all fun d => decide (Scalar.magnitude (d - first) ≤ atol)
  | _ => true

/-- The first defect of positions, in the order in which defects are reported. -/
def defect? (atol : K) (vs : List K) : Option GridDefect :=
  if vs = [] then some .empty
  else if !vs.all Scalar.isFinite then some .nonFinite
  else if hasDescent vs then some .notIncreasing
  else if !isUniform atol vs then some .notUniform
  else none

/-- The first defect of shaped positions. -/
def shapedDefect? (atol : K) (s : Shaped K) : Option GridDefect :=
  if s.rank ≠ 1 then some (.notOneDimensional s.rank) else defect? atol s.entries

theorem ne_nil_of_defect? {atol : K} {vs : List K} (h : defect? atol vs = none) : vs ≠ [] := by
  intro hv
  simp [defect?, hv] at h

end Positions

/-- Positions that passed the checks under some tolerance. -/
structure TimeGrid (K : Type) [Scalar K] where
  values : List K
  admissible : ∃ atol, Positions.defect? atol values = none

namespace TimeGrid

/-- The tolerance on uniformity where the caller sets none. -/
def defaultTolerance : K := Scalar.ofDecimal 1 (-9)

/-- The grid with the given positions. -/
def ofValues (atol : K) (vs : List K) : Except GridDefect (TimeGrid K) :=
  match h : Positions.defect? atol vs with
  | none => .ok ⟨vs, atol, h⟩
  | some d => .error d

/-- The grid with the given shaped positions; a single number is a grid of one position. -/
def ofShaped (atol : K) (s : Shaped K) : Except GridDefect (TimeGrid K) :=
  if s.rank ≤ 1 then ofValues atol s.entries else .error (.notOneDimensional s.rank)

theorem values_ne_nil (g : TimeGrid K) : g.values ≠ [] :=
  g.admissible.elim fun _ h => Positions.ne_nil_of_defect? h

/-- The number of positions. -/
def size (g : TimeGrid K) : Nat := g.values.length

/-- The first position. -/
def start (g : TimeGrid K) : K := g.values.head g.values_ne_nil

/-- The last position. -/
def stop (g : TimeGrid K) : K := g.values.getLast g.values_ne_nil

/-- The mean step; 1 for a single position. -/
def step (g : TimeGrid K) : K :=
  if g.size < 2 then 1 else (g.stop - g.start) / Scalar.ofNat (g.size - 1)

/-- Equality of all positions. -/
def same (g k : TimeGrid K) : Bool := g.values == k.values

end TimeGrid

end SteppedConvolution
