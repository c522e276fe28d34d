import SteppedConvolution.Scalar.Basic

/-! # Tolerances

The thresholds of grid validation, of the primitives, of remapping and of the
theory checks. None of them is negative.
-/

namespace SteppedConvolution

/-- The tolerances by name. -/
inductive ToleranceName where
  | gridUniformity
  | deltaWidth
  | compliance
  | nonzero
  deriving DecidableEq, Repr

/-- Thresholds that have not been checked. -/
structure ToleranceSettings (K : Type) where
  /-- The greatest difference between a step of a grid and its first step. -/
  gridUniformity : K
  /-- The impulse is 1 where the argument is below this magnitude. -/
  deltaWidth : K
  /-- The bound on the errors that a theory check accepts. -/
  compliance : K
  /-- Samples up to this magnitude count as zero when a signal is remapped. -/
  nonzero : K

variable {K : Type} [Scalar K]

namespace ToleranceSettings

/-- The settings used where a caller gives none. -/
def standard : ToleranceSettings K where
  gridUniformity := Scalar.ofDecimal 1 (-9)
  deltaWidth := Scalar.ofDecimal 1 (-10)
  compliance := Scalar.ofDecimal 1 (-10)
  nonzero := Scalar.ofDecimal 1 (-12)

/-- The value of a named tolerance. -/
def get (s : ToleranceSettings K) : ToleranceName → K
  | .gridUniformity => s.gridUniformity
  | .deltaWidth => s.deltaWidth
  | .compliance => s.compliance
  | .nonzero => s.nonzero

/-- The names in the order in which they are checked. -/
def names : List ToleranceName := [.gridUniformity, .deltaWidth, .compliance, .nonzero]

/-- The first tolerance that is not at least zero. -/
def firstNegative? (s : ToleranceSettings K) : Option ToleranceName :=
  names.find? fun name => !decide (0 ≤ s.get name)

end ToleranceSettings

/-- Thresholds of which none is negative. -/
structure Tolerances (K : Type) [Scalar K] extends ToleranceSettings K where
  nonnegative : toToleranceSettings.firstNegative? = none

/-- Check the settings. A negative one is named with its value. -/
def Tolerances.ofSettings (s : ToleranceSettings K) :
    Except (ToleranceName × K) (Tolerances K) :=
  match h : s.firstNegative? with
  | none => .ok ⟨s, h⟩
  | some name => .error (name, s.get name)

end SteppedConvolution
