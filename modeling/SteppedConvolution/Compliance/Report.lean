import SteppedConvolution.Compliance.Check
import SteppedConvolution.Convolution.Sum

/-! # Compliance reports

The checks of a convolution against theory: the number of samples, the
convolution with the arguments exchanged, the impulse response, the positions,
and the samples revealed so far. The verdict leaves the positions out and counts
the impulse response only where it applies.
-/

namespace SteppedConvolution

variable {K : Type} [Scalar K]

/-- What the checks look at. -/
structure Evidence (K : Type) where
  x : List K
  h : List K
  nx : List K
  nh : List K
  reference : List K
  positions : List K
  output : List K
  /-- How many leading samples of the output are claimed to be revealed. -/
  revealed : Int

/-- All checks of one convolution. -/
structure Report (K : Type) where
  length : Check K
  commutativity : Check K
  impulseResponse : Check K
  timeIndexing : Check K
  selfConsistency : Check K
  deriving DecidableEq, Repr

namespace Check

/-- The check on the number of samples. -/
def ofLength (actual expected : Nat) : Check K :=
  ⟨.outputLength, statusOf (actual = expected), .length actual expected⟩

/-- A check that an error is below the tolerance. -/
def ofError (name : CheckName) (tolerance : K) (error : Deviation K) : Check K :=
  ⟨name, statusOf (error.isBelow tolerance), .error error⟩

/-- The check on the first and the last position, which are sums of those of the inputs. -/
def ofEnds (tolerance : K) (nx nh positions : List K) : Except (Fault K) (Check K) :=
  match positions.head?, positions.getLast? with
  | some first, some last =>
    match nx.head?, nh.head?, nx.getLast?, nh.getLast? with
    | some x₀, some h₀, some x₁, some h₁ =>
      let start := x₀ + h₀
      let stop := x₁ + h₁
      let near (a b : K) : Bool := decide (Scalar.magnitude (a - b) < tolerance)
      .ok ⟨.timeIndexing, statusOf (near first start && near last stop),
        .range first last start stop⟩
    | _, _, _, _ => .error (.plain .noSuchEntry)
  | _, _ => .ok ⟨.timeIndexing, .notApplicable, .noRange⟩

/-- The check on the error of the revealed samples, `count` out of `total`. -/
def ofRevealed (tolerance : K) (count total : Nat) (error : Deviation K) : Check K :=
  ⟨.selfConsistency, statusOf (error.isBelow tolerance), .revealed count total error⟩

end Check

namespace Evidence

/-- The output has as many samples as a full convolution. -/
def lengthCheck (e : Evidence K) : Check K :=
  .ofLength e.reference.length (Convolution.length e.x e.h)

/-- The reference is the convolution with the arguments exchanged. -/
def commutativityCheck (tolerance : K) (e : Evidence K) : Except (Fault K) (Check K) :=
  (Convolution.convolve e.h e.x).map fun exchanged =>
    Check.ofError .commutativity tolerance (Deviation.between e.reference exchanged)

/-- The reference of a unit impulse is the other signal. -/
def impulseCheck (tolerance : K) (e : Evidence K) : Check K :=
  if isUnitImpulse tolerance e.x then
    Check.ofError .impulseResponse tolerance (Deviation.between e.reference e.h)
  else ⟨.impulseResponse, .notApplicable, .notImpulse⟩

/-- The positions start and end at the sums of the inputs' first and last positions. -/
def timeCheck (tolerance : K) (e : Evidence K) : Except (Fault K) (Check K) :=
  Check.ofEnds tolerance e.nx e.nh e.positions

/-- The number of revealed samples, between none and all of the reference. -/
def revealedCount (e : Evidence K) : Nat := min e.revealed.toNat e.reference.length

/-- The revealed samples are those of the reference. -/
def consistencyCheck (tolerance : K) (e : Evidence K) : Check K :=
  let count := e.revealedCount
  .ofRevealed tolerance count e.reference.length
    (if e.output.length ≠ e.reference.length then .unbounded
    else Deviation.between (e.output.take count) (e.reference.take count))

/-- All checks. They fail only for inputs that cannot be convolved or have no positions. -/
def report (tolerance : K) (e : Evidence K) : Except (Fault K) (Report K) := do
  let commutativity ← e.commutativityCheck tolerance
  let timeIndexing ← e.timeCheck tolerance
  pure ⟨e.lengthCheck, commutativity, e.impulseCheck tolerance, timeIndexing,
    e.consistencyCheck tolerance⟩

end Evidence

namespace Report

/-- The checks in the order in which they are reported. -/
def checks (r : Report K) : List (Check K) :=
  [r.length, r.commutativity, r.impulseResponse, r.timeIndexing, r.selfConsistency]

/-- The verdict on a convolution. -/
def isValid (r : Report K) : Bool :=
  r.length.passed && r.commutativity.passed && r.selfConsistency.passed &&
    (!r.impulseResponse.applicable || r.impulseResponse.passed)

/-- The checks that failed. -/
def failures (r : Report K) : List (Check K) := r.checks.filter Check.failed

end Report

end SteppedConvolution
