import SteppedConvolution.Deviation

/-! # Theory checks

The outcome of one check of a convolution against theory: which check it was,
whether it passed, and the values it measured. A failed check is a value, not a
fault.
-/

namespace SteppedConvolution

/-- The checks of a convolution. -/
inductive CheckName where
  | outputLength
  | commutativity
  | impulseResponse
  | timeIndexing
  | selfConsistency
  deriving DecidableEq, Repr

/-- The outcome of a check. -/
inductive CheckStatus where
  | pass
  | fail
  | notApplicable
  deriving DecidableEq, Repr

/-- What a check measured. -/
inductive Measurement (K : Type) where
  | length (actual expected : Nat)
  | error (largest : Deviation K)
  | notImpulse
  | range (start stop expectedStart expectedStop : K)
  | noRange
  | revealed (count total : Nat) (largest : Deviation K)
  deriving DecidableEq, Repr

/-- One check with its outcome. -/
structure Check (K : Type) where
  name : CheckName
  status : CheckStatus
  measurement : Measurement K
  deriving DecidableEq, Repr

namespace Check

variable {K : Type}

/-- The status of a condition. -/
def statusOf (holds : Bool) : CheckStatus := if holds then .pass else .fail

theorem statusOf_eq_pass {holds : Bool} : statusOf holds = .pass ↔ holds = true := by
  cases holds <;> simp [statusOf]

theorem statusOf_eq_fail {holds : Bool} : statusOf holds = .fail ↔ holds = false := by
  cases holds <;> simp [statusOf]

/-- The check applies and its condition holds. -/
def passed (c : Check K) : Bool := decide (c.status = .pass)

/-- The check has a condition to look at. -/
def applicable (c : Check K) : Bool := !decide (c.status = .notApplicable)

/-- The check applies and its condition does not hold. -/
def failed (c : Check K) : Bool := decide (c.status = .fail)

end Check

end SteppedConvolution
