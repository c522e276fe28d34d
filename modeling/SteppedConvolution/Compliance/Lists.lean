import SteppedConvolution.Compliance.Arrays
import SteppedConvolution.Compliance.Comparison

/-! # Evidence in lists

Evidence that a caller gives in lists has the report of the evidence itself, and
outputs in lists have the comparison of the lists, so what holds of reports on
lists holds of what callers see.
-/

namespace SteppedConvolution

variable {K : Type} [Scalar K]

/-- Arrays of one dimension are compared as lists. -/
theorem Comparison.ofShaped_ofList (tolerance : K) (y reference : List K) :
    ofShaped tolerance (.ofList y) (.ofList reference) = ofLists tolerance y reference := by
  by_cases hl : y.length = reference.length <;> simp [ofShaped, ofLists, Shaped.ofList, hl]

namespace EvidenceInput

/-- Evidence as a caller gives it in lists. -/
def ofEvidence (e : Evidence K) : EvidenceInput K :=
  { x := .ofList e.x, h := .ofList e.h, nx := .ofList e.nx, nh := .ofList e.nh
    reference := .ofList e.reference, positions := .ofList e.positions
    output := .ofList e.output, revealed := .exactly e.revealed }

theorem rowError_ofList (count : Nat) (output reference : List K) :
    rowError count (.ofList output) (.ofList reference) =
      if output.length ≠ reference.length then .unbounded
      else Deviation.between (output.take count) (reference.take count) := by
  simp [rowError, Shaped.ofList, Shaped.rowCount?, Shaped.leadingRows, Shaped.volume]

/-- Positions in lists are refused only where their check fails, and in the same way. -/
theorem requireSingleEnds_ofList {A : Type} (tolerance : K) (nx nh positions : List K)
    (f : Check K → Except (Fault K) A) :
    (requireSingleEnds (.ofList nx) (.ofList nh) (.ofList positions) >>= fun _ =>
      Check.ofEnds tolerance nx nh positions >>= f) =
      (Check.ofEnds tolerance nx nh positions >>= f) := by
  cases positions with
  | nil => rfl
  | cons p ps =>
    cases nx with
    | nil => rfl
    | cons a nx =>
      cases nh with
      | nil => rfl
      | cons b nh => rfl

/-- Evidence in lists has the report that it has before it is handed over. -/
theorem report_ofEvidence (tolerance : K) (e : Evidence K) :
    (ofEvidence e).report tolerance = e.report tolerance := by
  have hr (ys : List K) : Samples.shapedInput (Input.ofList ys) = .ok (Shaped.ofList ys) := by
    rw [Samples.shapedInput, Input.shaped_ofList]
    rfl
  have hc (ys : List K) : (Shaped.ofList ys).rowCount? = some ys.length := rfl
  have hb {A B : Type} (a : A) (f : A → Except (Fault K) B) :
      ((.ok a : Except _ _) >>= f) = f a := rfl
  unfold report ofEvidence
  simp only [hr, hc, Fault.require, hb, Samples.ofShaped_ofList]
  cases hh : Samples.check "x" e.h with
  | error f => simp [Evidence.report, Evidence.commutativityCheck, Convolution.convolve, hh]; rfl
  | ok hs =>
    obtain rfl := Samples.eq_of_check hh
    cases hx : Samples.check "h" e.x with
    | error f =>
      simp [Evidence.report, Evidence.commutativityCheck, Convolution.convolve, hh, hx]; rfl
    | ok xs =>
      obtain rfl := Samples.eq_of_check hx
      simp only [hb]
      unfold Evidence.report
      refine congrArg (Except.bind (e.commutativityCheck tolerance)) (funext fun c => ?_)
      refine (requireSingleEnds_ofList tolerance e.nx e.nh e.positions _).trans ?_
      refine congrArg (Except.bind (e.timeCheck tolerance)) (funext fun t => ?_)
      simp only [rowError_ofList]
      rfl

end EvidenceInput

end SteppedConvolution
