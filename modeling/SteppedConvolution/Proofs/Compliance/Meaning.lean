import SteppedConvolution.Compliance.Lists
import SteppedConvolution.Proofs.Compliance.Errors
import SteppedConvolution.Proofs.Convolution.Commutative
import SteppedConvolution.Proofs.Session.Opening

/-! # What a verdict means

A report compares lengths, errors and buffers that need not fit together. Its verdict is valid
exactly when the reference is the convolution of the two signals, sample by sample, and the
revealed samples of the output are those of the reference. Positions have no part in it.
-/

namespace SteppedConvolution

variable {t : Rat}

namespace Deviation

/-- No error is below a tolerance that is not positive. -/
theorem pos_of_isBelow_between {a b : List Rat} (h : (between a b).isBelow t = true) : 0 < t := by
  unfold between at h
  split at h
  · cases h
  · exact (Scalar.peak_lt_iff.1 (of_decide_eq_true h)).1

/-- An error is below a tolerance when the lists are equally long and the errors at all places
are below it. -/
theorem isBelow_between_iff_getElem (ht : 0 < t) {a b : List Rat} :
    (between a b).isBelow t = true ↔ a.length = b.length ∧
      ∀ i, (ha : i < a.length) → (hb : i < b.length) → |a[i] - b[i]| < t := by
  rw [isBelow_between_iff ht, List.forall₂_iff_get]
  rfl

/-- Errors in leading entries are those at the places in front. -/
theorem isBelow_between_take_iff (ht : 0 < t) {a b : List Rat} (hl : a.length = b.length)
    (n : Nat) : (between (a.take n) (b.take n)).isBelow t = true ↔
      ∀ i, (ha : i < a.length) → (hb : i < b.length) → i < n → |a[i] - b[i]| < t := by
  rw [isBelow_between_iff_getElem ht]
  simp only [List.length_take, List.getElem_take, lt_min_iff, hl, true_and]
  exact ⟨fun h i ha hb hn => h i ⟨hn, ha⟩ ⟨hn, hb⟩, fun h i ha hb => h i ha.2 hb.2 hb.1⟩

end Deviation

namespace Evidence

/-- The reference is the convolution of the two signals, and the revealed samples of the output
are those of the reference, each within a tolerance. Where the first signal is a single sample of
1 within the tolerance, the reference is the second signal as well. -/
structure Supports (e : Evidence Rat) (t : Rat) : Prop where
  length_reference : e.reference.length = e.x.length + e.h.length - 1
  convolution : ∀ i, (hr : i < e.reference.length) →
    |e.reference[i] - Convolution.valueAt e.x e.h i| < t
  length_output : e.output.length = e.reference.length
  revealed : ∀ i, (hy : i < e.output.length) → (hr : i < e.reference.length) →
    (i : Int) < min (max e.revealed 0) e.reference.length → |e.output[i] - e.reference[i]| < t
  impulse : ∀ a, e.x = [a] → |a - 1| < t →
    ∀ i, (hr : i < e.reference.length) → (hh : i < e.h.length) → |e.reference[i] - e.h[i]| < t

variable {e : Evidence Rat}

/-! ## Each check -/

theorem passed_lengthCheck :
    e.lengthCheck.passed = true ↔ e.reference.length = e.x.length + e.h.length - 1 := by
  rw [lengthCheck, Check.ofLength, Check.passed, decide_eq_true_iff, Check.statusOf_eq_pass,
    decide_eq_true_iff, Convolution.length]

theorem passed_ofError {name : CheckName} {error : Deviation Rat} :
    (Check.ofError name t error).passed = true ↔ error.isBelow t = true := by
  simp [Check.ofError, Check.passed, Check.statusOf_eq_pass]

/-- The convolution with the arguments exchanged is the convolution. -/
theorem isBelow_between_full_iff (ht : 0 < t) :
    (Deviation.between e.reference (Convolution.full e.h e.x)).isBelow t = true ↔
      e.reference.length = e.x.length + e.h.length - 1 ∧
        ∀ i, (hr : i < e.reference.length) →
          |e.reference[i] - Convolution.valueAt e.x e.h i| < t := by
  rw [Convolution.full_comm, Deviation.isBelow_between_iff_getElem ht]
  simp only [Convolution.length_full, Convolution.getElem_full]
  exact and_congr_right fun hl => ⟨fun h i hr => h i hr (hl ▸ hr), fun h i hr _ => h i hr⟩

/-- The check of the impulse response is passed, or does not apply. -/
theorem impulseCheck_iff : (!(e.impulseCheck t).applicable || (e.impulseCheck t).passed) = true ↔
    ((∃ a, e.x = [a] ∧ |a - 1| < t) →
      (Deviation.between e.reference e.h).isBelow t = true) := by
  rw [← isUnitImpulse_iff, impulseCheck]
  by_cases hx : isUnitImpulse t e.x = true
  · have happlies (holds : Bool) : Check.statusOf holds ≠ .notApplicable := by cases holds <;> nofun
    have hpassed {error : Deviation Rat} :
        (Check.ofError .impulseResponse t error).passed = true ↔ error.isBelow t = true :=
      passed_ofError
    rw [if_pos hx, ← hpassed]
    simp [Check.ofError, Check.applicable, happlies, hx]
  · rw [if_neg hx]
    simp [Check.applicable, hx]

theorem lt_revealedCount_iff {i : Nat} :
    i < e.revealedCount ↔ (i : Int) < min (max e.revealed 0) e.reference.length := by
  rw [revealedCount]
  omega

theorem passed_consistencyCheck (ht : 0 < t) : (e.consistencyCheck t).passed = true ↔
    e.output.length = e.reference.length ∧
      ∀ i, (hy : i < e.output.length) → (hr : i < e.reference.length) →
        (i : Int) < min (max e.revealed 0) e.reference.length →
          |e.output[i] - e.reference[i]| < t := by
  have hpassed {count total : Nat} {error : Deviation Rat} :
      (Check.ofRevealed t count total error).passed = true ↔ error.isBelow t = true := by
    simp [Check.ofRevealed, Check.passed, Check.statusOf_eq_pass]
  rw [consistencyCheck, hpassed]
  by_cases hl : e.output.length = e.reference.length
  · rw [if_neg (not_not.2 hl), Deviation.isBelow_between_take_iff ht hl, and_iff_right hl]
    simp only [lt_revealedCount_iff]
  · rw [if_pos hl]
    simp [Deviation.isBelow, hl]

/-! ## The verdict -/

/-- A report on signals with samples and positions, whatever else the evidence holds. -/
theorem report_eq (hx : e.x ≠ []) (hh : e.h ≠ []) (hnx : e.nx ≠ []) (hnh : e.nh ≠ []) (t : Rat) :
    ∃ time, (EvidenceInput.ofEvidence e).report t = .ok
      { length := e.lengthCheck
        commutativity := .ofError .commutativity t
          (Deviation.between e.reference (Convolution.full e.h e.x))
        impulseResponse := e.impulseCheck t, timeIndexing := time
        selfConsistency := e.consistencyCheck t } := by
  have hconvolve : Convolution.convolve e.h e.x = .ok (Convolution.full e.h e.x) :=
    Convolution.convolve_eq_ok.2
      ⟨Samples.defect?_eq_none_rat_iff.2 hh, Samples.defect?_eq_none_rat_iff.2 hx, rfl⟩
  have hcommutativity : e.commutativityCheck t = .ok (.ofError .commutativity t
      (Deviation.between e.reference (Convolution.full e.h e.x))) := by
    rw [commutativityCheck, hconvolve]
    rfl
  obtain ⟨time, htime⟩ : ∃ time, e.timeCheck t = .ok time := by
    unfold timeCheck Check.ofEnds
    rw [List.head?_eq_some_head hnx, List.head?_eq_some_head hnh,
      List.getLast?_eq_some_getLast hnx, List.getLast?_eq_some_getLast hnh]
    split <;> exact ⟨_, rfl⟩
  refine ⟨time, ?_⟩
  rw [EvidenceInput.report_ofEvidence]
  exact bind_eq_ok.2 ⟨_, hcommutativity, bind_eq_ok.2 ⟨time, htime, rfl⟩⟩

/-- What supports a reference leaves room for errors, since there is a sample to look at. -/
theorem Supports.pos (h : e.Supports t) (hx : e.x ≠ []) (hh : e.h ≠ []) : 0 < t := by
  have hr : 0 < e.reference.length := by
    have := List.length_pos_iff.2 hx
    have := List.length_pos_iff.2 hh
    rw [h.length_reference]
    omega
  exact (abs_nonneg _).trans_lt (h.convolution 0 hr)

theorem supports_iff (ht : 0 < t) : e.Supports t ↔ e.lengthCheck.passed = true ∧
    (Deviation.between e.reference (Convolution.full e.h e.x)).isBelow t = true ∧
    (e.consistencyCheck t).passed = true ∧
    (!(e.impulseCheck t).applicable || (e.impulseCheck t).passed) = true := by
  rw [passed_lengthCheck, isBelow_between_full_iff ht, passed_consistencyCheck ht,
    impulseCheck_iff, Deviation.isBelow_between_iff_getElem ht]
  constructor
  · rintro ⟨hlength, hconvolution, houtput, hrevealed, himpulse⟩
    refine ⟨hlength, ⟨hlength, hconvolution⟩, ⟨houtput, hrevealed⟩, ?_⟩
    rintro ⟨a, hx, ha⟩
    refine ⟨?_, himpulse a hx ha⟩
    rw [hlength, hx, List.length_singleton, Nat.add_sub_cancel_left]
  · rintro ⟨hlength, ⟨-, hconvolution⟩, ⟨houtput, hrevealed⟩, himpulse⟩
    exact ⟨hlength, hconvolution, houtput, hrevealed, fun a hx ha => (himpulse ⟨a, hx, ha⟩).2⟩

/-- The verdict on evidence with samples and positions of both signals is valid exactly when the
evidence supports the reference. Other positions bring the same verdict. -/
theorem isValid_iff_supports (hx : e.x ≠ []) (hh : e.h ≠ []) (hnx : e.nx ≠ []) (hnh : e.nh ≠ [])
    (t : Rat) : ∃ r, (EvidenceInput.ofEvidence e).report t = .ok r ∧
      (r.isValid = true ↔ e.Supports t) ∧
      ∀ nx nh positions, nx ≠ [] → nh ≠ [] → ∃ r',
        (EvidenceInput.ofEvidence { e with nx, nh, positions }).report t = .ok r' ∧
          r'.isValid = r.isValid := by
  obtain ⟨time, hreport⟩ := report_eq hx hh hnx hnh t
  refine ⟨_, hreport, ?_, fun nx nh positions hnx hnh => ?_⟩
  · simp only [Report.isValid, Bool.and_eq_true, passed_ofError]
    constructor
    · rintro ⟨⟨⟨hlength, hcommutativity⟩, hconsistency⟩, himpulse⟩
      exact (supports_iff (Deviation.pos_of_isBelow_between hcommutativity)).2
        ⟨hlength, hcommutativity, hconsistency, himpulse⟩
    · intro h
      obtain ⟨hlength, hcommutativity, hconsistency, himpulse⟩ := (supports_iff (h.pos hx hh)).1 h
      exact ⟨⟨⟨hlength, hcommutativity⟩, hconsistency⟩, himpulse⟩
  · obtain ⟨time', hreport'⟩ := report_eq (e := { e with nx, nh, positions }) hx hh hnx hnh t
    exact ⟨_, hreport', rfl⟩

/-- A unit impulse within the tolerance, an output whose hidden sample is off, and positions that
fit nothing. -/
theorem isValid_iff_supports_hidden :
    let e : Evidence Rat :=
      { x := [101 / 100], h := [2, -3], nx := [5], nh := [0, 0], reference := [2, -3]
        positions := [7], output := [2, 40], revealed := 1 }
    ∃ r, (EvidenceInput.ofEvidence e).report (1 / 10) = .ok r ∧ r.isValid = true ∧
      e.Supports (1 / 10) := by
  intro e
  obtain ⟨r, hr, hiff, -⟩ := isValid_iff_supports (e := e) (List.cons_ne_nil _ _)
    (List.cons_ne_nil _ _) (List.cons_ne_nil _ _) (List.cons_ne_nil _ _) (1 / 10)
  have hvalid : ((EvidenceInput.ofEvidence e).report (1 / 10)).toOption.map Report.isValid =
      some true := by decide +kernel
  rw [hr] at hvalid
  have hvalid : r.isValid = true := Option.some.inj hvalid
  exact ⟨r, hr, hvalid, hiff.1 hvalid⟩

end Evidence

end SteppedConvolution
