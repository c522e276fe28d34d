import SteppedConvolution.Proofs.Compliance.Errors
import SteppedConvolution.Proofs.Scalar.Peak
import SteppedConvolution.Proofs.Session.Phase

/-! # Hidden samples

How the output of an engine compares with the reference while some samples are hidden. Behind
the cursor the output holds zeros, so its largest error is the largest hidden sample. This
error does not grow by a step, nor shrink by a move back, and it is gone at the end.
-/

namespace SteppedConvolution

variable {t m : Rat}

namespace Deviation

theorem zipWith_sub_zeros (as bs : List Rat) :
    List.zipWith (fun x y => x - y) (as ++ List.replicate bs.length 0) (as ++ bs) =
      List.replicate as.length 0 ++ bs.map Neg.neg := by
  have hzeros : List.zipWith (fun x y => x - y) (List.replicate bs.length 0) bs =
      bs.map (Neg.neg : Rat → Rat) := by
    induction bs with
    | nil => rfl
    | cons b bs ih => rw [List.length_cons, List.replicate_succ, List.zipWith_cons_cons, ih,
        zero_sub, List.map_cons]
  rw [List.zipWith_append rfl, List.zipWith_self, hzeros]
  simp

/-- Samples of which the last ones are replaced by zeros are as far from the whole as the largest
one that is replaced. -/
theorem between_zeros (as bs : List Rat) :
    between (as ++ List.replicate bs.length 0) (as ++ bs) = .value (Scalar.peak bs) := by
  have hneg (b : Rat) : Scalar.magnitude (-b) = Scalar.magnitude b := by
    rw [Scalar.magnitude_eq_abs, Scalar.magnitude_eq_abs, abs_neg]
  have hpeak : Scalar.IsPeak bs (Scalar.peak (List.replicate as.length 0 ++ bs.map Neg.neg)) := by
    refine Scalar.isPeak_peak (fun b hb => ?_) fun e he => ?_
    · exact ⟨-b, List.mem_append_right _ (List.mem_map_of_mem hb), hneg b⟩
    · rcases List.mem_append.1 he with h0 | he
      · rw [List.eq_of_mem_replicate h0]
        exact .inl Scalar.Ordered.magnitude_zero
      · obtain ⟨b, hb, rfl⟩ := List.mem_map.1 he
        exact .inr ⟨b, hb, hneg b⟩
  rw [between, if_neg (not_not.2 (by simp)), zipWith_sub_zeros, hpeak.eq_peak]

end Deviation

/-- A comparison of equally many samples of which some are hidden, with the largest error `m`. -/
structure Comparison.Hides (r : Comparison Rat) (t : Rat) (hidden : List Rat) (m : Rat) :
    Prop where
  lengthMatch : r.lengthMatch = true
  maxError : r.maxError = .value m
  peak : Scalar.IsPeak hidden m
  valuesMatch : r.valuesMatch = true ↔ ∀ a ∈ hidden, |a| < t
  nothing : hidden = [] → m = 0 ∧ r.relativeError = .value 0 ∧ r.grade = .perfect

/-- The comparison of an output whose last samples are hidden. -/
theorem Comparison.ofLists_hides (ht : 0 < t) {as bs : List Rat} (hn : as ++ bs ≠ []) :
    (ofLists t (as ++ List.replicate bs.length 0) (as ++ bs)).Hides t bs (Scalar.peak bs) := by
  have hlength : (as ++ List.replicate bs.length (0 : Rat)).length = (as ++ bs).length := by simp
  have hne : as ++ List.replicate bs.length (0 : Rat) ≠ [] := by
    rw [← List.length_pos_iff] at hn ⊢
    rwa [hlength]
  rw [ofLists, if_neg (not_not.2 hlength), if_neg hne, ofSameLength, Deviation.between_zeros]
  refine ⟨rfl, rfl, Scalar.isPeak_self bs, ?_, ?_⟩
  · simp [Deviation.isBelow, Scalar.peak_lt_iff, ht]
  · rintro rfl
    have h0 : Scalar.peak ([] : List Rat) = 0 := rfl
    simp [h0, proportion, gradeOf, Deviation.isBelow, ht]

theorem Session.Built.comparison_upTo {tolerances : Tolerances Rat} {nx : TimeGrid Rat}
    {s : Session Rat} (hs : s.Built tolerances nx) (ht : 0 < t) (c : Nat) :
    ((s.upTo c).comparison t).Hides t (s.reference.drop c)
      (Scalar.peak (s.reference.drop c)) := by
  have hn : s.reference.take c ++ s.reference.drop c ≠ [] := by
    rw [List.take_append_drop]
    exact List.ne_nil_of_length_pos hs.length_pos
  have h := Comparison.ofLists_hides ht hn
  rwa [List.length_drop, List.take_append_drop] at h

namespace Engine

/-- The largest error in the comparison of an engine. -/
def ErrsBy (e : Engine Rat) (m : Rat) : Prop :=
  ∃ r, e.comparison = .ok r ∧ r.maxError = .value m

variable {e : Engine Rat} {s : Session Rat} {c : Nat}

/-- How the largest error of an engine changes with its moves. -/
structure Narrows (e : Engine Rat) (m : Rat) : Prop where
  step : ∃ m' ≤ m, e.step.engine.ErrsBy m'
  rewind : ∀ index, ∃ m' ≥ m, (e.rewind index).engine.ErrsBy m'
  stepBack : ∃ m' ≥ m, e.stepBack.engine.ErrsBy m'

namespace At

theorem comparison_hides (he : e.At s c) (ht : 0 < e.tolerances.compliance) :
    ∃ r, e.comparison = .ok r ∧ r.Hides e.tolerances.compliance (s.reference.drop c)
      (Scalar.peak (s.reference.drop c)) := by
  obtain ⟨nx, hb⟩ := he.built
  refine ⟨_, ?_, hb.comparison_upTo ht c⟩
  rw [comparison, requireSession, he.session]
  rfl

theorem errsBy (he : e.At s c) (ht : 0 < e.tolerances.compliance) {i : Nat} (hi : i ≤ s.length) :
    (e.revealedTo s i).ErrsBy (Scalar.peak (s.reference.drop i)) := by
  obtain ⟨r, hr, h⟩ := (he.at_revealedTo hi).comparison_hides ht
  exact ⟨r, hr, h.maxError⟩

theorem narrows (he : e.At s c) (ht : 0 < e.tolerances.compliance) :
    e.Narrows (Scalar.peak (s.reference.drop c)) := by
  have hanti {i j : Nat} (hij : i ≤ j) :
      Scalar.peak (s.reference.drop j) ≤ Scalar.peak (s.reference.drop i) :=
    (Scalar.isPeak_self _).le_of_subset (Scalar.isPeak_self _) (List.drop_subset_drop_left _ hij)
  refine ⟨?_, fun index => ?_, ?_⟩
  · rw [he.step_eq]
    exact ⟨_, hanti (le_min (Nat.le_succ c) he.le), he.errsBy ht (min_le_right _ _)⟩
  · obtain ⟨i, hi, hengine⟩ := he.rewind_engine index
    rw [hengine]
    exact ⟨_, hanti hi, he.errsBy ht (hi.trans he.le)⟩
  · rw [he.stepBack_eq]
    exact ⟨_, hanti (Nat.sub_le c 1), he.errsBy ht ((Nat.sub_le c 1).trans he.le)⟩

end At

/-- After every history the output differs from the reference by the samples that are still
hidden: the largest error is the largest of these, it matches where all of them are below the
tolerance, and at the end the match is perfect. -/
theorem comparison_tracks_hidden (he : e.Reachable) (hs : e.session = some s)
    (ht : 0 < e.tolerances.compliance) : ∃ (c : Nat) (r : Comparison Rat) (m : Rat),
      s.cursor = c ∧ e.comparison = .ok r ∧
        r.Hides e.tolerances.compliance (s.reference.drop c) m ∧ e.Narrows m ∧
        (e.phase = .completed → r.grade = .perfect ∧ m = 0 ∧ r.relativeError = .value 0) := by
  obtain ⟨opened, c, hat, rfl⟩ := he.standsAt hs
  obtain ⟨r, hr, h⟩ := hat.comparison_hides ht
  refine ⟨c, r, _, rfl, hr, h, hat.narrows ht, fun hp => ?_⟩
  rw [hat.phase_eq, phaseAt_eq_completed] at hp
  obtain ⟨hm, hrel, hgrade⟩ := h.nothing (List.drop_eq_nil_of_le hp.ge)
  exact ⟨hgrade, hm, hrel⟩

/-- A session with two of its four samples revealed, after a third one was taken back. -/
theorem comparison_tracks_hidden_rewound :
    let e := (Engine.idle
      (⟨.standard, ToleranceSettings.firstNegative?_standard⟩ : Tolerances Rat)).after
      [.start (.samples (.ofList [1, 2])) (.samples (.ofList [1, 0, 3]))
        (some (.positions (.ofList [0, 1 / 2, 1])))
        (some (.positions (.ofList [1 / 3, 5 / 6, 4 / 3, 11 / 6]))),
        .step, .step, .step, .rewind (.integer 2)]
    0 < e.tolerances.compliance ∧ ∃ r m, e.comparison = .ok r ∧
      r.Hides e.tolerances.compliance [3, 6] m ∧ e.Narrows m := by
  intro e
  have ht : 0 < e.tolerances.compliance := by decide +kernel
  have hview : e.session.map (fun s => (s.cursor, s.reference)) = some (2, [1, 2, 3, 6]) := by
    decide +kernel
  obtain ⟨s, hs, hview⟩ := Option.map_eq_some_iff.1 hview
  obtain ⟨hcursor, href⟩ := Prod.mk.inj hview
  obtain ⟨c, r, m, hc, hr, h, hn, -⟩ := comparison_tracks_hidden ⟨_, _, rfl⟩ hs ht
  obtain rfl : c = 2 := Int.ofNat.inj (hc.symm.trans hcursor)
  rw [href] at h
  exact ⟨ht, r, m, hr, h, hn⟩

end Engine

end SteppedConvolution
