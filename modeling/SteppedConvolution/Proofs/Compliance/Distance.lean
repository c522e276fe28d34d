import SteppedConvolution.Compliance.Lists
import SteppedConvolution.Compliance.Written
import SteppedConvolution.Proofs.Scalar.Peak
import SteppedConvolution.Tolerances

/-! # Comparisons as distances

The largest error of a comparison is a distance between outputs of one length, and it is at most
twice the larger of their peaks. A comparison does not depend on the order of the two outputs, and
its grade says what its errors say: a perfect match is one whose error is below the tolerance, and
outputs without a common sample have errors without bound.
-/

namespace SteppedConvolution

/-! ## The largest difference -/

namespace Deviation

/-- The largest difference of two lists at one place. -/
def largest (a b : List Rat) : Rat := Scalar.peak (List.zipWith (fun u v => u - v) a b)

variable {a b c : List Rat} {t u v : Rat} {i : Nat}

theorem between_eq (hl : a.length = b.length) : between a b = .value (largest a b) :=
  if_neg (not_not.2 hl)

theorem largest_nonneg (a b : List Rat) : 0 ≤ largest a b := (Scalar.isPeak_self _).nonneg

theorem abs_sub_le_largest (ha : a[i]? = some u) (hb : b[i]? = some v) :
    |u - v| ≤ largest a b := by
  refine (Scalar.isPeak_self _).abs_le (List.mem_of_getElem? (i := i) ?_)
  exact List.getElem?_zipWith_eq_some.2 ⟨u, v, ha, hb, rfl⟩

theorem largest_le (ht : 0 ≤ t)
    (h : ∀ (i : Nat) (u v : Rat), a[i]? = some u → b[i]? = some v → |u - v| ≤ t) :
    largest a b ≤ t := by
  rcases (Scalar.isPeak_self (List.zipWith (fun u v => u - v) a b)).attained with
    ⟨-, hzero⟩ | ⟨e, he, hpeak⟩
  · exact hzero.trans_le ht
  · obtain ⟨i, hi⟩ := List.mem_iff_getElem?.1 he
    obtain ⟨u, v, hu, hv, rfl⟩ := List.getElem?_zipWith_eq_some.1 hi
    rw [largest, hpeak, Scalar.magnitude_eq_abs]
    exact h i u v hu hv

theorem largest_comm (a b : List Rat) : largest a b = largest b a := by
  have hle (a b : List Rat) : largest a b ≤ largest b a := by
    refine largest_le (largest_nonneg b a) fun i u v hu hv => ?_
    rw [abs_sub_comm]
    exact abs_sub_le_largest hv hu
  exact le_antisymm (hle a b) (hle b a)

/-- Only a list itself differs nowhere from a list of the same length. -/
theorem largest_eq_zero_iff (hl : a.length = b.length) : largest a b = 0 ↔ a = b := by
  constructor
  · intro h0
    refine List.ext_getElem hl fun i ha hb => ?_
    have hle := abs_sub_le_largest (List.getElem?_eq_getElem ha) (List.getElem?_eq_getElem hb)
    rw [h0] at hle
    exact sub_eq_zero.1 (abs_nonpos_iff.1 hle)
  · rintro rfl
    refine le_antisymm (largest_le le_rfl fun i u v hu hv => ?_) (largest_nonneg a a)
    obtain rfl := Option.some.inj (hu.symm.trans hv)
    rw [sub_self, abs_zero]

theorem largest_triangle (hl : a.length = b.length) :
    largest a c ≤ largest a b + largest b c := by
  refine largest_le (add_nonneg (largest_nonneg a b) (largest_nonneg b c)) fun i u w hu hw => ?_
  have hi : i < b.length := hl ▸ (List.getElem?_eq_some_iff.1 hu).1
  have hv := List.getElem?_eq_getElem hi
  exact (abs_sub_le u b[i] w).trans
    (add_le_add (abs_sub_le_largest hu hv) (abs_sub_le_largest hv hw))

theorem largest_le_add_peak (a b : List Rat) :
    largest a b ≤ Scalar.peak a + Scalar.peak b := by
  have ha := Scalar.isPeak_self a
  have hb := Scalar.isPeak_self b
  refine largest_le (add_nonneg ha.nonneg hb.nonneg) fun i u v hu hv => ?_
  exact (abs_sub u v).trans
    (add_le_add (ha.abs_le (List.mem_of_getElem? hu)) (hb.abs_le (List.mem_of_getElem? hv)))

end Deviation

/-! ## Grades in words -/

/-- The text of a grade, given the text of an error. -/
def Grade.phrase {K : Type} (write : Deviation K → String) : Grade K → String
  | perfect => "PERFECT MATCH"
  | excellent e => "EXCELLENT (max error: " ++ write e ++ ")"
  | good e => "GOOD (max error: " ++ write e ++ ")"
  | error e => "ERROR (max error: " ++ write e ++ ")"

theorem Grade.text_eq_phrase (g : Grade Float) :
    g.text = g.phrase (Deviation.text Binary.errorText) := by
  cases g <;> rfl

/-- No other grade reads like a perfect match. -/
theorem Grade.phrase_eq_iff {K : Type} (write : Deviation K → String) (g : Grade K) :
    g.phrase write = "PERFECT MATCH" ↔ g = perfect := by
  cases g with
  | perfect => exact iff_of_true rfl rfl
  | excellent e | good e | error e =>
    refine iff_of_false (fun h => ?_) (by simp)
    have hhead := congrArg (fun s : String => s.toList.head?) h
    unfold phrase at hhead
    simp at hhead

theorem Grade.startsWith_phrase_error {K : Type} (write : Deviation K → String)
    (e : Deviation K) : ((Grade.error e).phrase write).startsWith "ERROR" = true := by
  unfold phrase
  simp

namespace Comparison

variable {a b : List Rat} {t : Rat}

/-! ## Two outputs of one length -/

/-- The largest error in proportion to the larger peak, 0 where both outputs are zero throughout. -/
def relative (a b : List Rat) : Rat :=
  if 0 < max (Scalar.peak a) (Scalar.peak b) then
    Deviation.largest a b / max (Scalar.peak a) (Scalar.peak b) else 0

theorem largest_le_two_mul_peak (a b : List Rat) :
    Deviation.largest a b ≤ 2 * max (Scalar.peak a) (Scalar.peak b) := by
  have hle := Deviation.largest_le_add_peak a b
  have ha := le_max_left (Scalar.peak a) (Scalar.peak b)
  have hb := le_max_right (Scalar.peak a) (Scalar.peak b)
  linarith

theorem relative_nonneg (a b : List Rat) : 0 ≤ relative a b := by
  unfold relative
  split
  · rename_i hpos
    exact div_nonneg (Deviation.largest_nonneg a b) hpos.le
  · exact le_rfl

theorem relative_le_two (a b : List Rat) : relative a b ≤ 2 := by
  unfold relative
  split
  · rename_i hpos
    rw [div_le_iff₀ hpos]
    exact largest_le_two_mul_peak a b
  · exact zero_le_two

theorem relative_eq_zero_iff (hl : a.length = b.length) : relative a b = 0 ↔ a = b := by
  rw [← Deviation.largest_eq_zero_iff hl]
  unfold relative
  split
  · rename_i hpos
    rw [div_eq_zero_iff, or_iff_left hpos.ne']
  · -- both outputs are zero throughout, so there is no error
    rename_i hzero
    have hle := largest_le_two_mul_peak a b
    have h0 := Deviation.largest_nonneg a b
    exact iff_of_true rfl (by linarith)

theorem ofLists_eq (hl : a.length = b.length) (hn : a ≠ []) :
    ofLists t a b = ⟨true, (Deviation.value (Deviation.largest a b)).isBelow t,
      .value (Deviation.largest a b), .value (relative a b),
      gradeOf ((Deviation.value (Deviation.largest a b)).isBelow t)
        (.value (Deviation.largest a b))⟩ := by
  rw [ofLists, if_neg (not_not.2 hl), if_neg hn, ofSameLength, Deviation.between_eq hl,
    Scalar.larger_eq_max]
  rfl

/-- The order of the two outputs does not matter. -/
theorem ofLists_comm (t : Rat) (a b : List Rat) : ofLists t a b = ofLists t b a := by
  by_cases hl : a.length = b.length
  · by_cases hn : a = []
    · have hb : b = [] := by
        rw [hn] at hl
        exact List.length_eq_zero_iff.1 hl.symm
      rw [hn, hb]
    · have hb : b ≠ [] := by
        rintro rfl
        exact hn (List.length_eq_zero_iff.1 hl)
      rw [ofLists_eq hl hn, ofLists_eq hl.symm hb, Deviation.largest_comm b a, relative, relative,
        Deviation.largest_comm b a, max_comm]
  · rw [ofLists, ofLists, if_pos hl, if_pos (Ne.symm hl)]

/-- The errors of a comparison of two equally long outputs: a distance between them, and its
proportion to the larger peak. -/
structure Measures (r : Comparison Rat) (a b : List Rat) (e q : Rat) : Prop where
  maxError : r.maxError = .value e
  relativeError : r.relativeError = .value q
  nonneg : 0 ≤ e
  eq_zero_iff : e = 0 ↔ a = b
  relative_nonneg : 0 ≤ q
  relative_le_two : q ≤ 2
  relative_eq_zero_iff : q = 0 ↔ a = b

theorem measures_ofLists (t : Rat) (hl : a.length = b.length) (hn : a ≠ []) :
    (ofLists t a b).Measures a b (Deviation.largest a b) (relative a b) := by
  rw [ofLists_eq hl hn]
  exact ⟨rfl, rfl, Deviation.largest_nonneg a b, Deviation.largest_eq_zero_iff hl,
    relative_nonneg a b, relative_le_two a b, relative_eq_zero_iff hl⟩

/-! ## The grade -/

/-- The grade is perfect exactly for a match, and a match is an error below the tolerance. -/
structure Graded (r : Comparison Rat) (t : Rat) : Prop where
  perfect_iff : r.grade = .perfect ↔ r.valuesMatch = true
  valuesMatch_iff : r.valuesMatch = true ↔ ∃ e, r.maxError = .value e ∧ e < t

theorem gradeOf_eq_perfect_iff (isMatch : Bool) (error : Deviation Rat) :
    gradeOf isMatch error = .perfect ↔ isMatch = true := by
  unfold gradeOf
  cases isMatch
  · simp only [Bool.false_eq_true, if_false, iff_false]
    split_ifs <;> exact (nomatch ·)
  · exact iff_of_true rfl rfl

/-- Outputs without a common sample. -/
theorem ofLists_eq_incomparable (h : a.length ≠ b.length ∨ a = [] ∧ b = []) :
    ∃ lengthMatch, ofLists t a b = incomparable lengthMatch := by
  rcases h with hl | ⟨rfl, rfl⟩
  · exact ⟨false, if_pos hl⟩
  · exact ⟨true, rfl⟩

theorem graded_ofLists (t : Rat) (a b : List Rat) : (ofLists t a b).Graded t := by
  by_cases h : a.length ≠ b.length ∨ a = [] ∧ b = []
  · obtain ⟨lengthMatch, hr⟩ := ofLists_eq_incomparable (t := t) h
    rw [hr]
    refine ⟨gradeOf_eq_perfect_iff false .unbounded, iff_of_false Bool.false_ne_true ?_⟩
    rintro ⟨e, he, -⟩
    cases he
  · rw [not_or, not_not, not_and] at h
    have hn : a ≠ [] := by
      rintro rfl
      exact h.2 rfl (List.length_eq_zero_iff.1 h.1.symm)
    rw [ofLists_eq h.1 hn]
    refine ⟨gradeOf_eq_perfect_iff _ _, ?_⟩
    simp [Deviation.isBelow]

/-- A comparison does not depend on the order of the outputs. For outputs of one length that are not
empty the largest error is a distance, and the relative one lies between 0, for equal outputs only,
and 2. Otherwise both have no bound and the grade is an error. A perfect match is an error below the
tolerance. -/
theorem ofShaped_distance (tolerances : Tolerances Rat) (a b c : List Rat) :
    let compare (a b : List Rat) := ofShaped tolerances.compliance (.ofList a) (.ofList b)
    compare a b = compare b a ∧
    (a.length = b.length → a ≠ [] → ∃ e q, (compare a b).Measures a b e q ∧
      (b.length = c.length → ∃ e₁ e₂, (compare a c).maxError = .value e₁ ∧
        (compare b c).maxError = .value e₂ ∧ e₁ ≤ e + e₂)) ∧
    (a.length ≠ b.length ∨ a = [] ∧ b = [] →
      (compare a b).maxError = .unbounded ∧ (compare a b).relativeError = .unbounded ∧
        ∀ write, ((compare a b).grade.phrase write).startsWith "ERROR" = true) ∧
    (∀ write, (compare a b).grade.phrase write = "PERFECT MATCH" ↔
      (compare a b).valuesMatch = true) ∧
    ((compare a b).valuesMatch = true ↔
      ∃ e, (compare a b).maxError = .value e ∧ e < tolerances.compliance) := by
  simp only [ofShaped_ofList]
  have hgraded := graded_ofLists tolerances.compliance a b
  refine ⟨ofLists_comm _ a b, fun hl hn => ?_, fun h => ?_, fun write => ?_,
    hgraded.valuesMatch_iff⟩
  · refine ⟨_, _, measures_ofLists _ hl hn, fun hc => ?_⟩
    have hb : b ≠ [] := by
      rintro rfl
      exact hn (List.length_eq_zero_iff.1 hl)
    exact ⟨_, _, (measures_ofLists _ (hl.trans hc) hn).maxError,
      (measures_ofLists _ hc hb).maxError, Deviation.largest_triangle hl⟩
  · obtain ⟨lengthMatch, hr⟩ := ofLists_eq_incomparable (t := tolerances.compliance) h
    rw [hr]
    exact ⟨rfl, rfl, fun write => Grade.startsWith_phrase_error write .unbounded⟩
  · rw [Grade.phrase_eq_iff]
    exact hgraded.perfect_iff

/-- An output and its negation, of which the largest error is twice the peak. -/
theorem ofShaped_distance_opposite :
    let tolerances : Tolerances Rat := ⟨.standard, ToleranceSettings.firstNegative?_standard⟩
    let r := ofShaped tolerances.compliance (.ofList [1, -2]) (.ofList [-1, 2])
    r.Measures [1, -2] [-1, 2] 4 2 ∧
      r = ofShaped tolerances.compliance (.ofList [-1, 2]) (.ofList [1, -2]) ∧
      ¬ r.valuesMatch = true := by
  intro tolerances r
  obtain ⟨hcomm, hmeasures, -, -, hmatch⟩ := ofShaped_distance tolerances [1, -2] [-1, 2] []
  obtain ⟨e, q, h, -⟩ := hmeasures rfl (List.cons_ne_nil _ _)
  have herrors : (r.maxError, r.relativeError) = (.value 4, .value 2) := by decide +kernel
  obtain ⟨he, hq⟩ := Prod.mk.inj herrors
  obtain rfl := Deviation.value.inj (h.maxError.symm.trans he)
  obtain rfl := Deviation.value.inj (h.relativeError.symm.trans hq)
  refine ⟨h, hcomm, fun hvalues => ?_⟩
  obtain ⟨e, he', hlt⟩ := hmatch.1 hvalues
  obtain rfl := Deviation.value.inj (he.symm.trans he')
  exact absurd hlt (by decide +kernel)

end Comparison

end SteppedConvolution
