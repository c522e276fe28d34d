import SteppedConvolution.Deviation
import SteppedConvolution.Proofs.Scalar.Exact

/-! # Errors and tolerances

When an exact error is below a tolerance: the two lists have the same length, and no two
entries at one place are as far apart as the tolerance.
-/

namespace SteppedConvolution

variable {t : Rat}

namespace Scalar

theorem joinPeak_eq_max (a b : Rat) : joinPeak a b = max a b := larger_eq_max a b

theorem peak_lt_iff {xs : List Rat} : peak xs < t ↔ 0 < t ∧ ∀ a ∈ xs, |a| < t := by
  have hfold (xs : List Rat) (m : Rat) :
      xs.foldl joinPeak m < t ↔ m < t ∧ ∀ a ∈ xs, a < t := by
    induction xs generalizing m with
    | nil => simp
    | cons a xs ih =>
      rw [List.foldl_cons, ih, joinPeak_eq_max, max_lt_iff, List.forall_mem_cons, and_assoc]
  rw [peak, hfold, List.forall_mem_map]
  simp only [magnitude_eq_abs]

end Scalar

namespace Deviation

/-- An error is below a tolerance when the errors at all places are. -/
theorem isBelow_between_iff (ht : 0 < t) {a b : List Rat} :
    (between a b).isBelow t = true ↔ List.Forall₂ (fun u v => |u - v| < t) a b := by
  unfold between
  by_cases hl : a.length = b.length
  · rw [if_neg (not_not.2 hl), isBelow, decide_eq_true_iff, Scalar.peak_lt_iff,
      List.forall₂_iff_zip, and_iff_right ht, and_iff_right hl, ← List.map_uncurry_zip_eq_zipWith,
      List.forall_mem_map]
    exact ⟨fun h u v huv => h (u, v) huv, fun h p hp => h hp⟩
  · rw [if_pos hl]
    exact ⟨fun h => (nomatch h), fun h => absurd h.length_eq hl⟩

/-- A list has no error against itself. -/
theorem isBelow_between_self (ht : 0 < t) (a : List Rat) : (between a a).isBelow t = true := by
  rw [isBelow_between_iff ht, List.forall₂_same]
  intro u _
  rwa [sub_self, abs_zero]

end Deviation

theorem isUnitImpulse_iff {x : List Rat} :
    isUnitImpulse t x = true ↔ ∃ a, x = [a] ∧ |a - 1| < t := by
  rcases x with _ | ⟨a, _ | ⟨b, bs⟩⟩
  · simp [isUnitImpulse]
  · simp [isUnitImpulse, Scalar.magnitude_eq_abs]
  · simp [isUnitImpulse]

end SteppedConvolution
