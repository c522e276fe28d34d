import Mathlib.Algebra.BigOperators.Group.Finset.Basic
import Mathlib.Algebra.BigOperators.Intervals
import Mathlib.Algebra.Order.Field.Rat
import Mathlib.Data.List.GetD
import Mathlib.Tactic.Linarith
import Mathlib.Tactic.NormNum
import Mathlib.Tactic.Ring
import SteppedConvolution.Proofs.Convolution.Addends
import SteppedConvolution.Scalar.Rational
import SteppedConvolution.Tolerances

/-! # Exact arithmetic

Over the rationals the operations on scalars are those of the ordered field, and a
convolution is a sum of products.
-/

namespace SteppedConvolution

open Finset

namespace Scalar

theorem magnitude_eq_abs (a : Rat) : magnitude a = |a| := by
  change (if a < 0 then -a else a) = |a|
  split
  · rename_i h
    exact (abs_of_neg h).symm
  · rename_i h
    exact (abs_of_nonneg (not_lt.1 h)).symm

theorem smaller_eq_min (a b : Rat) : smaller a b = min a b := by
  unfold smaller
  split
  · rename_i h
    exact (min_eq_right h.le).symm
  · rename_i h
    exact (min_eq_left (not_lt.1 h)).symm

theorem larger_eq_max (a b : Rat) : larger a b = max a b := by
  unfold larger
  split
  · rename_i h
    exact (max_eq_right h.le).symm
  · rename_i h
    exact (max_eq_left (not_lt.1 h)).symm

theorem half_eq (a : Rat) : half a = a / 2 := by
  change a / ((2 : Nat) : Rat) = a / 2
  norm_num

/-- The order of exact additions does not matter. -/
theorem sum_eq {xs : List Rat} {a : Rat} (h : IsSum xs a) : xs.sum = a := by
  induction h with
  | nil => rfl
  | singleton a => exact List.sum_singleton
  | append _ _ iha ihb => rw [List.sum_append, iha, ihb]
  | perm hp _ ih => rw [← hp.sum_eq, ih]

theorem isFinite_rat (a : Rat) : isFinite a = true := rfl

theorem ofDecimal_nonneg (m : Nat) (e : Int) : 0 ≤ (ofDecimal m e : Rat) := by
  change 0 ≤ Rational.ofDecimal m e
  unfold Rational.ofDecimal
  split
  · exact Nat.cast_nonneg _
  · exact div_nonneg (Nat.cast_nonneg m) (Nat.cast_nonneg _)

end Scalar

/-- No standard tolerance is negative. -/
theorem ToleranceSettings.firstNegative?_standard :
    (standard : ToleranceSettings Rat).firstNegative? = none := by
  refine List.find?_eq_none.2 fun name _ => ?_
  cases name <;> simp [get, standard, Scalar.ofDecimal_nonneg]

theorem Samples.clampNonFinite_rat (xs : List Rat) : (Samples.clampNonFinite xs).1 = xs := by
  simp [Samples.clampNonFinite, Scalar.isFinite_rat]

theorem Samples.defect?_eq_none_rat_iff {xs : List Rat} : defect? xs = none ↔ xs ≠ [] := by
  rw [defect?_eq_none_iff]
  exact and_iff_left ⟨fun _ _ => rfl, fun a _ => Scalar.isFinite_rat a⟩

theorem roundQuotient_int (z : Int) : roundQuotient ((z : Rat).num) ((z : Rat).den) = z := by
  simp [roundQuotient]

theorem nearest_int (z : Int) : Scalar.nearest (z : Rat) = .exactly z := by
  change Whole.exactly (roundQuotient ((z : Rat).num) ((z : Rat).den)) = .exactly z
  rw [roundQuotient_int]

namespace Convolution

/-- Sample `i` of the convolution of two lists that are zero beyond their ends. -/
def valueAt (x h : List Rat) (i : Nat) : Rat := ∑ j ∈ range (i + 1), x.getD j 0 * h.getD (i - j) 0

theorem sum_filterMap {α : Type} (f : α → Option Rat) (xs : List α) :
    (xs.filterMap f).sum = (xs.map fun a => (f a).getD 0).sum := by
  induction xs with
  | nil => rfl
  | cons a xs ih => cases h : f a <;> simp [h, ih]

/-- A missing factor counts as zero. -/
theorem sum_addends (x h : List Rat) (i : Nat) : (addends x h i).sum = valueAt x h i := by
  have hterm (j : Nat) : (x[j]?.bind fun a => h[i - j]?.map fun b => a * b).getD 0 =
      x.getD j 0 * h.getD (i - j) 0 := by
    rw [List.getD_eq_getElem?_getD, List.getD_eq_getElem?_getD]
    cases x[j]? with
    | none => simp
    | some a => cases h[i - j]? <;> simp
  rw [addends, sum_filterMap]
  exact congrArg List.sum (List.map_congr_left fun j _ => hterm j)

/-- Each sample of a full convolution is a sum of products. -/
theorem getElem_full (x h : List Rat) {i : Nat} (hi : i < (full x h).length) :
    (full x h)[i] = valueAt x h i := by
  rw [← Scalar.sum_eq (isSum_full x h hi), sum_addends]

end Convolution

end SteppedConvolution
