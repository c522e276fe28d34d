import Mathlib.Data.List.Basic
import SteppedConvolution.Convolution.Sum

/-! # Sums of products

Whatever the order in which products are added up, each sample of a convolution is the sum of the
products of all samples whose places add up to its own.
-/

namespace SteppedConvolution.Convolution

variable {K : Type} [Scalar K]

/-- The products `x[j] * h[i - j]` for which both factors exist. -/
def addends (x h : List K) (i : Nat) : List K :=
  (List.range (i + 1)).filterMap fun j => x[j]?.bind fun a => h[i - j]?.map fun b => a * b

/-- Places without an entry do not count. -/
theorem filterMap_range_add {α : Type} {f : Nat → Option α} {m : Nat} (k : Nat)
    (hf : ∀ j, m ≤ j → f j = none) :
    (List.range (m + k)).filterMap f = (List.range m).filterMap f := by
  have htail : ((List.range k).map (m + ·)).filterMap f = [] := by
    rw [List.filterMap_eq_nil_iff]
    intro j hj
    obtain ⟨n, -, rfl⟩ := List.mem_map.1 hj
    exact hf _ (Nat.le_add_right m n)
  rw [List.range_add, List.filterMap_append, htail, List.append_nil]

theorem product?_eq (x h : List K) {i j : Nat} (hj : j ≤ i) :
    product? x.toArray h.toArray i j = x[j]?.bind fun a => h[i - j]?.map fun b => a * b := by
  rw [product?, if_pos hj, List.getElem?_toArray, List.getElem?_toArray]
  cases x[j]? with
  | none => rfl
  | some a => cases h[i - j]? <;> rfl

/-- The products that a sample is made of. Those beyond `i`, or beyond the end of `x`, are
missing. -/
theorem filterMap_product? (x h : List K) (i : Nat) :
    (List.range x.length).filterMap (product? x.toArray h.toArray i) = addends x h i := by
  have hbeyond (j : Nat) (hj : i + 1 ≤ j) : product? x.toArray h.toArray i j = none :=
    if_neg (by omega)
  have hend (j : Nat) (hj : x.length ≤ j) : product? x.toArray h.toArray i j = none := by
    rw [product?, List.getElem?_toArray, List.getElem?_eq_none hj]
    exact ite_self none
  rw [← filterMap_range_add (i + 1) hend, Nat.add_comm, filterMap_range_add x.length hbeyond]
  refine List.filterMap_congr fun j hj => ?_
  exact product?_eq x h (Nat.le_of_lt_succ (List.mem_range.1 hj))

theorem isSum_sample (x h : List K) (i : Nat) :
    IsSum (addends x h i) (sample x.toArray h.toArray i) := by
  rw [sample, List.size_toArray, filterMap_product?]
  split
  · exact (Scalar.isSum_sum _).perm (List.reverse_perm _)
  · exact Scalar.isSum_sum _

/-- Each sample of a full convolution is the sum of its products. -/
theorem isSum_full (x h : List K) {i : Nat} (hi : i < (full x h).length) :
    IsSum (addends x h i) (full x h)[i] := by
  simp only [full, List.getElem_map, List.getElem_range]
  exact isSum_sample x h i

end SteppedConvolution.Convolution
