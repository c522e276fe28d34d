import Mathlib.Algebra.BigOperators.NatAntidiagonal
import SteppedConvolution.Proofs.Scalar.Exact

/-! # Exchanged arguments

An exact convolution does not depend on the order of its arguments, and the convolution with a
single sample is a multiple of the other argument.
-/

namespace SteppedConvolution.Convolution

open Finset

theorem valueAt_comm (x h : List Rat) (i : Nat) : valueAt x h i = valueAt h x i := by
  have hpairs (x h : List Rat) :
      valueAt x h i = ∑ p ∈ antidiagonal i, x.getD p.1 0 * h.getD p.2 0 :=
    (Nat.sum_antidiagonal_eq_sum_range_succ (fun j k => x.getD j 0 * h.getD k 0) i).symm
  rw [hpairs x h, hpairs h x, ← Nat.sum_antidiagonal_swap]
  exact sum_congr rfl fun p _ => mul_comm _ _

theorem full_comm (x h : List Rat) : full x h = full h x := by
  refine List.ext_getElem ?_ fun i hi hi' => ?_
  · rw [length_full, length_full, Nat.add_comm]
  · rw [getElem_full, getElem_full, valueAt_comm]

theorem full_singleton (a : Rat) (h : List Rat) : full [a] h = h.map fun v => a * v := by
  refine List.ext_getElem ?_ fun i hi hi' => ?_
  · rw [length_full, List.length_map, List.length_singleton]
    omega
  · have hlt : i < h.length := by simpa using hi'
    rw [getElem_full, valueAt, sum_range_succ', List.getElem_map]
    -- only the first sample of `[a]` is not zero
    simp [List.getD_eq_getElem?_getD, hlt]

end SteppedConvolution.Convolution
