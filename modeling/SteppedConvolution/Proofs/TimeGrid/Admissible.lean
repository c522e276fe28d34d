import Mathlib.Tactic.SplitIfs
import SteppedConvolution.TimeGrid.Basic

/-! # What the checks on a grid say

Positions without a defect are finite and increase, and from the third one on the steps
between them are close to the first step.
-/

namespace SteppedConvolution

variable {K : Type} [Scalar K]

namespace Positions

variable {atol : K} {vs : List K}

theorem defect?_eq_none (h : defect? atol vs = none) :
    vs.all Scalar.isFinite = true ∧ hasDescent vs = false ∧ isUniform atol vs = true := by
  unfold defect? at h
  split_ifs at h with hn hf hd hu
  simp only [Bool.not_eq_true', Bool.not_eq_false] at hf hu
  exact ⟨hf, Bool.eq_false_iff.2 hd, hu⟩

theorem getElem_mem_steps {k : Nat} (hk : k + 1 < vs.length) : vs[k + 1] - vs[k] ∈ steps vs := by
  have hlt : k < (steps vs).length := by
    simp only [steps, List.length_zipWith, List.length_tail]
    omega
  have hget : (steps vs)[k] = vs[k + 1] - vs[k] := by simp [steps]
  exact hget ▸ List.getElem_mem hlt

/-- Admissible positions increase. -/
theorem not_step_le_zero (h : defect? atol vs = none) {k : Nat} (hk : k + 1 < vs.length) :
    ¬ vs[k + 1] - vs[k] ≤ 0 := by
  have := List.any_eq_false.1 (defect?_eq_none h).2.1 _ (getElem_mem_steps hk)
  simpa using this

/-- The steps of admissible positions are close to the first one. -/
theorem step_sub_le (h : defect? atol vs = none) (hlength : 2 < vs.length) {k : Nat}
    (hk : k + 1 < vs.length) :
    Scalar.magnitude (vs[k + 1] - vs[k] - (vs[1] - vs[0])) ≤ atol := by
  match vs, hlength with
  | a :: b :: c :: ws, _ =>
    have hall : (steps (a :: b :: c :: ws)).all
        (fun d => decide (Scalar.magnitude (d - (b - a)) ≤ atol)) = true := (defect?_eq_none h).2.2
    have := List.all_eq_true.1 hall _ (getElem_mem_steps hk)
    simpa using this

end Positions

namespace TimeGrid

/-- A grid is known by its positions. -/
theorem eq_of_values {g g' : TimeGrid K} (h : g.values = g'.values) : g = g' := by
  cases g
  cases g'
  cases h
  rfl

theorem size_pos (g : TimeGrid K) : 0 < g.size := List.length_pos_iff.2 g.values_ne_nil

theorem defect?_of_ofValues {atol : K} {vs : List K} {g : TimeGrid K}
    (h : ofValues atol vs = .ok g) : Positions.defect? atol g.values = none := by
  unfold ofValues at h
  split at h
  · rename_i hd
    cases h
    exact hd
  · cases h

theorem defect?_of_ofValues_error {atol : K} {vs : List K} {d : GridDefect}
    (h : ofValues atol vs = .error d) : Positions.defect? atol vs = some d := by
  unfold ofValues at h
  split at h
  · cases h
  · rename_i hd
    cases h
    exact hd

theorem ofValues_eq_ok {atol : K} {vs : List K} (h : Positions.defect? atol vs = none) :
    ofValues atol vs = .ok ⟨vs, atol, h⟩ := by
  unfold ofValues
  split
  · rfl
  · rename_i hd
    rw [h] at hd
    cases hd

theorem ofValues_values {atol : K} {g : TimeGrid K} (h : Positions.defect? atol g.values = none) :
    ofValues atol g.values = .ok g := ofValues_eq_ok h

theorem isFinite_of_mem (g : TimeGrid K) {p : K} (hp : p ∈ g.values) :
    Scalar.isFinite p = true := by
  obtain ⟨atol, h⟩ := g.admissible
  exact List.all_eq_true.1 (Positions.defect?_eq_none h).1 p hp

end TimeGrid

end SteppedConvolution
