import Mathlib.Algebra.BigOperators.NatAntidiagonal
import SteppedConvolution.Proofs.Session.History
import SteppedConvolution.Proofs.TimeGrid.Spacing

/-! # The convolution on the time axis

The values of a session come from a convolution of lists, which knows no positions; the
output positions come from the ends of the two grids alone. On grids with one common step
both belong together: each output sample is the sum of the products of all samples whose
positions add up to the position of the output sample.
-/

namespace SteppedConvolution

open Finset

namespace Convolution

/-- A sample of the convolution is a sum over the pairs of indices that add up to its own. -/
theorem valueAt_eq_sum_pairs (x h : List Rat) (i : Nat) :
    valueAt x h i = ∑ p ∈ range x.length ×ˢ range h.length with p.1 + p.2 = i,
      x.getD p.1 0 * h.getD p.2 0 := by
  rw [valueAt, ← Nat.sum_antidiagonal_eq_sum_range_succ fun j k => x.getD j 0 * h.getD k 0]
  symm
  apply sum_subset
  · intro p hp
    exact mem_antidiagonal.2 (mem_filter.1 hp).2
  · intro p hp hn
    -- a pair that is left out has an index beyond one of the lists
    have hsum := mem_antidiagonal.1 hp
    simp only [mem_filter, mem_product, mem_range, not_and] at hn
    by_cases hx : p.1 < x.length
    · have hh : h.length ≤ p.2 := Nat.le_of_not_lt fun hh => hn ⟨hx, hh⟩ hsum
      rw [List.getD_eq_default _ _ hh, mul_zero]
    · rw [List.getD_eq_default _ _ (Nat.le_of_not_lt hx), zero_mul]

/-- The sum of the products of all samples of two signals whose positions add up to `t`. -/
def atPosition (x nx h nh : List Rat) (t : Rat) : Rat :=
  ∑ p ∈ range x.length ×ˢ range h.length with nx.getD p.1 0 + nh.getD p.2 0 = t,
    x.getD p.1 0 * h.getD p.2 0

end Convolution

namespace TimeGrid

variable {g k : TimeGrid Rat} {d : Rat}

/-- Positions of two grids with a common step add up to an output position where their indices
add up to its index. -/
theorem Spaced.add_eq_iff (hg : g.Spaced d) (hk : k.Spaced d) {i j n : Nat} (hi : i < g.size)
    (hj : j < k.size) (hn : n < g.size + k.size - 1) :
    g.values.getD i 0 + k.values.getD j 0 = g.start + k.start + n * d ↔ i + j = n := by
  rw [hg.getD hi, hk.getD hj]
  by_cases hs : 1 < g.size ∨ 1 < k.size
  · have hd : d ≠ 0 := (hs.elim hg.pos hk.pos).ne'
    constructor
    · intro h
      have hm : ((i + j : Nat) : Rat) * d = n * d := by
        push_cast
        linarith
      exact_mod_cast mul_right_cancel₀ hd hm
    · rintro rfl
      push_cast
      ring
  · -- single positions have one sum, whatever `d` is
    obtain rfl : i = 0 := by omega
    obtain rfl : j = 0 := by omega
    obtain rfl : n = 0 := by omega
    simp

end TimeGrid

namespace Session

/-- The output positions and the reference of a session are the convolution of its signals on the
time axis, where both grids are in steps of `d`. -/
structure OnTimeAxis (s : Session Rat) (nx : TimeGrid Rat) (d : Rat) : Prop where
  size_x : nx.size = s.x.length
  size_h : s.nh.size = s.h.length
  size_output : s.outputGrid.size = s.length
  position : ∀ i : Nat, i < s.length →
    s.outputGrid.values[i]? = some (nx.start + s.nh.start + i * d)
  single : s.length = 1 → s.outputGrid.values = [nx.start + s.nh.start]
  covers : ∀ p ∈ nx.values, ∀ q ∈ s.nh.values, p + q ∈ s.outputGrid.values
  sample : ∀ (i : Nat) (t : Rat), s.outputGrid.values[i]? = some t →
    s.reference[i]? = some (Convolution.atPosition s.x nx.values s.h s.nh.values t)

variable {tolerances : Tolerances Rat} {nx : TimeGrid Rat} {s : Session Rat} {d : Rat}

theorem Built.length_eq_sizes (hs : s.Built tolerances nx) :
    s.length = nx.size + s.nh.size - 1 := by
  rw [hs.length_eq, hs.size_nx, hs.size_nh]

theorem Built.atPosition (hs : s.Built tolerances nx) (hx : nx.Spaced d) (hh : s.nh.Spaced d)
    {i : Nat} (hi : i < s.length) :
    Convolution.atPosition s.x nx.values s.h s.nh.values (nx.start + s.nh.start + i * d) =
      Convolution.valueAt s.x s.h i := by
  rw [Convolution.valueAt_eq_sum_pairs, Convolution.atPosition]
  congr 1
  apply filter_congr
  intro p hp
  rw [mem_product, mem_range, mem_range, ← hs.size_nx, ← hs.size_nh] at hp
  exact hx.add_eq_iff hh hp.1 hp.2 (hs.length_eq_sizes ▸ hi)

theorem Built.add_mem_outputGrid (hs : s.Built tolerances nx) (hx : nx.Spaced d)
    (hh : s.nh.Spaced d) {p q : Rat} (hp : p ∈ nx.values) (hq : q ∈ s.nh.values) :
    p + q ∈ s.outputGrid.values := by
  obtain ⟨j, hj, rfl⟩ := List.mem_iff_getElem.1 hp
  obtain ⟨k, hk, rfl⟩ := List.mem_iff_getElem.1 hq
  have hi : j + k < s.length := by
    rw [hs.length_eq_sizes]
    change j < nx.size at hj
    change k < s.nh.size at hk
    omega
  have hsum : nx.values[j] + s.nh.values[k] = nx.start + s.nh.start + (j + k : Nat) * d := by
    rw [hx.getElem hj, hh.getElem hk]
    push_cast
    ring
  rw [hsum]
  exact List.mem_of_getElem? (hs.getElem?_outputGrid hx hh hi)

theorem Built.onTimeAxis (hs : s.Built tolerances nx) (hx : nx.Spaced d) (hh : s.nh.Spaced d) :
    s.OnTimeAxis nx d where
  size_x := hs.size_nx
  size_h := hs.size_nh
  size_output := hs.size_outputGrid
  position := fun _ hi => hs.getElem?_outputGrid hx hh hi
  single := by
    intro h1
    rw [hs.outputGrid_eq, Support.positions, if_pos h1]
  covers := fun _ hp _ hq => hs.add_mem_outputGrid hx hh hp hq
  sample := by
    intro i t ht
    have hi : i < s.length := by
      rw [← hs.size_outputGrid]
      exact (List.getElem?_eq_some_iff.1 ht).1
    rw [hs.getElem?_outputGrid hx hh hi] at ht
    obtain rfl := Option.some.inj ht
    rw [hs.atPosition hx hh hi, hs.reference_eq]
    have hf : i < (Convolution.full s.x s.h).length := hs.reference_eq ▸ hi
    rw [List.getElem?_eq_getElem hf, Convolution.getElem_full]

end Session

/-- Where both grids of a session have the same step, its output positions run in that step from
the sum of the starts, take in every sum of two positions, and carry the sums of the products
of all samples whose positions add up to them. -/
theorem Engine.output_onTimeAxis {e : Engine Rat} (he : e.Reachable) {s : Session Rat}
    (hs : e.session = some s) {nx : TimeGrid Rat} (hnx : s.nx = .checked nx) {d : Rat}
    (hx : nx.Spaced d) (hh : s.nh.Spaced d) : s.OnTimeAxis nx d := by
  obtain ⟨nx', hb⟩ := he.built hs
  cases Axis.checked.inj (hb.nx_eq.symm.trans hnx)
  exact hb.onTimeAxis hx hh

/-- Two signals on grids that are longer than they are, in steps of a half, with starts that lie
a third apart. -/
theorem Engine.output_onTimeAxis_halves :
    let e := (Engine.idle
      (⟨.standard, ToleranceSettings.firstNegative?_standard⟩ : Tolerances Rat)).after
      [.start (.samples (.ofList [1, 2])) (.samples (.ofList [1, 0, 3]))
        (some (.positions (.ofList [0, 1 / 2, 1])))
        (some (.positions (.ofList [1 / 3, 5 / 6, 4 / 3, 11 / 6]))), .step]
    ∃ s nx, e.session = some s ∧ s.nx = .checked nx ∧ nx.Spaced (1 / 2) ∧
      s.nh.Spaced (1 / 2) ∧ s.OnTimeAxis nx (1 / 2) := by
  intro e
  have he : e.Reachable := ⟨_, _, rfl⟩
  have hview : e.session.map (fun s => (s.nx.positions, s.nh.values)) =
      some ([0, 1 / 2], [1 / 3, 5 / 6, 4 / 3]) := by decide +kernel
  obtain ⟨s, hs, hview⟩ := Option.map_eq_some_iff.1 hview
  obtain ⟨nx, hb⟩ := he.built hs
  rw [hb.nx_eq] at hview
  obtain ⟨hx, hh⟩ := Prod.mk.inj hview
  change nx.values = [0, 1 / 2] at hx
  have hsx : nx.Spaced (1 / 2) := by
    rw [TimeGrid.Spaced, Positions.IsSpaced, hx]
    decide +kernel
  have hsh : s.nh.Spaced (1 / 2) := by
    rw [TimeGrid.Spaced, Positions.IsSpaced, hh]
    decide +kernel
  exact ⟨s, nx, hs, hb.nx_eq, hsx, hsh, Engine.output_onTimeAxis he hs hb.nx_eq hsx hsh⟩

end SteppedConvolution
