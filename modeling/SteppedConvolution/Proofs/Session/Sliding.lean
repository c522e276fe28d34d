import SteppedConvolution.Proofs.Canvas.Alignment
import SteppedConvolution.Proofs.Session.History

/-! # Sliding one signal along the other

On aligned grids the step to an output index shows the other signal flipped and moved to
the output position, and the products along the shared grid add up to the convolution of
the two signals without their small samples.
-/

namespace SteppedConvolution

open Finset

namespace Convolution

/-- The product of two entries whose indices add up to `i`. -/
def productAt (x h : List Rat) (i : Nat) (z : Int) : Rat :=
  Canvas.entryAt x z * Canvas.entryAt h (i - z)

theorem productAt_of_neg {x h : List Rat} {i : Nat} {z : Int} (hz : z < 0) :
    productAt x h i z = 0 := by
  rw [productAt, Canvas.entryAt_of_neg hz, zero_mul]

theorem productAt_of_length_le {x h : List Rat} {i : Nat} {z : Int} (hz : (x.length : Int) ≤ z) :
    productAt x h i z = 0 := by
  rw [productAt, Canvas.entryAt_of_length_le hz, zero_mul]

theorem productAt_of_lt {x h : List Rat} {i : Nat} {z : Int} (hz : (i : Int) < z) :
    productAt x h i z = 0 := by
  have hneg : (i : Int) - z < 0 := by omega
  rw [productAt, Canvas.entryAt_of_neg hneg, mul_zero]

theorem valueAt_eq_sum_productAt (x h : List Rat) (i : Nat) :
    valueAt x h i = ∑ j ∈ range (i + 1), productAt x h i j := by
  apply sum_congr rfl
  intro j hj
  have hji : j ≤ i := Nat.le_of_lt_succ (mem_range.1 hj)
  rw [productAt, ← Int.ofNat_sub hji, Canvas.entryAt_natCast, Canvas.entryAt_natCast]

/-- A window that holds the first signal sees all products that are not zero. -/
theorem sum_window (x h : List Rat) (i : Nat) {a size : Nat} (hroom : a + x.length ≤ size) :
    ∑ k ∈ range size, productAt x h i ((k : Int) - a) = valueAt x h i := by
  -- the window holds `m` entries from the start of `x` on: where it ends before index `i`, so does
  -- `x`, and its entries beyond `i` meet `h` in front of its start
  obtain ⟨m, rfl⟩ := Nat.exists_eq_add_of_le (Nat.le_of_add_right_le hroom)
  have hbefore : ∑ k ∈ range a, productAt x h i ((k : Int) - a) = 0 := by
    apply sum_eq_zero
    intro k hk
    have := mem_range.1 hk
    exact productAt_of_neg (by omega)
  have hshift (j : Nat) : (((a + j : Nat) : Int) - a) = j := by omega
  rw [sum_range_add, hbefore, zero_add, valueAt_eq_sum_productAt]
  simp only [hshift]
  by_cases hm : m ≤ i + 1
  · apply sum_subset (range_mono hm)
    intro j _ hj
    rw [mem_range] at hj
    exact productAt_of_length_le (by omega)
  · symm
    apply sum_subset (range_mono (by omega))
    intro j _ hj
    rw [mem_range] at hj
    exact productAt_of_lt (by omega)

end Convolution

namespace Canvas

/-- The second signal flipped and moved by `i`, at the first `n` indices of a grid on which the
first signal starts at index `a`. -/
def slid (h : List Rat) (a i n : Nat) : List Rat :=
  (List.range n).map fun k : Nat => entryAt h ((i : Int) - ((k : Int) - a))

variable {nx nh g : TimeGrid Rat} {c : Canvas Rat} {x h : List Rat} {d : Rat} {a b : Nat}

/-- The distance from a position of the grid to an output position, from the start of `h` on. -/
theorem Seated.distance (hg : Seated nx nh g d a b) (i : Nat) {k : Nat}
    (hk : k < g.values.length) :
    nx.start + nh.start + i * d - g.values[k] =
      nh.start + (((i : Int) - ((k : Int) - a) : Int) : Rat) * d := by
  rw [hg.spaced.getElem hk, hg.start_x]
  push_cast
  ring

theorem getElem?_slid (h : List Rat) (a i : Nat) {n k : Nat} (hk : k < n) :
    (slid h a i n)[k]? = some (entryAt h ((i : Int) - ((k : Int) - a))) := by
  simp [slid, hk]

/-- Where `h` has a position at the distance to the output position, its sample there is seen. -/
theorem Seated.slid_hit (hg : Seated nx nh g d a b) (hd : 0 < d) (hs : nh.Spaced d)
    (hl : nh.size = h.length) {i k j : Nat} {p : Rat} (hp : g.values[k]? = some p)
    (hj : nh.values[j]? = some (nx.start + nh.start + i * d - p)) :
    (slid h a i g.size)[k]? = h[j]? := by
  obtain ⟨hk, rfl⟩ := List.getElem?_eq_some_iff.1 hp
  obtain ⟨hjl, hj⟩ := List.getElem?_eq_some_iff.1 hj
  rw [hs.getElem hjl, hg.distance i hk, add_right_inj] at hj
  have hz : (i : Int) - ((k : Int) - a) = j := by
    have := mul_right_cancel₀ hd.ne' hj
    exact_mod_cast this.symm
  have hjh : j < h.length := hl ▸ hjl
  rw [getElem?_slid h a i (n := g.size) hk, hz, entryAt_natCast, List.getD_eq_getElem _ _ hjh,
    List.getElem?_eq_getElem hjh]

/-- Elsewhere nothing is seen. -/
theorem Seated.slid_miss (hg : Seated nx nh g d a b) (hs : nh.Spaced d)
    (hl : nh.size = h.length) {i k : Nat} {p : Rat} (hp : g.values[k]? = some p)
    (hj : nx.start + nh.start + i * d - p ∉ nh.values) : (slid h a i g.size)[k]? = some 0 := by
  obtain ⟨hk, rfl⟩ := List.getElem?_eq_some_iff.1 hp
  rw [getElem?_slid h a i (n := g.size) hk]
  rw [hg.distance i hk] at hj
  generalize (i : Int) - ((k : Int) - a) = z at hj ⊢
  by_cases h0 : z < 0
  · rw [entryAt_of_neg h0]
  by_cases hlt : (h.length : Int) ≤ z
  · rw [entryAt_of_length_le hlt]
  obtain ⟨j, rfl⟩ := Int.eq_ofNat_of_zero_le (Int.not_lt.1 h0)
  have hjl : j < nh.values.length := by
    change j < nh.size
    omega
  refine absurd (List.getElem_mem hjl) ?_
  rwa [hs.getElem hjl, ← Int.cast_natCast (R := Rat)]

theorem Exact.sampleAt (hc : c.Exact x h a b) (hg : Seated nx nh c.grid d a b) (i : Nat) :
    sampleAt c.h c.grid (c.grid.values.map fun p => nx.start + nh.start + i * d - p) =
      .ok (slid h a i c.grid.size) := by
  have hpositions : (c.grid.values.map fun p => nx.start + nh.start + i * d - p) =
      (List.range c.grid.size).map fun k : Nat =>
        c.grid.start + (((b : Int) + ((i : Int) - ((k : Int) - a)) : Int) : Rat) * d := by
    apply List.ext_getElem
    · simp [TimeGrid.size]
    · intro k hk _
      rw [List.getElem_map, hg.distance, hg.start_h, List.getElem_map, List.getElem_range]
      push_cast
      ring
  rw [hpositions, sampleAt_exact hg.size hg.spaced hc.length_h _
    fun k : Nat => (b : Int) + ((i : Int) - ((k : Int) - a))]
  simp only [hc.entry_h, add_sub_cancel_left]
  rfl

theorem Exact.products (hc : c.Exact x h a b) (i : Nat) :
    List.zipWith (· * ·) c.x (slid h a i c.grid.size) =
      (List.range c.grid.size).map fun k : Nat => Convolution.productAt x h i ((k : Int) - a) := by
  apply List.ext_getElem
  · simp [slid, hc.length_x]
  · intro k hk _
    have hx : k < c.x.length := by
      rw [List.length_zipWith] at hk
      omega
    have hentry : c.x[k] = entryAt x ((k : Int) - a) := by
      rw [← hc.entry_x, entryAt_natCast, List.getD_eq_getElem _ _ hx]
    rw [List.getElem_zipWith, hentry]
    simp only [slid, List.getElem_map, List.getElem_range]
    rfl

/-- The products add up to a sample of the convolution. -/
theorem Exact.sum_products (hc : c.Exact x h a b) {i : Nat} (hroom : a + x.length ≤ c.grid.size) :
    (List.zipWith (· * ·) c.x (slid h a i c.grid.size)).sum = Convolution.valueAt x h i := by
  rw [hc.products, ← Convolution.sum_window x h i hroom]
  rfl

end Canvas

namespace Session

/-- The grids of the two signals are aligned. -/
def IsAligned (s : Session Rat) : Prop := ∃ nx, s.nx = .checked nx ∧ Canvas.Aligned nx s.nh

/-- What the step to output index `i` shows: the signal `h` at the distance from every position
of the grid to the output position, and products that add up to a convolution. Samples up to a
threshold are left out on both sides. -/
structure Shows (s : Session Rat) (threshold : Rat) (i : Nat) (step : Step Rat) : Prop where
  position : s.outputGrid.values[i]? = some step.position
  sample : s.reference[i]? = some step.sample
  length_shifted : step.shifted.length = s.canvas.grid.size
  length_product : step.product.length = s.canvas.grid.size
  hit : ∀ (k : Nat) (p : Rat) (j : Nat), s.canvas.grid.values[k]? = some p →
    s.nh.values[j]? = some (step.position - p) →
    step.shifted[k]? = (s.h.map (Canvas.suppress threshold))[j]?
  miss : ∀ (k : Nat) (p : Rat), s.canvas.grid.values[k]? = some p →
    step.position - p ∉ s.nh.values → step.shifted[k]? = some 0
  sum_product : step.product.sum = Convolution.valueAt (s.x.map (Canvas.suppress threshold))
    (s.h.map (Canvas.suppress threshold)) i
  sum_eq_sample : (∀ a ∈ s.x ++ s.h, a = 0 ∨ threshold < |a|) → step.product.sum = step.sample

/-- On aligned grids every step can be shown, and it shows the convolution. -/
theorem Built.shows {tolerances : Tolerances Rat} {nx : TimeGrid Rat} {s : Session Rat}
    (hs : s.Built tolerances nx) (ha : Canvas.Aligned nx s.nh) {i : Nat} (hi : i < s.length) :
    ∃ step, (s.stepAt i).outcome = .ok step ∧ s.Shows tolerances.nonzero i step := by
  obtain ⟨a, b, hg, hc⟩ := ha.exact hs.size_nx hs.size_nh hs.canvas_eq
  have hout := hs.getElem?_outputGrid ha.spaced_x ha.spaced_h hi
  have hsum := hc.sum_products (i := i) (by simpa [← hs.size_nx] using hg.room_x)
  have hl : s.nh.size = (s.h.map (Canvas.suppress tolerances.nonzero)).length := by
    rw [List.length_map, hs.size_nh]
  let slid := Canvas.slid (s.h.map (Canvas.suppress tolerances.nonzero)) a i s.canvas.grid.size
  refine ⟨⟨nx.start + s.nh.start + i * Canvas.sharedStep nx s.nh, s.reference[i], slid,
    List.zipWith (· * ·) s.canvas.x slid⟩, ?_, ?_⟩
  · rw [stepAt_eq_ok]
    exact ⟨hout, List.getElem?_eq_getElem hi, hc.sampleAt hg i,
      (Samples.clampNonFinite_rat _).symm⟩
  · refine ⟨hout, List.getElem?_eq_getElem hi, ?_, ?_, ?_, ?_, hsum, ?_⟩
    · simp [slid, Canvas.slid]
    · simp [slid, Canvas.slid, hc.length_x]
    · intro k p j hp hj
      exact hg.slid_hit (Canvas.sharedStep_pos _ _) ha.spaced_h hl hp hj
    · intro k p hp hj
      exact hg.slid_miss ha.spaced_h hl hp hj
    · intro hx
      rw [hsum, Canvas.map_suppress_eq_self fun v hv => hx v (List.mem_append_left _ hv),
        Canvas.map_suppress_eq_self fun v hv => hx v (List.mem_append_right _ hv)]
      simp only [hs.reference_eq]
      exact (Convolution.getElem_full s.x s.h _).symm

end Session

/-- On aligned grids, at any time of any history, the step to an output index shows the signal
`h` at the distances to the output position, and its products add up to the convolution of the
two signals without their small samples. -/
theorem Engine.stepAt_shows {e : Engine Rat} (he : e.Reachable) {s : Session Rat}
    (hs : e.session = some s) (ha : s.IsAligned) {i : Nat} (hi : i < s.length) :
    ∃ step, (e.stepAt (.integer i)).outcome = .ok step ∧ s.Shows e.tolerances.nonzero i step := by
  obtain ⟨nx, hnx, ha⟩ := ha
  obtain ⟨nx', hb⟩ := he.built hs
  cases Axis.checked.inj (hb.nx_eq.symm.trans hnx)
  obtain ⟨step, hstep, hshows⟩ := hb.shows ha hi
  refine ⟨step, ?_, hshows⟩
  rw [stepAt_natCast hs hi]
  exact hstep

/-- Two signals whose grids start one step apart, after one step. -/
theorem Engine.stepAt_shows_offset :
    let e := (Engine.idle (⟨.standard, by decide +kernel⟩ : Tolerances Rat)).after
      [.start (.samples (.ofList [1, 2])) (.samples (.ofList [1, 0, 3]))
        (some (.positions (.ofList [0, 1]))) (some (.positions (.ofList [1, 2, 3]))), .step]
    ∃ s step, e.session = some s ∧ s.IsAligned ∧ 1 < s.length ∧
      (e.stepAt (.integer 1)).outcome = .ok step ∧ s.Shows e.tolerances.nonzero 1 step := by
  intro e
  have he : e.Reachable := ⟨_, _, rfl⟩
  have hview : e.session.map (fun s => (s.nx.positions, s.nh.values, s.length)) =
      some ([0, 1], [1, 2, 3], 4) := by decide +kernel
  obtain ⟨s, hs, hview⟩ := Option.map_eq_some_iff.1 hview
  obtain ⟨nx, hb⟩ := he.built hs
  rw [hb.nx_eq] at hview
  simp only [Prod.mk.injEq] at hview
  obtain ⟨hx, hh, hl⟩ := hview
  change nx.values = [0, 1] at hx
  have hstep : Canvas.sharedStep nx s.nh = 1 := by
    simp [Canvas.sharedStep, TimeGrid.size, TimeGrid.step, TimeGrid.start, TimeGrid.stop, hx]
    rfl
  have ha : s.IsAligned := by
    refine ⟨nx, hb.nx_eq, ?_, ?_, 1, ?_⟩
    · simp [TimeGrid.Spaced, Positions.IsSpaced, Positions.steps, hx, hstep]
    · simp [TimeGrid.Spaced, Positions.IsSpaced, Positions.steps, hh, hstep]
      norm_num
    · simp [TimeGrid.start, hx, hh, hstep]
  have hl : 1 < s.length := by omega
  obtain ⟨step, hstep, hshows⟩ := Engine.stepAt_shows he hs ha hl
  exact ⟨s, step, hs, ha, hl, hstep, hshows⟩

end SteppedConvolution
