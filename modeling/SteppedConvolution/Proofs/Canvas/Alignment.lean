import Mathlib.Algebra.Order.Field.Basic
import SteppedConvolution.Proofs.Canvas.Placement
import SteppedConvolution.Proofs.TimeGrid.Regular

/-! # Aligned grids

Two grids are aligned when both are in steps of their common step and their starts are a
whole number of these steps apart. The shared grid of aligned grids has room for every
position of both, each at an exact index.
-/

namespace SteppedConvolution

namespace Canvas

/-- The step of a shared grid is positive. -/
theorem sharedStep_pos (nx nh : TimeGrid Rat) : 0 < sharedStep nx nh := by
  unfold sharedStep
  split
  · exact nx.step_pos
  · split
    · exact nh.step_pos
    · exact one_pos

/-- Both grids are in steps of their common step, and their starts lie a whole number of these
steps apart. -/
structure Aligned (nx nh : TimeGrid Rat) : Prop where
  spaced_x : nx.Spaced (sharedStep nx nh)
  spaced_h : nh.Spaced (sharedStep nx nh)
  offset : ∃ z : Int, nh.start - nx.start = z * sharedStep nx nh

variable {nx nh : TimeGrid Rat}

/-- Where two aligned grids lie on a grid: the indices of their first positions. -/
structure Seated (nx nh g : TimeGrid Rat) (d : Rat) (a b : Nat) : Prop where
  spaced : g.Spaced d
  size : 1 < g.size
  start_x : nx.start = g.start + a * d
  start_h : nh.start = g.start + b * d
  room_x : a + nx.size ≤ g.size
  room_h : b + nh.size ≤ g.size

theorem sharedSize_eq_ok {n m : Int} (h : sharedSize nx nh n = .ok m) :
    n + (max nx.size nh.size : Nat) ≤ m ∧
      (max nx.stop nh.stop - min nx.start nh.start) / sharedStep nx nh - slack + 1 ≤ m := by
  unfold sharedSize at h
  rw [Scalar.smaller_eq_min, Scalar.larger_eq_max] at h
  dsimp only at h
  generalize (max nx.stop nh.stop - min nx.start nh.start) / sharedStep nx nh - slack = q at h ⊢
  have hm : max (n + (max nx.size nh.size : Nat)) (q.ceil + 1) = m := Except.ok.inj h
  have hc : q + 1 ≤ ((q.ceil + 1 : Int) : Rat) := by
    have := Rat.le_ceil (x := q)
    push_cast
    linarith
  rw [← hm]
  refine ⟨le_max_left _ _, hc.trans ?_⟩
  exact_mod_cast le_max_right _ _

theorem slack_lt_one : (slack : Rat) < 1 := by
  change Rational.ofDecimal 1 (-9) < 1
  decide +kernel

/-- A grid that the shared grid reaches fits from its first index on. -/
theorem room_of_reach {g : TimeGrid Rat} {start d : Rat} {a : Nat} {m : Int} (hd : 0 < d)
    (hs : g.Spaced d) (hstart : g.start = start + a * d)
    (hm : (g.stop - start) / d - slack + 1 ≤ m) : a + g.size ≤ m.toNat := by
  have hq : (g.stop - start) / d = ((a + (g.size - 1) : Nat) : Rat) := by
    rw [hs.stop_eq, hstart, div_eq_iff hd.ne']
    push_cast
    ring
  rw [hq] at hm
  have hlt : (((a + (g.size - 1) : Nat) : Int) : Rat) < (m : Rat) := by
    have := slack_lt_one
    rw [Int.cast_natCast]
    linarith
  have hlt : ((a + (g.size - 1) : Nat) : Int) < m := by exact_mod_cast hlt
  have := g.size_pos
  omega

/-- Both starts lie a whole number of steps behind the earlier one. -/
theorem Aligned.starts (ha : Aligned nx nh) : ∃ a b : Nat,
    nx.start = min nx.start nh.start + a * sharedStep nx nh ∧
      nh.start = min nx.start nh.start + b * sharedStep nx nh := by
  have hd := sharedStep_pos nx nh
  obtain ⟨z, hz⟩ := ha.offset
  by_cases h0 : 0 ≤ z
  · obtain ⟨b, rfl⟩ := Int.eq_ofNat_of_zero_le h0
    have hb : 0 ≤ ((b : Int) : Rat) * sharedStep nx nh := mul_nonneg (by exact_mod_cast h0) hd.le
    refine ⟨0, b, ?_, ?_⟩ <;> rw [min_eq_left (by linarith)]
    · simp
    · rw [Int.cast_natCast] at hz
      linarith
  · obtain ⟨a, ha⟩ := Int.eq_ofNat_of_zero_le (a := -z) (by omega)
    have hz' : (z : Rat) = -(a : Rat) := by
      have : z = -(a : Int) := by omega
      rw [this]
      push_cast
      rfl
    have hb : 0 ≤ (a : Rat) * sharedStep nx nh := mul_nonneg (Nat.cast_nonneg a) hd.le
    rw [hz', neg_mul] at hz
    refine ⟨a, 0, ?_, ?_⟩ <;> rw [min_eq_right (by linarith)]
    · linarith
    · simp

/-- A shared grid starts with the earlier grid. -/
theorem start_of_sharedGrid {g : TimeGrid Rat} {n : Int} (hg : sharedGrid nx nh n = .ok g) :
    g.start = min nx.start nh.start := by
  have hv := (sharedGrid_eq_ok hg).2.2
  have hhead : g.values.head? = some g.start := List.head?_eq_some_head g.values_ne_nil
  rw [hv, Range.head?_progression _ _ g.size_pos, Scalar.smaller_eq_min] at hhead
  exact (Option.some.inj hhead).symm

/-- A shared grid is in steps of the shared step. -/
theorem spaced_of_sharedGrid {g : TimeGrid Rat} {n : Int} (hg : sharedGrid nx nh n = .ok g) :
    g.Spaced (sharedStep nx nh) := by
  rw [TimeGrid.Spaced, (sharedGrid_eq_ok hg).2.2]
  exact Range.isSpaced_progression _ _ _

theorem one_lt_size_of_sharedGrid {g : TimeGrid Rat} {n : Int} (hn : 1 ≤ n)
    (hg : sharedGrid nx nh n = .ok g) : 1 < g.size := by
  have hroom := (sharedGrid_eq_ok hg).2.1
  have := nx.size_pos
  omega

/-- A shared grid reaches the ends of both grids, up to the slack. -/
theorem reach_of_sharedGrid {g : TimeGrid Rat} {n : Int} (hg : sharedGrid nx nh n = .ok g) :
    (max nx.stop nh.stop - g.start) / sharedStep nx nh - slack + 1 ≤ g.size := by
  obtain ⟨m, hm, hsize, -, -⟩ := exists_size_of_sharedGrid hg
  have hpos := g.size_pos
  have hcast : (g.size : Rat) = m := by
    have : (g.size : Int) = m := by omega
    exact_mod_cast this
  rw [start_of_sharedGrid hg, hcast]
  exact (sharedSize_eq_ok hm).2

/-- Aligned grids are seated on their shared grid. -/
theorem Aligned.seated (ha : Aligned nx nh) {g : TimeGrid Rat}
    (hg : sharedGrid nx nh ((nx.size : Int) + nh.size - 1) = .ok g) :
    ∃ a b : Nat, Seated nx nh g (sharedStep nx nh) a b := by
  have hd := sharedStep_pos nx nh
  have hstart := start_of_sharedGrid hg
  have hn : 1 ≤ (nx.size : Int) + nh.size - 1 := by
    have := nx.size_pos
    have := nh.size_pos
    omega
  have hreach (stop : Rat) (hs : stop ≤ max nx.stop nh.stop) :
      (stop - g.start) / sharedStep nx nh - slack + 1 ≤ (g.size : Int) := by
    have hq := div_le_div_of_nonneg_right (sub_le_sub_right hs g.start) hd.le
    have := reach_of_sharedGrid hg
    rw [Int.cast_natCast]
    linarith
  obtain ⟨a, b, hx, hh⟩ := ha.starts
  rw [← hstart] at hx hh
  exact ⟨a, b, spaced_of_sharedGrid hg, one_lt_size_of_sharedGrid hn hg, hx, hh,
    room_of_reach hd ha.spaced_x hx (hreach _ (le_max_left _ _)),
    room_of_reach hd ha.spaced_h hh (hreach _ (le_max_right _ _))⟩

/-- A grid that sits on another one, by indices. -/
theorem values_eq_map_range' {g l : TimeGrid Rat} {d : Rat} {a : Nat} (hs : l.Spaced d)
    (hstart : l.start = g.start + a * d) :
    l.values = (List.range' a l.size).map fun k : Nat => g.start + (k : Rat) * d := by
  apply List.ext_getElem
  · simp [TimeGrid.size]
  · intro i hi _
    rw [hs.getElem hi, hstart, List.getElem_map, List.getElem_range']
    push_cast
    ring

/-- A signal whose grid sits on another one is placed where its grid sits. -/
theorem place_of_seat {g l : TimeGrid Rat} {d threshold : Rat} {a : Nat} {samples ys : List Rat}
    (hg : 1 < g.size) (hs : g.Spaced d) (hl : l.Spaced d) (hsize : l.size = samples.length)
    (hstart : l.start = g.start + a * d) (hroom : a + l.size ≤ g.size)
    (hys : (place threshold samples (l.values.take samples.length) g).outcome = .ok ys) :
    ys.length = g.size ∧
      ∀ z : Int, entryAt ys z = entryAt (samples.map (suppress threshold)) (z - a) := by
  have hv := values_eq_map_range' hl hstart
  rw [hsize] at hv hroom
  rw [List.take_of_length_le (Nat.le_of_eq hsize), hv, place_exact hg hs hroom] at hys
  obtain rfl := Except.ok.inj hys
  refine ⟨?_, entryAt_place hroom⟩
  rw [length_writeEntries, blank, List.length_map, TimeGrid.size]

/-- A canvas on which two signals sit at the indices `a` and `b` of its grid and are zero
elsewhere. -/
structure Exact (c : Canvas Rat) (x h : List Rat) (a b : Nat) : Prop where
  length_x : c.x.length = c.grid.size
  length_h : c.h.length = c.grid.size
  entry_x : ∀ z : Int, entryAt c.x z = entryAt x (z - a)
  entry_h : ∀ z : Int, entryAt c.h z = entryAt h (z - b)

/-- The canvas of two signals on aligned grids. -/
theorem Aligned.exact (ha : Aligned nx nh) {threshold : Rat} {x h : List Rat} {c : Canvas Rat}
    (hx : nx.size = x.length) (hh : nh.size = h.length)
    (hc : (ofSignals threshold x nx h nh).outcome = .ok c) :
    ∃ a b : Nat, Seated nx nh c.grid (sharedStep nx nh) a b ∧
      c.Exact (x.map (suppress threshold)) (h.map (suppress threshold)) a b := by
  unfold ofSignals at hc
  simp only [Logged.bind_eq_ok, Logged.ofExcept_outcome] at hc
  obtain ⟨g, hg, px, hpx, ph, hph, -, -, hc⟩ := hc
  cases hc
  rw [← hx, ← hh] at hg
  obtain ⟨a, b, hs⟩ := ha.seated hg
  obtain ⟨hlx, hex⟩ := place_of_seat hs.size hs.spaced ha.spaced_x hx hs.start_x hs.room_x hpx
  obtain ⟨hlh, heh⟩ := place_of_seat hs.size hs.spaced ha.spaced_h hh hs.start_h hs.room_h hph
  exact ⟨a, b, hs, hlx, hlh, hex, heh⟩

end Canvas

end SteppedConvolution
