import Mathlib.Algebra.Order.Floor.Semiring
import SteppedConvolution.Proofs.Canvas.Closest
import SteppedConvolution.Proofs.Canvas.Extent

/-! # Positions on the shared grid

The shared grid of two grids starts with the earlier one and reaches the end of the later one, up
to a slack that is much smaller than half a step. So every position of the two grids is within
half a step of the one that is looked up for it, and just half a step away only when it lies
halfway between two positions.
-/

namespace SteppedConvolution.Canvas

variable {nx nh g : TimeGrid Rat} {d p q : Rat} {n : Int}

/-- The points halfway between neighbouring positions. -/
def midpoints (g : TimeGrid Rat) : List Rat :=
  List.zipWith (fun a b => (a + b) / 2) g.values g.values.tail

theorem mem_midpoints_iff (hs : g.Spaced d) :
    p ∈ midpoints g ↔ ∃ k : Nat, k + 1 < g.size ∧ p = g.start + (k + 1 / 2) * d := by
  have hmiddle {k : Nat} (hk : k + 1 < g.values.length) :
      (g.values[k] + g.values[k + 1]) / 2 = g.start + (k + 1 / 2) * d := by
    rw [hs.getElem, hs.getElem hk]
    push_cast
    ring
  rw [midpoints, List.mem_iff_getElem]
  constructor
  · rintro ⟨k, hk, rfl⟩
    have hk : k + 1 < g.values.length := by
      rw [List.length_zipWith, List.length_tail] at hk
      omega
    refine ⟨k, hk, ?_⟩
    rw [List.getElem_zipWith, List.getElem_tail, hmiddle hk]
  · rintro ⟨k, hk, rfl⟩
    have hk : k + 1 < g.values.length := hk
    refine ⟨k, ?_, ?_⟩
    · rw [List.length_zipWith, List.length_tail]
      omega
    · rw [List.getElem_zipWith, List.getElem_tail, hmiddle hk]

/-! ## Between two positions -/

/-- A number among the first indices lies behind one of them, and not on the second half of the
way to the next one if there is none. -/
theorem exists_cell {n : Nat} (h0 : 0 ≤ q) (hn : q + 1 / 2 < n) :
    ∃ k : Nat, k < n ∧ (k : Rat) ≤ q ∧ q < k + 1 ∧ ((k : Rat) + 1 / 2 ≤ q → k + 1 < n) := by
  refine ⟨⌊q⌋₊, (Nat.floor_lt h0).2 (by linarith), Nat.floor_le h0, Nat.lt_floor_add_one q, ?_⟩
  intro h
  have hlt : ((⌊q⌋₊ + 1 : Nat) : Rat) < n := by
    push_cast
    linarith
  exact_mod_cast hlt

theorem distance_le_index (hg : 1 < g.size) (hs : g.Spaced d) {k : Nat} (hk : k < g.size)
    (p : Rat) : distance g p ≤ |(k : Rat) - (p - g.start) / d| * d := by
  rw [← abs_position_sub (hs.pos hg), ← hs.getElem hk]
  exact distance_le hg hs (List.getElem_mem hk) p

/-- The number is no less than the start, and less than half a step behind the end. -/
structure InReach (g : TimeGrid Rat) (d p : Rat) : Prop where
  nonneg : 0 ≤ (p - g.start) / d
  lt : (p - g.start) / d + 1 / 2 < g.size

/-- Numbers in reach of a grid are within half a step of their closest position. -/
theorem InReach.distance_le (h : InReach g d p) (hg : 1 < g.size) (hs : g.Spaced d) :
    distance g p ≤ d / 2 := by
  have hd := hs.pos hg
  obtain ⟨k, hk, hle, hlt, hnext⟩ := exists_cell h.nonneg h.lt
  by_cases hhalf : (p - g.start) / d ≤ k + 1 / 2
  · have hclose : |(k : Rat) - (p - g.start) / d| ≤ 1 / 2 := abs_le.2 ⟨by linarith, by linarith⟩
    have := distance_le_index hg hs hk p
    nlinarith
  · have hclose : |((k + 1 : Nat) : Rat) - (p - g.start) / d| ≤ 1 / 2 := by
      push_cast
      exact abs_le.2 ⟨by linarith, by linarith⟩
    have := distance_le_index hg hs (hnext (by linarith)) p
    nlinarith

/-- A point halfway between two positions is no closer to any other one. -/
theorem le_distance_of_mem_midpoints (hg : 1 < g.size) (hs : g.Spaced d) (h : p ∈ midpoints g) :
    d / 2 ≤ distance g p := by
  have hd := hs.pos hg
  obtain ⟨k, -, rfl⟩ := (mem_midpoints_iff hs).1 h
  rw [distance_eq hs, abs_position_sub hd, add_sub_cancel_left, mul_div_cancel_right₀ _ hd.ne']
  -- twice the difference is odd
  have hodd : (1 : Rat) ≤ |2 * (slot g (g.start + (k + 1 / 2) * d) : Rat) - (2 * k + 1)| := by
    have : (1 : Int) ≤ |2 * (slot g (g.start + (k + 1 / 2) * d) : Int) - (2 * k + 1)| :=
      Int.one_le_abs (by omega)
    exact_mod_cast this
  have hhalf : (slot g (g.start + (k + 1 / 2) * d) : Rat) - (k + 1 / 2) =
      (2 * (slot g (g.start + (k + 1 / 2) * d) : Rat) - (2 * k + 1)) / 2 := by ring
  rw [hhalf, abs_div, abs_of_pos (by norm_num : (0 : Rat) < 2)]
  nlinarith

/-- Numbers in reach of a grid are half a step away from their closest position only halfway
between two positions. -/
theorem InReach.le_distance_iff (h : InReach g d p) (hg : 1 < g.size) (hs : g.Spaced d) :
    d / 2 ≤ distance g p ↔ p ∈ midpoints g := by
  refine ⟨fun hfar => (mem_midpoints_iff hs).2 ?_, le_distance_of_mem_midpoints hg hs⟩
  have hd := hs.pos hg
  have hp : p = g.start + (p - g.start) / d * d := by
    rw [div_mul_cancel₀ _ hd.ne', add_sub_cancel]
  have hhalf {k : Nat} (hk : k < g.size) : 1 / 2 ≤ |(k : Rat) - (p - g.start) / d| := by
    have := distance_le_index hg hs hk p
    by_contra hlt
    nlinarith
  obtain ⟨k, hk, hle, hlt, hnext⟩ := exists_cell h.nonneg h.lt
  have hlow := hhalf hk
  rw [abs_of_nonpos (by linarith)] at hlow
  have hnext := hnext (by linarith)
  have hhigh := hhalf hnext
  push_cast at hhigh
  rw [abs_of_pos (by linarith)] at hhigh
  have heq : (p - g.start) / d = k + 1 / 2 := by linarith
  exact ⟨k, hnext, heq ▸ hp⟩

/-! ## The shared grid -/

theorem slack_lt_half : (slack : Rat) < 1 / 2 := by
  rw [slack_eq]
  norm_num

/-- Every position of two grids is in reach of their shared grid. -/
theorem inReach_of_sharedGrid (hgrid : sharedGrid nx nh n = .ok g)
    (hp : p ∈ nx.values ∨ p ∈ nh.values) : InReach g (sharedStep nx nh) p := by
  have hd := sharedStep_pos nx nh
  have hbounds : min nx.start nh.start ≤ p ∧ p ≤ max nx.stop nh.stop := by
    rcases hp with hp | hp
    · have := nx.mem_bounds hp
      exact ⟨(min_le_left _ _).trans this.1, this.2.trans (le_max_left _ _)⟩
    · have := nh.mem_bounds hp
      exact ⟨(min_le_right _ _).trans this.1, this.2.trans (le_max_right _ _)⟩
  rw [← start_of_sharedGrid hgrid] at hbounds
  constructor
  · exact div_nonneg (sub_nonneg.2 hbounds.1) hd.le
  · have hle := div_le_div_of_nonneg_right (sub_le_sub_right hbounds.2 g.start) hd.le
    have hreach := reach_of_sharedGrid hgrid
    have := slack_lt_half
    linarith

/-- How many of the samples that count are half a step or more away from the positions that are
looked up for them. -/
def strays (threshold : Rat) (samples positions : List Rat) (g : TimeGrid Rat) : Nat :=
  (keptSamples threshold samples positions).countP fun e => decide (g.step / 2 ≤ distance g e.2)

theorem events_place (hg : 1 < g.size) (hs : g.Spaced d) {threshold : Rat}
    {samples positions : List Rat} (hl : samples.length = positions.length) :
    (place threshold samples positions g).events =
      if strays threshold samples positions g = 0 then []
      else [.misaligned (strays threshold samples positions g)] := by
  have hastray : astray g d ((keptSamples threshold samples positions).map Prod.snd) =
      strays threshold samples positions g := by
    rw [astray, List.countP_map, strays, hs.step_eq hg]
    simp only [distance_eq hs]
    rfl
  rw [place_eq hg hs hl, locate_eq hg hs, hastray]

/-- A grid that starts with the earlier of two grids and has a place within half a step for each of
their positions. Samples at these positions are reported exactly where they lie halfway between two
places. -/
structure Accommodates (nx nh : TimeGrid Rat) (n : Int) (g : TimeGrid Rat) : Prop where
  start : g.start = min nx.start nh.start
  room : n + (max nx.size nh.size : Nat) ≤ g.size
  near : ∀ p, p ∈ nx.values ∨ p ∈ nh.values →
    ∃ i v, nearestIndex g p = some i ∧ g.values[i]? = some v ∧ |v - p| ≤ g.step / 2
  /-- What is reported on samples anywhere. -/
  reported : ∀ threshold samples positions, samples.length = positions.length →
    (place threshold samples positions g).events =
      if strays threshold samples positions g = 0 then []
      else [.misaligned (strays threshold samples positions g)]
  halfway : ∀ p, p ∈ nx.values ∨ p ∈ nh.values →
    (g.step / 2 ≤ distance g p ↔ p ∈ midpoints g)

theorem accommodates_of_sharedGrid (hn : 1 ≤ n) (hgrid : sharedGrid nx nh n = .ok g) :
    Accommodates nx nh n g := by
  have hs := spaced_of_sharedGrid hgrid
  have hg := one_lt_size_of_sharedGrid hn hgrid
  refine ⟨start_of_sharedGrid hgrid, (sharedGrid_eq_ok hgrid).2.1, fun p hp => ?_,
    fun _ _ _ hl => events_place hg hs hl, fun p hp => ?_⟩
  · have hlt : slot g p < g.values.length := slot_lt g p
    refine ⟨slot g p, _, nearestIndex_eq_slot g p, List.getElem?_eq_getElem hlt, ?_⟩
    rw [hs.getElem hlt, ← distance_eq hs, hs.step_eq hg]
    exact (inReach_of_sharedGrid hgrid hp).distance_le hg hs
  · rw [hs.step_eq hg]
    exact (inReach_of_sharedGrid hgrid hp).le_distance_iff hg hs

/-- Any two grids have a shared grid with a place within half a step for each of their positions,
unless it would have too many positions for an array. -/
theorem sharedGrid_accommodates (nx nh : TimeGrid Rat) (hn : 1 ≤ n) :
    (sharedLength nx nh n < Range.sizeLimit →
      ∃ g, sharedGrid nx nh n = .ok g ∧ Accommodates nx nh n g) ∧
    ((Range.sizeLimit : Int) ≤ sharedLength nx nh n →
      sharedGrid nx nh n = .error (.plain .tooManyPositions)) := by
  refine ⟨fun hlt => ?_, sharedGrid_refused⟩
  obtain ⟨g, hgrid⟩ := sharedGrid_ok hn hlt
  exact ⟨g, hgrid, accommodates_of_sharedGrid hn hgrid⟩

/-- Two grids of different steps, of which one has a position halfway between two places. -/
theorem sharedGrid_accommodates_quarters :
    let nx : TimeGrid Rat := ⟨[1, 2], 0, by decide +kernel⟩
    let nh : TimeGrid Rat := ⟨[3 / 2, 9 / 4], 0, by decide +kernel⟩
    let hosting : TimeGrid Rat := ⟨[1, 2, 3, 4, 5], 0, by decide +kernel⟩
    (1 : Int) ≤ 3 ∧ sharedLength nx nh 3 < Range.sizeLimit ∧
      sharedGrid nx nh 3 = .ok hosting ∧ Accommodates nx nh 3 hosting ∧
        (place (1 / 10 ^ 12) [6, 7] nh.values hosting).events = [.misaligned 1] := by
  intro nx nh hosting
  have hlt : sharedLength nx nh 3 < Range.sizeLimit := by decide +kernel
  obtain ⟨g, hg, h⟩ := (sharedGrid_accommodates nx nh (by decide : (1 : Int) ≤ 3)).1 hlt
  have hvalues : (sharedGrid nx nh 3).toOption.map TimeGrid.values = some hosting.values := by
    decide +kernel
  rw [hg] at hvalues
  obtain rfl : g = hosting := TimeGrid.eq_of_values (Option.some.inj hvalues)
  have hstrays : strays (1 / 10 ^ 12) [6, 7] nh.values hosting = 1 := by decide +kernel
  refine ⟨by decide, hlt, hg, h, ?_⟩
  rw [h.reported (1 / 10 ^ 12) [6, 7] nh.values rfl, hstrays]
  rfl

/-- Two single positions so far apart that those between them cannot be stored. -/
theorem sharedGrid_far_apart :
    let nx : TimeGrid Rat := ⟨[0], 0, by decide +kernel⟩
    let nh : TimeGrid Rat := ⟨[10 ^ 30], 0, by decide +kernel⟩
    ¬ ∃ g, sharedGrid nx nh 1 = .ok g := by
  intro nx nh
  have hrefused : sharedGrid nx nh 1 = .error (.plain .tooManyPositions) :=
    eq_error_of_errorOf? (by decide +kernel)
  rintro ⟨g, hg⟩
  rw [hrefused] at hg
  cases hg

end SteppedConvolution.Canvas
