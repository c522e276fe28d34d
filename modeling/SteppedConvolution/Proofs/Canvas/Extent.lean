import Mathlib.Data.Rat.Floor
import SteppedConvolution.Proofs.Canvas.Alignment

/-! # The extent of shared grids

How many positions the shared grid of two signals has. Such a grid runs in equal steps, so it
passes the checks whatever the two grids are, and a canvas of two signals is refused only
where its grid would be too long to be stored.
-/

namespace SteppedConvolution

namespace Canvas

/-- The mean step of positions that have one: of the first ones, else of the second ones; 1 where
both are single. -/
def stepOf (ps qs : List Rat) : Rat :=
  if 1 < ps.length then (ps.getLastD 0 - ps.headD 0) / (ps.length - 1 : Nat)
  else if 1 < qs.length then (qs.getLastD 0 - qs.headD 0) / (qs.length - 1 : Nat)
  else 1

/-- The number of positions of the shared grid of two signals at given positions. -/
def extent (ps qs : List Rat) : Int :=
  max ((ps.length : Int) + qs.length - 1 + (max ps.length qs.length : Nat))
    (⌈(max (ps.getLastD 0) (qs.getLastD 0) - min (ps.headD 0) (qs.headD 0)) / stepOf ps qs -
      1 / 10 ^ 9⌉ + 1)

/-- The number of positions of the shared grid of two grids, for a convolution of a given length. -/
def sharedLength (nx nh : TimeGrid Rat) (n : Int) : Int :=
  max (n + (max nx.size nh.size : Nat))
    (⌈(max nx.stop nh.stop - min nx.start nh.start) / sharedStep nx nh - 1 / 10 ^ 9⌉ + 1)

variable {nx nh g : TimeGrid Rat} {n : Int}

theorem headD_values (g : TimeGrid Rat) : g.values.headD 0 = g.start := by
  rw [List.headD_eq_head?_getD, List.head?_eq_some_head g.values_ne_nil]
  rfl

theorem getLastD_values (g : TimeGrid Rat) : g.values.getLastD 0 = g.stop := by
  rw [List.getLastD_eq_getLast?, List.getLast?_eq_some_getLast g.values_ne_nil]
  rfl

theorem sharedStep_eq (nx nh : TimeGrid Rat) : sharedStep nx nh = stepOf nx.values nh.values := by
  unfold stepOf sharedStep
  rw [headD_values, headD_values, getLastD_values, getLastD_values]
  change (if 1 < nx.size then nx.step else if 1 < nh.size then nh.step else 1) =
    if 1 < nx.size then (nx.stop - nx.start) / (nx.size - 1 : Nat)
    else if 1 < nh.size then (nh.stop - nh.start) / (nh.size - 1 : Nat) else 1
  have hstep (g : TimeGrid Rat) (hg : 1 < g.size) :
      g.step = (g.stop - g.start) / (g.size - 1 : Nat) := by
    rw [TimeGrid.step, if_neg (by omega)]
    rfl
  split
  · exact hstep nx ‹_›
  · split
    · exact hstep nh ‹_›
    · rfl

theorem slack_eq : (slack : Rat) = 1 / 10 ^ 9 := by
  change Rational.ofDecimal 1 (-9) = 1 / 10 ^ 9
  decide +kernel

theorem extent_eq (nx nh : TimeGrid Rat) :
    extent nx.values nh.values = sharedLength nx nh ((nx.size : Int) + nh.size - 1) := by
  rw [extent, headD_values, headD_values, getLastD_values, getLastD_values, ← sharedStep_eq]
  rfl

theorem sharedSize_eq (nx nh : TimeGrid Rat) (n : Int) :
    sharedSize nx nh n = .ok (sharedLength nx nh n) := by
  unfold sharedSize sharedLength
  rw [Scalar.smaller_eq_min, Scalar.larger_eq_max, ← slack_eq]
  dsimp only
  have hceil : (Scalar.ceil ((max nx.stop nh.stop - min nx.start nh.start) / sharedStep nx nh -
      slack)).toInt? = .ok ⌈(max nx.stop nh.stop - min nx.start nh.start) / sharedStep nx nh -
      slack⌉ := congrArg Except.ok (Rat.ceil_eq_neg_floor_neg _)
  rw [hceil]
  rfl

theorem sharedLength_pos (hn : 1 ≤ n) : 0 < sharedLength nx nh n := by
  have hle : n + (max nx.size nh.size : Nat) ≤ sharedLength nx nh n := le_max_left _ _
  omega

/-- The positions of a shared grid pass the checks, whatever the two grids are. -/
theorem isRegular_progression (hn : 1 ≤ n) : Positions.IsRegular TimeGrid.defaultTolerance
    (Range.progression (min nx.start nh.start) (sharedStep nx nh)
      (sharedLength nx nh n).toNat) := by
  refine (Range.isSpaced_progression _ _ _).isRegular ?_ (fun _ => sharedStep_pos nx nh)
    TimeGrid.defaultTolerance_nonneg
  have hpos : 0 < sharedLength nx nh n := sharedLength_pos hn
  rw [← List.length_pos_iff, Range.progression, List.length_map, List.length_range]
  omega

/-- Two grids have a shared grid unless it would be too long. -/
theorem sharedGrid_ok (hn : 1 ≤ n) (h : sharedLength nx nh n < Range.sizeLimit) :
    ∃ g, sharedGrid nx nh n = .ok g := by
  have hlimit : 0 < Range.sizeLimit := Nat.pow_pos Nat.two_pos
  have hlt : ¬ Range.sizeLimit ≤ (sharedLength nx nh n).toNat := by omega
  obtain ⟨g, hg⟩ := (TimeGrid.exists_ofValues_iff TimeGrid.defaultTolerance_nonneg).2
    (isRegular_progression hn)
  refine ⟨g, ?_⟩
  unfold sharedGrid
  rw [sharedSize_eq, Scalar.smaller_eq_min]
  simp only [Range.positions, if_neg hlt, bind_eq_ok]
  exact ⟨_, rfl, mapError_eq_ok.2 hg⟩

/-- A shared grid that would be too long is refused. -/
theorem sharedGrid_refused (h : (Range.sizeLimit : Int) ≤ sharedLength nx nh n) :
    sharedGrid nx nh n = .error (.plain .tooManyPositions) := by
  have hle : Range.sizeLimit ≤ (sharedLength nx nh n).toNat := by omega
  unfold sharedGrid
  rw [sharedSize_eq]
  simp only [Range.positions, if_pos hle]
  rfl

/-! ## Canvases -/

variable {threshold : Rat} {samples positions x h : List Rat}

theorem locate_ok (target : TimeGrid Rat) (positions : List Rat) :
    ∃ indices, (locate target positions).outcome = .ok indices := by
  obtain ⟨found, hfound, -⟩ := nearestPositions_ok fun p (_ : p ∈ positions) =>
    nearestIndex_ne_none_rat target p
  refine ⟨found.map Prod.fst, ?_⟩
  unfold locate
  simp only [Logged.bind_eq_ok, Logged.ofExcept_outcome, Logged.noteIf_outcome, hfound]
  exact ⟨found, rfl, (), trivial, rfl⟩

/-- Samples with a position for each can be placed on every grid. -/
theorem place_ok (threshold : Rat) (target : TimeGrid Rat) (h : samples.length = positions.length) :
    ∃ ys, (place threshold samples positions target).outcome = .ok ys := by
  obtain ⟨indices, hi⟩ := locate_ok target ((keptSamples threshold samples positions).map Prod.snd)
  unfold place
  split
  · exact ⟨_, rfl⟩
  · rw [if_neg (not_not.2 h)]
    exact ⟨_, Logged.bind_eq_ok.2 ⟨indices, hi, rfl⟩⟩

/-- Signals on grids of their own length have a canvas unless its grid would be too long. -/
theorem ofSignals_ok (threshold : Rat) (hx : nx.size = x.length) (hh : nh.size = h.length)
    (hlt : extent nx.values nh.values < Range.sizeLimit) :
    ∃ c, (ofSignals threshold x nx h nh).outcome = .ok c := by
  rw [extent_eq] at hlt
  have hn : 1 ≤ (nx.size : Int) + nh.size - 1 := by
    have := nx.size_pos
    have := nh.size_pos
    omega
  obtain ⟨g, hg⟩ := sharedGrid_ok hn hlt
  have hlength {g : TimeGrid Rat} {xs : List Rat} (hs : g.size = xs.length) :
      xs.length = (g.values.take xs.length).length := by
    rw [List.length_take, ← hs, TimeGrid.size, min_self]
  obtain ⟨px, hpx⟩ := place_ok threshold g (hlength hx)
  obtain ⟨ph, hph⟩ := place_ok threshold g (hlength hh)
  refine ⟨⟨g, px, ph⟩, ?_⟩
  unfold ofSignals
  simp only [Logged.bind_eq_ok, Logged.ofExcept_outcome]
  rw [hx, hh] at hg
  exact ⟨g, hg, px, hpx, ph, hph, (), rfl, rfl⟩

theorem ofSignals_refused (hx : nx.size = x.length) (hh : nh.size = h.length)
    (hle : (Range.sizeLimit : Int) ≤ extent nx.values nh.values) :
    (ofSignals threshold x nx h nh).outcome = .error (.plain .tooManyPositions) := by
  rw [extent_eq] at hle
  have hg := sharedGrid_refused hle
  rw [hx, hh] at hg
  unfold ofSignals
  rw [hg]
  rfl

end Canvas

end SteppedConvolution
