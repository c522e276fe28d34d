import SteppedConvolution.Canvas.Basic
import SteppedConvolution.Proofs.TimeGrid.Shifted

/-! # Shifted canvases

The shared grid of two shifted grids is their shared grid shifted. A position is looked up by its
distance from the start of a grid, so samples keep their indices when grid and positions move
together.
-/

namespace SteppedConvolution

theorem Range.progression_shift (c start step : Rat) (n : Nat) :
    progression (start + c) step n = (progression start step n).map (· + c) := by
  rw [progression, progression, List.map_map]
  exact List.map_congr_left fun k _ => add_right_comm start c _

theorem Range.positions_shift (c start step : Rat) (n : Int) :
    positions (start + c) step n = (positions start step n).map (List.map (· + c)) := by
  unfold positions
  rw [progression_shift]
  split <;> rfl

namespace Canvas

variable (c : Rat)

/-! ## The shared grid -/

section

variable (nx nh : TimeGrid Rat) (n : Int)

theorem sharedStep_shift : sharedStep (nx.shift c) (nh.shift c) = sharedStep nx nh := by
  simp only [sharedStep, TimeGrid.size_shift, TimeGrid.step_shift]

theorem sharedSize_shift : sharedSize (nx.shift c) (nh.shift c) n = sharedSize nx nh n := by
  unfold sharedSize
  simp only [TimeGrid.start_shift, TimeGrid.stop_shift, TimeGrid.size_shift, sharedStep_shift,
    Scalar.smaller_eq_min, Scalar.larger_eq_max, min_add_add_right, max_add_add_right,
    add_sub_add_right_eq_sub]

theorem sharedGrid_shift :
    sharedGrid (nx.shift c) (nh.shift c) n = (sharedGrid nx nh n).map (TimeGrid.shift c) := by
  unfold sharedGrid
  rw [sharedSize_shift]
  cases sharedSize nx nh n with
  | error e => rfl
  | ok m =>
    rw [TimeGrid.start_shift, TimeGrid.start_shift, sharedStep_shift, Scalar.smaller_eq_min,
      Scalar.smaller_eq_min, min_add_add_right]
    exact bind_map (Range.positions_shift c _ _ m) fun vs =>
      TimeGrid.mapError_ofValues_shift c _ TimeGrid.fault vs

end

/-! ## Looking positions up -/

section

variable (g : TimeGrid Rat) (positions : List Rat)

theorem nearestPositions_shift : nearestPositions (g.shift c) (positions.map (· + c)) =
    (nearestPositions g positions).map (List.map fun e => (e.1, e.2 + c)) := by
  refine mapM_map (fun p => ?_) positions
  simp only [indexOf, TimeGrid.size_shift, TimeGrid.start_shift, TimeGrid.step_shift,
    TimeGrid.values_shift, add_sub_add_right_eq_sub, List.getElem?_toArray, List.getElem?_map]
  cases (if g.size = 1 then some 0
    else (Scalar.nearest ((p - g.start) / g.step)).clampBelow g.size) with
  | none => rfl
  | some i =>
    dsimp only
    cases g.values[i]? <;> rfl

/-- A position and its closest grid position keep their distance. -/
theorem zip_shift (found : List (Nat × Rat)) :
    (positions.map (· + c)).zip (found.map fun e => (e.1, e.2 + c)) =
      (positions.zip found).map fun e => (e.1 + c, e.2.1, e.2.2 + c) := by
  rw [List.zip_map]
  rfl

theorem isHit_shift (reach p v : Rat) (i : Nat) :
    isHit reach (p + c) (i, v + c) = isHit reach p (i, v) := by
  unfold isHit
  rw [add_sub_add_right_eq_sub]

theorem sampleAt_shift (values : List Rat) :
    sampleAt values (g.shift c) (positions.map (· + c)) = sampleAt values g positions := by
  unfold sampleAt
  rw [nearestPositions_shift, TimeGrid.step_shift]
  cases nearestPositions g positions with
  | error e => rfl
  | ok found =>
    change (List.zip _ _).mapM _ = (List.zip _ _).mapM _
    rw [zip_shift, List.mapM_map]
    simp only [Function.comp_def, isHit_shift]

theorem locate_shift : locate (g.shift c) (positions.map (· + c)) = locate g positions := by
  unfold locate
  rw [nearestPositions_shift, TimeGrid.step_shift]
  cases nearestPositions g positions with
  | error e => rfl
  | ok found =>
    simp only [Except.map, Logged.ofExcept, Logged.bind_ok, zip_shift, List.countP_map,
      Function.comp_def, add_sub_add_right_eq_sub, List.map_map]

theorem blank_shift : blank (g.shift c) = blank g := by
  rw [blank, blank, TimeGrid.values_shift, List.map_map]
  rfl

theorem keptSamples_shift (threshold : Rat) (samples : List Rat) :
    keptSamples threshold samples (positions.map (· + c)) =
      (keptSamples threshold samples positions).map fun e => (e.1, e.2 + c) := by
  unfold keptSamples
  rw [List.zip_map_right, List.filter_map]
  rfl

/-- Samples are placed at the indices where they were, and as many of them are reported. -/
theorem place_shift (threshold : Rat) (samples : List Rat) :
    place threshold samples (positions.map (· + c)) (g.shift c) =
      place threshold samples positions g := by
  have hlocate := locate_shift c g ((keptSamples threshold samples positions).map Prod.snd)
  unfold place
  rw [keptSamples_shift, List.length_map, blank_shift]
  simp only [List.map_map, Function.comp_def] at hlocate ⊢
  rw [hlocate]

end

/-! ## Canvases -/

/-- A canvas with its grid moved by `c`. -/
def shift (canvas : Canvas Rat) : Canvas Rat := { canvas with grid := canvas.grid.shift c }

theorem ofSignals_shift (threshold : Rat) (x h : List Rat) (nx nh : TimeGrid Rat) :
    (ofSignals threshold x (nx.shift c) h (nh.shift c)).outcome =
      (ofSignals threshold x nx h nh).outcome.map (shift c) := by
  refine Logged.outcome_bind_map (sharedGrid_shift c nx nh _) fun g => ?_
  simp only [TimeGrid.values_shift, ← List.map_take, place_shift]
  refine Logged.outcome_bind_map_right rfl fun px => Logged.outcome_bind_map_right rfl fun ph => ?_
  rfl

end Canvas

end SteppedConvolution
