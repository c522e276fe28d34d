import SteppedConvolution.Proofs.Canvas.Closest

/-! # Values near a position

What a look-up finds is told by distances alone. On a grid in equal steps at most one position is
less than half a step away from a number; the look-up gives its value, and 0 where there is none,
between two positions, beyond an end or beside a single position.
-/

namespace SteppedConvolution.Canvas

variable {g : TimeGrid Rat} {d p v : Rat} {values : List Rat} {j k : Nat}

/-- Two whole numbers within half of one number are the same. -/
theorem eq_of_abs_sub_lt_half {y z : Int} {q : Rat} (hy : |(y : Rat) - q| < 1 / 2)
    (hz : |(z : Rat) - q| < 1 / 2) : y = z := by
  have hlt : |((y - z : Int) : Rat)| < 1 := by
    rw [abs_lt] at hy hz ⊢
    push_cast
    constructor <;> linarith
  have hzero : y - z = 0 := Int.abs_lt_one_iff.1 (by exact_mod_cast hlt)
  exact sub_eq_zero.1 hzero

theorem abs_index_sub_lt_half_iff (hd : 0 < d) (start : Rat) (k : Nat) (p : Rat) :
    |((k : Int) : Rat) - (p - start) / d| < 1 / 2 ↔ |start + k * d - p| < d / 2 := by
  rw [abs_position_sub hd, Int.cast_natCast, ← mul_lt_mul_iff_left₀ hd, one_div_mul_eq_div]

/-- The grid position with an index is less than half a step away from a number. -/
def Near (g : TimeGrid Rat) (p : Rat) (j : Nat) : Prop :=
  ∃ v, g.values[j]? = some v ∧ |v - p| < g.step / 2

/-- Two positions near one number are the same. -/
theorem Near.eq (hs : g.Spaced g.step) (hj : Near g p j) (hk : Near g p k) : j = k := by
  obtain ⟨v, hv, hvp⟩ := hj
  obtain ⟨w, hw, hwp⟩ := hk
  obtain ⟨hjl, rfl⟩ := List.getElem?_eq_some_iff.1 hv
  obtain ⟨hkl, rfl⟩ := List.getElem?_eq_some_iff.1 hw
  rw [hs.getElem, ← abs_index_sub_lt_half_iff g.step_pos] at hvp hwp
  exact Int.ofNat.inj (eq_of_abs_sub_lt_half hvp hwp)

/-- No position of a grid, which may be its only one, is closer to a number than the one that is
looked up for it. -/
theorem distance_le_of_mem (hs : g.Spaced d) (hv : v ∈ g.values) (p : Rat) :
    distance g p ≤ |v - p| := by
  by_cases hg : 1 < g.size
  · exact distance_le hg hs hv p
  · obtain ⟨i, hi, rfl⟩ := List.mem_iff_getElem.1 hv
    have hslot := slot_lt g p
    have hi0 : i = slot g p := by
      have : i < g.size := hi
      omega
    rw [distance, ← hi0, List.getD_eq_getElem _ _ hi]

theorem near_slot_iff (p : Rat) : Near g p (slot g p) ↔ distance g p < g.step / 2 := by
  have hlt : slot g p < g.values.length := slot_lt g p
  rw [Near, distance, List.getD_eq_getElem _ _ hlt, List.getElem?_eq_getElem hlt]
  simp

/-- The position that is near a number is the one that is looked up for it. -/
theorem Near.eq_slot (hs : g.Spaced g.step) (hj : Near g p j) : j = slot g p := by
  refine hj.eq hs ((near_slot_iff p).2 ?_)
  obtain ⟨v, hv, hvp⟩ := hj
  exact (distance_le_of_mem hs (List.mem_of_getElem? hv) p).trans_lt hvp

/-- A value that is read at a number: that of the position near it, 0 where there is none. -/
structure Reads (values : List Rat) (g : TimeGrid Rat) (p y : Rat) : Prop where
  near : ∀ j, Near g p j → values[j]? = some y
  far : (∀ j, ¬ Near g p j) → y = 0

/-- The value of the closest position if it is near, else 0. -/
def valueNear (values : List Rat) (g : TimeGrid Rat) (p : Rat) : Rat :=
  if distance g p < g.step / 2 then values.getD (slot g p) 0 else 0

theorem reads_valueNear (hs : g.Spaced g.step) (hv : values.length = g.size) (p : Rat) :
    Reads values g p (valueNear values g p) := by
  have hlt : slot g p < values.length := hv ▸ slot_lt g p
  unfold valueNear
  split
  · rename_i hnear
    refine ⟨fun j hj => ?_, fun hfar => absurd ((near_slot_iff p).2 hnear) (hfar _)⟩
    rw [hj.eq_slot hs, List.getD_eq_getElem _ _ hlt, List.getElem?_eq_getElem hlt]
  · rename_i hfar
    refine ⟨fun j hj => absurd ?_ hfar, fun _ => rfl⟩
    exact (near_slot_iff p).1 (hj.eq_slot hs ▸ hj)

/-- A look-up reads the value near each position. -/
theorem sampleAt_eq (hs : g.Spaced d) (hv : values.length = g.size) (positions : List Rat) :
    sampleAt values g positions = .ok (positions.map (valueNear values g)) := by
  unfold sampleAt
  rw [nearestPositions_eq hs positions]
  change (positions.zip (positions.map _)).mapM _ = _
  conv_lhs => rw [← List.map_id positions, List.map_map, List.zip_map']
  apply mapM_map_eq_ok
  intro p _
  have hlt : slot g p < values.length := hv ▸ slot_lt g p
  simp only [List.getElem?_toArray, List.getElem?_eq_getElem hlt, Fault.require, Except.map,
    Function.comp_apply, id_eq, isHit, Scalar.half_eq, Scalar.magnitude_eq_abs, decide_eq_true_eq]
  rw [valueNear, distance_eq hs, List.getD_eq_getElem _ _ hlt]

/-- On a grid in equal steps a look-up gives at each position the value of the one grid position
that is less than half a step away, and 0 where there is none. The index that is looked up for a
number is that of a grid position to which no other one is closer. -/
theorem sampleAt_reads (hs : g.Spaced g.step) (hv : values.length = g.size)
    (positions : List Rat) :
    (∃ ys, sampleAt values g positions = .ok ys ∧ List.Forall₂ (Reads values g) positions ys) ∧
      (∀ p j k, Near g p j → Near g p k → j = k) ∧
      ∀ p, ∃ i v, nearestIndex g p = some i ∧ g.values[i]? = some v ∧
        ∀ w ∈ g.values, |v - p| ≤ |w - p| := by
  refine ⟨⟨_, sampleAt_eq hs hv positions, ?_⟩, fun p j k hj hk => hj.eq hs hk, fun p => ?_⟩
  · rw [List.forall₂_map_right_iff, List.forall₂_same]
    exact fun p _ => reads_valueNear hs hv p
  · have hlt : slot g p < g.values.length := slot_lt g p
    refine ⟨_, _, nearestIndex_eq_slot g p, List.getElem?_eq_getElem hlt, fun w hw => ?_⟩
    have hle := distance_le_of_mem hs hw p
    rwa [distance, List.getD_eq_getElem _ _ hlt] at hle

/-- Between two positions, near one, far in front of the grid and at its end. -/
theorem sampleAt_reads_halves :
    let g : TimeGrid Rat := ⟨[3, 7 / 2, 4], 0, by decide +kernel⟩
    let values : List Rat := [5, 6, 7]
    let positions : List Rat := [13 / 4, 18 / 5, -10, 4]
    g.Spaced g.step ∧ values.length = g.size ∧
      sampleAt values g positions = .ok [0, 6, 0, 7] ∧
        List.Forall₂ (Reads values g) positions [0, 6, 0, 7] := by
  intro g values positions
  have hs : g.Spaced g.step := by unfold TimeGrid.Spaced Positions.IsSpaced; decide +kernel
  have hv : values.length = g.size := rfl
  obtain ⟨⟨ys, hys, hreads⟩, -, -⟩ := sampleAt_reads hs hv positions
  have hvalue : (sampleAt values g positions).toOption = some [0, 6, 0, 7] := by decide +kernel
  rw [hys] at hvalue
  obtain rfl := Option.some.inj hvalue
  exact ⟨hs, hv, hys, hreads⟩

end SteppedConvolution.Canvas
