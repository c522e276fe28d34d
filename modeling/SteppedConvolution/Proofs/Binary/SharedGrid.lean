import SteppedConvolution.Proofs.Binary.Comparison
import SteppedConvolution.Proofs.Binary.Progression
import SteppedConvolution.Proofs.Canvas.Lookup
import SteppedConvolution.Proofs.Session.Opening

/-! # Shared grids of doubles

The step of a shared grid of doubles is finite and not zero: the checks on the grid keep its
span in range. So every number has a closest position on the grid.
-/

namespace SteppedConvolution

namespace Binary

/-! ## Positions of a progression -/

/-- A progression of doubles that passes the checks on a grid. -/
structure Checked (start step : Float) (n : Nat) : Prop where
  admissible :
    Positions.defect? TimeGrid.defaultTolerance (Range.progression start step (n + 1)) = none
  start_finite : ∃ x, units start = some x

namespace Checked

variable {start step : Float} {n : Nat}

/-- Position `k` of a progression of doubles. -/
def position (start step : Float) (k : Nat) : Float := start + step * Float.ofNat k

theorem getElem_progression {k : Nat} (hk : k < (Range.progression start step (n + 1)).length) :
    (Range.progression start step (n + 1))[k] = position start step k := by
  simp only [Range.progression, List.getElem_map, List.getElem_range]
  rfl

theorem length_progression : (Range.progression start step (n + 1)).length = n + 1 := by
  rw [Range.progression, List.length_map, List.length_range]

theorem finite (h : Checked start step n) {k : Nat} (hk : k ≤ n) :
    ∃ x, units (position start step k) = some x := by
  have hlt : k < (Range.progression start step (n + 1)).length := by
    rw [length_progression]
    omega
  rw [← isFinite_iff, ← getElem_progression hlt]
  exact List.all_eq_true.1 (Positions.defect?_eq_none h.admissible).1 _ (List.getElem_mem hlt)

theorem not_gap_le_zero (h : Checked start step n) {k : Nat} (hk : k < n) :
    ¬ position start step (k + 1) - position start step k ≤ 0 := by
  have hlt : k + 1 < (Range.progression start step (n + 1)).length := by
    rw [length_progression]
    omega
  have := Positions.not_step_le_zero h.admissible hlt
  rwa [getElem_progression, getElem_progression] at this

theorem gap_sub_le (h : Checked start step n) (hn : 2 ≤ n) {k : Nat} (hk : k < n) :
    Scalar.magnitude (position start step (k + 1) - position start step k -
      (position start step 1 - position start step 0)) ≤ TimeGrid.defaultTolerance := by
  have hlt : k + 1 < (Range.progression start step (n + 1)).length := by
    rw [length_progression]
    omega
  have := Positions.step_sub_le h.admissible (by rw [length_progression]; omega) hlt
  simpa only [getElem_progression] using this

theorem finite_product (h : Checked start step n) {k : Nat} (hk : k ≤ n) :
    ∃ x, units (step * Float.ofNat k) = some x := by
  obtain ⟨x, hx⟩ := h.finite hk
  cases hp : units (step * Float.ofNat k) with
  | some y => exact ⟨y, rfl⟩
  | none => cases (units_add_none hp).symm.trans hx

theorem finite_step (h : Checked start step n) : ∃ x, units step = some x := by
  obtain ⟨x, hx⟩ := h.finite_product (Nat.zero_le n)
  cases hp : units step with
  | some y => exact ⟨y, rfl⟩
  | none => cases (units_mul_none hp).symm.trans hx

/-- From the first count that is not exact on, positions would repeat. -/
theorem le_two_pow (h : Checked start step n) : n ≤ 2 ^ 53 := by
  by_contra hn
  have hk : 2 ^ 53 < n := not_le.1 hn
  obtain ⟨x, hx⟩ := h.finite hk.le
  refine h.not_gap_le_zero hk ?_
  have hsame : position start step (2 ^ 53 + 1) = position start step (2 ^ 53) := by
    unfold position
    rw [ofNat_collision]
  have hzero := units_sub hx hx
  rw [hsame]
  rw [sub_self, rounded_zero, fit_zero] at hzero
  exact (le_zero_iff hzero).2 (le_refl 0)

variable {a s : Int}

theorem units_position (h : Checked start step n) (ha : units start = some a)
    (hs : units step = some s) {k : Nat} (hk : k ≤ n) :
    |rounded (s * k)| < limit ∧ |place a s k| < limit ∧
      units (position start step k) = some (place a s k) := by
  obtain ⟨y, hy⟩ := h.finite_product hk
  have hprod := units_mul hs (units_ofNat (hk.trans h.le_two_pow)) (z := s * k) (by
    push_cast
    ring)
  obtain ⟨hprodlt, rfl⟩ := fit_eq_some_iff.1 (hprod.symm.trans hy)
  obtain ⟨x, hx⟩ := h.finite hk
  have hsum := units_add ha hy
  obtain ⟨hsumlt, rfl⟩ := fit_eq_some_iff.1 (hsum.symm.trans hx)
  exact ⟨hprodlt, hsumlt, hx⟩

theorem units_gap (h : Checked start step n) (ha : units start = some a)
    (hs : units step = some s) {k : Nat} (hk : k < n) :
    units (position start step (k + 1) - position start step k) =
      fit (rounded (place a s (k + 1) - place a s k)) :=
  units_sub (h.units_position ha hs hk).2.2 (h.units_position ha hs hk.le).2.2

/-- With more than one step the rounded steps are finite, positive and close to the first one. -/
theorem gap_facts (h : Checked start step n) (ha : units start = some a)
    (hs : units step = some s) (hn : 2 ≤ n) {k : Nat} (hk : k < n) :
    place a s k < place a s (k + 1) ∧
      |rounded (rounded (place a s (k + 1) - place a s k) -
        rounded (place a s 1 - place a s 0))| < 2 ^ (53 + 992) := by
  have hfinite (j : Nat) (hj : j < n) :
      units (position start step (j + 1) - position start step j) =
        some (rounded (place a s (j + 1) - place a s j)) := by
    obtain ⟨z, hz, -⟩ := le_defaultTolerance (h.gap_sub_le hn hj)
    have hgap := h.units_gap ha hs hj
    cases hd : units (position start step (j + 1) - position start step j) with
    | none => cases (units_sub_none hd).symm.trans hz
    | some d =>
      rw [hgap] at hd
      rw [(fit_eq_some_iff.1 hd).2]
  obtain ⟨z, hz, hzlt⟩ := le_defaultTolerance (h.gap_sub_le hn hk)
  have hdiff := units_sub (hfinite k hk) (hfinite 0 (by omega))
  obtain ⟨-, rfl⟩ := fit_eq_some_iff.1 (hdiff.symm.trans hz)
  refine ⟨?_, hzlt⟩
  have hpos := mt (le_zero_iff (hfinite k hk)).2 (h.not_gap_le_zero hk)
  exact sub_pos.1 (rounded_pos_iff.1 (not_le.1 hpos))

theorem spaced (h : Checked start step n) (ha : units start = some a)
    (hs : units step = some s) (hn : 2 ≤ n) : Spaced 2044 a s n := by
  obtain ⟨hprod, hplace, -⟩ := h.units_position ha hs (le_refl n)
  rw [limit_eq] at hprod hplace
  exact ⟨hn, h.le_two_pow, rounded_units ha, rounded_units hs, hprod, hplace,
    fun k hk => (h.gap_facts ha hs hn hk).1, fun k hk => (h.gap_facts ha hs hn hk).2⟩

/-- Rounding keeps the order to small counts. -/
theorem natCast_le_rounded {x : Int} (hn : n ≤ 2 ^ 53) (hx : n ≤ x) : n ≤ rounded x := by
  rcases lt_or_ge x (2 ^ 53) with hlt | hge
  · rw [rounded_eq_self (a := 0)]
    · exact hx
    · rw [abs_of_nonneg (le_trans (Int.natCast_nonneg n) hx)]
      exact hlt
    · exact one_dvd x
  · exact le_trans (by exact_mod_cast hn) (pow_le_rounded hge)

theorem natCast_le_span (h : Checked start step n) (ha : units start = some a)
    (hs : units step = some s) (hn : 2 ≤ n) : n ≤ place a s n - a := by
  have hplace (k : Nat) (hk : k ≤ n) : k ≤ place a s k - a := by
    induction k with
    | zero => simp [place_zero (rounded_units ha)]
    | succ k ih =>
      have := (h.gap_facts ha hs hn hk).1
      have := ih (by omega)
      push_cast
      omega
  exact hplace n (le_refl n)

theorem step_pos_of_two_le (h : Checked start step n) (hn : 2 ≤ n) :
    ∃ y, 0 < y ∧
      units ((position start step n - position start step 0) / Float.ofNat n) = some y := by
  obtain ⟨a, ha⟩ := h.start_finite
  obtain ⟨s, hs⟩ := h.finite_step
  have hspan := h.natCast_le_span ha hs hn
  have hlt := rounded_lt (x := place a s n - a) (a := topPlace) (by
    rw [abs_of_nonneg (le_trans (Int.natCast_nonneg n) hspan)]
    exact (h.spaced ha hs hn).span_lt (by decide))
  rw [← limit_eq] at hlt
  have hunits := units_sub (h.units_position ha hs (le_refl n)).2.2
    (h.units_position ha hs (Nat.zero_le n)).2.2
  rw [place_zero (rounded_units ha), fit_eq_some hlt] at hunits
  refine units_div hunits (units_ofNat h.le_two_pow) (by omega)
    (natCast_le_rounded h.le_two_pow hspan) ?_
  have hself := (le_abs_self _).trans_lt hlt
  have htwo : (2 : Int) * limit ≤ n * limit :=
    mul_le_mul_of_nonneg_right (by exact_mod_cast hn) (Int.natCast_nonneg _)
  omega

theorem unity_le : (unity : Int) ≤ 2 ^ topPlace := by
  rw [unity_eq]
  exact pow_le_pow_right₀ (by norm_num) (by decide)

/-- A single step by 1 leaves the span small. -/
theorem step_pos_of_one (h : Checked start step 1) (hs : units step = some unity) :
    ∃ y, 0 < y ∧
      units ((position start step 1 - position start step 0) / Float.ofNat 1) = some y := by
  obtain ⟨a, ha⟩ := h.start_finite
  obtain ⟨-, hplace, hone⟩ := h.units_position ha hs (le_refl 1)
  have hunity := unity_le
  have hpos : (0 : Int) < 2 ^ topPlace := by positivity
  have htop : (2 : Int) ^ (53 + topPlace) = 2 ^ 53 * 2 ^ topPlace := pow_add ..
  have hvalue : place a unity 1 = rounded (a + unity) := by
    rw [place, Nat.cast_one, mul_one, rounded_units hs]
  rw [hvalue] at hplace hone
  rw [limit_eq] at hplace
  have hsum := lt_of_rounded_lt hplace
  have herror := rounded_error (x := a + unity) (a := topPlace) (by omega)
  have hspan : |rounded (a + unity) - a| ≤ 2 * 2 ^ topPlace := by
    rw [abs_le]
    omega
  have hlt := rounded_lt (x := rounded (a + unity) - a) (a := topPlace) (by omega)
  have hspanerror := rounded_error (x := rounded (a + unity) - a) (a := topPlace) (by omega)
  rw [← limit_eq] at hlt
  have hunits := units_sub hone (h.units_position ha hs (Nat.zero_le 1)).2.2
  rw [place_zero (rounded_units ha), fit_eq_some hlt] at hunits
  have hincrease := not_le.1 (mt (le_zero_iff hunits).2 (h.not_gap_le_zero one_pos))
  refine units_div hunits (units_ofNat (by decide)) one_pos hincrease ?_
  have hself := le_abs_self (rounded (a + unity) - a)
  rw [Nat.cast_one, one_mul, limit_eq]
  omega

end Checked

/-! ## Shared grids -/

open Canvas

theorem finite_start (g : TimeGrid Float) : ∃ x, units g.start = some x :=
  (isFinite_iff _).1 (g.isFinite_of_mem (List.head_mem g.values_ne_nil))

theorem finite_smaller (g l : TimeGrid Float) :
    ∃ x, units (Scalar.smaller g.start l.start) = some x := by
  unfold Scalar.smaller
  split
  · exact finite_start l
  · exact finite_start g

/-- A shared grid is a progression that passes the checks. -/
theorem checked_of_sharedGrid {nx nh g : TimeGrid Float} {n : Nat}
    (h : sharedGrid nx nh ((nx.size : Int) + nh.size - 1) = .ok g) (hn : g.size = n + 1) :
    Checked (Scalar.smaller nx.start nh.start) (sharedStep nx nh) n := by
  obtain ⟨hadmissible, -, hvalues⟩ := sharedGrid_eq_ok h
  rw [hn] at hvalues
  rw [hvalues] at hadmissible
  exact ⟨hadmissible, finite_smaller nx nh⟩

/-- The step of a shared grid is finite and positive. -/
theorem units_step_pos {nx nh g : TimeGrid Float}
    (h : sharedGrid nx nh ((nx.size : Int) + nh.size - 1) = .ok g) (hg : g.size ≠ 1) :
    ∃ y, 0 < y ∧ units g.step = some y := by
  obtain ⟨-, hroom, hvalues⟩ := sharedGrid_eq_ok h
  obtain ⟨n, hn⟩ := Nat.exists_eq_succ_of_ne_zero g.size_pos.ne'
  have hchecked := checked_of_sharedGrid h hn
  rw [hn] at hvalues
  have hstep : g.step = (Checked.position (Scalar.smaller nx.start nh.start) (sharedStep nx nh) n -
      Checked.position (Scalar.smaller nx.start nh.start) (sharedStep nx nh) 0) / Float.ofNat n := by
    have hlength : g.values.length = n + 1 := hn
    have hstart : g.start = g.values[0] := List.head_eq_getElem _
    have hstop : g.stop = g.values[g.values.length - 1] := List.getLast_eq_getElem _
    unfold TimeGrid.step
    rw [if_neg (by omega), hstart, hstop, hn]
    simp only [hvalues, Checked.getElem_progression, Checked.length_progression,
      Nat.add_sub_cancel]
    rfl
  rw [hstep]
  by_cases htwo : 2 ≤ n
  · exact hchecked.step_pos_of_two_le htwo
  · obtain rfl : n = 1 := by omega
    refine hchecked.step_pos_of_one ?_
    have := nx.size_pos
    have := nh.size_pos
    have hx : ¬ 1 < nx.size := by omega
    have hh : ¬ 1 < nh.size := by omega
    unfold sharedStep
    rw [if_neg hx, if_neg hh]
    decide +kernel

/-- Every number has a closest position on a shared grid of doubles. -/
instance : Canvas.Indexed Float where
  nearestIndex_ne_none := by
    intro nx nh g h p q hp hq
    unfold nearestIndex indexOf
    split
    · exact Option.some_ne_none 0
    · rename_i hg
      obtain ⟨x, hp⟩ := (isFinite_iff p).1 hp
      obtain ⟨y, hq⟩ := (isFinite_iff q).1 hq
      obtain ⟨a, ha⟩ := finite_start g
      obtain ⟨d, hpos, hd⟩ := units_step_pos h hg
      have hshift := parts_sub_ne_notANumber (parts_ne_notANumber hp) hq
      exact clampBelow_nearest_ne_none
        (parts_div_ne_notANumber (parts_sub_ne_notANumber hshift ha) hd hpos.ne') _

end Binary

end SteppedConvolution
