import SteppedConvolution.Proofs.TimeGrid.Spacing

/-! # Regular positions

Positions pass the checks on a grid when they increase, in steps that stay within a
tolerance of the first one. Leading positions of such ones are again of this kind, and so
are positions in equal steps, under every tolerance.
-/

namespace SteppedConvolution

namespace Positions

theorem mem_steps_iff {vs : List Rat} {t : Rat} :
    t ∈ steps vs ↔ ∃ k, ∃ hk : k + 1 < vs.length, t = vs[k + 1] - vs[k] := by
  constructor
  · intro ht
    obtain ⟨k, hk, rfl⟩ := List.mem_iff_getElem.1 ht
    have hlt : k + 1 < vs.length := by
      simp only [steps, List.length_zipWith, List.length_tail] at hk
      omega
    exact ⟨k, hlt, by simp [steps]⟩
  · rintro ⟨k, hk, rfl⟩
    exact getElem_mem_steps hk

/-- Positions that increase, in steps that are close to the first one. -/
structure IsRegular (atol : Rat) (vs : List Rat) : Prop where
  ne_nil : vs ≠ []
  increasing : ∀ k, (hk : k + 1 < vs.length) → vs[k] < vs[k + 1]
  uniform : ∀ k, (hk : k + 1 < vs.length) → |vs[k + 1] - vs[k] - (vs[1] - vs[0])| ≤ atol

variable {atol d : Rat} {vs : List Rat}

/-! ## What the checks accept -/

theorem head?_steps (h : 1 < vs.length) : (steps vs).head? = some (vs[1] - vs[0]) := by
  match vs, h with
  | _ :: _ :: _, _ => rfl

theorem hasDescent_eq_false_iff : hasDescent vs = false ↔ ∀ t ∈ steps vs, 0 < t := by
  simp [hasDescent]

theorem isUniform_iff (ha : 0 ≤ atol) :
    isUniform atol vs = true ↔ ∀ t ∈ steps vs, ∀ u ∈ (steps vs).head?, |t - u| ≤ atol := by
  unfold isUniform
  split
  · rename_i hs
    simp only [hs, List.all_eq_true, decide_eq_true_eq, Scalar.magnitude_eq_abs,
      List.head?_cons, Option.mem_some_iff, forall_eq']
  · rename_i hs
    -- a single step is the first one
    rcases h : steps vs with _ | ⟨u, _ | ⟨v, ts⟩⟩
    · simp
    · simpa using ha
    · exact absurd h (hs u v ts)

theorem defect?_eq_none_iff_steps (ha : 0 ≤ atol) : defect? atol vs = none ↔
    vs ≠ [] ∧ (∀ t ∈ steps vs, 0 < t) ∧ ∀ t ∈ steps vs, ∀ u ∈ (steps vs).head?, |t - u| ≤ atol := by
  have hfinite : vs.all Scalar.isFinite = true := by simp [Scalar.isFinite_rat]
  rw [← hasDescent_eq_false_iff, ← isUniform_iff ha]
  by_cases hn : vs = []
  · simp [defect?, hn]
  · by_cases hd : hasDescent vs = true <;> by_cases hu : isUniform atol vs = true <;>
      simp [defect?, hn, hfinite, hd, hu]

/-- The checks on a grid accept regular positions and no others. -/
theorem defect?_eq_none_iff (ha : 0 ≤ atol) : defect? atol vs = none ↔ IsRegular atol vs := by
  rw [defect?_eq_none_iff_steps ha]
  constructor
  · rintro ⟨hn, hpos, hu⟩
    refine ⟨hn, fun k hk => ?_, fun k hk => ?_⟩
    · exact sub_pos.1 (hpos _ (getElem_mem_steps hk))
    · exact hu _ (getElem_mem_steps hk) _ (head?_steps (by omega))
  · intro h
    refine ⟨h.ne_nil, fun t ht => ?_, fun t ht u hu => ?_⟩
    · obtain ⟨k, hk, rfl⟩ := mem_steps_iff.1 ht
      exact sub_pos.2 (h.increasing k hk)
    · obtain ⟨k, hk, rfl⟩ := mem_steps_iff.1 ht
      rw [head?_steps (by omega)] at hu
      exact Option.some.inj hu ▸ h.uniform k hk

/-- What holds of every step and passes to sums holds of the distance between any two
positions. -/
theorem pairwise_of_steps {P : Rat → Prop} (hadd : ∀ {t u}, P t → P u → P (t + u))
    (h : ∀ t ∈ steps vs, P t) : vs.Pairwise fun p q => P (q - p) := by
  induction vs with
  | nil => exact .nil
  | cons a vs ih =>
    cases vs with
    | nil => simp
    | cons b vs =>
      rw [steps_cons_cons, List.forall_mem_cons] at h
      have hrest := ih h.2
      refine List.pairwise_cons.2 ⟨List.forall_mem_cons.2 ⟨h.1, fun q hq => ?_⟩, hrest⟩
      have hq := hadd ((List.pairwise_cons.1 hrest).1 q hq) h.1
      rwa [sub_add_sub_cancel] at hq

/-! ## Positions that are regular -/

theorem IsRegular.take (h : IsRegular atol vs) {n : Nat} (hn : n ≠ 0) :
    IsRegular atol (vs.take n) := by
  refine ⟨?_, fun k hk => ?_, fun k hk => ?_⟩
  · simp [hn, h.ne_nil]
  · have hlt : k + 1 < vs.length := hk.trans_le (List.length_take_le' n vs)
    simpa using h.increasing k hlt
  · have hlt : k + 1 < vs.length := hk.trans_le (List.length_take_le' n vs)
    simpa using h.uniform k hlt

theorem isSpaced_of_getElem {start : Rat} (h : ∀ i, (hi : i < vs.length) → vs[i] = start + i * d) :
    IsSpaced d vs := by
  intro t ht
  obtain ⟨k, hk, rfl⟩ := mem_steps_iff.1 ht
  rw [h, h]
  push_cast
  ring

/-- Positions in equal steps are regular under every tolerance. -/
theorem IsSpaced.isRegular (h : IsSpaced d vs) (hn : vs ≠ []) (hd : 1 < vs.length → 0 < d)
    (ha : 0 ≤ atol) : IsRegular atol vs := by
  refine ⟨hn, fun k hk => ?_, fun k hk => ?_⟩
  · have hpos := hd (by omega)
    rw [← h _ (getElem_mem_steps hk), sub_pos] at hpos
    exact hpos
  · rw [h _ (getElem_mem_steps hk), h _ (getElem_mem_steps (k := 0) (by omega))]
    simpa using ha

end Positions

theorem Support.isSpaced_positions (a b : Rat) (n : Nat) :
    Positions.IsSpaced ((b - a) / (n - 1 : Nat)) (Support.positions a b n) := by
  rcases n with _ | _ | n
  · simp [Positions.IsSpaced, Positions.steps, Support.positions, Support.spread]
  · simp [Positions.IsSpaced, Positions.steps, Support.positions]
  · apply Positions.isSpaced_of_getElem
    intro i hi
    refine Support.getElem_positions ?_ hi (by omega)
    have hz : ((n + 1 + 1 - 1 : Nat) : Rat) ≠ 0 := Nat.cast_ne_zero.2 (by omega)
    rw [mul_div_cancel₀ _ hz, add_sub_cancel]

theorem Range.isSpaced_progression (start d : Rat) (n : Nat) :
    Positions.IsSpaced d (Range.progression start d n) := by
  intro t ht
  obtain ⟨i, hi, rfl⟩ := List.mem_iff_getElem.1 ht
  simp only [Positions.steps, Range.progression, List.getElem_zipWith, List.getElem_tail,
    List.getElem_map, List.getElem_range]
  change start + d * ((i + 1 : Nat) : Rat) - (start + d * (i : Rat)) = d
  push_cast
  ring

theorem Range.head?_progression (start d : Rat) {n : Nat} (hn : 0 < n) :
    (Range.progression start d n).head? = some start := by
  obtain ⟨m, rfl⟩ := Nat.exists_eq_succ_of_ne_zero hn.ne'
  rw [Range.progression, List.range_succ_eq_map]
  change some (start + d * ((0 : Nat) : Rat)) = some start
  simp

namespace TimeGrid

theorem defaultTolerance_nonneg : 0 ≤ (defaultTolerance : Rat) := Scalar.ofDecimal_nonneg 1 (-9)

/-- Regular positions are those of a grid, and no others are. -/
theorem exists_ofValues_iff {atol : Rat} {vs : List Rat} (ha : 0 ≤ atol) :
    (∃ g, ofValues atol vs = .ok g) ↔ Positions.IsRegular atol vs := by
  rw [← Positions.defect?_eq_none_iff ha]
  unfold ofValues
  split
  · simp [*]
  · simp [*]

/-- The positions of a grid increase. -/
theorem pairwise_lt (g : TimeGrid Rat) : g.values.Pairwise (· < ·) :=
  (Positions.pairwise_of_steps (P := (0 < ·)) add_pos fun _ => g.steps_pos).imp sub_pos.1

theorem nodup (g : TimeGrid Rat) : g.values.Nodup := g.pairwise_lt.imp ne_of_lt

/-- All positions lie between the first and the last one. -/
theorem mem_bounds (g : TimeGrid Rat) {p : Rat} (hp : p ∈ g.values) :
    g.start ≤ p ∧ p ≤ g.stop := by
  have hle : g.values.Pairwise (· ≤ ·) := g.pairwise_lt.imp le_of_lt
  exact ⟨hle.rel_head hp, hle.rel_getLast hp⟩

/-- A grid with more than one position goes on behind its start. -/
theorem start_lt_stop (g : TimeGrid Rat) (hg : 1 < g.size) : g.start < g.stop := by
  have hfirst : 0 < g.values.length := g.size_pos
  have hlast : g.size - 1 < g.values.length := Nat.sub_lt g.size_pos one_pos
  have hlt := List.pairwise_iff_getElem.1 g.pairwise_lt 0 (g.size - 1) hfirst hlast (by omega)
  rw [← stop_eq_getElem hlast, ← List.head_eq_getElem g.values_ne_nil] at hlt
  exact hlt

theorem start_le_stop (g : TimeGrid Rat) : g.start ≤ g.stop := by
  by_cases hg : 1 < g.size
  · exact (g.start_lt_stop hg).le
  · have hlast : g.size - 1 < g.values.length := Nat.sub_lt g.size_pos one_pos
    have h0 : g.size - 1 = 0 := by omega
    rw [stop_eq_getElem hlast, start, List.head_eq_getElem]
    simp [h0]

/-- The mean step of a grid is positive. -/
theorem step_pos (g : TimeGrid Rat) : 0 < g.step := by
  by_cases hg : g.size < 2
  · rw [step, if_pos hg]
    exact one_pos
  · rw [step, if_neg hg]
    have hlt := g.start_lt_stop (by omega)
    have hsize : 0 < ((g.size - 1 : Nat) : Rat) := by
      have : 0 < g.size - 1 := by omega
      exact_mod_cast this
    exact div_pos (sub_pos.2 hlt) hsize

end TimeGrid

end SteppedConvolution
