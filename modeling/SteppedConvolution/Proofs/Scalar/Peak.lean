import SteppedConvolution.Proofs.Scalar.Exact

/-! # Peaks

The largest magnitude in a list, over scalars that are in order apart from the undefined
ones. Zeros beside the entries do not change it, and an undefined entry makes it undefined.
-/

namespace SteppedConvolution.Scalar

variable {K : Type} [Scalar K]

/-- Scalars of which the undefined ones are smaller than nothing and the other ones are in a
strict order, with no magnitude below zero. Rationals are such scalars, and so are doubles. -/
class Ordered (K : Type) [Scalar K] : Prop where
  lt_irrefl : ∀ a : K, ¬ a < a
  lt_trans : ∀ {a b c : K}, a < b → b < c → a < c
  not_lt_of_isUndefined : ∀ {a : K}, isUndefined a = true → ∀ b, ¬ a < b
  isUndefined_zero : isUndefined (0 : K) = false
  isUndefined_magnitude : ∀ a : K, isUndefined (magnitude a) = isUndefined a
  magnitude_zero : magnitude (0 : K) = 0
  magnitude_eq_zero : ∀ {a : K}, isUndefined a = false → ¬ 0 < magnitude a → magnitude a = 0

instance : Ordered Rat where
  lt_irrefl := lt_irrefl
  lt_trans := lt_trans
  not_lt_of_isUndefined h := nomatch h
  isUndefined_zero := rfl
  isUndefined_magnitude _ := rfl
  magnitude_zero := by rw [magnitude_eq_abs, abs_zero]
  magnitude_eq_zero := by
    intro a _ h
    rw [magnitude_eq_abs] at h ⊢
    exact le_antisymm (not_lt.1 h) (abs_nonneg a)

/-! ## The largest of several scalars -/

/-- The scalar is one of a list that no other one exceeds. It is undefined if any of them is. -/
structure IsTop (xs : List K) (m : K) : Prop where
  mem : m ∈ xs
  bound : ∀ a ∈ xs, ¬ m < a
  undefined : ∀ a ∈ xs, isUndefined a = true → isUndefined m = true

variable [Ordered K] {xs ys : List K} {m : K}

theorem isTop_singleton (a : K) : IsTop [a] a where
  mem := List.mem_singleton_self a
  bound := by
    simp only [List.mem_singleton, forall_eq]
    exact Ordered.lt_irrefl a
  undefined := by simp

theorem IsTop.joinPeak (h : IsTop xs m) (b : K) : IsTop (xs ++ [b]) (joinPeak m b) := by
  unfold Scalar.joinPeak
  by_cases hm : isUndefined m = true
  · rw [if_pos hm]
    exact ⟨List.mem_append_left _ h.mem, fun a _ => Ordered.not_lt_of_isUndefined hm a,
      fun _ _ _ => hm⟩
  have hdefined (a : K) (ha : a ∈ xs) : ¬ isUndefined a = true := mt (h.undefined a ha) hm
  rw [if_neg hm]
  by_cases hb : isUndefined b = true
  · rw [if_pos hb]
    exact ⟨List.mem_append_right _ (List.mem_singleton_self b),
      fun a _ => Ordered.not_lt_of_isUndefined hb a, fun _ _ _ => hb⟩
  rw [if_neg hb]
  have hundefined (r a : K) (ha : a ∈ xs ++ [b]) (hu : isUndefined a = true) :
      isUndefined r = true := by
    rcases List.mem_append.1 ha with ha | ha
    · exact absurd hu (hdefined a ha)
    · exact absurd (List.mem_singleton.1 ha ▸ hu) hb
  unfold larger
  by_cases hlt : m < b
  · rw [if_pos hlt]
    refine ⟨List.mem_append_right _ (List.mem_singleton_self b), fun a ha hba => ?_, hundefined b⟩
    rcases List.mem_append.1 ha with ha | ha
    · exact h.bound a ha (Ordered.lt_trans hlt hba)
    · exact Ordered.lt_irrefl b (List.mem_singleton.1 ha ▸ hba)
  · rw [if_neg hlt]
    refine ⟨List.mem_append_left _ h.mem, fun a ha hma => ?_, hundefined m⟩
    rcases List.mem_append.1 ha with ha | ha
    · exact h.bound a ha hma
    · exact hlt (List.mem_singleton.1 ha ▸ hma)

theorem IsTop.foldl_joinPeak (h : IsTop xs m) (ys : List K) :
    IsTop (xs ++ ys) (ys.foldl Scalar.joinPeak m) := by
  induction ys generalizing xs m with
  | nil => simpa using h
  | cons b ys ih =>
    rw [List.foldl_cons, ← List.singleton_append, ← List.append_assoc]
    exact ih (h.joinPeak b)

theorem isTop_peak (xs : List K) : IsTop (0 :: xs.map magnitude) (peak xs) :=
  (isTop_singleton 0).foldl_joinPeak (xs.map magnitude)

/-! ## The largest magnitude -/

omit [Ordered K] in
/-- The scalar is the largest magnitude in a list: that of an entry, which no other one exceeds,
and 0 for the empty list. It is undefined if any entry is. -/
structure IsPeak (xs : List K) (m : K) : Prop where
  attained : xs = [] ∧ m = 0 ∨ ∃ a ∈ xs, m = magnitude a
  bound : ∀ a ∈ xs, ¬ m < magnitude a
  undefined : ∀ a ∈ xs, isUndefined a = true → isUndefined m = true

/-- A list with the magnitudes of another one, beside zeros, has its largest magnitude. -/
theorem isPeak_peak (hxs : ∀ a ∈ xs, ∃ b ∈ ys, magnitude b = magnitude a)
    (hys : ∀ b ∈ ys, magnitude b = 0 ∨ ∃ a ∈ xs, magnitude b = magnitude a) :
    IsPeak xs (peak ys) := by
  have htop := isTop_peak ys
  have hmem {a : K} (ha : a ∈ xs) : magnitude a ∈ 0 :: ys.map magnitude := by
    obtain ⟨b, hb, hab⟩ := hxs a ha
    exact List.mem_cons_of_mem _ (hab ▸ List.mem_map_of_mem hb)
  have hundefined (a : K) (ha : a ∈ xs) (hu : isUndefined a = true) :
      isUndefined (peak ys) = true :=
    htop.undefined _ (hmem ha) ((Ordered.isUndefined_magnitude a).trans hu)
  -- a peak of zero is attained as well: no magnitude exceeds it, and none is below
  have hzero (h0 : peak ys = 0) : xs = [] ∧ peak ys = 0 ∨ ∃ a ∈ xs, peak ys = magnitude a := by
    by_cases hn : xs = []
    · exact .inl ⟨hn, h0⟩
    · obtain ⟨a, ha⟩ := List.exists_mem_of_ne_nil xs hn
      have hdefined : isUndefined a = false := by
        rw [Bool.eq_false_iff]
        intro hu
        have := hundefined a ha hu
        rw [h0, Ordered.isUndefined_zero] at this
        cases this
      have hnot := htop.bound _ (hmem ha)
      rw [h0] at hnot ⊢
      exact .inr ⟨a, ha, (Ordered.magnitude_eq_zero hdefined hnot).symm⟩
  refine ⟨?_, fun a ha => htop.bound _ (hmem ha), hundefined⟩
  rcases List.mem_cons.1 htop.mem with h0 | hm
  · exact hzero h0
  · obtain ⟨b, hb, hbp⟩ := List.mem_map.1 hm
    rcases hys b hb with h0 | ⟨a, ha, hba⟩
    · exact hzero (hbp.symm.trans h0)
    · exact .inr ⟨a, ha, hbp.symm.trans hba⟩

/-- Zeros behind the entries do not change their largest magnitude. -/
theorem isPeak_append_replicate (xs : List K) (n : Nat) :
    IsPeak xs (peak (xs ++ List.replicate n 0)) := by
  refine isPeak_peak (fun a ha => ⟨a, List.mem_append_left _ ha, rfl⟩) fun b hb => ?_
  rcases List.mem_append.1 hb with hb | hb
  · exact .inr ⟨b, hb, rfl⟩
  · rw [List.eq_of_mem_replicate hb]
    exact .inl Ordered.magnitude_zero

theorem isPeak_self (xs : List K) : IsPeak xs (peak xs) :=
  isPeak_peak (fun a ha => ⟨a, ha, rfl⟩) fun b hb => .inr ⟨b, hb, rfl⟩

/-! ## Exact peaks -/

theorem IsPeak.nonneg {xs : List Rat} {m : Rat} (h : IsPeak xs m) : 0 ≤ m := by
  rcases h.attained with ⟨-, rfl⟩ | ⟨a, -, rfl⟩
  · exact le_refl 0
  · rw [magnitude_eq_abs]
    exact abs_nonneg a

theorem IsPeak.abs_le {xs : List Rat} {m : Rat} (h : IsPeak xs m) {a : Rat} (ha : a ∈ xs) :
    |a| ≤ m := by
  rw [← magnitude_eq_abs]
  exact not_lt.1 (h.bound a ha)

/-- More entries have no smaller peak. -/
theorem IsPeak.le_of_subset {xs ys : List Rat} {m n : Rat} (hx : IsPeak xs m) (hy : IsPeak ys n)
    (hsub : xs ⊆ ys) : m ≤ n := by
  rcases hx.attained with ⟨-, rfl⟩ | ⟨a, ha, rfl⟩
  · exact hy.nonneg
  · rw [magnitude_eq_abs]
    exact hy.abs_le (hsub ha)

theorem IsPeak.eq_peak {xs : List Rat} {m : Rat} (h : IsPeak xs m) : m = peak xs :=
  le_antisymm (h.le_of_subset (isPeak_self xs) fun _ => id)
    ((isPeak_self xs).le_of_subset h fun _ => id)

end SteppedConvolution.Scalar
