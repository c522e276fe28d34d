import SteppedConvolution.Proofs.Binary.Rounding

/-! # Rounded progressions

The positions of a grid are rounded twice: the multiples of the step, and their sums with the
start. Where the rounded differences of neighbours agree, the span of the grid does not exceed
the range that all of its positions are in.
-/

namespace SteppedConvolution.Binary

/-- Position `k` of a progression. -/
def place (start step : Int) (k : Nat) : Int := rounded (start + rounded (step * k))

theorem place_zero {start : Int} (h : rounded start = start) (step : Int) :
    place start step 0 = start := by
  rw [place, Nat.cast_zero, mul_zero, rounded_zero, add_zero, h]

/-- What the checks on a grid say about a progression in a range of `54 + t` digits. -/
structure Spaced (t : Nat) (start step : Int) (n : Nat) : Prop where
  two_le : 2 ≤ n
  le : n ≤ 2 ^ 53
  start_eq : rounded start = start
  step_eq : rounded step = step
  product_lt : |rounded (step * n)| < 2 ^ (53 + (t + 1))
  place_lt : |place start step n| < 2 ^ (53 + (t + 1))
  increasing : ∀ k < n, place start step k < place start step (k + 1)
  uniform : ∀ k < n, |rounded (rounded (place start step (k + 1) - place start step k) -
    rounded (place start step 1 - place start step 0))| < 2 ^ (53 + 992)

namespace Spaced

variable {t n : Nat} {start step : Int}

theorem two_pow_top (t : Nat) : (2 : Int) ^ (53 + (t + 1)) = 2 ^ 54 * 2 ^ t := by
  rw [← pow_add]
  congr 1
  omega

/-- A span beyond the range takes the largest product and the largest error. -/
structure Overflows (t : Nat) (start step : Int) (n : Nat) : Prop where
  low : 2 ^ 54 * 2 ^ t - 3 * 2 ^ t ≤ step * n
  high : step * n < 2 ^ 54 * 2 ^ t - 2 ^ t
  last : rounded (step * n) = 2 ^ 54 * 2 ^ t - 2 * 2 ^ t
  span : place start step n - start = 2 ^ 54 * 2 ^ t - 2 ^ t

theorem overflows (h : Spaced t start step n)
    (hover : 2 ^ 54 * 2 ^ t ≤ place start step n - start + 2 ^ t) :
    Overflows t start step n := by
  have htop := two_pow_top t
  have hdouble : (2 : Int) ^ (t + 1) = 2 * 2 ^ t := pow_succ' ..
  have hpos : (0 : Int) < 2 ^ t := by positivity
  have hsum := lt_of_rounded_lt h.place_lt
  have hsumerror := rounded_error (x := start + rounded (step * n)) (a := t + 1) (by omega)
  have hprod := lt_of_rounded_lt h.product_lt
  have hproderror := rounded_error (x := step * n) (a := t + 1) (by omega)
  have hself := le_abs_self (step * n)
  have hplace : place start step n = rounded (start + rounded (step * n)) := rfl
  have hlt := (le_abs_self _).trans_lt h.product_lt
  have hlow : (2 : Int) ^ (52 + (t + 1)) ≤ |step * n| := by
    have : (2 : Int) ^ (52 + (t + 1)) = 2 ^ 53 * 2 ^ t := by
      rw [← pow_add]
      congr 1
      omega
    omega
  -- the rounded product is twice a multiple of `2 ^ t`, and only the largest one in range is enough
  obtain ⟨z, hz⟩ := dvd_rounded_of_le hlow
  rw [hdouble, mul_assoc] at hz
  have hzlt : z < 2 ^ 53 := by
    by_contra hbig
    have : 2 ^ t * 2 ^ 53 ≤ 2 ^ t * z := mul_le_mul_of_nonneg_left (not_lt.1 hbig) hpos.le
    omega
  have hzle : 2 ^ t * z ≤ 2 ^ t * (2 ^ 53 - 1) := mul_le_mul_of_nonneg_left (by omega) hpos.le
  constructor <;> omega

theorem dvd_start (h : Spaced t start step n) (ho : Overflows t start step n) :
    (2 : Int) ^ t ∣ start := by
  have hpos : (0 : Int) < 2 ^ t := by positivity
  have hlow : (2 : Int) ^ (52 + t) = 2 ^ 52 * 2 ^ t := pow_add ..
  have hspan := ho.span
  rcases le_or_gt (2 ^ (52 + t)) |start| with hlarge | hsmall
  · rw [← h.start_eq]
    exact dvd_rounded_of_le hlarge
  · -- a small start is the difference of the last position and the span, both multiples
    have hself := (abs_lt.1 hsmall).1
    have hsum : 2 ^ (52 + t) ≤ |start + rounded (step * n)| := by
      have := le_abs_self (start + rounded (step * n))
      rw [ho.last] at this ⊢
      omega
    have hplace : (2 : Int) ^ t ∣ place start step n := dvd_rounded_of_le hsum
    have hstart : start = place start step n - (2 ^ 54 - 1) * 2 ^ t := by linarith
    rw [hstart]
    exact dvd_sub hplace (dvd_mul_left _ _)

theorem step_pos (ho : Overflows t start step n) : 0 < step := by
  have hpos : (0 : Int) < 2 ^ t := by positivity
  have hlow := ho.low
  by_contra hneg
  have : step * n ≤ 0 := mul_nonpos_of_nonpos_of_nonneg (not_lt.1 hneg) (Int.natCast_nonneg n)
  omega

theorem excess_step_le (h : Spaced t start step n) (ho : Overflows t start step n) :
    excess step ≤ t := by
  have hpos : (0 : Int) < 2 ^ t := by positivity
  have hhigh := ho.high
  have htwo : step * 2 ≤ step * n :=
    mul_le_mul_of_nonneg_left (by exact_mod_cast h.two_le) (step_pos ho).le
  have hlow : (2 : Int) ^ (53 + t) = 2 ^ 53 * 2 ^ t := pow_add ..
  refine excess_le_of_lt ?_
  rw [abs_of_pos (step_pos ho)]
  omega

theorem le_excess_step (h : Spaced t start step n) (ho : Overflows t start step n) :
    t < 53 + excess step := by
  have hpos : (0 : Int) < 2 ^ t := by positivity
  have hlow := ho.low
  have hcount : step * n ≤ step * 2 ^ 53 :=
    mul_le_mul_of_nonneg_left (by exact_mod_cast h.le) (step_pos ho).le
  have hlt := abs_lt_two_pow step
  rw [abs_of_pos (step_pos ho)] at hlt
  have hstep : 2 ^ t < (2 : Int) ^ (53 + excess step) := by omega
  exact (pow_lt_pow_iff_right₀ (by norm_num)).1 hstep

theorem dvd_step (h : Spaced t start step n) : (2 : Int) ^ excess step ∣ step := by
  have : (2 : Int) ^ excess step ∣ rounded step := Dvd.intro_left _ rfl
  rwa [h.step_eq] at this

theorem dvd_place (h : Spaced t start step n) (ho : Overflows t start step n) (k : Nat) :
    (2 : Int) ^ excess step ∣ place start step k := by
  have hstart := (pow_dvd_pow 2 (excess_step_le h ho)).trans (dvd_start h ho)
  exact dvd_rounded (dvd_add hstart (dvd_rounded ((dvd_step h).mul_right _)))

/-- Neighbours differ by the same rounded amount. -/
theorem gap_eq (h : Spaced t start step n) (ho : Overflows t start step n) (ht : 1097 ≤ t)
    {k : Nat} (hk : k < n) :
    rounded (place start step (k + 1) - place start step k) =
      rounded (place start step 1 - place start step 0) := by
  have hgap (j : Nat) : (2 : Int) ^ (53 + 992) ∣
      rounded (place start step (j + 1) - place start step j) := by
    have hexcess : 53 + 992 ≤ excess step := by
      have := le_excess_step h ho
      omega
    exact dvd_rounded ((pow_dvd_pow 2 hexcess).trans
      (dvd_sub (dvd_place h ho (j + 1)) (dvd_place h ho j)))
  have hdiff := dvd_rounded (dvd_sub (hgap k) (hgap 0))
  have hzero := eq_zero_of_rounded (Int.eq_zero_of_abs_lt_dvd hdiff (h.uniform k hk))
  exact sub_eq_zero.1 hzero

theorem dvd_gap (h : Spaced t start step n) (ho : Overflows t start step n) (k : Nat) :
    (2 : Int) ^ excess step ∣ place start step (k + 1) - place start step k :=
  dvd_sub (dvd_place h ho (k + 1)) (dvd_place h ho k)

theorem rounded_gap_eq_self (h : Spaced t start step n) (ho : Overflows t start step n) {k : Nat}
    (hk : k < n)
    (hlt : place start step (k + 1) - place start step k < 2 ^ (53 + excess step)) :
    rounded (place start step (k + 1) - place start step k) =
      place start step (k + 1) - place start step k := by
  have hpos := sub_pos.2 (h.increasing k hk)
  rw [← abs_of_pos hpos] at hlt
  exact rounded_eq_self hlt (dvd_gap h ho k)

/-- Multiples of a number that differ, differ by at least that number. -/
theorem add_le_of_dvd {a x y : Int} (hx : a ∣ x) (hy : a ∣ y) (h : x < y) : x + a ≤ y := by
  have := Int.le_of_dvd (sub_pos.2 h) (dvd_sub hy hx)
  omega

/-- Differences that are exact add up to the span, which leaves too little for the steps. -/
theorem not_small_gap (h : Spaced t start step n) (ho : Overflows t start step n) (ht : 1097 ≤ t) :
    ¬ rounded (place start step 1 - place start step 0) < 2 ^ (53 + excess step) := by
  intro hsmall
  have hn : (0 : Int) < n := by have := h.two_le; omega
  have hgap (k : Nat) (hk : k < n) : place start step (k + 1) - place start step k =
      rounded (place start step 1 - place start step 0) := by
    rw [← gap_eq h ho ht hk] at hsmall ⊢
    refine (rounded_gap_eq_self h ho hk ?_).symm
    by_contra hlarge
    exact absurd (pow_le_rounded (not_lt.1 hlarge)) (not_le.2 hsmall)
  have hd := hgap 0 (by omega) ▸ dvd_gap h ho 0
  generalize rounded (place start step 1 - place start step 0) = d at *
  have hplace (k : Nat) (hk : k ≤ n) : place start step k = start + d * k := by
    induction k with
    | zero => simp [place_zero h.start_eq]
    | succ k ih =>
      have := hgap k hk
      rw [ih (by omega)] at this
      push_cast
      linarith
  have hspan : d * n = 2 ^ 54 * 2 ^ t - 2 ^ t := by
    have := ho.span
    rw [hplace n (le_refl n)] at this
    linarith
  -- so `d` is larger than the step, by one of its last places at least, which is too much
  have hlt : step < d := lt_of_mul_lt_mul_right (hspan ▸ ho.high) hn.le
  have hsteps : (step + 2 ^ excess step) * n ≤ d * n :=
    mul_le_mul_of_nonneg_right (add_le_of_dvd (dvd_step h) hd hlt) hn.le
  have hgaps : (d + 2 ^ excess step) * n ≤ 2 ^ (53 + excess step) * n :=
    mul_le_mul_of_nonneg_right
      (add_le_of_dvd hd (pow_dvd_pow 2 (Nat.le_add_left _ 53)) hsmall) hn.le
  have hlow := ho.low
  rw [add_mul] at hsteps hgaps
  rw [pow_add, mul_assoc] at hgaps
  have hpos : (0 : Int) < 2 ^ t := by positivity
  omega

/-- Differences of more digits than the step has are too large for the span. -/
theorem not_large_gap (h : Spaced t start step n) (ho : Overflows t start step n) (ht : 1097 ≤ t) :
    ¬ 2 ^ (53 + excess step) ≤ rounded (place start step 1 - place start step 0) := by
  intro hlarge
  have hn : (0 : Int) < n := by have := h.two_le; omega
  have hgap (k : Nat) (hk : k < n) :
      2 ^ (53 + excess step) ≤ place start step (k + 1) - place start step k := by
    rw [← gap_eq h ho ht hk] at hlarge
    by_contra hsmall
    rw [rounded_gap_eq_self h ho hk (not_le.1 hsmall)] at hlarge
    exact hsmall hlarge
  have hplace (k : Nat) (hk : k ≤ n) :
      2 ^ (53 + excess step) * k ≤ place start step k - start := by
    induction k with
    | zero => simp [place_zero h.start_eq]
    | succ k ih =>
      have := hgap k hk
      have := ih (by omega)
      push_cast
      linarith
  have hspan := hplace n (le_refl n)
  rw [ho.span] at hspan
  have hstep : step < 2 ^ (53 + excess step) := (le_abs_self step).trans_lt (abs_lt_two_pow step)
  have hsteps : (step + 2 ^ excess step) * n ≤ 2 ^ (53 + excess step) * n :=
    mul_le_mul_of_nonneg_right
      (add_le_of_dvd (dvd_step h) (pow_dvd_pow 2 (Nat.le_add_left _ 53)) hstep) hn.le
  have hpos : (0 : Int) < 2 ^ t := by positivity
  have heven : (2 : Int) ^ (53 + excess step) * n + 2 * 2 ^ t ≤ 2 ^ 54 * 2 ^ t := by
    refine add_le_of_dvd ?_ (mul_dvd_mul_right (by norm_num) _) (by omega)
    rw [← pow_succ']
    exact (pow_dvd_pow 2 (le_excess_step h ho)).mul_right _
  have hlow := ho.low
  rw [add_mul] at hsteps
  rw [pow_add, mul_assoc] at hsteps heven
  omega

/-- The span of a grid is in range. -/
theorem span_lt (h : Spaced t start step n) (ht : 1097 ≤ t) :
    2 * (place start step n - start) + 2 ^ (t + 1) < 2 * 2 ^ (53 + (t + 1)) := by
  by_contra hover
  have htop := two_pow_top t
  have hdouble : (2 : Int) ^ (t + 1) = 2 * 2 ^ t := pow_succ' ..
  have ho := h.overflows (by omega)
  exact not_large_gap h ho ht (not_lt.1 (not_small_gap h ho ht))

end Spaced

end SteppedConvolution.Binary
