import Mathlib.Algebra.Order.Ring.Abs
import Mathlib.Tactic.Linarith
import Mathlib.Tactic.Ring
import SteppedConvolution.Rounding

/-! # Rounding to significant digits

An integer rounded to 53 significant binary digits. The error is at most half a unit in the
last place, multiples of a power of two stay multiples of it, and powers of two are not
crossed.
-/

namespace SteppedConvolution

/-! ## Quotients -/

theorem roundQuotient_spec (num : Int) {den : Nat} (hd : 0 < den) :
    2 * (roundQuotient num den * den) ≤ 2 * num + den ∧
      2 * num ≤ 2 * (roundQuotient num den * den) + den := by
  have hpos : (0 : Int) < den := Int.natCast_pos.2 hd
  have hdiv := Int.mul_ediv_add_emod num den
  have hlow := Int.emod_nonneg num hpos.ne'
  have hhigh := Int.emod_lt_of_pos num hpos
  have hnext : (num / den + 1) * (den : Int) = den * (num / den) + den := by ring
  have hthis : num / den * (den : Int) = den * (num / den) := by ring
  unfold roundQuotient
  dsimp only
  split_ifs <;> simp only [hnext, hthis] <;> omega

theorem roundQuotient_natCast (num den : Nat) :
    roundQuotient num den =
      if 2 * (num % den) < den then num / den
      else if den < 2 * (num % den) then num / den + 1
      else num / den + num / den % 2 := by
  unfold roundQuotient
  dsimp only
  split_ifs <;> omega

theorem ediv_le_roundQuotient (num : Int) (den : Nat) : num / den ≤ roundQuotient num den := by
  unfold roundQuotient
  dsimp only
  split_ifs <;> omega

theorem roundQuotient_mul_of_dvd {num : Int} {den : Nat} (h : (den : Int) ∣ num) :
    roundQuotient num den * den = num := by
  obtain ⟨z, rfl⟩ := h
  rcases Nat.eq_zero_or_pos den with rfl | hd
  · simp
  · have hpos : (0 : Int) < den := Int.natCast_pos.2 hd
    have hz : roundQuotient (den * z) den = z := by
      simp [roundQuotient, Int.mul_ediv_cancel_left z hpos.ne', hd]
    rw [hz, mul_comm]

theorem roundQuotient_mul_mul (num : Int) (den : Nat) {c : Nat} (hc : 0 < c) :
    roundQuotient (c * num) (c * den) = roundQuotient num den := by
  have hpos : (0 : Int) < c := Int.natCast_pos.2 hc
  have hlt (a b : Int) : (2 * (c * a) < c * b ↔ 2 * a < b) := by
    rw [show 2 * (c * a) = c * (2 * a) by ring]
    exact mul_lt_mul_iff_right₀ hpos
  have hgt (a b : Int) : (c * b < 2 * (c * a) ↔ b < 2 * a) := by
    rw [show 2 * (c * a) = c * (2 * a) by ring]
    exact mul_lt_mul_iff_right₀ hpos
  unfold roundQuotient
  simp only [Nat.cast_mul, Int.mul_ediv_mul_of_pos _ _ hpos, Int.mul_emod_mul_of_pos _ _ hpos,
    hlt, hgt]

theorem roundQuotient_neg (num : Int) {den : Nat} (hd : 0 < den) :
    roundQuotient (-num) den = -roundQuotient num den := by
  have hpos : (0 : Int) < den := Int.natCast_pos.2 hd
  have hdiv := Int.mul_ediv_add_emod num den
  have hlow := Int.emod_nonneg num hpos.ne'
  have hhigh := Int.emod_lt_of_pos num hpos
  by_cases hz : num % den = 0
  · have hq : -num / den = -(num / den) := Int.neg_ediv_of_dvd (Int.dvd_of_emod_eq_zero hz)
    have hr : -num % den = 0 := by
      rw [Int.neg_emod, if_pos (Int.dvd_of_emod_eq_zero hz)]
    simp [roundQuotient, hz, hq, hr, hd]
  · have hn : -num = (den - num % den) + den * (-(num / den) - 1) := by
      have hexp : (den : Int) * (-(num / den) - 1) = -(den * (num / den)) - den := by ring
      omega
    have hq : -num / den = -(num / den) - 1 := by
      rw [hn, Int.add_mul_ediv_left _ _ hpos.ne', Int.ediv_eq_zero_of_lt (by omega) (by omega)]
      ring
    have hr : -num % den = den - num % den := by
      rw [hn, Int.add_mul_emod_self_left, Int.emod_eq_of_lt (by omega) (by omega)]
    unfold roundQuotient
    simp only [hq, hr]
    split_ifs <;> omega

namespace Binary

theorem natCast_two_pow (a : Nat) : ((2 ^ a : Nat) : Int) = 2 ^ a := by
  push_cast
  rfl

/-! ## Significant digits -/

/-- The number of binary digits of an integer that do not fit into a significand. -/
def excess (x : Int) : Nat := x.natAbs.log2 - 52

/-- An integer rounded to 53 significant binary digits, ties to an even significand. -/
def rounded (x : Int) : Int := roundQuotient x (2 ^ excess x) * 2 ^ excess x

theorem excess_neg (x : Int) : excess (-x) = excess x := by
  rw [excess, excess, Int.natAbs_neg]

theorem rounded_neg (x : Int) : rounded (-x) = -rounded x := by
  rw [rounded, rounded, excess_neg, roundQuotient_neg _ (Nat.two_pow_pos _), neg_mul]

theorem abs_lt_two_pow (x : Int) : |x| < 2 ^ (53 + excess x) := by
  have hlt : x.natAbs < 2 ^ (53 + excess x) :=
    lt_of_lt_of_le Nat.lt_log2_self (Nat.pow_le_pow_right Nat.two_pos (by unfold excess; omega))
  rw [← Int.natCast_natAbs, ← natCast_two_pow]
  exact Int.ofNat_lt.2 hlt

theorem two_pow_le_abs {x : Int} (h : 0 < excess x) : 2 ^ (52 + excess x) ≤ |x| := by
  have hlog : 52 + excess x = x.natAbs.log2 := by
    unfold excess at h ⊢
    omega
  have hne : x.natAbs ≠ 0 := by
    intro h0
    rw [h0] at hlog
    exact absurd hlog (by simp)
  rw [← Int.natCast_natAbs, ← natCast_two_pow, hlog]
  exact Int.ofNat_le.2 (Nat.log2_self_le hne)

theorem excess_le_of_lt {x : Int} {a : Nat} (h : |x| < 2 ^ (53 + a)) : excess x ≤ a := by
  rcases Nat.eq_zero_or_pos (excess x) with h0 | h0
  · omega
  · have := (pow_lt_pow_iff_right₀ (by norm_num)).1 ((two_pow_le_abs h0).trans_lt h)
    omega

theorem le_excess {x : Int} {a : Nat} (h : 2 ^ (52 + a) ≤ |x|) : a ≤ excess x := by
  have := (pow_lt_pow_iff_right₀ (by norm_num)).1 (h.trans_lt (abs_lt_two_pow x))
  omega

/-- The error is at most half a unit in the last place. -/
theorem rounded_error {x : Int} {a : Nat} (h : |x| < 2 ^ (53 + a)) :
    2 * rounded x ≤ 2 * x + 2 ^ a ∧ 2 * x ≤ 2 * rounded x + 2 ^ a := by
  have hspec := roundQuotient_spec x (Nat.two_pow_pos (excess x))
  have hpow : (2 : Int) ^ excess x ≤ 2 ^ a :=
    pow_le_pow_right₀ (by norm_num) (excess_le_of_lt h)
  rw [natCast_two_pow] at hspec
  unfold rounded
  omega

theorem rounded_of_dvd {x : Int} (h : (2 : Int) ^ excess x ∣ x) : rounded x = x := by
  rw [← natCast_two_pow] at h
  rw [rounded, ← natCast_two_pow, roundQuotient_mul_of_dvd h]

/-- An integer with at most 53 significant digits is not changed. -/
theorem rounded_eq_self {x : Int} {a : Nat} (h : |x| < 2 ^ (53 + a)) (hd : (2 : Int) ^ a ∣ x) :
    rounded x = x :=
  rounded_of_dvd ((pow_dvd_pow 2 (excess_le_of_lt h)).trans hd)

/-- A multiple of a power of two stays one. -/
theorem dvd_rounded {x : Int} {a : Nat} (hd : (2 : Int) ^ a ∣ x) : (2 : Int) ^ a ∣ rounded x := by
  rcases Nat.le_total a (excess x) with h | h
  · exact (pow_dvd_pow 2 h).mul_left _
  · rw [rounded_of_dvd ((pow_dvd_pow 2 h).trans hd)]
    exact hd

/-- A large number is rounded to a multiple of the last place. -/
theorem dvd_rounded_of_le {x : Int} {a : Nat} (h : 2 ^ (52 + a) ≤ |x|) :
    (2 : Int) ^ a ∣ rounded x :=
  (pow_dvd_pow 2 (le_excess h)).mul_left _

/-- Rounding does not cross a power of two. -/
theorem pow_le_rounded {x : Int} {a : Nat} (h : (2 : Int) ^ a ≤ x) : 2 ^ a ≤ rounded x := by
  have hx : |x| = x := abs_of_nonneg (le_trans (by positivity) h)
  rcases Nat.eq_zero_or_pos (excess x) with h0 | h0
  · rw [rounded_of_dvd (by simp [h0])]
    exact h
  · have hlow := two_pow_le_abs h0
    have hlt := abs_lt_two_pow x
    rw [hx] at hlow hlt
    have ha : a ≤ 52 + excess x := by
      have := (pow_lt_pow_iff_right₀ (by norm_num)).1 (h.trans_lt hlt)
      omega
    have hquot : (2 : Int) ^ 52 ≤ roundQuotient x (2 ^ excess x) := by
      refine le_trans ?_ (ediv_le_roundQuotient _ _)
      rw [natCast_two_pow, Int.le_ediv_iff_mul_le (by positivity), ← pow_add]
      exact hlow
    calc (2 : Int) ^ a ≤ 2 ^ (52 + excess x) := pow_le_pow_right₀ (by norm_num) ha
      _ = 2 ^ 52 * 2 ^ excess x := pow_add ..
      _ ≤ rounded x := mul_le_mul_of_nonneg_right hquot (by positivity)

theorem rounded_pos {x : Int} (h : 0 < x) : 0 < rounded x := by
  have := pow_le_rounded (x := x) (a := 0) (by rw [pow_zero]; exact h)
  rw [pow_zero] at this
  exact this

theorem rounded_lt {x : Int} {a : Nat} (h : 2 * |x| + 2 ^ a < 2 * 2 ^ (53 + a)) :
    |rounded x| < 2 ^ (53 + a) := by
  have hpos : (0 : Int) < 2 ^ a := by positivity
  have herror := rounded_error (x := x) (a := a) (by omega)
  have hself := le_abs_self x
  have hneg := neg_abs_le x
  rw [abs_lt]
  omega

/-- From half a unit below a power of two on, also a tie goes up to it. -/
theorem le_rounded {x : Int} {a : Nat} (h : 2 * 2 ^ (53 + a) ≤ 2 * x + 2 ^ a) :
    2 ^ (53 + a) ≤ rounded x := by
  rcases le_or_gt (2 ^ (53 + a)) x with hx | hx
  · exact pow_le_rounded hx
  have hpos : (0 : Int) < 2 ^ a := by positivity
  have htop : (2 : Int) ^ (53 + a) = 2 ^ 53 * 2 ^ a := pow_add ..
  have hx0 : 0 ≤ x := by omega
  have hbelow : (2 : Int) ^ (52 + a) = 2 ^ 52 * 2 ^ a := pow_add ..
  have hexcess : excess x = a := by
    rw [← abs_of_nonneg hx0] at hx
    refine le_antisymm (excess_le_of_lt hx) (le_excess ?_)
    rw [abs_of_nonneg hx0]
    omega
  have hquot : x / 2 ^ a = 2 ^ 53 - 1 := by
    refine le_antisymm ?_ ?_
    · rw [← Int.lt_add_one_iff, Int.ediv_lt_iff_lt_mul hpos]
      omega
    · rw [Int.le_ediv_iff_mul_le hpos]
      omega
  have hmod := Int.mul_ediv_add_emod x (2 ^ a)
  -- the quotient is odd, so a tie goes up as well
  have hup : roundQuotient x (2 ^ a) = 2 ^ 53 := by
    unfold roundQuotient
    dsimp only
    push_cast
    rw [hquot] at hmod ⊢
    split_ifs <;> omega
  rw [rounded, hexcess, hup, htop]

/-- What is rounded to a number below a power of two is at least half a unit below it. -/
theorem lt_of_rounded_lt {x : Int} {a : Nat} (h : |rounded x| < 2 ^ (53 + a)) :
    2 * |x| + 2 ^ a < 2 * 2 ^ (53 + a) := by
  by_contra hx
  rcases le_total 0 x with h0 | h0
  · rw [abs_of_nonneg h0] at hx
    have := le_rounded (not_lt.1 hx)
    exact absurd ((le_abs_self _).trans_lt h) (not_lt.2 this)
  · rw [abs_of_nonpos h0] at hx
    have := le_rounded (not_lt.1 hx)
    rw [rounded_neg] at this
    exact absurd ((neg_le_abs _).trans_lt h) (not_lt.2 this)

theorem rounded_zero : rounded 0 = 0 := rfl

theorem rounded_pos_iff {x : Int} : 0 < rounded x ↔ 0 < x := by
  refine ⟨fun h => ?_, rounded_pos⟩
  rcases lt_trichotomy x 0 with hx | rfl | hx
  · have := rounded_pos (neg_pos.2 hx)
    rw [rounded_neg] at this
    omega
  · exact absurd h (by simp [rounded_zero])
  · exact hx

theorem eq_zero_of_rounded {x : Int} (h : rounded x = 0) : x = 0 := by
  have hpos : 0 < rounded x ↔ 0 < x := rounded_pos_iff
  have hneg : 0 < rounded (-x) ↔ 0 < -x := rounded_pos_iff
  rw [rounded_neg] at hneg
  omega

end Binary

end SteppedConvolution
