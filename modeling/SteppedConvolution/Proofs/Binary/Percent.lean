import SteppedConvolution.Proofs.Binary.Order
import SteppedConvolution.Proofs.Binary.Progression
import SteppedConvolution.Proofs.Session.Percent

/-! # Rounded shares

The double that stands for the share of a count in percent. A hundred times a count of up to 48
digits is exact, so the quotient alone is rounded, and its error is less than half of what lies
between the shares of two counts.
-/

namespace SteppedConvolution.Session

open Binary

/-- A share before it is cut off. -/
def rawShare (c n : Nat) : Float := Float.ofNat 100 * Float.ofNat c / Float.ofNat n

theorem percent_eq (c n : Nat) : (percent c n : Float) =
    Scalar.smaller (Float.ofNat 100) (Scalar.larger 0 (rawShare c n)) := by
  rw [percent, ofInt_natCast]
  rfl

variable {b c n : Nat} {y z : Int}

/-- One unit in the last place of a hundred. -/
def lastPlace : Int := 2 ^ 1028

theorem lastPlace_pos : 0 < lastPlace := pow_pos (by decide) _

theorem unity_eq_lastPlace : (unity : Int) = 2 ^ 46 * lastPlace := by
  rw [unity_eq, lastPlace, ← pow_add]

/-- The share of a count as a multiple of the least positive double, with an error of at most half
a unit in the last place. -/
structure IsShare (c n : Nat) (y : Int) : Prop where
  zero : c = 0 → y = 0
  pos : 0 < c → 0 < y
  le : 2 * (y * n) ≤ 2 * (100 * c * unity) + n * lastPlace
  ge : 2 * (100 * c * unity) ≤ 2 * (y * n) + n * lastPlace

namespace IsShare

/-- The shares of two counts are further apart than their errors. -/
theorem lt (hb : IsShare b n y) (hc : IsShare c n z) (h : b < c) (hn : n ≤ largestWhole) :
    y < z := by
  have hwhole : largestWhole = 2 ^ 48 := rfl
  by_contra hzy
  have hscaled : z * n ≤ y * n := mul_le_mul_of_nonneg_right (not_lt.1 hzy) (Int.natCast_nonneg n)
  have hgap : (200 * 2 ^ 46 * (c - b) : Int) * lastPlace ≤ 2 * n * lastPlace := by
    have hle := hb.le
    have hge := hc.ge
    rw [unity_eq_lastPlace] at hle hge
    calc (200 * 2 ^ 46 * (c - b) : Int) * lastPlace
        = 2 * (100 * c * (2 ^ 46 * lastPlace)) - 2 * (100 * b * (2 ^ 46 * lastPlace)) := by ring
      _ ≤ 2 * (z * n) + n * lastPlace - (2 * (y * n) - n * lastPlace) := by omega
      _ ≤ 2 * n * lastPlace := by linarith
  have hcounts := le_of_mul_le_mul_right hgap lastPlace_pos
  omega

/-- The share of the whole is not rounded below a hundred. -/
theorem hundred_le (h : IsShare n n y) (hy : rounded y = y) (h0 : 0 < n) : 100 * unity ≤ y := by
  have hpos := lastPlace_pos
  have hclose : 2 * (100 * (unity : Int)) ≤ 2 * y + lastPlace := by
    refine le_of_mul_le_mul_right ?_ (Int.natCast_pos.2 h0)
    calc 2 * (100 * (unity : Int)) * n = 2 * (100 * n * unity) := by ring
      _ ≤ 2 * (y * n) + n * lastPlace := h.ge
      _ = (2 * y + lastPlace) * n := by ring
  rw [unity_eq_lastPlace] at hclose ⊢
  -- doubles of this size are multiples of the last place, and so is a hundred
  have hsize : 2 ^ (52 + 1028) ≤ |y| := by
    rw [pow_add, ← lastPlace]
    exact le_trans (by omega) (le_abs_self y)
  have hdvd : lastPlace ∣ y := by
    rw [← hy]
    exact dvd_rounded_of_le hsize
  have hhundred : lastPlace ∣ 100 * (2 ^ 46 * lastPlace) :=
    ((dvd_refl _).mul_left _).mul_left _
  by_contra hlt
  have hnext := Spaced.add_le_of_dvd hdvd hhundred (not_le.1 hlt)
  omega

end IsShare

/-- A hundred times a count is a multiple of four, so it has no more digits than a double. -/
theorem units_hundredfold (hc : c ≤ largestWhole) :
    units (Float.ofNat 100 * Float.ofNat c) = some ((100 * c * unity : Nat) : Int) := by
  have hwhole : largestWhole = 2 ^ 48 := rfl
  have hdigits : 100 * c * unity = 25 * c * 2 ^ (2 + 1074) := by
    rw [pow_add, ← unity]
    ring
  rw [units_mul (units_ofNat (by decide)) (units_ofNat (by omega)) (z := (100 * c * unity : Nat)),
    hdigits]
  · exact fit_mul_two_pow (by omega) (by decide)
  · push_cast
    ring

/-- A hundred times a count is in range, and so is its quotient by a larger one. -/
theorem hundredfold_bounds (h0 : 0 < c) (hc : c ≤ n) (hn : n ≤ largestWhole) :
    (n : Int) ≤ (100 * c * unity : Nat) ∧ 100 * c * unity < n * 2 ^ (53 + 1028) ∧
      2 * ((100 * c * unity : Nat) : Int) < n * limit := by
  have hwhole : largestWhole = 2 ^ 48 := rfl
  have hunity : (2 : Int) ^ 48 ≤ unity := by
    rw [unity_eq]
    exact pow_le_pow_right₀ (by norm_num) (by decide)
  have hlimit : (2 : Int) ^ (53 + 1028) * 2 ≤ limit := by
    rw [limit_eq, ← pow_succ]
    exact pow_le_pow_right₀ (by norm_num) (by decide)
  have hlt : 100 * c * unity < n * 2 ^ (53 + 1028) := by
    have htop : 2 ^ (53 + 1028) = 2 ^ 7 * unity := by rw [unity, ← pow_add]
    rw [htop, ← mul_assoc]
    exact Nat.mul_lt_mul_of_pos_right (by omega) unity_pos
  have hlt' := Int.ofNat_lt.2 hlt
  rw [Nat.cast_mul n, natCast_two_pow] at hlt'
  refine ⟨?_, hlt, ?_⟩
  · have hle : unity ≤ 100 * c * unity := Nat.le_mul_of_pos_left _ (by omega)
    omega
  · calc 2 * ((100 * c * unity : Nat) : Int)
        < 2 * (n * 2 ^ (53 + 1028)) := mul_lt_mul_of_pos_left hlt' (by decide)
      _ = n * (2 ^ (53 + 1028) * 2) := by rw [mul_left_comm, mul_comm 2]
      _ ≤ n * limit := mul_le_mul_of_nonneg_left hlimit (Int.natCast_nonneg n)

theorem exists_units_rawShare (h0 : 0 < n) (hc : c ≤ n) (hn : n ≤ largestWhole) :
    ∃ y, units (rawShare c n) = some y ∧ IsShare c n y := by
  have hwhole : largestWhole = 2 ^ 48 := rfl
  have hdividend := units_hundredfold (hc.trans hn)
  have hdivisor : units (Float.ofNat n) = some (n * unity : Nat) := units_ofNat (by omega)
  rcases Nat.eq_zero_or_pos c with rfl | hpos
  · have hzero : 100 * 0 * unity = 0 := by rw [mul_zero, zero_mul]
    have hcount : ((n * unity : Nat) : Int) ≠ 0 :=
      Int.natCast_ne_zero.2 (Nat.mul_pos h0 unity_pos).ne'
    have hnonneg : 0 ≤ n * lastPlace := mul_nonneg (Int.natCast_nonneg n) lastPlace_pos.le
    rw [hzero] at hdividend
    refine ⟨0, units_zero_div hdividend hdivisor hcount, fun _ => rfl, nofun, ?_, ?_⟩
    all_goals
      simp only [Nat.cast_zero, mul_zero, zero_mul, zero_add]
      exact hnonneg
  · obtain ⟨hlow, hlt, hrange⟩ := hundredfold_bounds hpos hc hn
    obtain ⟨y, hy0, hy⟩ := units_div hdividend hdivisor h0 hlow hrange
    obtain ⟨hle, hge⟩ := units_div_error hdividend hdivisor h0
      (Nat.mul_pos (by omega) unity_pos) hlt hy
    rw [← lastPlace] at hle hge
    push_cast at hle hge
    exact ⟨y, hy, fun h => absurd h hpos.ne', fun _ => hy0, hle, hge⟩

theorem isShare_hundred (h0 : 0 < n) : IsShare n n (100 * unity) := by
  have hnonneg : 0 ≤ n * lastPlace := mul_nonneg (Int.natCast_nonneg n) lastPlace_pos.le
  have hexact : (100 * (unity : Int)) * n = 100 * n * unity := by ring
  refine ⟨fun h => absurd h h0.ne', fun _ => ?_, ?_, ?_⟩
  · exact mul_pos (by decide) (Int.natCast_pos.2 unity_pos)
  all_goals
    rw [hexact]
    exact le_add_of_nonneg_right hnonneg

/-- Only the share of the whole is cut off, and it is exactly a hundred then. -/
theorem exists_units_percent (h0 : 0 < n) (hc : c ≤ n) (hn : n ≤ largestWhole) :
    (c = n → (percent c n : Float) = Float.ofNat 100) ∧
      ∃ y, units (percent c n) = some y ∧ IsShare c n y := by
  obtain ⟨y, hy, hshare⟩ := exists_units_rawShare h0 hc hn
  have hzero : units 0 = some 0 := rfl
  have hhundred : units (Float.ofNat 100) = some (100 * unity : Nat) := units_ofNat (by decide)
  have hlarger : units (Scalar.larger 0 (rawShare c n)) = some y := by
    rw [Scalar.larger]
    rcases Nat.eq_zero_or_pos c with h | h
    · rw [if_neg, hzero, hshare.zero h]
      rw [lt_iff_units hzero hy, hshare.zero h]
      exact lt_irrefl 0
    · rw [if_pos ((lt_iff_units hzero hy).2 (hshare.pos h)), hy]
  rw [percent_eq, Scalar.smaller]
  rcases Nat.lt_or_eq_of_le hc with hlt | rfl
  · have hbelow : y < 100 * unity := hshare.lt (isShare_hundred h0) hlt hn
    rw [if_pos ((lt_iff_units hlarger hhundred).2 (by exact_mod_cast hbelow))]
    exact ⟨fun h => absurd h hlt.ne, y, hlarger, hshare⟩
  · have hreached := hshare.hundred_le (rounded_units hy) h0
    rw [if_neg]
    · exact ⟨fun _ => rfl, _, hhundred, by exact_mod_cast isShare_hundred h0⟩
    · rw [lt_iff_units hlarger hhundred, not_lt]
      exact_mod_cast hreached

instance : Graduated Float where
  percent_lt {b c n} hb hc hn := by
    obtain ⟨-, y, hy, hyb⟩ := exists_units_percent (c := b) (by omega) (by omega) hn
    obtain ⟨-, z, hz, hzc⟩ := exists_units_percent (by omega) hc hn
    exact (lt_iff_units hy hz).2 (hyb.lt hzc hb hn)
  percent_self h0 hn := (exists_units_percent h0 (le_refl _) hn).1 rfl

end SteppedConvolution.Session
