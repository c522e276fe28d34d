import SteppedConvolution.Proofs.Scalar.Exact
import SteppedConvolution.Session.Basic

/-! # Shares in percent

The share of a count grows with the count, and only the whole is all of it. Exact shares do so for
any whole. Rounded ones do where the whole is not so large that two shares are rounded to one, or
the share of the whole below itself.
-/

namespace SteppedConvolution.Session

variable {K : Type} [Scalar K]

/-- The largest whole of which shares are told apart. -/
def largestWhole : Nat := 2 ^ 48

/-- Scalars in which the shares of counts that are not too large tell the counts apart. Rationals
are such scalars, and so are doubles. -/
class Graduated (K : Type) [Scalar K] : Prop where
  percent_lt : ∀ {b c n : Nat}, b < c → c ≤ n → n ≤ largestWhole →
    (percent b n : K) < percent c n
  percent_self : ∀ {n : Nat}, 0 < n → n ≤ largestWhole → (percent n n : K) = Scalar.ofNat 100

theorem ofInt_natCast (c : Nat) : (Scalar.ofInt c : K) = Scalar.ofNat c := by
  rw [Scalar.ofInt, if_neg (Int.not_lt.2 (Int.natCast_nonneg c)), Int.natAbs_natCast]

/-- No exact share has to be cut off. -/
theorem percent_rat {c n : Nat} (hc : c ≤ n) (hn : 0 < n) :
    (percent c n : Rat) = 100 * c / n := by
  have hpos : (0 : Rat) < n := Nat.cast_pos.2 hn
  have hle : (c : Rat) ≤ n := Nat.cast_le.2 hc
  have hlow : (0 : Rat) ≤ 100 * c / n :=
    div_nonneg (mul_nonneg (by norm_num) (Nat.cast_nonneg c)) hpos.le
  have hhigh : (100 : Rat) * c / n ≤ 100 := by
    rw [div_le_iff₀ hpos]
    linarith
  change Scalar.smaller (100 : Rat) (Scalar.larger 0 (100 * Scalar.ofInt c / n)) = _
  rw [ofInt_natCast, Scalar.smaller_eq_min, Scalar.larger_eq_max]
  change min (100 : Rat) (max 0 (100 * c / n)) = _
  rw [max_eq_right hlow, min_eq_right hhigh]

instance : Graduated Rat where
  percent_lt {b c n} hb hc _ := by
    have hpos : (0 : Rat) < n := Nat.cast_pos.2 (by omega)
    have hlt : (b : Rat) < c := Nat.cast_lt.2 hb
    rw [percent_rat (by omega) (by omega), percent_rat hc (by omega),
      div_lt_div_iff_of_pos_right hpos]
    linarith
  percent_self {n} hn _ := by
    rw [percent_rat (le_refl n) hn]
    exact mul_div_cancel_right₀ 100 (Nat.cast_ne_zero.2 hn.ne')

/-- Only the whole has a share of all. -/
theorem percent_eq_hundred_iff [Graduated K] (hirrefl : ∀ a : K, ¬ a < a) {c n : Nat} (hc : c ≤ n)
    (h0 : 0 < n) (hn : n ≤ largestWhole) : (percent c n : K) = Scalar.ofNat 100 ↔ c = n := by
  rw [← Graduated.percent_self h0 hn]
  constructor
  · intro h
    by_contra hne
    have hlt : (percent c n : K) < percent n n :=
      Graduated.percent_lt (lt_of_le_of_ne hc hne) (le_refl n) hn
    rw [h] at hlt
    exact hirrefl _ hlt
  · rintro rfl
    rfl

end SteppedConvolution.Session
