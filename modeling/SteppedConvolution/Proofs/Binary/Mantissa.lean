import SteppedConvolution.Proofs.Binary.Encoding

/-! # Rounding of mantissas

A result of an operation on doubles is a mantissa with an exponent, and the mantissa may be too
long or its digits may be cut off. What is packed is the value rounded to a significand, or an
infinity.
-/

namespace SteppedConvolution.Binary

open Float.Model (UnpackedFloat Format totalExponent)
open Float.Model.UnpackedFloat

/-! ## Shifts -/

theorem mantissa_shift (em : ExtendedMantissa) (k : Nat) :
    (em >>> k).mantissa = em.mantissa / 2 ^ k := by
  induction k with
  | zero => exact (Nat.div_one _).symm
  | succ k ih =>
    change (em >>> k).mantissa / 2 = _
    rw [ih, Nat.div_div_eq_div_mul, ← Nat.pow_succ]

theorem mantissa_ofMantissaAndAccuracy (m : Nat) (a : Accuracy) :
    (ExtendedMantissa.ofMantissaAndAccuracy m a).mantissa = m := by
  cases a with
  | exact => rfl
  | inexact o => cases o <;> rfl

/-- Rounding adds at most one to a mantissa. -/
theorem roundedMantissa_bounds (em : ExtendedMantissa) :
    em.mantissa ≤ em.roundedMantissa ∧ em.roundedMantissa ≤ em.mantissa + 1 := by
  obtain ⟨m, round, sticky⟩ := em
  cases round <;> cases sticky
  · exact ⟨le_refl m, Nat.le_succ m⟩
  · exact ⟨le_refl m, Nat.le_succ m⟩
  · change m ≤ m + m % 2 ∧ m + m % 2 ≤ m + 1
    omega
  · exact ⟨Nat.le_succ m, le_refl _⟩

/-- A mantissa with the digits behind it that stands for a fraction `a / b`. -/
structure Approximates (em : ExtendedMantissa) (a b : Nat) : Prop where
  mantissa : em.mantissa = a / b
  round : em.roundBit = true ↔ b ≤ 2 * (a % b)
  sticky : em.stickyBit = true ↔ a % b ≠ 0 ∧ 2 * (a % b) ≠ b

namespace Approximates

variable {em : ExtendedMantissa} {a b : Nat}

theorem ofFraction (a : Nat) (hb : 0 < b) : Approximates
    (.ofMantissaAndAccuracy (a / b) (accuracyOfFraction (a % b) b)) a b := by
  unfold accuracyOfFraction
  split_ifs with h0
  · exact ⟨rfl, ⟨nofun, fun h => by omega⟩, ⟨nofun, fun h => absurd h0 h.1⟩⟩
  · cases hc : compare (2 * (a % b)) b with
    | lt =>
      have hlt := Nat.compare_eq_lt.1 hc
      exact ⟨rfl, ⟨nofun, fun h => by omega⟩, ⟨fun _ => ⟨h0, hlt.ne⟩, fun _ => rfl⟩⟩
    | eq =>
      have heq := Nat.compare_eq_eq.1 hc
      exact ⟨rfl, ⟨fun _ => heq.ge, fun _ => rfl⟩, ⟨nofun, fun h => absurd heq h.2⟩⟩
    | gt =>
      have hgt := Nat.compare_eq_gt.1 hc
      exact ⟨rfl, ⟨fun _ => hgt.le, fun _ => rfl⟩, ⟨fun _ => ⟨h0, hgt.ne'⟩, fun _ => rfl⟩⟩

/-- The digit that is shifted out becomes the round bit, and the one before it joins the sticky
bit. -/
theorem shiftRightOne (h : Approximates em a b) (hb : 0 < b) :
    Approximates em.shiftRightOne a (b * 2) := by
  have hmod : a % (b * 2) = a % b + b * (a / b % 2) := Nat.mod_mul
  have hlt := Nat.mod_lt a hb
  have hbit : (em.mantissa % 2 != 0) = true ↔ a / b % 2 = 1 := by
    rw [h.mantissa, bne_iff_ne]
    omega
  refine ⟨?_, ?_, ?_⟩
  · change em.mantissa / 2 = _
    rw [h.mantissa, Nat.div_div_eq_div_mul]
  · change (em.mantissa % 2 != 0) = true ↔ _
    rw [hbit, hmod]
    rcases Nat.mod_two_eq_zero_or_one (a / b) with hd | hd <;> rw [hd] <;> omega
  · change (em.roundBit || em.stickyBit) = true ↔ _
    rw [Bool.or_eq_true, h.round, h.sticky, hmod]
    rcases Nat.mod_two_eq_zero_or_one (a / b) with hd | hd <;> rw [hd] <;> omega

theorem shift (h : Approximates em a b) (hb : 0 < b) (k : Nat) :
    Approximates (em >>> k) a (b * 2 ^ k) := by
  induction k with
  | zero =>
    rw [pow_zero, mul_one]
    exact h
  | succ k ih =>
    rw [pow_succ, ← mul_assoc]
    exact ih.shiftRightOne (Nat.mul_pos hb (Nat.two_pow_pos k))

/-- The rounded mantissa is the integer closest to the fraction. -/
theorem roundedMantissa_eq (h : Approximates em a b) (hb : 0 < b) :
    (em.roundedMantissa : Int) = roundQuotient a b := by
  obtain ⟨m, round, sticky⟩ := em
  obtain ⟨hm, hround, hsticky⟩ := h
  dsimp only at hm hround hsticky
  have hlt := Nat.mod_lt a hb
  rw [roundQuotient_natCast, Nat.cast_inj, ← hm]
  cases round <;> cases sticky
  · change m = _
    have hlow : ¬ b ≤ 2 * (a % b) := fun h => Bool.false_ne_true (hround.2 h)
    rw [if_pos (by omega)]
  · change m = _
    have hlow : ¬ b ≤ 2 * (a % b) := fun h => Bool.false_ne_true (hround.2 h)
    rw [if_pos (by omega)]
  · change m + m % 2 = _
    have hhigh := hround.1 rfl
    have htie : ¬ (a % b ≠ 0 ∧ 2 * (a % b) ≠ b) := fun h => Bool.false_ne_true (hsticky.2 h)
    rw [if_neg (by omega), if_neg (by omega)]
  · change m + 1 = _
    have hhigh := hround.1 rfl
    obtain ⟨-, hne⟩ := hsticky.1 rfl
    rw [if_neg (by omega), if_pos (by omega)]

end Approximates

/-- The rounded mantissa is the closest one. -/
theorem roundedMantissa_shift (m k : Nat) :
    ((ExtendedMantissa.ofMantissaAndAccuracy m .exact >>> k).roundedMantissa : Int) =
      roundQuotient m (2 ^ k) := by
  have hexact : Approximates (.ofMantissaAndAccuracy m .exact) m 1 := by
    have hall := Approximates.ofFraction m Nat.one_pos
    rwa [Nat.div_one, Nat.mod_one] at hall
  have hshift := hexact.shift Nat.one_pos k
  rw [one_mul] at hshift
  exact hshift.roundedMantissa_eq (Nat.two_pow_pos k)

/-! ## Target exponents -/

/-- The exponent that a mantissa is brought to. -/
def targetOf (m : Nat) (e : Int) : Int := max (m.log2 + e - 52) (-1074)

theorem targetExponent_totalExponent (m : Nat) (e : Int) :
    Format.binary64.targetExponent (totalExponent m e) = targetOf m e := by
  change max ((m.log2 : Int) + 1 + e - 53) (-1074) = _
  unfold targetOf
  omega

/-- A mantissa without too few digits is cut off. -/
theorem le_targetOf {m : Nat} {e : Int} (h : 2 ^ 52 ≤ m ∨ e ≤ -1074) : e ≤ targetOf m e := by
  unfold targetOf
  rcases h with h | h
  · have : 52 ≤ m.log2 := (Nat.le_log2 (by omega)).2 h
    omega
  · omega

theorem shiftToTargetExponent_eq {m k : Nat} {e : Int} (a : Accuracy) (hk : e + k = targetOf m e) :
    shiftToTargetExponent .binary64 m e a =
      (ExtendedMantissa.ofMantissaAndAccuracy m a >>> k, e + k) := by
  have hcut : (targetOf m e - e).toNat = k := by omega
  unfold shiftToTargetExponent shiftToExponent
  rw [targetExponent_totalExponent]
  dsimp only
  rw [hcut]

/-- What is left of a mantissa has at most 53 digits, and no fewer above the least exponent. -/
theorem cut_bounds {m k : Nat} {e : Int} (hk : e + k = targetOf m e) :
    m / 2 ^ k < 2 ^ 53 ∧ (2 ^ 52 ≤ m / 2 ^ k ∨ e + k = -1074) := by
  unfold targetOf at hk
  rcases Nat.eq_zero_or_pos m with rfl | hm
  · have hlog : Nat.log2 0 = 0 := rfl
    rw [Nat.zero_div]
    exact ⟨by decide, .inr (by omega)⟩
  · refine ⟨?_, ?_⟩
    · rw [Nat.div_lt_iff_lt_mul (Nat.two_pow_pos k), ← pow_add, ← Nat.log2_lt hm.ne']
      omega
    · by_cases hmin : e + k = -1074
      · exact .inr hmin
      · refine .inl ?_
        rw [Nat.le_div_iff_mul_le (Nat.two_pow_pos k), ← pow_add, ← Nat.le_log2 hm.ne']
        omega

/-- A short mantissa is not shifted. -/
theorem shiftToTargetExponent_short {m : Nat} {e : Int} (hm : m < 2 ^ 53) (he : -1074 ≤ e) :
    shiftToTargetExponent .binary64 m e .exact = (⟨m, false, false⟩, e) := by
  have hlog : m.log2 ≤ 52 := by
    rcases Nat.eq_zero_or_pos m with rfl | h0
    · exact Nat.zero_le _
    · have := (Nat.log2_lt h0.ne').2 hm
      omega
  have hnone : (targetOf m e - e).toNat = 0 := by
    unfold targetOf
    omega
  unfold shiftToTargetExponent shiftToExponent
  rw [targetExponent_totalExponent]
  dsimp only
  rw [hnone, Int.natCast_zero, add_zero]
  rfl

/-- A carry beyond the significand is shifted away. -/
theorem shiftToTargetExponent_carry {e : Int} (he : -1074 ≤ e) :
    shiftToTargetExponent .binary64 (2 ^ 53) e .exact = (⟨2 ^ 52, false, false⟩, e + 1) := by
  have hlog : (2 ^ 53).log2 = 53 := Nat.log2_two_pow
  have hone : e + (1 : Nat) = targetOf (2 ^ 53) e := by
    unfold targetOf
    rw [hlog]
    omega
  rw [shiftToTargetExponent_eq _ hone]
  rfl

/-! ## Rounded results -/

/-- What rounding packs, once the digits beyond the significand are cut off. -/
theorem unitsOf_roundWithAccuracy (s : Sign) {m k : Nat} {e : Int} (a : Accuracy)
    (hk : e + k = targetOf m e) :
    unitsOf (repacked (roundWithAccuracy .binary64 s m e a)) =
      fit (s.apply ((ExtendedMantissa.ofMantissaAndAccuracy m a >>> k).roundedMantissa *
        2 ^ (e + k + 1074).toNat : Nat)) := by
  obtain ⟨hlt, hfull⟩ := cut_bounds hk
  have hbounds := roundedMantissa_bounds (ExtendedMantissa.ofMantissaAndAccuracy m a >>> k)
  rw [mantissa_shift, mantissa_ofMantissaAndAccuracy] at hbounds
  have hleast : -1074 ≤ e + k := by
    unfold targetOf at hk
    omega
  unfold roundWithAccuracy
  rw [shiftToTargetExponent_eq a hk]
  dsimp only
  generalize (ExtendedMantissa.ofMantissaAndAccuracy m a >>> k).roundedMantissa = r at *
  by_cases hr : r < 2 ^ 53
  · rw [shiftToTargetExponent_short hr hleast]
    dsimp only
    by_cases h0 : r = 0
    · rw [dif_pos h0, h0, zero_mul, unitsOf_repacked_zero]
      cases s <;> exact fit_zero.symm
    · rw [dif_neg h0]
      exact unitsOf_repacked ⟨hr, hleast, hfull.imp_left fun h => h.trans hbounds.1⟩
  · -- a carry leaves a power of two, which the second shift brings back to 53 digits
    obtain rfl : r = 2 ^ 53 := by omega
    have hexp : (e + k + 1 + 1074).toNat = 1 + (e + k + 1074).toNat := by omega
    rw [shiftToTargetExponent_carry hleast]
    dsimp only
    rw [dif_neg (by decide), unitsOf_repacked ⟨by decide, by omega, .inl (le_refl _)⟩, hexp,
      pow_add, ← mul_assoc]
    rfl

theorem log2_mul_two_pow {m : Nat} (hm : 0 < m) (i : Nat) : (m * 2 ^ i).log2 = m.log2 + i := by
  have hsucc : m.log2 + i + 1 = m.log2 + 1 + i := by omega
  have hpos := Nat.two_pow_pos i
  rw [Nat.log2_eq_iff (Nat.mul_pos hm hpos).ne', hsucc, pow_add, pow_add 2 (m.log2 + 1)]
  exact ⟨Nat.mul_le_mul_right _ (Nat.log2_self_le hm.ne'),
    Nat.mul_lt_mul_of_pos_right Nat.lt_log2_self hpos⟩

/-- A mantissa and an exponent stand for a multiple of the least positive double. -/
def Denotes (m : Nat) (e : Int) (x : Nat) : Prop :=
  m * 2 ^ (e + 1074).toNat = x * 2 ^ (-(e + 1074)).toNat

/-- The digits that are cut off are those beyond the significand. -/
theorem Denotes.targetOf_eq {m x : Nat} {e : Int} (h : Denotes m e x)
    (hc : 2 ^ 52 ≤ m ∨ e ≤ -1074) : targetOf m e = (excess x : Int) - 1074 := by
  have hx : excess x = x.log2 - 52 := rfl
  unfold targetOf
  rcases Nat.eq_zero_or_pos m with rfl | hm
  · have h0 : x = 0 := by
      rw [Denotes, zero_mul, eq_comm, mul_eq_zero] at h
      exact h.resolve_right (Nat.two_pow_pos _).ne'
    have hlog : Nat.log2 0 = 0 := rfl
    rw [hx, h0, hlog]
    omega
  · have hx0 : 0 < x := by
      rw [Nat.pos_iff_ne_zero]
      rintro rfl
      rw [Denotes, zero_mul] at h
      exact (Nat.mul_pos hm (Nat.two_pow_pos _)).ne' h
    have hlog := congrArg Nat.log2 h
    rw [log2_mul_two_pow hm, log2_mul_two_pow hx0] at hlog
    omega

theorem Denotes.roundQuotient_eq {m x k : Nat} {e : Int} (h : Denotes m e x)
    (hk : e + k = (excess x : Int) - 1074) :
    roundQuotient m (2 ^ k) = roundQuotient x (2 ^ excess x) := by
  have hsum : (e + 1074).toNat + k = (-(e + 1074)).toNat + excess x := by omega
  have hnum : (2 ^ (e + 1074).toNat * m : Int) = 2 ^ (-(e + 1074)).toNat * x := by
    rw [mul_comm, mul_comm _ (x : Int)]
    exact_mod_cast h
  rw [← roundQuotient_mul_mul m (2 ^ k) (Nat.two_pow_pos (e + 1074).toNat),
    ← roundQuotient_mul_mul x (2 ^ excess x) (Nat.two_pow_pos (-(e + 1074)).toNat), ← pow_add,
    ← pow_add, hsum]
  push_cast
  rw [hnum]

/-- An exact mantissa and exponent are rounded to a significand. -/
theorem Denotes.unitsOf_round {m x : Nat} {e : Int} (h : Denotes m e x) (s : Sign)
    (hc : 2 ^ 52 ≤ m ∨ e ≤ -1074) :
    unitsOf (repacked (roundWithAccuracy .binary64 s m e .exact)) =
      fit (rounded (s.apply x)) := by
  have htarget := h.targetOf_eq hc
  obtain ⟨k, hk⟩ := Int.le.dest (le_targetOf hc)
  have hexp : (e + k + 1074).toNat = excess x := by omega
  have hround := roundedMantissa_shift m k
  rw [h.roundQuotient_eq (hk.trans htarget)] at hround
  rw [unitsOf_roundWithAccuracy s .exact hk, hexp, Nat.cast_mul, hround, natCast_two_pow]
  cases s with
  | positive => rfl
  | negative =>
    change fit (-_) = fit (rounded (-_))
    rw [rounded_neg]
    rfl

/-- A number of any length is rounded to a significand. -/
theorem unitsOf_repacked_round (s : Sign) {m : Nat} {e : Int} (hm : 0 < m) (he : -1074 ≤ e) :
    unitsOf (repacked (round .binary64 s m e)) =
      fit (rounded (s.apply (m * 2 ^ (e + 1074).toNat : Nat))) := by
  obtain ⟨d, hd⟩ : ∃ d, (e - targetOf m e).toNat = d := ⟨_, rfl⟩
  have hround : round .binary64 s m e =
      roundWithAccuracy .binary64 s (m * 2 ^ d) (e - d) .exact := by
    unfold UnpackedFloat.round decreaseExponent
    rw [targetExponent_totalExponent]
    dsimp only
    rw [hd, Nat.shiftLeft_eq]
  have hdenotes : Denotes (m * 2 ^ d) (e - d) (m * 2 ^ (e + 1074).toNat) := by
    have hsum : (e + 1074).toNat = d + (e - d + 1074).toNat := by
      unfold targetOf at hd
      omega
    have hnone : (-(e - d + 1074)).toNat = 0 := by
      unfold targetOf at hd
      omega
    rw [Denotes, hsum, hnone, pow_zero, mul_one, pow_add, mul_assoc]
  rw [hround, hdenotes.unitsOf_round]
  by_cases hmin : e - d ≤ -1074
  · exact .inr hmin
  · refine .inl ?_
    unfold targetOf at hd
    rw [← Nat.le_log2 (Nat.mul_pos hm (Nat.two_pow_pos d)).ne', log2_mul_two_pow hm]
    omega

theorem unitsOf_normalize (m : Int) {e : Int} (he : -1074 ≤ e) (s : Sign) :
    unitsOf (repacked (normalize .binary64 m e s)) =
      fit (rounded (m * 2 ^ (e + 1074).toNat)) := by
  unfold UnpackedFloat.normalize
  rcases lt_trichotomy m 0 with hm | rfl | hm
  · obtain ⟨n, rfl⟩ : ∃ n : Nat, m = -n := ⟨m.natAbs, by omega⟩
    rw [Int.compare_eq_lt.2 hm, neg_neg, Int.toNat_natCast]
    dsimp only
    rw [unitsOf_repacked_round _ (by omega) he, neg_mul, Nat.cast_mul, natCast_two_pow]
    rfl
  · rw [zero_mul, rounded_zero, fit_zero]
    exact unitsOf_repacked_zero s
  · obtain ⟨n, rfl⟩ : ∃ n : Nat, m = n := ⟨m.toNat, by omega⟩
    rw [Int.compare_eq_gt.2 hm, Int.toNat_natCast]
    dsimp only
    rw [unitsOf_repacked_round _ (by omega) he, Nat.cast_mul, natCast_two_pow]
    rfl

end SteppedConvolution.Binary
