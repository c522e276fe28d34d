import SteppedConvolution.Proofs.Binary.Mantissa

/-! # Arithmetic of doubles

Sums, differences and products of finite doubles are the exact ones, rounded to a significand,
and infinite where that is beyond the range. Counts of up to 53 digits are exact, and a quotient
by one of them that is neither too small nor too large is finite and positive, and within half a
unit in the last place.
-/

namespace SteppedConvolution.Binary

open Float.Model (UnpackedFloat Format totalExponent)
open Float.Model.UnpackedFloat

/-! ## Signs -/

theorem apply_mul (s : Sign) (a c : Int) : s.apply a * c = s.apply (a * c) := by
  cases s with
  | positive => rfl
  | negative => exact neg_mul a c

theorem apply_apply (s : Sign) (a : Int) : s.apply (s.apply a) = a := by
  cases s with
  | positive => rfl
  | negative => exact neg_neg a

theorem neg_apply (s : Sign) (a : Int) : (-s).apply a = -s.apply a := by
  cases s with
  | positive => rfl
  | negative => exact (neg_neg a).symm

theorem apply_mul_apply (s t : Sign) (a b : Int) :
    s.apply a * t.apply b = (s * t).apply (a * b) := by
  cases s <;> cases t
  · exact neg_mul_neg a b
  · exact neg_mul a b
  · exact mul_neg a b
  · rfl

/-- A number with a positive value has a positive sign. -/
theorem eq_positive_of_apply_pos {s : Sign} {n : Nat} (h : 0 < s.apply n) : s = .positive := by
  cases s with
  | positive => rfl
  | negative =>
    change 0 < -(n : Int) at h
    omega

/-! ## Sums and differences -/

theorem Represents.neg {u : UnpackedFloat} {x : Int} (h : Represents u x) :
    Represents u.neg (-x) := by
  cases h with
  | zero s => exact .zero (-s)
  | finite s hm hc he =>
    rw [← neg_apply]
    exact .finite (-s) hm hc he

/-- A difference is a sum with the opposite number. -/
theorem sub_eq_add_neg (u v : UnpackedFloat) : sub .binary64 u v = add .binary64 u v.neg := by
  cases u with
  | finite s m e hm =>
    cases v with
    | finite t m' e' hm' =>
      change normalize _ (_ - _) _ _ = normalize _ (_ + (-t).apply _) _ _
      rw [neg_apply, ← Int.sub_eq_add_neg]
    | _ => rfl
  | _ => cases v <;> rfl

theorem decreaseExponent_apply (s : Sign) (m : Nat) {e t : Int} (ht : t ≤ e) (hl : -1074 ≤ t) :
    s.apply (decreaseExponent m e t).1 * 2 ^ (t + 1074).toNat =
      s.apply (m * 2 ^ (e + 1074).toNat : Nat) := by
  have hsum : (e + 1074).toNat = (e - t).toNat + (t + 1074).toNat := by omega
  change s.apply (m <<< (e - t).toNat : Nat) * _ = _
  rw [hsum, Nat.shiftLeft_eq, apply_mul, pow_add]
  push_cast
  rw [mul_assoc]

theorem unitsOf_add {u v : UnpackedFloat} {x y : Int} (hu : Represents u x)
    (hv : Represents v y) : unitsOf (repacked (add .binary64 u v)) = fit (rounded (x + y)) := by
  cases hu with
  | zero s =>
    rw [zero_add]
    cases hv with
    | zero t =>
      rw [rounded_zero, fit_zero]
      cases s <;> cases t <;> exact unitsOf_repacked_zero _
    | finite t hm hc he => exact (Represents.finite t hm hc he).unitsOf_repacked
  | finite s hm hc he =>
    cases hv with
    | zero t =>
      rw [add_zero]
      exact (Represents.finite s hm hc he).unitsOf_repacked
    | finite t hm' hc' he' =>
      have hl := hc.least
      have hl' := hc'.least
      unfold add
      dsimp only
      rw [unitsOf_normalize _ (by omega), add_mul, decreaseExponent_apply, decreaseExponent_apply]
      all_goals omega

theorem units_add {a b : Float} {x y : Int} (ha : units a = some x) (hb : units b = some y) :
    units (a + b) = fit (rounded (x + y)) :=
  unitsOf_add (represents_of_units ha) (represents_of_units hb)

theorem units_sub {a b : Float} {x y : Int} (ha : units a = some x) (hb : units b = some y) :
    units (a - b) = fit (rounded (x - y)) := by
  change unitsOf (repacked (sub .binary64 (parts a) (parts b))) = _
  rw [sub_eq_add_neg, Int.sub_eq_add_neg]
  exact unitsOf_add (represents_of_units ha) (represents_of_units hb).neg

/-! ## Products -/

/-- The number 1 as a multiple of the least positive double. -/
def unity : Nat := 2 ^ 1074

theorem unity_eq : (unity : Int) = 2 ^ 1074 := natCast_two_pow 1074

theorem unity_pos : 0 < unity := by
  unfold unity
  positivity

theorem eq_zero_of_mul_unity {z : Int} (h : 0 = z * unity) : z = 0 :=
  (mul_eq_zero.1 h.symm).resolve_right (Int.natCast_pos.2 unity_pos).ne'

theorem exists_apply_of_mul_unity {s : Sign} {a : Nat} {z : Int} (h : s.apply a = z * unity) :
    ∃ n : Nat, z = s.apply n ∧ (a : Int) = n * unity := by
  have hz : (a : Int) = s.apply z * unity := by rw [apply_mul, ← h, apply_apply]
  have hnonneg : 0 ≤ s.apply z := by
    by_contra hneg
    have := mul_neg_of_neg_of_pos (not_le.1 hneg) (Int.natCast_pos.2 unity_pos)
    omega
  refine ⟨(s.apply z).toNat, ?_, ?_⟩
  · rw [Int.toNat_of_nonneg hnonneg, apply_apply]
  · rw [Int.toNat_of_nonneg hnonneg, hz]

theorem denotes_mul {m m' n : Nat} {e e' : Int} (he : -1074 ≤ e) (he' : -1074 ≤ e')
    (h : m * 2 ^ (e + 1074).toNat * (m' * 2 ^ (e' + 1074).toNat) = n * unity) :
    Denotes (m * m') (e + e') n := by
  have hsum : (e + e' + 1074).toNat + 1074 =
      (e + 1074).toNat + (e' + 1074).toNat + (-(e + e' + 1074)).toNat := by omega
  refine Nat.eq_of_mul_eq_mul_right unity_pos ?_
  calc m * m' * 2 ^ (e + e' + 1074).toNat * unity
      = m * m' * 2 ^ ((e + e' + 1074).toNat + 1074) := by rw [pow_add, mul_assoc, unity]
    _ = m * 2 ^ (e + 1074).toNat * (m' * 2 ^ (e' + 1074).toNat) *
        2 ^ (-(e + e' + 1074)).toNat := by
      rw [hsum, pow_add, pow_add]
      ring
    _ = n * 2 ^ (-(e + e' + 1074)).toNat * unity := by rw [h, Nat.mul_right_comm]

theorem unitsOf_mul {u v : UnpackedFloat} {x y z : Int} (hu : Represents u x)
    (hv : Represents v y) (hz : x * y = z * unity) :
    unitsOf (repacked (mul .binary64 u v)) = fit (rounded z) := by
  cases hu with
  | zero s =>
    rw [zero_mul] at hz
    rw [eq_zero_of_mul_unity hz, rounded_zero, fit_zero]
    cases hv <;> exact unitsOf_repacked_zero _
  | finite s hm hc he =>
    cases hv with
    | zero t =>
      rw [mul_zero] at hz
      rw [eq_zero_of_mul_unity hz, rounded_zero, fit_zero]
      exact unitsOf_repacked_zero _
    | finite t hm' hc' he' =>
      rw [apply_mul_apply, ← Nat.cast_mul] at hz
      obtain ⟨n, rfl, hn⟩ := exists_apply_of_mul_unity hz
      have hdenotes := denotes_mul hc.least hc'.least (by exact_mod_cast hn)
      refine hdenotes.unitsOf_round (s * t) ?_
      rcases hc.full with hfull | hmin
      · exact .inl (hfull.trans (Nat.le_mul_of_pos_right _ hm'))
      · rcases hc'.full with hfull | hmin'
        · exact .inl (hfull.trans (Nat.le_mul_of_pos_left _ hm))
        · exact .inr (by omega)

/-- A product that is a multiple of the least positive double is rounded as such. -/
theorem units_mul {a b : Float} {x y z : Int} (ha : units a = some x) (hb : units b = some y)
    (hz : x * y = z * unity) : units (a * b) = fit (rounded z) :=
  unitsOf_mul (represents_of_units ha) (represents_of_units hb) hz

/-! ## Counts -/

/-- A number with at most 53 significant digits is in range and not changed. -/
theorem fit_mul_two_pow {m i : Nat} (hm : m < 2 ^ 53) (hi : i ≤ topPlace) :
    fit (rounded (m * 2 ^ i : Nat)) = some (m * 2 ^ i : Nat) := by
  have habs : |((m * 2 ^ i : Nat) : Int)| = (m * 2 ^ i : Nat) :=
    abs_of_nonneg (Int.natCast_nonneg _)
  have hlt : |((m * 2 ^ i : Nat) : Int)| < 2 ^ (53 + i) := by
    rw [habs, ← natCast_two_pow, Int.ofNat_lt, pow_add]
    exact Nat.mul_lt_mul_of_pos_right hm (Nat.two_pow_pos i)
  have hdvd : (2 : Int) ^ i ∣ (m * 2 ^ i : Nat) := by
    rw [← natCast_two_pow]
    exact Int.natCast_dvd_natCast.2 (dvd_mul_left _ _)
  rw [rounded_eq_self hlt hdvd]
  refine fit_eq_some ?_
  rw [habs, Int.ofNat_lt]
  exact mul_two_pow_lt_limit hm hi

theorem fit_count {n : Nat} (hn : n < 2 ^ 53) :
    fit (rounded (n * unity : Nat)) = some (n * unity : Nat) :=
  fit_mul_two_pow hn (by decide)

theorem units_one : units (Float.ofBits 0x3FF0000000000000) = some unity := by decide +kernel

theorem units_toFloat {n : Nat} (hn : n < 2 ^ 53) :
    units n.toUInt64.toFloat = some (n * unity : Nat) := by
  have hn' : n.toUInt64.toNat = n := by
    rw [UInt64.toNat_ofNat']
    omega
  rw [← fit_count hn]
  change unitsOf (repacked (normalize .binary64 (n.toUInt64.toNat : Int) 0 .positive)) = _
  rw [hn', unitsOf_normalize _ (by decide), Nat.cast_mul, unity_eq]
  rfl

/-- Counts of up to 53 digits are exact. -/
theorem units_ofNat {n : Nat} (hn : n ≤ 2 ^ 53) :
    units (Float.ofNat n) = some (n * unity : Nat) := by
  rcases Nat.lt_or_eq_of_le hn with hn | rfl
  · have hprod : Float.ofNat n = n.toUInt64.toFloat * Float.ofBits 0x3FF0000000000000 := by
      change Float.ofScientific n false 0 = _
      unfold Float.ofScientific
      rw [dif_pos ⟨hn, Nat.zero_le _⟩]
      rfl
    rw [hprod, units_mul (units_toFloat hn) units_one (z := (n * unity : Nat)) rfl]
    exact fit_count hn
  · decide +kernel

/-- The first count that is not exact. -/
theorem ofNat_collision : Float.ofNat (2 ^ 53 + 1) = Float.ofNat (2 ^ 53) := by decide +kernel

/-! ## Quotients by counts -/

theorem mul_two_pow_le {a b i j i' j' : Nat} (h : a * 2 ^ i ≤ b * 2 ^ j) (hij : i' + j ≤ i + j') :
    a * 2 ^ i' ≤ b * 2 ^ j' := by
  refine Nat.le_of_mul_le_mul_right (c := 2 ^ j) ?_ (Nat.two_pow_pos j)
  calc a * 2 ^ i' * 2 ^ j = a * 2 ^ (i' + j) := by rw [pow_add, mul_assoc]
    _ ≤ a * 2 ^ (i + j') := Nat.mul_le_mul_left a (Nat.pow_le_pow_right Nat.two_pos hij)
    _ = a * 2 ^ i * 2 ^ j' := by rw [pow_add, mul_assoc]
    _ ≤ b * 2 ^ j * 2 ^ j' := Nat.mul_le_mul_right _ h
    _ = b * 2 ^ j' * 2 ^ j := Nat.mul_right_comm ..

/-- A mantissa whose digits may be cut off, between the least positive double and half of the
range. -/
theorem unitsOf_round_pos {q : Nat} {t : Int} (a : Accuracy) (hfull : 2 ^ 52 ≤ q ∨ t ≤ -1074)
    (hlow : 2 ^ (-(t + 1074)).toNat ≤ q * 2 ^ (t + 1074).toNat)
    (hhigh : q * 2 ^ (t + 1074).toNat < 2 ^ (52 + topPlace + (-(t + 1074)).toNat)) :
    ∃ y, 0 < y ∧ unitsOf (repacked (roundWithAccuracy .binary64 .positive q t a)) = some y := by
  have htop : topPlace = 2045 := rfl
  have hq : 0 < q := by
    rw [Nat.pos_iff_ne_zero]
    rintro rfl
    rw [zero_mul] at hlow
    exact absurd hlow (not_le.2 (Nat.two_pow_pos _))
  have hlast : (q.log2 : Int) + t - 52 < 971 := by
    by_contra hlast
    refine absurd hhigh (not_lt.2 ?_)
    calc 2 ^ (52 + topPlace + (-(t + 1074)).toNat)
        ≤ 2 ^ (q.log2 + (t + 1074).toNat) := Nat.pow_le_pow_right Nat.two_pos (by omega)
      _ = 2 ^ q.log2 * 2 ^ (t + 1074).toNat := pow_add ..
      _ ≤ q * 2 ^ (t + 1074).toNat := Nat.mul_le_mul_right _ (Nat.log2_self_le hq.ne')
  obtain ⟨k, hk⟩ := Int.le.dest (le_targetOf hfull)
  obtain ⟨hlt, hcut⟩ := cut_bounds hk
  have hexp : (t + k + 1074).toNat + 1 ≤ topPlace := by
    unfold targetOf at hk
    omega
  have hpos : 1 ≤ q / 2 ^ k := by
    rcases hcut with hcut | hmin
    · exact le_trans (by decide) hcut
    · have hnone : (t + 1074).toNat = 0 := by omega
      have hall : (-(t + 1074)).toNat = k := by omega
      rw [hnone, hall, pow_zero, mul_one] at hlow
      rw [Nat.le_div_iff_mul_le (Nat.two_pow_pos k), one_mul]
      exact hlow
  have hbounds := roundedMantissa_bounds (ExtendedMantissa.ofMantissaAndAccuracy q a >>> k)
  have hround := unitsOf_roundWithAccuracy .positive a hk
  rw [mantissa_shift, mantissa_ofMantissaAndAccuracy] at hbounds
  generalize (ExtendedMantissa.ofMantissaAndAccuracy q a >>> k).roundedMantissa = r at *
  refine ⟨_, ?_, hround.trans (fit_eq_some ?_)⟩
  · exact Int.natCast_pos.2 (Nat.mul_pos (by omega) (Nat.two_pow_pos _))
  · rw [abs_apply, Int.ofNat_lt]
    rcases Nat.lt_or_ge r (2 ^ 53) with hr | hr
    · exact mul_two_pow_lt_limit hr (by omega)
    · obtain rfl : r = 2 ^ 53 := by omega
      rw [pow_succ, mul_assoc, ← pow_succ']
      exact mul_two_pow_lt_limit (by decide) hexp

/-- The exponent of a quotient, before it is rounded. -/
def quotientExponent (m : Nat) (e : Int) (m' : Nat) (e' : Int) : Int :=
  min (e - e') (max (m.log2 + e - m'.log2 - e' - 53) (-1074))

theorem divCore_eq (m : Nat) (e : Int) (m' : Nat) (e' : Int) {d : Nat}
    (hd : e - e' = quotientExponent m e m' e' + d) :
    divCore .binary64 m e m' e' =
      (m * 2 ^ d / m', quotientExponent m e m' e', accuracyOfFraction (m * 2 ^ d % m') m') := by
  have htarget : min (e - e')
      (Format.binary64.targetExponent (totalExponent m e - totalExponent m' e')) =
        quotientExponent m e m' e' := by
    change min (e - e') (max ((m.log2 : Int) + 1 + e - (m'.log2 + 1 + e') - 53) (-1074)) = _
    unfold quotientExponent
    omega
  have hshift : (e - e' - quotientExponent m e m' e').toNat = d := by omega
  unfold divCore
  rw [htarget]
  dsimp only
  rw [hshift, Nat.shiftLeft_eq]

/-- A quotient has no fewer digits than a significand, unless it is small. -/
theorem quotient_full {m m' d : Nat} {e e' : Int} (hm : 0 < m) (hm' : 0 < m')
    (hd : e - e' = quotientExponent m e m' e' + d) :
    2 ^ 52 ≤ m * 2 ^ d / m' ∨ quotientExponent m e m' e' ≤ -1074 := by
  by_cases hsmall : quotientExponent m e m' e' ≤ -1074
  · exact .inr hsmall
  · have hdigits : 52 + (m'.log2 + 1) ≤ m.log2 + d := by
      unfold quotientExponent at hd hsmall
      omega
    refine .inl ?_
    rw [Nat.le_div_iff_mul_le hm']
    calc 2 ^ 52 * m' ≤ 2 ^ 52 * 2 ^ (m'.log2 + 1) := Nat.mul_le_mul_left _ Nat.lt_log2_self.le
      _ = 2 ^ (52 + (m'.log2 + 1)) := (pow_add ..).symm
      _ ≤ 2 ^ (m.log2 + d) := Nat.pow_le_pow_right Nat.two_pos hdigits
      _ = 2 ^ m.log2 * 2 ^ d := pow_add ..
      _ ≤ m * 2 ^ d := Nat.mul_le_mul_right _ (Nat.log2_self_le hm.ne')

theorem le_quotient {m m' d : Nat} {e e' t : Int} (hm' : 0 < m') (he : -1074 ≤ e)
    (he' : -1074 ≤ e') (hd : e - e' = t + d) (hfull : 2 ^ 52 ≤ m * 2 ^ d / m' ∨ t ≤ -1074)
    (h : m' * 2 ^ (e' + 1074).toNat ≤ m * 2 ^ ((e + 1074).toNat + 1074)) :
    2 ^ (-(t + 1074)).toNat ≤ m * 2 ^ d / m' * 2 ^ (t + 1074).toNat := by
  rcases Int.le_total t (-1074) with ht | ht
  · have hnone : (t + 1074).toNat = 0 := by omega
    rw [hnone, pow_zero, mul_one, Nat.le_div_iff_mul_le hm', mul_comm]
    exact mul_two_pow_le h (by omega)
  · have hnone : (-(t + 1074)).toNat = 0 := by omega
    have hpos : 0 < m * 2 ^ d / m' := by
      rcases hfull with hfull | hmin
      · exact lt_of_lt_of_le (by decide) hfull
      · rw [Nat.div_pos_iff]
        refine ⟨hm', ?_⟩
        have hle : m' * 2 ^ 0 ≤ m * 2 ^ d := mul_two_pow_le h (by omega)
        rwa [pow_zero, mul_one] at hle
    rw [hnone, pow_zero]
    exact Nat.mul_pos hpos (Nat.two_pow_pos _)

theorem quotient_lt {m m' d c : Nat} {e e' t : Int} (he : -1074 ≤ e)
    (he' : -1074 ≤ e') (hd : e - e' = t + d)
    (h : m * 2 ^ ((e + 1074).toNat + 1074) < m' * 2 ^ ((e' + 1074).toNat + c)) :
    m * 2 ^ d / m' * 2 ^ (t + 1074).toNat < 2 ^ (c + (-(t + 1074)).toNat) := by
  by_contra hbig
  refine absurd h (not_lt.2 ?_)
  have hmul : m' * 2 ^ (c + (-(t + 1074)).toNat) ≤ m * 2 ^ (d + (t + 1074).toNat) :=
    calc m' * 2 ^ (c + (-(t + 1074)).toNat)
        ≤ m' * (m * 2 ^ d / m' * 2 ^ (t + 1074).toNat) := Nat.mul_le_mul_left _ (not_lt.1 hbig)
      _ = m' * (m * 2 ^ d / m') * 2 ^ (t + 1074).toNat := (mul_assoc ..).symm
      _ ≤ m * 2 ^ d * 2 ^ (t + 1074).toNat := Nat.mul_le_mul_right _ (Nat.mul_div_le _ _)
      _ = m * 2 ^ (d + (t + 1074).toNat) := by rw [pow_add, mul_assoc]
  exact mul_two_pow_le hmul (by omega)

theorem Represents.finite_of_pos {u : UnpackedFloat} {x : Nat} (h : Represents u x) (hx : 0 < x) :
    ∃ m e hm, u = .finite .positive m e hm ∧ Canonical m e ∧ x = m * 2 ^ (e + 1074).toNat := by
  obtain ⟨z, hz⟩ : ∃ z : Int, (x : Int) = z := ⟨_, rfl⟩
  rw [hz] at h
  have hpos : 0 < z := hz ▸ Int.natCast_pos.2 hx
  cases h with
  | zero s => cases hpos
  | finite s hm hc he =>
    obtain rfl := eq_positive_of_apply_pos hpos
    exact ⟨_, _, hm, rfl, hc, Int.ofNat_inj.1 hz⟩

/-- A zero divided by another number is a zero. -/
theorem units_zero_div {a b : Float} {y : Int} (ha : units a = some 0) (hb : units b = some y)
    (hy : y ≠ 0) : units (a / b) = some 0 := by
  change unitsOf (repacked (div .binary64 (parts a) (parts b))) = some 0
  have hu := represents_of_units ha
  have hv := represents_of_units hb
  obtain ⟨x, hx⟩ : ∃ x : Int, 0 = x := ⟨0, rfl⟩
  rw [hx] at hu
  generalize parts a = u at hu
  generalize parts b = v at hv
  cases hv with
  | zero t => exact absurd rfl hy
  | finite t hm' hc' he' =>
    cases hu with
    | zero s => exact unitsOf_repacked_zero _
    | @finite s m e hm hc he =>
      have habs := abs_apply s (m * 2 ^ (e + 1074).toNat)
      rw [← hx, abs_zero] at habs
      exact absurd (Int.ofNat_inj.1 habs).symm (Nat.mul_pos hm (Nat.two_pow_pos _)).ne'

/-- A quotient by a count, before its digits are cut off. -/
structure Divided (a b : Float) (x n m m' d : Nat) (e e' t : Int) : Prop where
  pos : 0 < m'
  least : -1074 ≤ e
  least' : -1074 ≤ e'
  dividend : x = m * 2 ^ (e + 1074).toNat
  divisor : n * unity = m' * 2 ^ (e' + 1074).toNat
  exponent : e - e' = t + d
  full : 2 ^ 52 ≤ m * 2 ^ d / m' ∨ t ≤ -1074
  units_eq : units (a / b) = unitsOf (repacked (roundWithAccuracy .binary64 .positive
    (m * 2 ^ d / m') t (accuracyOfFraction (m * 2 ^ d % m') m')))

theorem exists_divided {a b : Float} {x n : Nat} (ha : units a = some (x : Int))
    (hb : units b = some (n * unity : Nat)) (hn : 0 < n) (hx : 0 < x) :
    ∃ m m' d e e', Divided a b x n m m' d e e' (quotientExponent m e m' e') := by
  obtain ⟨m, e, hm, hpa, hc, rfl⟩ := (represents_of_units ha).finite_of_pos hx
  obtain ⟨m', e', hm', hpb, hc', hcount⟩ :=
    (represents_of_units hb).finite_of_pos (Nat.mul_pos hn unity_pos)
  obtain ⟨d, hd⟩ : ∃ d : Nat, e - e' = quotientExponent m e m' e' + d := by
    refine ⟨(e - e' - quotientExponent m e m' e').toNat, ?_⟩
    unfold quotientExponent
    omega
  refine ⟨m, m', d, e, e', hm', hc.least, hc'.least, rfl, hcount, hd, quotient_full hm hm' hd, ?_⟩
  change unitsOf (repacked (div .binary64 (parts a) (parts b))) = _
  rw [hpa, hpb]
  change unitsOf (repacked (match divCore .binary64 m e m' e' with
    | (m, e, acc) => roundWithAccuracy .binary64 .positive m e acc)) = _
  rw [divCore_eq m e m' e' hd]

/-- A quotient by a count is finite and positive when it is at least the least positive double
and less than half of the range. -/
theorem units_div {a b : Float} {x : Int} {n : Nat} (ha : units a = some x)
    (hb : units b = some (n * unity : Nat)) (hn : 0 < n) (hx : n ≤ x) (hlt : 2 * x < n * limit) :
    ∃ y, 0 < y ∧ units (a / b) = some y := by
  obtain ⟨x, rfl⟩ : ∃ z : Nat, x = z := ⟨x.toNat, by omega⟩
  obtain ⟨m, m', d, e, e', h⟩ := exists_divided ha hb hn (by omega)
  generalize quotientExponent m e m' e' = t at h
  have hunits : m' * 2 ^ (e' + 1074).toNat ≤ m * 2 ^ ((e + 1074).toNat + 1074) := by
    rw [← h.divisor, pow_add, ← mul_assoc, ← h.dividend]
    exact Nat.mul_le_mul_right _ (Int.ofNat_le.1 hx)
  have hhalf : m * 2 ^ ((e + 1074).toNat + 1074) <
      m' * 2 ^ ((e' + 1074).toNat + (52 + topPlace)) := by
    have hlimit : limit = 2 * 2 ^ (52 + topPlace) := by
      rw [limit, ← pow_succ']
      congr 1
    have hlt : 2 * x < n * limit := Int.ofNat_lt.1 hlt
    rw [hlimit, Nat.mul_left_comm n] at hlt
    have hlt := Nat.lt_of_mul_lt_mul_left hlt
    rw [pow_add, ← mul_assoc, ← h.dividend, pow_add, ← mul_assoc, ← h.divisor, Nat.mul_right_comm n]
    exact Nat.mul_lt_mul_of_pos_right hlt unity_pos
  rw [h.units_eq]
  exact unitsOf_round_pos _ h.full (le_quotient h.pos h.least h.least' h.exponent h.full hunits)
    (quotient_lt h.least h.least' h.exponent hhalf)

namespace Divided

variable {a b : Float} {x n m m' d k g : Nat} {e e' t : Int}

/-- The last digit that is kept of a quotient below a power of two. -/
theorem last_le (h : Divided a b x n m m' d e e' t) (ht : -2148 ≤ t + e')
    (hlt : x < n * 2 ^ (53 + g)) (hk : t + k = targetOf (m * 2 ^ d / m') t) :
    (t + k + 1074).toNat ≤ g := by
  obtain ⟨hpos, hleast, hleast', hdividend, hdivisor, hexponent, -, -⟩ := h
  generalize hq : m * 2 ^ d / m' = q at hk
  rcases Nat.eq_zero_or_pos q with rfl | hq0
  · have hlog : Nat.log2 0 = 0 := rfl
    unfold targetOf at hk
    omega
  · obtain ⟨s, hs⟩ : ∃ s, (t + e' + 2148).toNat = s := ⟨_, rfl⟩
    have hsum : d + s = (e + 1074).toNat + 1074 := by omega
    have hbelow : m' * (q * 2 ^ s) < m' * 2 ^ ((e' + 1074).toNat + (53 + g)) :=
      calc m' * (q * 2 ^ s) = m' * q * 2 ^ s := (mul_assoc ..).symm
        _ ≤ m * 2 ^ d * 2 ^ s := Nat.mul_le_mul_right _ (hq ▸ Nat.mul_div_le _ _)
        _ = x * unity := by rw [mul_assoc, ← pow_add, hsum, pow_add, ← mul_assoc, hdividend, unity]
        _ < n * 2 ^ (53 + g) * unity := Nat.mul_lt_mul_of_pos_right hlt unity_pos
        _ = m' * 2 ^ ((e' + 1074).toNat + (53 + g)) := by
          rw [Nat.mul_right_comm, hdivisor, pow_add _ (e' + 1074).toNat, mul_assoc]
    have hlog : 2 ^ (q.log2 + s) < 2 ^ ((e' + 1074).toNat + (53 + g)) := by
      refine lt_of_le_of_lt ?_ (Nat.lt_of_mul_lt_mul_left hbelow)
      rw [pow_add]
      exact Nat.mul_le_mul_right _ (Nat.log2_self_le hq0.ne')
    have hlog := (Nat.pow_lt_pow_iff_right Nat.one_lt_two).1 hlog
    unfold targetOf at hk
    omega

/-- The closest integer to the quotient of the mantissas, as a multiple of the least positive
double. -/
theorem error_le (h : Divided a b x n m m' d e e' t) (ht : -2148 ≤ t + e') {r : Nat}
    (hk : -1074 ≤ t + k) (hlow : 2 * (r * (m' * 2 ^ k)) ≤ 2 * (m * 2 ^ d) + m' * 2 ^ k)
    (hhigh : 2 * (m * 2 ^ d) ≤ 2 * (r * (m' * 2 ^ k)) + m' * 2 ^ k) :
    2 * (r * 2 ^ (t + k + 1074).toNat * n) ≤ 2 * x + n * 2 ^ (t + k + 1074).toNat ∧
      2 * x ≤ 2 * (r * 2 ^ (t + k + 1074).toNat * n) + n * 2 ^ (t + k + 1074).toNat := by
  obtain ⟨hpos, hleast, hleast', hdividend, hdivisor, hexponent, -, -⟩ := h
  obtain ⟨s, hs⟩ : ∃ s, (t + e' + 2148).toNat = s := ⟨_, rfl⟩
  obtain ⟨last, hlast⟩ : ∃ last, (t + k + 1074).toNat = last := ⟨_, rfl⟩
  have hx : m * 2 ^ d * 2 ^ s = x * unity := by
    have hsum : d + s = (e + 1074).toNat + 1074 := by omega
    rw [mul_assoc, ← pow_add, hsum, pow_add, ← mul_assoc, hdividend, unity]
  have hn : m' * 2 ^ k * 2 ^ s = n * 2 ^ last * unity := by
    have hsum : k + s = (e' + 1074).toNat + last := by omega
    rw [mul_assoc, ← pow_add, hsum, pow_add, ← mul_assoc, ← hdivisor, Nat.mul_right_comm]
  rw [hlast]
  constructor
  · refine Nat.le_of_mul_le_mul_right ?_ unity_pos
    calc 2 * (r * 2 ^ last * n) * unity = 2 * (r * (n * 2 ^ last * unity)) := by ring
      _ = 2 * (r * (m' * 2 ^ k)) * 2 ^ s := by rw [← hn]; ring
      _ ≤ (2 * (m * 2 ^ d) + m' * 2 ^ k) * 2 ^ s := Nat.mul_le_mul_right _ hlow
      _ = 2 * (m * 2 ^ d * 2 ^ s) + m' * 2 ^ k * 2 ^ s := by ring
      _ = (2 * x + n * 2 ^ last) * unity := by rw [hx, hn]; ring
  · refine Nat.le_of_mul_le_mul_right ?_ unity_pos
    calc 2 * x * unity = 2 * (m * 2 ^ d) * 2 ^ s := by rw [mul_assoc, ← hx]; ring
      _ ≤ (2 * (r * (m' * 2 ^ k)) + m' * 2 ^ k) * 2 ^ s := Nat.mul_le_mul_right _ hhigh
      _ = 2 * (r * (m' * 2 ^ k * 2 ^ s)) + m' * 2 ^ k * 2 ^ s := by ring
      _ = (2 * (r * 2 ^ last * n) + n * 2 ^ last) * unity := by rw [hn]; ring

end Divided

/-- The error of a quotient by a count is at most half a unit in the last place. -/
theorem units_div_error {a b : Float} {x n g : Nat} {y : Int} (ha : units a = some (x : Int))
    (hb : units b = some (n * unity : Nat)) (hn : 0 < n) (hx : 0 < x)
    (hlt : x < n * 2 ^ (53 + g)) (hy : units (a / b) = some y) :
    2 * (y * n) ≤ 2 * x + n * 2 ^ g ∧ 2 * (x : Int) ≤ 2 * (y * n) + n * 2 ^ g := by
  obtain ⟨m, m', d, e, e', h⟩ := exists_divided ha hb hn hx
  have ht : -2148 ≤ quotientExponent m e m' e' + e' := by
    have hleast := h.least
    have hleast' := h.least'
    unfold quotientExponent
    omega
  generalize quotientExponent m e m' e' = t at h ht
  obtain ⟨k, hk⟩ := Int.le.dest (le_targetOf h.full)
  have hround := h.units_eq.symm.trans hy
  rw [unitsOf_roundWithAccuracy .positive _ hk] at hround
  obtain ⟨-, rfl⟩ := fit_eq_some_iff.1 hround
  -- what is packed is the integer closest to the quotient of the mantissas
  have hshift := (Approximates.ofFraction (m * 2 ^ d) h.pos).shift h.pos k
  have hpos := Nat.mul_pos h.pos (Nat.two_pow_pos k)
  have hspec := roundQuotient_spec (m * 2 ^ d : Nat) hpos
  rw [← hshift.roundedMantissa_eq hpos] at hspec
  generalize (ExtendedMantissa.ofMantissaAndAccuracy (m * 2 ^ d / m')
    (accuracyOfFraction (m * 2 ^ d % m') m') >>> k).roundedMantissa = r at *
  have hleast : -1074 ≤ t + k := by
    unfold targetOf at hk
    omega
  obtain ⟨hlow, hhigh⟩ := h.error_le ht hleast (by exact_mod_cast hspec.1)
    (by exact_mod_cast hspec.2)
  have hlast : n * 2 ^ (t + k + 1074).toNat ≤ n * 2 ^ g :=
    Nat.mul_le_mul_left n (Nat.pow_le_pow_right Nat.two_pos (h.last_le ht hlt hk))
  change 2 * ((r * 2 ^ (t + k + 1074).toNat : Nat) * (n : Int)) ≤ _ ∧
    _ ≤ 2 * ((r * 2 ^ (t + k + 1074).toNat : Nat) * (n : Int)) + _
  constructor
  · exact_mod_cast hlow.trans (Nat.add_le_add_left hlast _)
  · exact_mod_cast hhigh.trans (Nat.add_le_add_left hlast _)

end SteppedConvolution.Binary
