import Mathlib.Algebra.Order.Ring.Abs
import Mathlib.Tactic.Ring
import SteppedConvolution.Proofs.Binary.Rounding
import SteppedConvolution.Scalar.Binary

/-! # The numbers among the doubles

A double has a sign, a mantissa and an exponent, or it is a zero, an infinity or undefined.
Every finite double is a multiple of the least positive one, so its value is an integer.
Packing a canonical mantissa and exponent gives them back, or an infinity where the value is
beyond the range.
-/

namespace SteppedConvolution.Binary

open Float.Model (UnpackedFloat Format)
open Float.Model.UnpackedFloat

/-- Sign, mantissa and exponent of a double. -/
def parts (a : Float) : UnpackedFloat := a.toModel.unpack

/-- A packed number, taken apart again. -/
def repacked (u : UnpackedFloat) : UnpackedFloat := (Float.Model.pack u).unpack

/-- The mantissas and exponents of doubles, apart from the bound on the exponent. -/
structure Canonical (m : Nat) (e : Int) : Prop where
  lt : m < 2 ^ 53
  least : -1074 ≤ e
  full : 2 ^ 52 ≤ m ∨ e = -1074

/-! ## Bit fields -/

theorem exponentBias_eq : (Format.binary64.exponentBias : Int) = 1023 := rfl

/-- A full mantissa has its leading bit left out. -/
theorem toNat_one_append (v : BitVec 52) : (1#1 ++ v).toNat = 2 ^ 52 + v.toNat := by
  rw [BitVec.toNat_append, Nat.shiftLeft_eq, BitVec.toNat_one (by decide), one_mul,
    ← Nat.two_pow_add_eq_or_of_lt v.isLt 1]
  omega

theorem canonical_of_unpack (b : BitVec Format.binary64.numBits) {s : Sign} {m : Nat} {e : Int}
    {hm : 0 < m} (h : unpack .binary64 b = .finite s m e hm) : Canonical m e ∧ e ≤ 971 := by
  unfold unpack at h
  dsimp only at h
  have hexp : (unpackExponent b).toNat < 2048 := (unpackExponent b).isLt
  have hman : (unpackMantissa b).toNat < 2 ^ 52 := (unpackMantissa b).isLt
  have hbit := toNat_one_append (unpackMantissa b)
  by_cases hlast : unpackExponent b = -1#11
  · rw [if_pos hlast] at h
    by_cases hman : unpackMantissa b = 0#52
    · rw [if_pos hman] at h
      cases h
    · rw [if_neg hman] at h
      cases h
  rw [if_neg hlast] at h
  have hlast : (unpackExponent b).toNat ≠ 2047 := fun h => hlast (BitVec.eq_of_toNat_eq h)
  by_cases hfirst : unpackExponent b = 0#11
  · rw [if_pos hfirst] at h
    by_cases hman : unpackMantissa b = 0#52
    · rw [dif_pos hman] at h
      cases h
    · rw [dif_neg hman] at h
      cases h
      rw [exponentBias_eq, hfirst]
      exact ⟨⟨by omega, by decide, .inr (by decide)⟩, by decide⟩
  · rw [if_neg hfirst] at h
    have hfirst : (unpackExponent b).toNat ≠ 0 := fun h => hfirst (BitVec.eq_of_toNat_eq h)
    cases h
    rw [exponentBias_eq]
    exact ⟨⟨by omega, by omega, .inl (by omega)⟩, by omega⟩

theorem ofBitVec_toBitVec (s : Sign) : Sign.ofBitVec s.toBitVec = s := by
  cases s <;> rfl

theorem unpackSign_packComponents (s : Sign) (e : BitVec 11) (m : BitVec 52) :
    @unpackSign .binary64 (packComponents .binary64 s e m) = s.toBitVec := by
  change (s.toBitVec ++ e ++ m).extractLsb' 63 1 = s.toBitVec
  rw [BitVec.extractLsb'_append_eq_of_le (by decide), BitVec.extractLsb'_append_eq_of_le (by decide)]
  exact BitVec.extractLsb'_eq_self

theorem finite_congr {s : Sign} {m m' : Nat} {e e' : Int} {hm : 0 < m} {hm' : 0 < m'}
    (h : m' = m) (h' : e' = e) : UnpackedFloat.finite s m' e' hm' = .finite s m e hm := by
  subst h h'
  rfl

/-- The number that a sign, an exponent field and a mantissa field stand for. -/
theorem unpack_packComponents (s : Sign) (e : BitVec 11) (m : BitVec 52) :
    unpack .binary64 (packComponents .binary64 s e m) =
      if e = -1#11 then if m = 0#52 then .infinity s else .notANumber
      else if e = 0#11 then
        if h : m = 0#52 then .zero s
        else .finite s m.toNat (-1074) (by simpa [BitVec.toNat_pos, BitVec.pos_iff_ne_zero])
      else .finite s (1#1 ++ m).toNat (e.toNat - 1075) (by rw [toNat_one_append]; omega) := by
  have he : unpackExponent (packComponents .binary64 s e m) = e := unpackExponent_packComponents ..
  have hm : unpackMantissa (packComponents .binary64 s e m) = m := unpackMantissa_packComponents ..
  have hs := ofBitVec_toBitVec s
  rw [← unpackSign_packComponents s e m] at hs
  generalize packComponents .binary64 s e m = b at *
  subst he hm hs
  unfold unpack
  dsimp only
  refine ite_congr rfl (fun _ => rfl) fun _ => ite_congr rfl (fun hfirst => ?_) fun _ => ?_
  · refine dite_congr rfl (fun _ => rfl) fun _ => finite_congr rfl ?_
    rw [exponentBias_eq, hfirst]
    rfl
  · refine finite_congr rfl ?_
    rw [exponentBias_eq]
    omega

/-! ## Packed numbers -/

theorem repacked_infinity (s : Sign) : repacked (.infinity s) = .infinity s := by
  cases s <;> rfl

theorem repacked_zero (s : Sign) : repacked (.zero s) = .zero s := by
  cases s <;> rfl

/-- A mantissa is too large, has its leading bit left out, or is short. -/
theorem pack_finite (s : Sign) {m : Nat} (e : Int) (hm : 0 < m) :
    pack .binary64 (.finite s m e hm) =
      if 2 ^ 11 ≤ (e + Format.binary64.exponentBias + (52 : Nat)).toNat + 1 then
        packedInfinity .binary64 s
      else if m.log2 + 1 = Format.binary64.mantissaBits then
        packComponents .binary64 s
          (BitVec.ofNat 11 (e + Format.binary64.exponentBias + (52 : Nat)).toNat) (BitVec.ofNat 52 m)
      else packComponents .binary64 s 0#11 (BitVec.ofNat 52 m) :=
  rfl

theorem toNat_biased {e : Int} (hlow : -1074 ≤ e) (he : e ≤ 971) :
    (BitVec.ofNat 11 (e + Format.binary64.exponentBias + (52 : Nat)).toNat).toNat =
      (e + 1075).toNat := by
  rw [exponentBias_eq, BitVec.toNat_ofNat, Nat.mod_eq_of_lt (by omega)]
  omega

theorem repacked_large {s : Sign} {m : Nat} {e : Int} {hm : 0 < m} (he : 971 < e) :
    repacked (.finite s m e hm) = .infinity s := by
  have hbig : 2 ^ 11 ≤ (e + Format.binary64.exponentBias + (52 : Nat)).toNat + 1 := by
    rw [exponentBias_eq]
    omega
  change unpack .binary64 (pack .binary64 _) = _
  rw [pack_finite, if_pos hbig]
  exact repacked_infinity s

theorem repacked_full {s : Sign} {m : Nat} {e : Int} {hm : 0 < m} (hfull : 2 ^ 52 ≤ m)
    (hlt : m < 2 ^ 53) (hlow : -1074 ≤ e) (he : e ≤ 971) :
    repacked (.finite s m e hm) = .finite s m e hm := by
  have hbiased := toNat_biased hlow he
  have hsmall : ¬ 2 ^ 11 ≤ (e + Format.binary64.exponentBias + (52 : Nat)).toNat + 1 := by
    rw [exponentBias_eq]
    omega
  have hlog : m.log2 + 1 = Format.binary64.mantissaBits := by
    rw [(Nat.log2_eq_iff hm.ne').2 ⟨hfull, hlt⟩]
    rfl
  have hmantissa : (BitVec.ofNat 52 m).toNat = m - 2 ^ 52 := by
    rw [BitVec.toNat_ofNat, Nat.mod_eq_sub_mod hfull, Nat.mod_eq_of_lt (by omega)]
  change unpack .binary64 (pack .binary64 _) = _
  rw [pack_finite, if_neg hsmall, if_pos hlog, unpack_packComponents, if_neg, if_neg]
  · apply finite_congr
    · rw [toNat_one_append, hmantissa]
      omega
    · rw [hbiased]
      omega
  all_goals
    intro h
    rw [h] at hbiased
    simp at hbiased
    omega

theorem repacked_least {s : Sign} {m : Nat} {hm : 0 < m} (hlt : m < 2 ^ 52) :
    repacked (.finite s m (-1074) hm) = .finite s m (-1074) hm := by
  have hlog : ¬ m.log2 + 1 = Format.binary64.mantissaBits := by
    have : m.log2 < 52 := (Nat.log2_lt hm.ne').2 hlt
    change ¬ m.log2 + 1 = 53
    omega
  have hmantissa : (BitVec.ofNat 52 m).toNat = m := by
    rw [BitVec.toNat_ofNat, Nat.mod_eq_of_lt hlt]
  have hne : ¬ BitVec.ofNat 52 m = 0#52 := by
    intro h
    rw [h] at hmantissa
    exact hm.ne hmantissa
  change unpack .binary64 (pack .binary64 _) = _
  rw [pack_finite, if_neg (by decide), if_neg hlog, unpack_packComponents, if_neg (by decide),
    if_pos rfl, dif_neg hne]
  exact finite_congr hmantissa rfl

/-- A canonical number in range is packed as it is. -/
theorem repacked_finite {s : Sign} {m : Nat} {e : Int} {hm : 0 < m} (hc : Canonical m e)
    (he : e ≤ 971) : repacked (.finite s m e hm) = .finite s m e hm := by
  by_cases hfull : 2 ^ 52 ≤ m
  · exact repacked_full hfull hc.lt hc.least he
  · obtain rfl := hc.full.resolve_left hfull
    exact repacked_least (not_le.1 hfull)

/-! ## Multiples of the least positive double -/

/-- A finite number as a multiple of the least positive double. -/
def unitsOf : UnpackedFloat → Option Int
  | .zero _ => some 0
  | .finite s m e _ => some (s.apply (m * 2 ^ (e + 1074).toNat : Nat))
  | _ => none

/-- A finite double as a multiple of the least positive one. -/
def units (a : Float) : Option Int := unitsOf (parts a)

/-- The binary digits that the largest doubles leave out. -/
def topPlace : Nat := 2045

/-- The least power of two beyond the range of doubles. -/
def limit : Nat := 2 ^ (53 + topPlace)

theorem limit_eq : (limit : Int) = 2 ^ (53 + topPlace) := natCast_two_pow _

theorem limit_pos : 0 < limit := Nat.two_pow_pos _

/-- A multiple of the least positive double, where it is in the range of doubles. -/
def fit (x : Int) : Option Int := if |x| < limit then some x else none

theorem fit_eq_some {x : Int} (h : |x| < limit) : fit x = some x := if_pos h

theorem fit_eq_some_iff {x y : Int} : fit x = some y ↔ |x| < limit ∧ x = y := by
  unfold fit
  split_ifs with h
  · simp only [h, true_and, Option.some.injEq]
  · simp only [h, false_and]

theorem fit_zero : fit 0 = some 0 := fit_eq_some (Int.natCast_pos.2 limit_pos)

theorem abs_apply (s : Sign) (n : Nat) : |s.apply n| = n := by
  cases s <;> simp [Sign.apply]

theorem mul_two_pow_lt_limit {m i : Nat} (hm : m < 2 ^ 53) (hi : i ≤ topPlace) :
    m * 2 ^ i < limit := by
  rw [limit, pow_add]
  exact Nat.mul_lt_mul_of_lt_of_le hm (Nat.pow_le_pow_right Nat.two_pos hi) (Nat.two_pow_pos _)

theorem limit_le_mul_two_pow {m i : Nat} (hm : 2 ^ 52 ≤ m) (hi : topPlace + 1 ≤ i) :
    limit ≤ m * 2 ^ i := by
  have hlimit : limit = 2 ^ 52 * 2 ^ (topPlace + 1) := by
    rw [limit, ← pow_add]
    congr 1
  rw [hlimit]
  exact Nat.mul_le_mul hm (Nat.pow_le_pow_right Nat.two_pos hi)

/-- A canonical number is in range unless its exponent is too large. -/
theorem lt_limit_iff {m : Nat} {e : Int} (hc : Canonical m e) :
    m * 2 ^ (e + 1074).toNat < limit ↔ e ≤ 971 := by
  have hlow := hc.least
  have htop : topPlace = 2045 := rfl
  refine ⟨fun h => ?_, fun he => mul_two_pow_lt_limit hc.lt (by omega)⟩
  by_contra he
  have hfull := hc.full.resolve_right (by omega)
  exact absurd h (not_lt.2 (limit_le_mul_two_pow hfull (by omega)))

theorem unitsOf_repacked_zero (s : Sign) : unitsOf (repacked (.zero s)) = some 0 := by
  rw [repacked_zero]
  rfl

theorem unitsOf_repacked {s : Sign} {m : Nat} {e : Int} {hm : 0 < m} (hc : Canonical m e) :
    unitsOf (repacked (.finite s m e hm)) = fit (s.apply (m * 2 ^ (e + 1074).toNat : Nat)) := by
  unfold fit
  rw [abs_apply]
  by_cases he : e ≤ 971
  · rw [repacked_finite hc he, if_pos (Int.ofNat_lt.2 ((lt_limit_iff hc).2 he))]
    rfl
  · rw [repacked_large (not_le.1 he), if_neg (mt Int.ofNat_lt.1 (mt (lt_limit_iff hc).1 he))]
    rfl

/-- A zero, or a canonical number in range, with its value. -/
inductive Represents : UnpackedFloat → Int → Prop
  | zero (s : Sign) : Represents (.zero s) 0
  | finite (s : Sign) {m : Nat} {e : Int} (hm : 0 < m) (hc : Canonical m e) (he : e ≤ 971) :
      Represents (.finite s m e hm) (s.apply (m * 2 ^ (e + 1074).toNat : Nat))

/-- A finite double is a zero or has canonical parts. -/
theorem represents_of_units {a : Float} {x : Int} (h : units a = some x) :
    Represents (parts a) x := by
  unfold units at h
  cases hp : parts a with
  | infinity s =>
    rw [hp] at h
    cases h
  | notANumber =>
    rw [hp] at h
    cases h
  | zero s =>
    rw [hp] at h
    cases h
    exact .zero s
  | finite s m e hm =>
    rw [hp] at h
    cases h
    obtain ⟨hc, he⟩ := canonical_of_unpack _ hp
    exact .finite s hm hc he

/-- Rounding does not change a canonical number. -/
theorem rounded_apply {m : Nat} {e : Int} (hc : Canonical m e) (s : Sign) :
    rounded (s.apply (m * 2 ^ (e + 1074).toNat : Nat)) =
      s.apply (m * 2 ^ (e + 1074).toNat : Nat) := by
  have hlt : (m : Int) < 2 ^ 53 := by exact_mod_cast hc.lt
  have hpow : (0 : Int) < 2 ^ (e + 1074).toNat := by positivity
  refine rounded_eq_self (a := (e + 1074).toNat) ?_ ?_
  · rw [abs_apply, pow_add, Nat.cast_mul, natCast_two_pow]
    exact mul_lt_mul_of_pos_right hlt hpow
  · rw [Nat.cast_mul, natCast_two_pow]
    cases s with
    | positive => exact dvd_mul_left _ _
    | negative => exact (dvd_mul_left _ _).neg_right

namespace Represents

variable {u : UnpackedFloat} {x : Int}

theorem rounded_eq (h : Represents u x) : rounded x = x := by
  cases h with
  | zero s => exact rounded_zero
  | finite s hm hc he => exact rounded_apply hc s

theorem unitsOf_repacked (h : Represents u x) : unitsOf (repacked u) = fit (rounded x) := by
  rw [h.rounded_eq]
  cases h with
  | zero s =>
    rw [unitsOf_repacked_zero, fit_zero]
  | finite s hm hc he => exact Binary.unitsOf_repacked hc

end Represents

theorem rounded_units {a : Float} {x : Int} (h : units a = some x) : rounded x = x :=
  (represents_of_units h).rounded_eq

end SteppedConvolution.Binary
