import Mathlib
import SteppedConvolution.Proofs.Binary.Comparison
import SteppedConvolution.Proofs.Scalar.Signed

/-! # Signs of doubles

A double that is a number has a sign, which a zero has as well. A decimal is read to a
double with a positive sign, negation turns the sign around and the magnitude drops it, and
no other bit changes.
-/

namespace SteppedConvolution.Binary

open Float.Model (UnpackedFloat Format)
open Float.Model.UnpackedFloat

/-! ## Parts -/

/-- A double is determined by its parts. -/
theorem parts_injective {a b : Float} (h : parts a = parts b) : a = b := by
  obtain ⟨⟨⟨a⟩, ha⟩⟩ := a
  obtain ⟨⟨⟨b⟩, hb⟩⟩ := b
  obtain rfl : a = b := (unpack_inj_of_valid ha hb).1 h
  rfl

theorem parts_neg (a : Float) : parts (-a) = (parts a).neg := by
  change repacked (parts a).neg = _
  cases hp : parts a with
  | notANumber => rfl
  | infinity s => exact repacked_infinity _
  | zero s => exact repacked_zero _
  | finite s m e hm =>
    obtain ⟨hc, he⟩ := canonical_of_unpack _ hp
    exact repacked_finite hc he

theorem parts_magnitude (a : Float) : parts (Scalar.magnitude a) = (parts a).abs := by
  change repacked (parts a).abs = _
  cases hp : parts a with
  | notANumber => rfl
  | infinity s => exact repacked_infinity _
  | zero s => exact repacked_zero _
  | finite s m e hm =>
    obtain ⟨hc, he⟩ := canonical_of_unpack _ hp
    exact repacked_finite hc he

/-! ## Signs -/

/-- The sign of a number. -/
def signOf : UnpackedFloat → Option Sign
  | .zero s | .finite s _ _ _ | .infinity s => some s
  | .notANumber => none

theorem signOf_unpack {b : BitVec Format.binary64.numBits} {s : Sign}
    (h : signOf (unpack .binary64 b) = some s) : s = Sign.ofBitVec (unpackSign b) := by
  unfold unpack at h
  dsimp only at h
  split_ifs at h <;> cases h <;> rfl

theorem toNat_unpackSign (b : BitVec Format.binary64.numBits) :
    (unpackSign b).toNat = b.toNat / 2 ^ 63 % 2 := by
  rw [← Nat.shiftRight_eq_div_pow]
  exact BitVec.extractLsb_toNat ..

/-- The minus sign of a number is its leading bit. -/
theorem isNegative_iff {a : Float} {s : Sign} (h : signOf (parts a) = some s) :
    Scalar.isNegative a = true ↔ s = .negative := by
  change decide (2 ^ 63 ≤ a.toModel.toBits.toBitVec.toNat) = true ↔ _
  obtain rfl := signOf_unpack h
  generalize hb : a.toModel.toBits.toBitVec = b
  have hlt : b.toNat < 2 ^ 64 := b.isLt
  have hbit := toNat_unpackSign b
  have hv (v : BitVec 1) : Sign.ofBitVec v = .negative ↔ v.toNat = 1 := by
    rcases BitVec.eq_zero_or_eq_one v with rfl | rfl <;> simp [Sign.ofBitVec]
  rw [decide_eq_true_iff, hv, hbit]
  omega

/-! ## Decimals -/

theorem signOf_repacked {u : UnpackedFloat} {s : Sign} (h : signOf u = some s) :
    signOf (repacked u) = some s := by
  cases u with
  | notANumber => cases h
  | infinity t => rwa [repacked_infinity]
  | zero t => rwa [repacked_zero]
  | finite t m e hm =>
    obtain rfl := Option.some.inj h
    have hcomponents {x : BitVec 11} (hx : x ≠ -1#11) (y : BitVec 52) :
        signOf (unpack .binary64 (packComponents .binary64 t x y)) = some t := by
      rw [unpack_packComponents, if_neg hx]
      split_ifs <;> rfl
    change signOf (unpack .binary64 (pack .binary64 (.finite t m e hm))) = _
    rw [pack_finite]
    split_ifs with hlarge hfull
    · change signOf (repacked (.infinity t)) = _
      rw [repacked_infinity]
      rfl
    · refine hcomponents (fun hlast => ?_) _
      have hlast := congrArg BitVec.toNat hlast
      change _ % 2 ^ 11 = 2 ^ 11 - 1 at hlast
      omega
    · exact hcomponents (by decide) _

theorem signOf_roundWithAccuracy (s : Sign) (m : Nat) (e : Int) (a : Accuracy) :
    signOf (roundWithAccuracy .binary64 s m e a) = some s := by
  unfold roundWithAccuracy
  dsimp only
  split_ifs <;> rfl

/-- The parts of a positive double that is neither zero nor infinite. -/
def IsPositive (u : UnpackedFloat) : Prop := ∃ m e hm, u = .finite .positive m e hm

theorem signOf_mul {u v : UnpackedFloat} (hu : signOf u = some .positive) (hv : IsPositive v) :
    signOf (mul .binary64 u v) = some .positive := by
  obtain ⟨m, e, hm, rfl⟩ := hv
  cases u with
  | notANumber => cases hu
  | infinity s => cases hu; rfl
  | zero s => cases hu; rfl
  | finite s m' e' hm' =>
    cases hu
    exact signOf_roundWithAccuracy _ _ _ _

theorem signOf_div {u v : UnpackedFloat} (hu : signOf u = some .positive) (hv : IsPositive v) :
    signOf (div .binary64 u v) = some .positive := by
  obtain ⟨m, e, hm, rfl⟩ := hv
  cases u with
  | notANumber => cases hu
  | infinity s => cases hu; rfl
  | zero s => cases hu; rfl
  | finite s m' e' hm' =>
    cases hu
    exact signOf_roundWithAccuracy _ _ _ _

theorem signOf_toFloat (n : UInt64) : signOf (parts n.toFloat) = some .positive := by
  refine signOf_repacked (u := ofNat .binary64 n.toNat) ?_
  change signOf (normalize .binary64 (n.toNat : Int) 0 .positive) = _
  have hn : (0 : Int) ≤ n.toNat := Int.natCast_nonneg _
  unfold UnpackedFloat.normalize
  split
  · rename_i h
    exact absurd (Int.compare_eq_lt.1 h) (not_lt.2 hn)
  · rfl
  · exact signOf_roundWithAccuracy _ _ _ _

/-- The powers of ten in the table are positive and finite. -/
theorem isPositive_powerOfTen (i : Fin 23) :
    IsPositive (parts Float.exactlyRepresentablePowersOfTen[i]) := by
  have hall : ∀ i : Fin 23,
      (units Float.exactlyRepresentablePowersOfTen[i]).any (0 < ·) = true := by decide +kernel
  obtain ⟨x, hx, hpos⟩ := (Option.any_eq_true _ _).1 (hall i)
  obtain ⟨x, rfl⟩ := Int.eq_ofNat_of_zero_le (of_decide_eq_true hpos).le
  obtain ⟨m, e, hm, hp, -, -⟩ :=
    (represents_of_units hx).finite_of_pos (Int.natCast_pos.1 (of_decide_eq_true hpos))
  exact ⟨m, e, hm, hp⟩

theorem signOf_decimal (m : Nat) (e : Int) :
    signOf (UnpackedFloat.ofScientific .binary64 m e) = some .positive := by
  unfold UnpackedFloat.ofScientific
  dsimp only
  split_ifs
  · rfl
  · rfl
  · rfl
  · exact signOf_mul rfl ⟨_, _, _, rfl⟩
  · exact signOf_div rfl ⟨_, _, _, rfl⟩

theorem signOf_ofScientific (m : Nat) (negative : Bool) (e : Nat) :
    signOf (parts (Float.ofScientific m negative e)) = some .positive := by
  unfold Float.ofScientific
  dsimp only
  by_cases hsmall : m < 2 ^ 53 ∧ e ≤ 22
  · have hpower := isPositive_powerOfTen ⟨e, Nat.lt_succ_of_le hsmall.2⟩
    rw [dif_pos hsmall]
    cases negative with
    | true => exact signOf_repacked (signOf_div (signOf_toFloat m.toUInt64) hpower)
    | false => exact signOf_repacked (signOf_mul (signOf_toFloat m.toUInt64) hpower)
  · rw [dif_neg hsmall]
    exact signOf_repacked (signOf_decimal m _)

/-- A decimal is read to a double with a positive sign, be it a zero or an infinity. -/
theorem signOf_ofDecimal (m : Nat) (e : Int) :
    signOf (parts (ofDecimal m e)) = some .positive := by
  unfold ofDecimal
  dsimp only
  split_ifs
  · rfl
  · rfl
  · rfl
  · exact signOf_ofScientific _ _ _
  · exact signOf_ofScientific _ _ _

theorem signOf_neg {a : Float} (h : signOf (parts a) = some .positive) :
    signOf (parts (-a)) = some .negative := by
  rw [parts_neg]
  cases hp : parts a with
  | notANumber => rw [hp] at h; cases h
  | _ => rw [hp] at h; cases h; rfl

theorem magnitude_neg {a : Float} (h : signOf (parts a) = some .positive) :
    Scalar.magnitude (-a) = a := by
  apply parts_injective
  rw [parts_magnitude, parts_neg]
  cases hp : parts a with
  | notANumber => rfl
  | _ => rw [hp] at h; cases h; rfl

theorem zero_le {a : Float} (h : signOf (parts a) = some .positive) : 0 ≤ a := by
  have hzero : parts (0 : Float) = .zero .positive := rfl
  rw [le_iff, hzero]
  cases hp : parts a with
  | notANumber => rw [hp] at h; cases h
  | _ => rw [hp] at h; cases h; rfl

theorem isNegative_eq_false {a : Float} (h : signOf (parts a) = some .positive) :
    Scalar.isNegative a = false :=
  Bool.eq_false_iff.2 (mt (isNegative_iff h).1 nofun)

theorem signOf_magnitude {a : Float} (h : parts a ≠ .notANumber) :
    signOf (parts (Scalar.magnitude a)) = some .positive := by
  rw [parts_magnitude]
  cases hp : parts a with
  | notANumber => exact absurd hp h
  | _ => rfl

instance : SignedDecimals Float where
  isNegative_value k := isNegative_eq_false (signOf_ofDecimal _ _)
  isNegative_neg_value k := (isNegative_iff (signOf_neg (signOf_ofDecimal _ _))).2 rfl
  magnitude_neg_value k := magnitude_neg (signOf_ofDecimal _ _)
  zero_le_value k := zero_le (signOf_ofDecimal _ _)
  exists_value_eq_one := ⟨⟨['1'], none, none⟩, by decide +kernel⟩
  isFinite_magnitude a := by
    change (parts (Scalar.magnitude a)).isFinite = (parts a).isFinite
    rw [parts_magnitude]
    cases parts a <;> rfl
  isNegative_magnitude h := by
    obtain ⟨x, hx⟩ := (isFinite_iff _).1 h
    exact isNegative_eq_false (signOf_magnitude (parts_ne_notANumber hx))

end SteppedConvolution.Binary
