import SteppedConvolution.Proofs.Binary.Arithmetic
import SteppedConvolution.TimeGrid.Basic

/-! # Comparisons of doubles

What a comparison with zero or with the tolerance on grids says about a double, and which
operations give a number.
-/

namespace SteppedConvolution.Binary

open Float.Model (UnpackedFloat Format)
open Float.Model.UnpackedFloat

/-! ## Finite doubles -/

theorem isFinite_iff (a : Float) : Scalar.isFinite a = true ↔ ∃ x, units a = some x := by
  change (parts a).isFinite = true ↔ ∃ x, unitsOf (parts a) = some x
  cases parts a with
  | zero s => exact ⟨fun _ => ⟨_, rfl⟩, fun _ => rfl⟩
  | finite s m e hm => exact ⟨fun _ => ⟨_, rfl⟩, fun _ => rfl⟩
  | infinity s => exact ⟨fun h => (nomatch h), fun ⟨_, h⟩ => (nomatch h)⟩
  | notANumber => exact ⟨fun h => (nomatch h), fun ⟨_, h⟩ => (nomatch h)⟩

theorem units_eq_none {a : Float} (h : units a = none) :
    (∃ s, parts a = .infinity s) ∨ parts a = .notANumber := by
  unfold units at h
  cases hp : parts a with
  | infinity s => exact .inl ⟨s, rfl⟩
  | notANumber => exact .inr rfl
  | zero s =>
    rw [hp] at h
    cases h
  | finite s m e hm =>
    rw [hp] at h
    cases h

theorem unitsOf_repacked_none {u : UnpackedFloat} (h : unitsOf u = none) :
    unitsOf (repacked u) = none := by
  cases u with
  | zero s => cases h
  | finite s m e hm => cases h
  | infinity s =>
    rw [repacked_infinity]
    rfl
  | notANumber => rfl

/-- A finite sum has finite terms. -/
theorem units_add_none {a b : Float} (hb : units b = none) : units (a + b) = none := by
  refine unitsOf_repacked_none (u := add .binary64 (parts a) (parts b)) ?_
  obtain ⟨t, hpb⟩ | hpb := units_eq_none hb <;> rw [hpb]
  · cases parts a with
    | infinity s => cases s <;> cases t <;> rfl
    | _ => rfl
  · cases parts a <;> rfl

/-- A finite difference has finite terms. -/
theorem units_sub_none {a b : Float} (ha : units a = none) : units (a - b) = none := by
  refine unitsOf_repacked_none (u := sub .binary64 (parts a) (parts b)) ?_
  obtain ⟨s, hpa⟩ | hpa := units_eq_none ha <;> rw [hpa]
  · cases parts b with
    | infinity t => cases s <;> cases t <;> rfl
    | _ => rfl
  · rfl

/-- A finite product has finite factors. -/
theorem units_mul_none {a b : Float} (ha : units a = none) : units (a * b) = none := by
  refine unitsOf_repacked_none (u := mul .binary64 (parts a) (parts b)) ?_
  obtain ⟨s, hpa⟩ | hpa := units_eq_none ha <;> rw [hpa]
  · cases parts b <;> rfl
  · rfl

theorem le_iff (a b : Float) : a ≤ b ↔ (parts a).le (parts b) = true := decide_eq_true_iff

theorem le_zero_iff {a : Float} {x : Int} (ha : units a = some x) : a ≤ 0 ↔ x ≤ 0 := by
  have hzero : parts (0 : Float) = .zero .positive := by rfl
  have h := represents_of_units ha
  rw [le_iff, hzero]
  generalize parts a = u at *
  cases h with
  | zero s => exact ⟨fun _ => le_refl 0, fun _ => rfl⟩
  | @finite s m e hm hc he =>
    have hpos : (0 : Int) < (m * 2 ^ (e + 1074).toNat : Nat) :=
      Int.natCast_pos.2 (Nat.mul_pos hm (Nat.two_pow_pos _))
    cases s with
    | positive =>
      refine ⟨fun h => ?_, fun h => absurd h (not_le.2 hpos)⟩
      cases h
    | negative => exact ⟨fun _ => (neg_neg_of_pos hpos).le, fun _ => rfl⟩

theorem ne_zero_of_beq {a : Float} {x : Int} (ha : units a = some x) (h : (a == 0) = false) :
    x ≠ 0 := by
  have hr := represents_of_units ha
  change (parts a).beq (.zero .positive) = false at h
  generalize parts a = u at *
  cases hr with
  | zero s => cases h
  | @finite s m e hm hc he =>
    have hpos : (m * 2 ^ (e + 1074).toNat : Nat) ≠ 0 :=
      (Nat.mul_pos hm (Nat.two_pow_pos _)).ne'
    cases s with
    | positive => exact Int.natCast_ne_zero.2 hpos
    | negative => exact neg_ne_zero.2 (Int.natCast_ne_zero.2 hpos)

/-- A magnitude up to the tolerance on grids is below one millionth. -/
theorem le_defaultTolerance {a : Float} (h : Scalar.magnitude a ≤ TimeGrid.defaultTolerance) :
    ∃ x, units a = some x ∧ |x| < 2 ^ (53 + 992) := by
  have htolerance : ∃ m hm, parts TimeGrid.defaultTolerance = .finite .positive m (-82) hm :=
    ⟨4835703278458517, by decide, by rfl⟩
  obtain ⟨m', hm', htolerance⟩ := htolerance
  have habs : parts (Scalar.magnitude a) = repacked (parts a).abs := rfl
  rw [le_iff, htolerance, habs] at h
  unfold units
  cases hp : parts a with
  | infinity s =>
    rw [hp] at h
    change (repacked (.infinity .positive)).le _ = true at h
    rw [repacked_infinity] at h
    cases h
  | notANumber =>
    rw [hp] at h
    cases h
  | zero s => exact ⟨0, rfl, by positivity⟩
  | finite s m e hm =>
    obtain ⟨hc, he⟩ := canonical_of_unpack _ hp
    have hexp : e ≤ -82 := by
      rw [hp] at h
      change (repacked (.finite .positive m e hm)).le _ = true at h
      rw [repacked_finite hc he] at h
      change ((compare e (-82)).then (compare m m')).isLE = true at h
      by_contra hlarge
      rw [Int.compare_eq_gt.2 (not_le.1 hlarge)] at h
      cases h
    have hlt : (m : Int) < 2 ^ 53 := by exact_mod_cast hc.lt
    have hpow : (2 : Int) ^ (e + 1074).toNat ≤ 2 ^ 992 :=
      pow_le_pow_right₀ (by norm_num) (by omega)
    refine ⟨_, rfl, ?_⟩
    rw [abs_apply, Nat.cast_mul, natCast_two_pow, pow_add]
    exact mul_lt_mul hlt hpow (by positivity) (by positivity)

/-! ## Numbers -/

/-- An exponent field that is not the last one stands for a number. -/
theorem unpack_packComponents_ne {e : BitVec 11} (he : e ≠ -1#11) (s : Sign) (m : BitVec 52) :
    unpack .binary64 (packComponents .binary64 s e m) ≠ .notANumber := by
  rw [unpack_packComponents, if_neg he]
  by_cases hfirst : e = 0#11
  · rw [if_pos hfirst]
    by_cases hm : m = 0#52
    · rw [dif_pos hm]
      exact UnpackedFloat.noConfusion
    · rw [dif_neg hm]
      exact UnpackedFloat.noConfusion
  · rw [if_neg hfirst]
    exact UnpackedFloat.noConfusion

theorem repacked_ne_notANumber {u : UnpackedFloat} (h : u ≠ .notANumber) :
    repacked u ≠ .notANumber := by
  cases u with
  | notANumber => exact absurd rfl h
  | infinity s =>
    rw [repacked_infinity]
    exact h
  | zero s =>
    rw [repacked_zero]
    exact h
  | finite s m e hm =>
    change unpack .binary64 (pack .binary64 (.finite s m e hm)) ≠ _
    rw [pack_finite]
    split_ifs with hlarge hfull
    · change repacked (.infinity s) ≠ _
      rw [repacked_infinity]
      exact UnpackedFloat.noConfusion
    · refine unpack_packComponents_ne (fun hlast => ?_) s _
      have hlast := congrArg BitVec.toNat hlast
      change _ % 2 ^ 11 = 2 ^ 11 - 1 at hlast
      omega
    · exact unpack_packComponents_ne (by decide) s _

theorem zero_or_finite_ne_notANumber (s : Sign) (m : Nat) (e : Int) :
    (if h : m = 0 then UnpackedFloat.zero s
      else .finite s m e (Nat.pos_of_ne_zero h)) ≠ .notANumber := by
  by_cases h : m = 0
  · rw [dif_pos h]
    exact UnpackedFloat.noConfusion
  · rw [dif_neg h]
    exact UnpackedFloat.noConfusion

theorem roundWithAccuracy_ne_notANumber (s : Sign) (m : Nat) (e : Int) (a : Accuracy) :
    roundWithAccuracy .binary64 s m e a ≠ .notANumber :=
  zero_or_finite_ne_notANumber s _ _

theorem normalize_ne_notANumber (m : Int) (e : Int) (s : Sign) :
    normalize .binary64 m e s ≠ .notANumber := by
  unfold UnpackedFloat.normalize
  split
  · exact roundWithAccuracy_ne_notANumber _ _ _ _
  · exact UnpackedFloat.noConfusion
  · exact roundWithAccuracy_ne_notANumber _ _ _ _

theorem parts_ne_notANumber {a : Float} {x : Int} (h : units a = some x) :
    parts a ≠ .notANumber := by
  intro hp
  unfold units at h
  rw [hp] at h
  cases h

theorem add_ne_notANumber {u v : UnpackedFloat} {y : Int} (hu : u ≠ .notANumber)
    (hv : Represents v y) : add .binary64 u v ≠ .notANumber := by
  cases u with
  | notANumber => exact absurd rfl hu
  | infinity s => cases hv <;> exact UnpackedFloat.noConfusion
  | zero s =>
    cases hv with
    | zero t => cases s <;> cases t <;> exact UnpackedFloat.noConfusion
    | finite t hm hc he => exact UnpackedFloat.noConfusion
  | finite s m e hm =>
    cases hv with
    | zero t => exact UnpackedFloat.noConfusion
    | finite t hm hc he => exact normalize_ne_notANumber _ _ _

/-- A number plus a finite one is a number. -/
theorem parts_add_ne_notANumber {a b : Float} {y : Int} (ha : parts a ≠ .notANumber)
    (hb : units b = some y) : parts (a + b) ≠ .notANumber :=
  repacked_ne_notANumber (add_ne_notANumber ha (represents_of_units hb))

/-- A number less a finite one is a number. -/
theorem parts_sub_ne_notANumber {a b : Float} {y : Int} (ha : parts a ≠ .notANumber)
    (hb : units b = some y) : parts (a - b) ≠ .notANumber := by
  change repacked (sub .binary64 (parts a) (parts b)) ≠ _
  rw [sub_eq_add_neg]
  exact repacked_ne_notANumber (add_ne_notANumber ha (represents_of_units hb).neg)

/-- A number divided by a finite one that is not zero is a number. -/
theorem parts_div_ne_notANumber {a b : Float} {y : Int} (ha : parts a ≠ .notANumber)
    (hb : units b = some y) (hy : y ≠ 0) : parts (a / b) ≠ .notANumber := by
  refine repacked_ne_notANumber (u := div .binary64 (parts a) (parts b)) ?_
  have h := represents_of_units hb
  generalize parts b = v at *
  cases h with
  | zero t => exact absurd rfl hy
  | finite t hm hc he =>
    cases hpa : parts a with
    | notANumber => exact absurd hpa ha
    | infinity s => exact UnpackedFloat.noConfusion
    | zero s => exact UnpackedFloat.noConfusion
    | finite s m e hm => exact roundWithAccuracy_ne_notANumber _ _ _ _

theorem toNat_unpackExponent (b : BitVec Format.binary64.numBits) :
    (unpackExponent b).toNat = b.toNat / 2 ^ 52 % 2 ^ 11 := by
  rw [← Nat.shiftRight_eq_div_pow]
  exact BitVec.extractLsb_toNat ..

theorem toNat_unpackMantissa (b : BitVec Format.binary64.numBits) :
    (unpackMantissa b).toNat = b.toNat % 2 ^ 52 :=
  BitVec.extractLsb_toNat ..

theorem value_ne_undefined {a : Float} (ha : parts a ≠ .notANumber) : value a ≠ .undefined := by
  intro h
  apply ha
  have hexp := toNat_unpackExponent a.toModel.toBits.toBitVec
  have hfrac := toNat_unpackMantissa a.toModel.toBits.toBitVec
  unfold value at h
  dsimp only at h
  split_ifs at h with hlast hzero
  change unpack .binary64 a.toModel.toBits.toBitVec = _
  unfold unpack
  dsimp only
  rw [if_pos, if_neg]
  · intro h0
    rw [h0] at hfrac
    exact hzero hfrac.symm
  · exact BitVec.eq_of_toNat_eq (hexp.trans hlast)

/-- A number has a closest place in a table. -/
theorem clampBelow_nearest_ne_none {a : Float} (ha : parts a ≠ .notANumber) (n : Nat) :
    (Scalar.nearest a).clampBelow n ≠ none := by
  change ((value a).round roundQuotient).clampBelow n ≠ none
  have hv := value_ne_undefined ha
  cases h : value a with
  | undefined => exact absurd h hv
  | finite negative m q => exact Option.some_ne_none _
  | infinite negative => cases negative <;> exact Option.some_ne_none _

/-- The finite doubles are those whose exponent field is not the last one. -/
theorem isFinite_unpack_iff (b : BitVec Format.binary64.numBits) :
    (unpack .binary64 b).isFinite = true ↔ ¬ b.toNat / 2 ^ 52 % 2 ^ 11 = 2047 := by
  have hlast : unpackExponent b = -1#11 ↔ b.toNat / 2 ^ 52 % 2 ^ 11 = 2047 := by
    rw [← toNat_unpackExponent, ← BitVec.toNat_inj]
    rfl
  rw [← hlast]
  unfold unpack
  dsimp only
  by_cases h : unpackExponent b = -1#11
  · rw [if_pos h]
    refine iff_of_false ?_ (not_not.2 h)
    by_cases hm : unpackMantissa b = 0#52
    · rw [if_pos hm]
      exact Bool.false_ne_true
    · rw [if_neg hm]
      exact Bool.false_ne_true
  · rw [if_neg h]
    refine iff_of_true ?_ h
    by_cases hfirst : unpackExponent b = 0#11
    · rw [if_pos hfirst]
      by_cases hm : unpackMantissa b = 0#52
      · rw [dif_pos hm]
        rfl
      · rw [dif_neg hm]
        rfl
    · rw [if_neg hfirst]
      rfl

theorem isFinite_iff_value (a : Float) :
    Scalar.isFinite a = true ↔ ∃ s m q, value a = .finite s m q := by
  change (unpack .binary64 a.toModel.toBits.toBitVec).isFinite = true ↔ _
  rw [isFinite_unpack_iff]
  have hbits : a.toModel.toBits.toBitVec.toNat = a.toBits.toNat := rfl
  rw [hbits]
  unfold value
  dsimp only
  split_ifs with hlast hzero hfirst
  · simp [hlast]
  · simp [hlast]
  · simpa using hlast
  · simpa using hlast

/-- Rounding down gives an integer for finite doubles, and fails for infinite ones. -/
theorem floor_eq_error_iff {a : Float} (ha : parts a ≠ .notANumber) {e : NotWhole} :
    (Scalar.floor a).toInt? = .error e ↔ e = .unbounded ∧ Scalar.isFinite a = false := by
  rw [← Bool.not_eq_true, isFinite_iff_value]
  change ((value a).round _).toInt? = _ ↔ _
  have hv := value_ne_undefined ha
  cases h : value a with
  | undefined => exact absurd h hv
  | finite s m q => simp [Value.round, Whole.toInt?]
  | infinite s => cases s <;> simp [Value.round, Whole.toInt?, eq_comm]

end SteppedConvolution.Binary
