import SteppedConvolution.Proofs.Binary.Sign
import SteppedConvolution.Proofs.Numeral.Format
import SteppedConvolution.Scalar.Text

/-! # The general layout of doubles

A number of significant digits, laid out around a point or with a power of ten behind them,
makes up a numeral. So the texts of doubles with up to six significant digits are a format of
numbers: a minus sign stands in front of the text of the magnitude.
-/

namespace SteppedConvolution

open Text

namespace Decimal

/-- The text of a numeral that vectors admit. -/
def IsNumeralText (cs : List Char) : Prop :=
  ∃ n : Numeral, n.WellFormed .needsDigits ∧ n.text = cs

theorem isDigit_of_ascii {c : Char} (h : c.isDigit = true) : isDigit c = true := by
  have hlow : c.toNat < 0x80 := by
    simp only [Char.isDigit, Bool.and_eq_true, decide_eq_true_eq] at h
    have hhigh : c.toNat ≤ 0x39 := h.2
    omega
  rw [isDigit, digitValue?, if_pos hlow, if_pos h]
  rfl

theorem isDigit_toDigits (k : Nat) : ∀ c ∈ Nat.toDigits 10 k, isDigit c = true :=
  fun _ hc => isDigit_of_ascii (Nat.isDigit_of_mem_toDigits (by decide) (by decide) hc)

theorem isDigit_replicate (k : Nat) : ∀ c ∈ List.replicate k '0', isDigit c = true := by
  intro c hc
  rw [(List.mem_replicate.1 hc).2]
  decide

/-- Digits, a point and digits behind it, if there are any. -/
theorem wellFormed_joinPoint {whole fraction : List Char}
    (hwhole : ∀ c ∈ whole, isDigit c = true) (hne : whole ≠ [])
    (hfraction : ∀ c ∈ fraction, isDigit c = true) :
    ∃ n : Numeral, n.WellFormed .needsDigits ∧ n.power = none ∧
      n.text = joinPoint whole fraction := by
  unfold joinPoint
  split
  · refine ⟨⟨whole, none, none⟩, ⟨hwhole, ?_, ?_, ?_, ?_⟩, rfl, ?_⟩
    · simp [Numeral.places]
    · simp
    · simpa [Numeral.places] using hne
    · simp
    · simp [Numeral.text, Numeral.fractionText]
  · rename_i hnil
    refine ⟨⟨whole, some fraction, none⟩, ⟨hwhole, hfraction, ?_, ?_, ?_⟩, rfl, ?_⟩
    · exact fun h => absurd (Option.some.inj h) hnil
    · exact List.append_ne_nil_of_left_ne_nil hne _
    · simp
    · simp [Numeral.text, Numeral.fractionText]

namespace Expansion

/-- There are digits, and nothing else. -/
structure HasDigits (d : Expansion) : Prop where
  ne_nil : d.digits ≠ []
  digit : ∀ c ∈ d.digits, isDigit c = true

theorem hasDigits_ofQuotient (n num den : Nat) : (ofQuotient (n + 1) num den).HasDigits := by
  unfold ofQuotient
  split
  · exact ⟨List.cons_ne_nil _ _, isDigit_replicate _⟩
  · refine ⟨?_, fun c hc => isDigit_toDigits _ c (List.mem_of_mem_take hc)⟩
    exact fun h => (List.take_eq_nil_iff.1 h).elim (by omega) Nat.toDigits_ne_nil

theorem HasDigits.trimmed {d : Expansion} (h : d.HasDigits) : d.trimmed.HasDigits := by
  unfold Expansion.trimmed
  split
  · exact h
  · rename_i first rest hd
    refine ⟨List.cons_ne_nil _ _, fun c hc => h.digit c ?_⟩
    rw [hd]
    rcases List.mem_cons.1 hc with rfl | hc
    · exact List.mem_cons_self
    · have hrest := (List.dropWhile_sublist _).subset (List.mem_reverse.1 hc)
      exact List.mem_cons_of_mem first (List.mem_reverse.1 hrest)

theorem HasDigits.isNumeralText_positional {d : Expansion} (h : d.HasDigits) :
    IsNumeralText d.positional := by
  have hnumeral {whole fraction : List Char} (hwhole : ∀ c ∈ whole, isDigit c = true)
      (hne : whole ≠ []) (hfraction : ∀ c ∈ fraction, isDigit c = true) :
      IsNumeralText (joinPoint whole fraction) := by
    obtain ⟨n, hn, -, htext⟩ := wellFormed_joinPoint hwhole hne hfraction
    exact ⟨n, hn, htext⟩
  unfold positional
  split
  · refine hnumeral (isDigit_replicate 1) (List.cons_ne_nil _ _) fun c hc => ?_
    exact (List.mem_append.1 hc).elim (isDigit_replicate _ c) (h.digit c)
  · refine hnumeral (fun c hc => ?_) ?_ fun c hc => h.digit c (List.mem_of_mem_drop hc)
    · exact (List.mem_append.1 hc).elim (fun hc => h.digit c (List.mem_of_mem_take hc))
        (isDigit_replicate _ c)
    · refine List.append_ne_nil_of_left_ne_nil (fun hnil => ?_) _
      exact (List.take_eq_nil_iff.1 hnil).elim (by omega) h.ne_nil

theorem HasDigits.isNumeralText_scientific {d : Expansion} (h : d.HasDigits) :
    IsNumeralText d.scientific := by
  have hwhole : ∀ c ∈ d.digits.take 1, isDigit c = true :=
    fun c hc => h.digit c (List.mem_of_mem_take hc)
  have hfraction : ∀ c ∈ d.digits.drop 1, isDigit c = true :=
    fun c hc => h.digit c (List.mem_of_mem_drop hc)
  have hne : d.digits.take 1 ≠ [] :=
    fun hnil => (List.take_eq_nil_iff.1 hnil).elim (by decide) h.ne_nil
  obtain ⟨n, hn, hpower, htext⟩ := wellFormed_joinPoint hwhole hne hfraction
  let digits := Nat.toDigits 10 d.exponent.natAbs
  let power : Numeral.Power := ⟨'e', some (if d.exponent < 0 then '-' else '+'),
    List.replicate (2 - digits.length) '0' ++ digits⟩
  have hsign : power.sign = none ∨ power.sign = some '+' ∨ power.sign = some '-' := by
    by_cases he : d.exponent < 0
    · exact .inr (.inr (congrArg some (if_pos he)))
    · exact .inr (.inl (congrArg some (if_neg he)))
  have hwell : power.WellFormed :=
    ⟨.inl rfl, hsign, fun c hc => (List.mem_append.1 hc).elim (isDigit_replicate _ c)
      (isDigit_toDigits _ c), List.append_ne_nil_of_right_ne_nil _ Nat.toDigits_ne_nil⟩
  refine ⟨{ n with power := some power }, { hn with power := ?_ }, ?_⟩
  · rintro p ⟨⟩
    exact hwell
  · have hplain : n.whole ++ Numeral.fractionText n.fraction = joinPoint (d.digits.take 1)
        (d.digits.drop 1) := by
      rw [← htext, Numeral.text, hpower]
      exact (List.append_nil _).symm
    rw [Numeral.text, hplain]
    rfl

end Expansion

/-- At least one significant digit makes up a numeral. -/
theorem isNumeralText_general (n num den : Nat) : IsNumeralText (general (n + 1) num den) := by
  have hdigits := (Expansion.hasDigits_ofQuotient n num den).trimmed
  unfold general
  dsimp only
  split
  · exact hdigits.isNumeralText_positional
  · exact hdigits.isNumeralText_scientific

end Decimal

namespace Binary

open Float.Model (UnpackedFloat Format)
open Float.Model.UnpackedFloat

/-- Whether a sign is the minus sign. -/
def isMinus : Sign → Bool
  | .negative => true
  | .positive => false

/-- The value of a double with given parts. -/
def valueOf : UnpackedFloat → Value
  | .zero s => .finite (isMinus s) 0 (-1074)
  | .finite s m e _ => .finite (isMinus s) m e
  | .infinity s => .infinite (isMinus s)
  | .notANumber => .undefined

/-- A double is decoded as its parts say. -/
theorem value_eq (a : Float) : value a = valueOf (parts a) := by
  change value a = valueOf (unpack .binary64 a.toModel.toBits.toBitVec)
  have hbits : a.toBits.toNat = a.toModel.toBits.toBitVec.toNat := rfl
  unfold value
  rw [hbits]
  obtain ⟨b, hb⟩ : ∃ b : BitVec Format.binary64.numBits, a.toModel.toBits.toBitVec = b := ⟨_, rfl⟩
  rw [hb]
  have hlt : b.toNat < 2 ^ 64 := b.isLt
  have hsign := toNat_unpackSign b
  have hexp : (unpackExponent b).toNat = b.toNat / Nat.pow 2 52 % Nat.pow 2 11 :=
    toNat_unpackExponent b
  have hfrac : (unpackMantissa b).toNat = b.toNat % Nat.pow 2 52 := toNat_unpackMantissa b
  have hpacked := packComponents_unpackSign_unpackExponent_unpackMantissa b
  have hunpack := unpack_packComponents (Sign.ofBitVec (unpackSign b)) (unpackExponent b)
    (unpackMantissa b)
  have hnegative : decide (Nat.pow 2 63 ≤ b.toNat) = isMinus (Sign.ofBitVec (unpackSign b)) := by
    change decide (2 ^ 63 ≤ b.toNat) = _
    rcases BitVec.eq_zero_or_eq_one (unpackSign b) with hs | hs
    · rw [hs] at hsign ⊢
      exact decide_eq_false (by simp at hsign; omega)
    · rw [hs] at hsign ⊢
      exact decide_eq_true (by simp at hsign; omega)
  rw [hpacked] at hunpack
  dsimp only
  rw [hunpack, hnegative, ← hexp, ← hfrac]
  generalize unpackExponent b = e, unpackMantissa b = m, Sign.ofBitVec (unpackSign b) = s
  by_cases hlast : e = -1#11
  · have hlast' : e.toNat = 2047 := congrArg BitVec.toNat hlast
    rw [if_pos hlast, if_pos hlast']
    by_cases hm : m = 0#52
    · subst hm
      rfl
    · have hm' : m.toNat ≠ 0 := fun h => hm (BitVec.eq_of_toNat_eq h)
      rw [if_neg hm, if_neg hm']
      rfl
  · have hlast' : e.toNat ≠ 2047 := fun h => hlast (BitVec.eq_of_toNat_eq h)
    rw [if_neg hlast, if_neg hlast']
    by_cases hfirst : e = 0#11
    · have hfirst' : e.toNat = 0 := congrArg BitVec.toNat hfirst
      rw [if_pos hfirst, if_pos hfirst']
      by_cases hm : m = 0#52
      · subst hm
        rfl
      · rw [dif_neg hm]
        rfl
    · have hfirst' : e.toNat ≠ 0 := fun h => hfirst (BitVec.eq_of_toNat_eq h)
      rw [if_neg hfirst, if_neg hfirst', valueOf, toNat_one_append]
      rfl

/-- The magnitude of a finite double has its value without the sign. -/
theorem value_magnitude {a : Float} (h : Scalar.isFinite a = true) :
    ∃ m q, value a = .finite (Scalar.isNegative a) m q ∧
      value (Scalar.magnitude a) = .finite false m q := by
  have hnegative {s : Sign} (hs : signOf (parts a) = some s) : Scalar.isNegative a = isMinus s := by
    rw [Bool.eq_iff_iff, isNegative_iff hs]
    cases s <;> simp [isMinus]
  have hfinite : (parts a).isFinite = true := h
  rw [value_eq, value_eq, parts_magnitude]
  cases hp : parts a with
  | notANumber =>
    rw [hp] at hfinite
    cases hfinite
  | infinity s =>
    rw [hp] at hfinite
    cases hfinite
  | zero s =>
    rw [hnegative (by rw [hp]; rfl)]
    exact ⟨_, _, rfl, rfl⟩
  | finite s m e hm =>
    rw [hnegative (by rw [hp]; rfl)]
    exact ⟨_, _, rfl, rfl⟩

/-- Up to six significant digits are a format of numbers. -/
theorem isNumberFormat_generalText : IsNumberFormat generalText := by
  have htext {a : Float} {m : Nat} {q : Int} (hv : value a = .finite false m q) :
      ∃ n : Numeral, n.WellFormed .needsDigits ∧ n.text = (generalText a).toList := by
    have hgeneral : (generalText a).toList =
        Decimal.general 6 (quotient m q).1 (quotient m q).2 := by
      rw [generalText, hv]
      exact String.toList_ofList
    rw [hgeneral]
    exact Decimal.isNumeralText_general 5 _ _
  have hplain {a : Float} (hf : Scalar.isFinite a = true) (hn : Scalar.isNegative a = false) :
      ∃ n : Numeral, n.WellFormed .needsDigits ∧ n.text = (generalText a).toList := by
    obtain ⟨m, q, hv, -⟩ := value_magnitude hf
    exact htext (hn ▸ hv)
  refine ⟨fun a hf hn => ?_, fun a hf hn => ?_, fun a hf hn => ?_⟩
  · obtain ⟨n, hwell, htext⟩ := hplain hf hn
    exact ⟨n, htext ▸ Numeral.scan?_text_self hwell.mayTrail⟩
  · obtain ⟨n, hwell, htext⟩ := hplain hf hn
    have hsigned : SignedNumeral.WellFormed ⟨none, n⟩ := ⟨.inl rfl, hwell⟩
    have hscan := hsigned.scan?_text Numeral.ends_nil
    have hsame : SignedNumeral.text ⟨none, n⟩ = (generalText a).toList := htext
    rw [List.append_nil, hsame] at hscan
    exact ⟨_, hscan⟩
  · obtain ⟨m, q, hv, hmagnitude⟩ := value_magnitude hf
    apply String.toList_injective
    rw [generalText, generalText, hv, hmagnitude, hn, String.toList_append]
    exact String.toList_ofList.trans (congrArg ('-' :: ·) String.toList_ofList.symm)

end Binary

end SteppedConvolution
