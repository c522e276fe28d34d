import SteppedConvolution.Proofs.Numeral.Scanning
import SteppedConvolution.Proofs.Scalar.Signed

/-! # Formats of numbers

Of a way to write numbers it is only asked that those without a minus sign are numbers of
expressions and of vectors, and that a minus sign is written in front of the magnitude. Then
the text of every finite number is that of a numeral with an optional minus sign.
-/

namespace SteppedConvolution

/-- A number as it is spelled out, given the numerals of magnitudes. -/
def spelled {K : Type} [Scalar K] (spell : K → Numeral) (v : K) : SignedNumeral :=
  if Scalar.isNegative v then ⟨some '-', spell (Scalar.magnitude v)⟩ else ⟨none, spell v⟩

variable {K : Type} [Scalar K]

/-- A way to write numbers. Finite ones without a minus sign are numbers of expressions and entries
of vectors, and a finite one with a minus sign is written as one in front of its magnitude. -/
structure IsNumberFormat (write : K → String) : Prop where
  number : ∀ v, Scalar.isFinite v = true → Scalar.isNegative v = false →
    ∃ n, Numeral.scan? .mayTrail (write v).toList = some (n, [])
  entry : ∀ v, Scalar.isFinite v = true → Scalar.isNegative v = false →
    ∃ s, SignedNumeral.scan? (write v).toList = some (s, [])
  negative : ∀ v, Scalar.isFinite v = true → Scalar.isNegative v = true →
    write v = "-" ++ write (Scalar.magnitude v)

/-- The numeral that the text of a number starts with. -/
def numeralOf (write : K → String) (v : K) : Numeral :=
  ((Numeral.scan? .mayTrail (write v).toList).map Prod.fst).getD ⟨[], none, none⟩

/-- The text of a number is read back as the same number. -/
def readsBack (write : K → String) (v : K) : Bool :=
  ((Reading.ofText? (write v).toList).bind Reading.value?).any (· == v)

section

variable [SignedDecimals K] (spell : K → Numeral)

theorem spelled_value (k : Numeral) :
    spelled spell (k.value : K) = ⟨none, spell k.value⟩ := by
  rw [spelled, if_neg (by simp [SignedDecimals.isNegative_value])]

theorem spelled_neg_value (k : Numeral) :
    spelled spell (-k.value : K) = ⟨some '-', spell k.value⟩ := by
  rw [spelled, if_pos (SignedDecimals.isNegative_neg_value k), SignedDecimals.magnitude_neg_value]

theorem spelled_neg_one : spelled spell (-1 : K) = ⟨some '-', spell 1⟩ := by
  rw [spelled, if_pos SignedDecimals.isNegative_neg_one, SignedDecimals.magnitude_neg_one]

end

namespace IsNumberFormat

variable {write : K → String} {v : K}

theorem wellFormed_numeralOf (hw : IsNumberFormat write) (hf : Scalar.isFinite v = true)
    (hn : Scalar.isNegative v = false) :
    (numeralOf write v).WellFormed .needsDigits ∧ (numeralOf write v).text = (write v).toList := by
  obtain ⟨n, hscan⟩ := hw.number v hf hn
  obtain ⟨s, hentry⟩ := hw.entry v hf hn
  have heq : numeralOf write v = n := by
    rw [numeralOf, hscan]
    rfl
  rw [heq]
  exact Numeral.wellFormed_of_scans hscan hentry

/-- The text of a finite number is that of a numeral with an optional minus sign. -/
theorem wellFormed_spelled [SignedDecimals K] (hw : IsNumberFormat write)
    (hf : Scalar.isFinite v = true) :
    (spelled (numeralOf write) v).WellFormed ∧
      (spelled (numeralOf write) v).text = (write v).toList := by
  unfold spelled
  by_cases hn : Scalar.isNegative v = true
  · rw [if_pos hn]
    have hfinite : Scalar.isFinite (Scalar.magnitude v) = true := by
      rw [SignedDecimals.isFinite_magnitude, hf]
    have hpositive := SignedDecimals.isNegative_magnitude hf
    obtain ⟨hwell, htext⟩ := hw.wellFormed_numeralOf hfinite hpositive
    refine ⟨⟨.inr (.inr rfl), hwell⟩, ?_⟩
    rw [hw.negative v hf hn, String.toList_append, ← htext]
    rfl
  · rw [if_neg hn]
    obtain ⟨hwell, htext⟩ := hw.wellFormed_numeralOf hf (Bool.eq_false_iff.2 hn)
    exact ⟨⟨.inl rfl, hwell⟩, htext⟩

end IsNumberFormat

end SteppedConvolution
