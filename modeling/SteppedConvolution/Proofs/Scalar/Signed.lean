import SteppedConvolution.Numeral.Basic

/-! # Signs of scalars that are read from decimals

Where zeros carry a sign, a number and its negation are told apart by the minus sign alone.
-/

namespace SteppedConvolution

/-- A scalar that is read from a decimal carries no minus sign, and its negation differs from it
in the minus sign only. -/
class SignedDecimals (K : Type) [Scalar K] : Prop where
  isNegative_value (k : Numeral) : Scalar.isNegative (k.value : K) = false
  isNegative_neg_value (k : Numeral) : Scalar.isNegative (-k.value : K) = true
  magnitude_neg_value (k : Numeral) : Scalar.magnitude (-k.value : K) = k.value
  zero_le_value (k : Numeral) : (0 : K) ≤ k.value
  exists_value_eq_one : ∃ k : Numeral, (k.value : K) = 1
  isFinite_magnitude (a : K) : Scalar.isFinite (Scalar.magnitude a) = Scalar.isFinite a
  isNegative_magnitude {a : K} (h : Scalar.isFinite a = true) :
    Scalar.isNegative (Scalar.magnitude a) = false

namespace SignedDecimals

variable {K : Type} [Scalar K] [SignedDecimals K]

theorem isNegative_neg_one : Scalar.isNegative (-1 : K) = true := by
  obtain ⟨k, hk⟩ := exists_value_eq_one (K := K)
  rw [← hk]
  exact isNegative_neg_value k

theorem magnitude_neg_one : Scalar.magnitude (-1 : K) = 1 := by
  obtain ⟨k, hk⟩ := exists_value_eq_one (K := K)
  rw [← hk]
  exact magnitude_neg_value k

end SignedDecimals

end SteppedConvolution
