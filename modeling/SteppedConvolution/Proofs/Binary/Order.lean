import SteppedConvolution.Proofs.Binary.SharedGrid
import SteppedConvolution.Proofs.Binary.Sign
import SteppedConvolution.Proofs.Scalar.Peak

/-! # The order of doubles

Doubles that are numbers are in the lexicographic order of their side of zero, exponent and
significand, which is that of their values, and one that is not a number is smaller than nothing.
So a peak of doubles is a largest magnitude. The counts that an engine shows are finite.
-/

namespace SteppedConvolution.Binary

open Float.Model (UnpackedFloat Format)
open Float.Model.UnpackedFloat

/-- The place of a number in the order: its side of zero, then its exponent and significand, which
run the other way below zero. -/
def rank : UnpackedFloat → Option (Int ×ₗ Int ×ₗ Int)
  | .infinity .negative => some (toLex (-2, toLex (0, 0)))
  | .finite .negative m e _ => some (toLex (-1, toLex (-e, -(m : Int))))
  | .zero _ => some (toLex (0, toLex (0, 0)))
  | .finite .positive m e _ => some (toLex (1, toLex (e, (m : Int))))
  | .infinity .positive => some (toLex (2, toLex (0, 0)))
  | .notANumber => none

theorem then_eq_lt (e f : Int) (m n : Nat) :
    (compare e f).then (compare m n) = .lt ↔ e < f ∨ e = f ∧ m < n := by
  rw [Ordering.then_eq_lt, Int.compare_eq_lt, Int.compare_eq_eq, Nat.compare_eq_lt]

theorem then_eq_gt (e f : Int) (m n : Nat) :
    (compare e f).then (compare m n) = .gt ↔ f < e ∨ e = f ∧ n < m := by
  rw [Ordering.then_eq_gt, Int.compare_eq_gt, Int.compare_eq_eq, Nat.compare_eq_gt]

theorem compare_eq_lt (u v : UnpackedFloat) :
    u.compare v = some .lt ↔ ∃ x y, rank u = some x ∧ rank v = some y ∧ x < y := by
  have hsign : compare Sign.negative Sign.positive = .lt := rfl
  rcases u with (_ | _) | _ | _ | ⟨_ | _, m, e, hm⟩ <;>
    rcases v with (_ | _) | _ | _ | ⟨_ | _, n, f, hn⟩ <;>
    simp [UnpackedFloat.compare, rank, Prod.Lex.toLex_lt_toLex, then_eq_lt, then_eq_gt, hsign]

theorem lt_iff (a b : Float) :
    a < b ↔ ∃ x y, rank (parts a) = some x ∧ rank (parts b) = some y ∧ x < y := by
  have hlt : a < b ↔ (parts a).lt (parts b) = true := decide_eq_true_iff
  rw [hlt, ← compare_eq_lt]
  exact beq_iff_eq

theorem Canonical.mul_lt_mul {m m' : Nat} {e e' : Int} (hc : Canonical m e) (hc' : Canonical m' e')
    (h : e < e') : m * 2 ^ (e + 1074).toNat < m' * 2 ^ (e' + 1074).toNat := by
  have hleast := hc.least
  have hfull := hc'.full.resolve_right (by omega)
  calc m * 2 ^ (e + 1074).toNat < 2 ^ 53 * 2 ^ (e + 1074).toNat :=
        Nat.mul_lt_mul_of_pos_right hc.lt (Nat.two_pow_pos _)
    _ = 2 ^ (53 + (e + 1074).toNat) := (pow_add ..).symm
    _ ≤ 2 ^ (52 + (e' + 1074).toNat) := Nat.pow_le_pow_right Nat.two_pos (by omega)
    _ = 2 ^ 52 * 2 ^ (e' + 1074).toNat := pow_add ..
    _ ≤ m' * 2 ^ (e' + 1074).toNat := Nat.mul_le_mul_right _ hfull

/-- Exponents decide before significands. -/
theorem Canonical.lt_iff {m m' : Nat} {e e' : Int} (hc : Canonical m e) (hc' : Canonical m' e') :
    m * 2 ^ (e + 1074).toNat < m' * 2 ^ (e' + 1074).toNat ↔ e < e' ∨ e = e' ∧ m < m' := by
  rcases lt_trichotomy e e' with h | rfl | h
  · simp [h, hc.mul_lt_mul hc' h]
  · simp [Nat.mul_lt_mul_right (Nat.two_pow_pos _)]
  · simp [h.not_gt, h.ne', (hc'.mul_lt_mul hc h).le]

/-- Finite doubles are in the order of their values. -/
theorem lt_iff_units {a b : Float} {x y : Int} (ha : units a = some x) (hb : units b = some y) :
    a < b ↔ x < y := by
  rw [lt_iff]
  have hu := represents_of_units ha
  have hv := represents_of_units hb
  generalize parts a = u at hu
  generalize parts b = v at hv
  cases hu with
  | zero s =>
    cases hv with
    | zero t => simp [rank]
    | @finite t m e hm hc he =>
      have hpos : 0 < m * 2 ^ (e + 1074).toNat := Nat.mul_pos hm (Nat.two_pow_pos _)
      generalize m * 2 ^ (e + 1074).toNat = y at *
      cases t
      · simp [rank, Prod.Lex.toLex_lt_toLex, Sign.apply]
      · simpa [rank, Prod.Lex.toLex_lt_toLex, Sign.apply] using hpos
  | @finite s m e hm hc he =>
    have hpos : 0 < m * 2 ^ (e + 1074).toNat := Nat.mul_pos hm (Nat.two_pow_pos _)
    cases hv with
    | zero t =>
      generalize m * 2 ^ (e + 1074).toNat = x at *
      cases s
      · simpa [rank, Prod.Lex.toLex_lt_toLex, Sign.apply] using hpos
      · simp [rank, Prod.Lex.toLex_lt_toLex, Sign.apply]
    | @finite t m' e' hm' hc' he' =>
      have hpos' : 0 < m' * 2 ^ (e' + 1074).toNat := Nat.mul_pos hm' (Nat.two_pow_pos _)
      have hlt := hc.lt_iff hc'
      have hgt := hc'.lt_iff hc
      generalize m * 2 ^ (e + 1074).toNat = x at *
      generalize m' * 2 ^ (e' + 1074).toNat = y at *
      cases s <;> cases t <;>
        simp [rank, Prod.Lex.toLex_lt_toLex, Sign.apply] <;> omega

theorem parts_of_isUndefined {a : Float} (h : Scalar.isUndefined a = true) :
    parts a = .notANumber := by
  change (parts a).isNaN = true at h
  cases hp : parts a with
  | notANumber => rfl
  | _ =>
    rw [hp] at h
    cases h

/-- Only zeros have a magnitude that is not above zero. -/
theorem magnitude_eq_zero {a : Float} (hu : Scalar.isUndefined a = false)
    (h : ¬ 0 < Scalar.magnitude a) : Scalar.magnitude a = 0 := by
  have hzero : parts (0 : Float) = .zero .positive := rfl
  apply parts_injective
  rw [lt_iff, hzero, parts_magnitude] at h
  rw [hzero, parts_magnitude]
  change (parts a).isNaN = false at hu
  cases hp : parts a with
  | zero s => rfl
  | notANumber =>
    rw [hp] at hu
    cases hu
  | infinity s =>
    rw [hp] at h
    exact absurd ⟨_, _, rfl, rfl, by decide⟩ h
  | finite s m e hm =>
    rw [hp] at h
    refine absurd ⟨_, _, rfl, rfl, ?_⟩ h
    simp [Prod.Lex.toLex_lt_toLex]

instance : Scalar.Ordered Float where
  lt_irrefl a h := by
    obtain ⟨x, y, hx, hy, hxy⟩ := (lt_iff a a).1 h
    obtain rfl := Option.some.inj (hx.symm.trans hy)
    exact lt_irrefl x hxy
  lt_trans h h' := by
    obtain ⟨x, y, hx, hy, hxy⟩ := (lt_iff _ _).1 h
    obtain ⟨y', z, hy', hz, hyz⟩ := (lt_iff _ _).1 h'
    obtain rfl := Option.some.inj (hy.symm.trans hy')
    exact (lt_iff _ _).2 ⟨x, z, hx, hz, hxy.trans hyz⟩
  not_lt_of_isUndefined hu b h := by
    obtain ⟨x, -, hx, -⟩ := (lt_iff _ b).1 h
    rw [parts_of_isUndefined hu] at hx
    cases hx
  isUndefined_zero := rfl
  isUndefined_magnitude a := by
    change (parts (Scalar.magnitude a)).isNaN = (parts a).isNaN
    rw [parts_magnitude]
    cases parts a <;> rfl
  magnitude_zero := by decide +kernel
  magnitude_eq_zero := magnitude_eq_zero

/-- A shared grid of doubles has no more positions than can be counted exactly. -/
theorem size_le_of_sharedGrid {nx nh g : TimeGrid Float}
    (h : Canvas.sharedGrid nx nh ((nx.size : Int) + nh.size - 1) = .ok g) :
    g.size ≤ 2 ^ 53 + 1 := by
  obtain ⟨n, hn⟩ := Nat.exists_eq_succ_of_ne_zero g.size_pos.ne'
  rw [hn]
  exact Nat.succ_le_succ (checked_of_sharedGrid h hn).le_two_pow

instance : Canvas.Counted Float where
  isFinite_ofNat h hn :=
    (isFinite_iff _).2 ⟨_, units_ofNat (Nat.le_of_lt_succ (hn.trans_le (size_le_of_sharedGrid h)))⟩

end SteppedConvolution.Binary
