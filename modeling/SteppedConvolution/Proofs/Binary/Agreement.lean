import SteppedConvolution.Expression.Evaluation
import SteppedConvolution.Proofs.Binary.Sign

/-! # Doubles that agree

Two doubles agree when they are the same, or zeros of either sign. Comparing numbers cannot tell
such doubles apart, and the arithmetic of expressions, which divides by two only, carries
agreement through.
-/

namespace SteppedConvolution.Binary

open Float.Model
open Float.Model.UnpackedFloat

/-- The same parts, or two zeros. -/
inductive Alike : UnpackedFloat → UnpackedFloat → Prop
  | refl (u : UnpackedFloat) : Alike u u
  | zeros (s t : Sign) : Alike (.zero s) (.zero t)

/-- The same double, or two zeros. -/
def Agree (a b : Float) : Prop := Alike (parts a) (parts b)

variable {u u' v v' : UnpackedFloat} {a a' b b' : Float}

theorem agree_refl (a : Float) : Agree a a := .refl (parts a)

/-! ## Comparing -/

theorem alike_of_compare (h : u.compare v = some .eq) : Alike u v := by
  have hsign : compare Sign.negative Sign.positive = .lt ∧
      compare Sign.positive Sign.negative = .gt := ⟨rfl, rfl⟩
  -- of all pairs only those of one class and one sign, and two zeros, compare as equal
  rcases u with (_ | _) | _ | s | ⟨_ | _, m, e, hm⟩ <;>
    rcases v with (_ | _) | _ | t | ⟨_ | _, n, f, hn⟩ <;>
    simp [UnpackedFloat.compare, Ordering.then_eq_eq, hsign] at h
  · exact .refl _
  · exact .refl _
  · exact .zeros s t
  · obtain ⟨rfl, rfl⟩ := h
    exact .refl _
  · obtain ⟨rfl, rfl⟩ := h
    exact .refl _

theorem compare_of_alike (h : Alike u v) (hu : u ≠ .notANumber) : u.compare v = some .eq := by
  cases h with
  | zeros s t => rfl
  | refl u =>
    cases u with
    | infinity s => cases s <;> rfl
    | notANumber => exact absurd rfl hu
    | zero s => rfl
    | finite s m e hm => cases s <;> simp [UnpackedFloat.compare]

theorem agree_of_beq (h : (a == b) = true) : Agree a b :=
  alike_of_compare (beq_iff_eq.1 h)

/-- Finite doubles that agree are equal as numbers. -/
theorem Agree.beq (h : Agree a b) (ha : Scalar.isFinite a = true) : (a == b) = true := by
  have hn : parts a ≠ .notANumber := by
    intro hn
    change (parts a).isFinite = true at ha
    rw [hn] at ha
    cases ha
  change ((parts a).compare (parts b) == some .eq) = true
  exact beq_iff_eq.2 (compare_of_alike h hn)

theorem Alike.isFinite_eq (h : Alike u v) : u.isFinite = v.isFinite := by
  cases h <;> rfl

theorem Agree.isFinite_eq (h : Agree a b) : Scalar.isFinite a = Scalar.isFinite b :=
  Alike.isFinite_eq h

theorem Alike.le_eq (h : Alike u v) (w : UnpackedFloat) : w.le u = w.le v := by
  cases h with
  | refl u => rfl
  | zeros s t => rcases w with (_ | _) | _ | _ | ⟨_ | _, _, _, _⟩ <;> rfl

/-! ## Arithmetic -/

theorem Alike.repacked (h : Alike u v) : Alike (repacked u) (repacked v) := by
  cases h with
  | refl u => exact .refl _
  | zeros s t =>
    rw [repacked_zero, repacked_zero]
    exact .zeros s t

theorem Alike.symm (h : Alike u v) : Alike v u := by
  cases h with
  | refl u => exact .refl u
  | zeros s t => exact .zeros t s

theorem Alike.trans {w : UnpackedFloat} (h : Alike u v) (h' : Alike v w) : Alike u w := by
  cases h with
  | refl u => exact h'
  | zeros s t =>
    cases h' with
    | refl => exact .zeros s t
    | zeros _ r => exact .zeros s r

/-- Adding a zero changes no number but the sign of another zero. -/
theorem alike_add_zero (u : UnpackedFloat) (s : Sign) :
    Alike (UnpackedFloat.add .binary64 u (.zero s)) u ∧
      Alike (UnpackedFloat.add .binary64 (.zero s) u) u := by
  cases u with
  | zero t => cases s <;> cases t <;> exact ⟨.zeros _ _, .zeros _ _⟩
  | _ => exact ⟨.refl _, .refl _⟩

theorem Alike.add (hu : Alike u u') (hv : Alike v v') :
    Alike (UnpackedFloat.add .binary64 u v) (UnpackedFloat.add .binary64 u' v') := by
  cases hu with
  | zeros s t => exact (alike_add_zero v s).2.trans (hv.trans (alike_add_zero v' t).2.symm)
  | refl u =>
    cases hv with
    | refl v => exact .refl _
    | zeros s t => exact (alike_add_zero u s).1.trans (alike_add_zero u t).1.symm

theorem Alike.abs_eq (h : Alike u v) : u.abs = v.abs := by
  cases h <;> rfl

theorem Alike.neg (h : Alike u v) : Alike u.neg v.neg := by
  cases h with
  | refl u => exact .refl _
  | zeros s t => exact .zeros _ _

theorem Alike.mul (hu : Alike u u') (hv : Alike v v') :
    Alike (UnpackedFloat.mul .binary64 u v) (UnpackedFloat.mul .binary64 u' v') := by
  have hleft : Alike (UnpackedFloat.mul .binary64 u v) (UnpackedFloat.mul .binary64 u' v) := by
    cases hu with
    | refl u => exact .refl _
    | zeros s t =>
      cases v with
      | infinity r => exact .refl _
      | notANumber => exact .refl _
      | zero r => exact .zeros _ _
      | finite r m e hm => exact .zeros _ _
  refine hleft.trans ?_
  cases hv with
  | refl v => exact .refl _
  | zeros s t =>
    cases u' with
    | infinity r => exact .refl _
    | notANumber => exact .refl _
    | zero r => exact .zeros _ _
    | finite r m e hm => exact .zeros _ _

theorem Alike.div (h : Alike u v) (w : UnpackedFloat) :
    Alike (UnpackedFloat.div .binary64 u w) (UnpackedFloat.div .binary64 v w) := by
  cases h with
  | refl u => exact .refl _
  | zeros s t =>
    cases w with
    | infinity r => exact .zeros _ _
    | notANumber => exact .refl _
    | zero r => exact .refl _
    | finite r m e hm => exact .zeros _ _

namespace Agree

theorem add (ha : Agree a a') (hb : Agree b b') : Agree (a + b) (a' + b') :=
  (Alike.add ha hb).repacked

theorem sub (ha : Agree a a') (hb : Agree b b') : Agree (a - b) (a' - b') := by
  have hsub (u v : UnpackedFloat) := sub_eq_add_neg u v
  change Alike (Binary.repacked (UnpackedFloat.sub .binary64 (parts a) (parts b)))
    (Binary.repacked (UnpackedFloat.sub .binary64 (parts a') (parts b')))
  rw [hsub, hsub]
  exact (Alike.add ha hb.neg).repacked

theorem mul (ha : Agree a a') (hb : Agree b b') : Agree (a * b) (a' * b') :=
  (Alike.mul ha hb).repacked

theorem half_neg (ha : Agree a b) : Agree (Scalar.half (-a)) (Scalar.half (-b)) := by
  have hneg : Agree (-a) (-b) := by
    rw [Agree, parts_neg, parts_neg]
    exact Alike.neg ha
  exact (Alike.div hneg (parts (Scalar.ofNat 2))).repacked

/-- The magnitude drops the sign of a zero. -/
theorem magnitude_eq (ha : Agree a b) : Scalar.magnitude a = Scalar.magnitude b := by
  apply parts_injective
  rw [parts_magnitude, parts_magnitude]
  exact Alike.abs_eq ha

theorem le_iff_le (ha : Agree a b) (c : Float) : c ≤ a ↔ c ≤ b := by
  rw [le_iff, le_iff, Alike.le_eq ha]

end Agree

end SteppedConvolution.Binary
