import SteppedConvolution.Proofs.Binary.Rounding
import SteppedConvolution.Proofs.Canvas.Separation

/-! # Closest positions

The index that is looked up for a number is a rounded quotient, cut off at the ends of the grid.
On a grid in equal steps no other position is closer to the number, whether it lies on the grid,
halfway between two positions or beyond an end.
-/

namespace SteppedConvolution

theorem abs_roundQuotient_sub_le (q : Rat) : |(roundQuotient q.num q.den : Rat) - q| ≤ 1 / 2 := by
  obtain ⟨hlow, hhigh⟩ := roundQuotient_spec q.num q.den_pos
  have hden : (0 : Rat) < q.den := Nat.cast_pos.2 q.den_pos
  have hq : q * q.den = q.num := Rat.mul_den_eq_num q
  have hlow : 2 * ((roundQuotient q.num q.den : Rat) * q.den) ≤ 2 * q.num + q.den := by
    exact_mod_cast hlow
  have hhigh : 2 * (q.num : Rat) ≤ 2 * ((roundQuotient q.num q.den : Rat) * q.den) + q.den := by
    exact_mod_cast hhigh
  rw [← hq] at hlow hhigh
  rw [abs_le]
  constructor <;> nlinarith

namespace Canvas

/-- Rounding and cutting off at the ends gives the closest of the first indices. -/
theorem abs_clamped_sub_le {z : Int} {q : Rat} (hz : |(z : Rat) - q| ≤ 1 / 2) {n k : Nat}
    (hk : k ≤ n) : |((min z.toNat n : Nat) : Rat) - q| ≤ |(k : Rat) - q| := by
  obtain ⟨hlow, hhigh⟩ := abs_le.1 hz
  generalize hm : min z.toNat n = m
  have hcast {a b : Int} (h : a ≤ b) : (a : Rat) ≤ b := by exact_mod_cast h
  rcases lt_trichotomy m k with h | rfl | h
  · -- the other index is larger, so nothing was cut off at the end
    have hzm := hcast (show z ≤ (m : Int) by omega)
    have hmk := hcast (show (m : Int) + 1 ≤ k by omega)
    push_cast at hzm hmk
    refine (abs_le.2 ⟨?_, ?_⟩).trans (le_abs_self _) <;> linarith
  · exact le_rfl
  · have hzm := hcast (show (m : Int) ≤ z by omega)
    have hmk := hcast (show (k : Int) + 1 ≤ m by omega)
    push_cast at hzm hmk
    refine (abs_le.2 ⟨?_, ?_⟩).trans (neg_le_abs _) <;> linarith

/-- How far a number is from the grid position that is looked up for it. -/
def distance (g : TimeGrid Rat) (p : Rat) : Rat := |g.values.getD (slot g p) 0 - p|

variable {g : TimeGrid Rat} {d p v : Rat}

theorem exists_slot_eq (hg : 1 < g.size) (hs : g.Spaced d) (p : Rat) :
    ∃ z : Int, |(z : Rat) - (p - g.start) / d| ≤ 1 / 2 ∧ slot g p = min z.toNat (g.size - 1) := by
  refine ⟨_, abs_roundQuotient_sub_le _, ?_⟩
  rw [slot, nearestIndex, indexOf, if_neg hg.ne', hs.step_eq hg]
  rfl

theorem distance_eq (hs : g.Spaced d) (p : Rat) :
    distance g p = |g.start + slot g p * d - p| := by
  rw [distance, hs.getD (slot_lt g p)]

/-- Distances on a grid in equal steps are those of indices. -/
theorem abs_position_sub (hd : 0 < d) (start : Rat) (k : Nat) (p : Rat) :
    |start + k * d - p| = |(k : Rat) - (p - start) / d| * d := by
  have hp : start + k * d - p = ((k : Rat) - (p - start) / d) * d := by
    rw [sub_mul, div_mul_cancel₀ _ hd.ne']
    ring
  rw [hp, abs_mul, abs_of_pos hd]

/-- No grid position is closer to a number than the one that is looked up for it. -/
theorem distance_le (hg : 1 < g.size) (hs : g.Spaced d) (hv : v ∈ g.values) (p : Rat) :
    distance g p ≤ |v - p| := by
  obtain ⟨k, hk, rfl⟩ := List.mem_iff_getElem.1 hv
  obtain ⟨z, hz, hslot⟩ := exists_slot_eq hg hs p
  have hd := hs.pos hg
  have hle : k ≤ g.size - 1 := Nat.le_sub_one_of_lt hk
  rw [distance_eq hs, hs.getElem hk, abs_position_sub hd, abs_position_sub hd, hslot]
  exact mul_le_mul_of_nonneg_right (abs_clamped_sub_le hz hle) hd.le

end Canvas

end SteppedConvolution
