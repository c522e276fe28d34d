import Mathlib.Algebra.Order.Ring.Abs
import SteppedConvolution.Proofs.Canvas.Lookup
import SteppedConvolution.Proofs.TimeGrid.Spacing

/-! # Placing and looking up on a lattice

On a grid in equal steps every place `start + z * d` has an exact index, or lies
outside the grid. Samples at consecutive such places are placed side by side, and a
look-up at such a place finds the sample that was placed there.
-/

namespace SteppedConvolution

theorem mapM_map_eq_ok {E A B C : Type} {f : B → Except E C} {i : A → B} {g : A → C} {as : List A}
    (h : ∀ a ∈ as, f (i a) = .ok (g a)) : (as.map i).mapM f = .ok (as.map g) := by
  induction as with
  | nil => rfl
  | cons a as ih =>
    rw [List.map_cons, List.mapM_cons, h a List.mem_cons_self,
      ih fun b hb => h b (List.mem_cons_of_mem a hb)]
    rfl

namespace Canvas

/-! ## Writing entries -/

theorem getElem?_writeEntries_of_notMem {es : List (Nat × Rat)} {k : Nat}
    (hk : k ∉ es.map Prod.fst) (xs : List Rat) : (writeEntries es xs)[k]? = xs[k]? := by
  induction es generalizing xs with
  | nil => rfl
  | cons e es ih =>
    simp only [List.map_cons, List.mem_cons, not_or] at hk
    change (writeEntries es (xs.set e.1 e.2))[k]? = xs[k]?
    rw [ih hk.2, List.getElem?_set_ne (Ne.symm hk.1)]

theorem getElem?_writeEntries_of_mem {es : List (Nat × Rat)} {k : Nat} {v : Rat}
    (hn : (es.map Prod.fst).Nodup) (hm : (k, v) ∈ es) {xs : List Rat} (hk : k < xs.length) :
    (writeEntries es xs)[k]? = some v := by
  induction es generalizing xs with
  | nil => cases hm
  | cons e es ih =>
    rw [List.map_cons, List.nodup_cons] at hn
    change (writeEntries es (xs.set e.1 e.2))[k]? = some v
    rcases List.mem_cons.1 hm with he | he
    · subst he
      rw [getElem?_writeEntries_of_notMem hn.1, List.getElem?_set_self hk]
    · exact ih hn.2 he (by rwa [List.length_set])

/-! ## Exact places -/

/-- The entry at an integer place, 0 outside the list. -/
def entryAt (values : List Rat) (z : Int) : Rat := if 0 ≤ z then values.getD z.toNat 0 else 0

theorem entryAt_natCast (values : List Rat) (k : Nat) : entryAt values k = values.getD k 0 := by
  simp [entryAt]

theorem entryAt_of_length_le {values : List Rat} {z : Int} (h : (values.length : Int) ≤ z) :
    entryAt values z = 0 := by
  unfold entryAt
  rw [if_pos (by omega), List.getD_eq_default _ _ (by omega)]

theorem entryAt_of_neg {values : List Rat} {z : Int} (h : z < 0) : entryAt values z = 0 :=
  if_neg (Int.not_le.2 h)

theorem indexOf_exact {size : Nat} {start d : Rat} (hs : size ≠ 1) (hd : d ≠ 0) (z : Int) :
    indexOf size start d (start + z * d) = some (min z.toNat (size - 1)) := by
  have hq : (start + z * d - start) / d = (z : Rat) := by
    rw [add_sub_cancel_left, mul_div_cancel_right₀ _ hd]
  unfold indexOf
  rw [if_neg hs]
  change (Scalar.nearest ((start + z * d - start) / d)).clampBelow size = _
  rw [hq, nearest_int]
  rfl

variable {g : TimeGrid Rat} {d : Rat}

theorem nearestPositions_exact (hg : 1 < g.size) (hs : g.Spaced d) {A : Type} (as : List A)
    (z : A → Int) :
    nearestPositions g (as.map fun a => g.start + z a * d) =
      .ok (as.map fun a =>
        (min (z a).toNat (g.size - 1), g.start + (min (z a).toNat (g.size - 1) : Nat) * d)) := by
  unfold nearestPositions
  apply mapM_map_eq_ok
  intro a _
  have hi : min (z a).toNat (g.size - 1) < g.values.length := by
    change _ < g.size
    omega
  simp only [hs.step_eq hg, indexOf_exact (Nat.ne_of_gt hg) (hs.pos hg).ne',
    List.getElem?_toArray, List.getElem?_eq_getElem hi, hs.getElem hi]

theorem locate_exact (hg : 1 < g.size) (hs : g.Spaced d) {A : Type} (as : List A) (z : A → Int) :
    (locate g (as.map fun a => g.start + z a * d)).outcome =
      .ok (as.map fun a => min (z a).toNat (g.size - 1)) := by
  unfold locate
  simp only [Logged.bind_eq_ok, Logged.ofExcept_outcome, Logged.noteIf_outcome,
    nearestPositions_exact hg hs as z]
  refine ⟨_, rfl, (), trivial, ?_⟩
  rw [List.map_map]
  rfl

/-- The closest position to an exact place is within reach if the place is on the grid. -/
theorem isHit_exact (hd : 0 < d) (start : Rat) (i : Nat) (z : Int) :
    isHit (Scalar.half d) (start + z * d) (i, start + (i : Nat) * d) = decide ((i : Int) = z) := by
  have hdiff : start + (i : Nat) * d - (start + z * d) = (((i : Int) - z : Int) : Rat) * d := by
    push_cast
    ring
  unfold isHit
  rw [Scalar.half_eq, Scalar.magnitude_eq_abs]
  change decide (|start + (i : Nat) * d - (start + z * d)| < d / 2) = _
  rw [hdiff, abs_mul, abs_of_pos hd]
  by_cases hz : (i : Int) = z
  · have hpos : (0 : Rat) < d / 2 := by linarith
    simp [hz, hpos]
  · have h1 : (1 : Rat) ≤ |(((i : Int) - z : Int) : Rat)| := by
      have := Int.one_le_abs (sub_ne_zero.2 hz)
      exact_mod_cast this
    have h2 : ¬ |(((i : Int) - z : Int) : Rat)| * d < d / 2 := by
      rw [not_lt]
      nlinarith
    rw [decide_eq_false h2, decide_eq_false hz]

/-- A look-up at exact places finds the values there. -/
theorem sampleAt_exact (hg : 1 < g.size) (hs : g.Spaced d) {values : List Rat}
    (hv : values.length = g.size) {A : Type} (as : List A) (z : A → Int) :
    sampleAt values g (as.map fun a => g.start + z a * d) =
      .ok (as.map fun a => entryAt values (z a)) := by
  unfold sampleAt
  rw [nearestPositions_exact hg hs as z]
  change ((as.map _).zip (as.map _)).mapM _ = _
  rw [List.zip_map', hs.step_eq hg]
  apply mapM_map_eq_ok
  intro a _
  have hi : min (z a).toNat (g.size - 1) < values.length := by omega
  simp only [List.getElem?_toArray, List.getElem?_eq_getElem hi, Fault.require, Except.map,
    isHit_exact (hs.pos hg)]
  -- outside the grid the closest position is that of an end, which is out of reach
  congr 1
  by_cases h0 : z a < 0
  · rw [entryAt_of_neg h0, if_neg (by simp; omega)]
  · by_cases hn : (values.length : Int) ≤ z a
    · rw [entryAt_of_length_le hn, if_neg (by simp; omega)]
    · have hmin : min (z a).toNat (g.size - 1) = (z a).toNat := by omega
      have hl : (z a).toNat < values.length := by omega
      rw [if_pos (by simp; omega), entryAt, if_pos (by omega), List.getD_eq_getElem _ _ hl]
      simp only [hmin]

end Canvas

end SteppedConvolution
