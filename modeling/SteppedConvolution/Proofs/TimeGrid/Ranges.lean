import Mathlib.Data.Rat.Floor
import SteppedConvolution.Proofs.Scalar.Exact
import SteppedConvolution.Proofs.TimeGrid.Regular
import SteppedConvolution.TimeGrid.Range

/-! # Ranges

A range holds its start and all that is reached from there in whole steps, up to the end with a
little slack. Walked up or down, its positions are in equal steps once they are sorted, so
they always make a grid, unless there are too many of them for an array.
-/

namespace SteppedConvolution

namespace Range

variable {start step stop p : Rat} {n : Nat} {vs : List Rat}

/-- How many steps there are from the start to the end, with the slack. -/
def reach (start step stop : Rat) : Rat := (stop - start) / step + 1 / 10 ^ 10

/-- The position is reached from the start in whole steps. -/
def Reaches (start step stop p : Rat) : Prop :=
  ∃ k : Nat, (k : Rat) ≤ reach start step stop ∧ p = start + k * step

/-- The range runs from the start towards the end. -/
def Runs (start step stop : Rat) : Prop := step ≠ 0 ∧ 0 < (stop - start) / step

/-- The range has fewer positions than the limit. -/
def Fits (start step stop : Rat) : Prop := reach start step stop < 2 ^ 60 - 1

/-! ## Counting positions -/

theorem slack_eq : (slack : Rat) = 1 / 10 ^ 10 := by
  change Rational.ofDecimal 1 (-10) = 1 / 10 ^ 10
  decide +kernel

theorem count_eq (start step stop : Rat) :
    count start step stop = .ok (⌊reach start step stop⌋ + 1) := by
  rw [reach, ← slack_eq]
  rfl

theorem lt_toNat_iff {k : Nat} {q : Rat} : k < (⌊q⌋ + 1).toNat ↔ (k : Rat) ≤ q := by
  have hfloor : (k : Int) ≤ ⌊q⌋ ↔ (k : Rat) ≤ q := by
    rw [Int.le_floor, Int.cast_natCast]
  rw [← hfloor]
  omega

theorem mem_progression_iff : p ∈ progression start step n ↔ ∃ k < n, p = start + k * step := by
  simp only [progression, List.mem_map, List.mem_range]
  constructor
  · rintro ⟨k, hk, rfl⟩
    exact ⟨k, hk, congrArg (start + ·) (mul_comm step (k : Rat))⟩
  · rintro ⟨k, hk, rfl⟩
    exact ⟨k, hk, congrArg (start + ·) (mul_comm step (k : Rat))⟩

theorem mem_positions_iff :
    p ∈ progression start step (⌊reach start step stop⌋ + 1).toNat ↔
      Reaches start step stop p := by
  simp only [mem_progression_iff, lt_toNat_iff, Reaches]

theorem sizeLimit_le_iff :
    sizeLimit ≤ (⌊reach start step stop⌋ + 1).toNat ↔ ¬ Fits start step stop := by
  have hfloor : (2 : Int) ^ 60 - 1 ≤ ⌊reach start step stop⌋ ↔
      (2 : Rat) ^ 60 - 1 ≤ reach start step stop := by
    rw [Int.le_floor]
    norm_num
  have hlimit : sizeLimit = 2 ^ 60 := rfl
  rw [Fits, not_lt, ← hfloor, hlimit]
  omega

theorem Runs.reach_pos (h : Runs start step stop) : 0 < reach start step stop :=
  add_pos h.2 (by norm_num)

theorem Runs.size_pos (h : Runs start step stop) : 0 < ⌊reach start step stop⌋ + 1 := by
  have := Int.floor_nonneg.2 h.reach_pos.le
  omega

/-! ## Sorting positions -/

theorem pairwise_sorted (vs : List Rat) : (sorted vs).Pairwise (· ≤ ·) := by
  have htrans : ∀ a b c : Rat, decide (a ≤ b) → decide (b ≤ c) → decide (a ≤ c) := by
    simpa only [decide_eq_true_eq] using fun a b c => le_trans
  have htotal : ∀ a b : Rat, (decide (a ≤ b) || decide (b ≤ a)) = true := by
    simpa using le_total
  exact (List.pairwise_mergeSort htrans htotal vs).imp fun hab => of_decide_eq_true hab

/-- Positions in order are those that sorting gives. -/
theorem sorted_eq_of_perm {ws : List Rat} (hp : vs.Perm ws) (hw : ws.Pairwise (· ≤ ·)) :
    sorted vs = ws :=
  List.Perm.eq_of_pairwise (fun _ _ _ _ => le_antisymm) (pairwise_sorted vs) hw
    ((List.mergeSort_perm vs _).trans hp)

theorem mem_sorted_iff : p ∈ sorted vs ↔ p ∈ vs := List.mem_mergeSort

theorem reverse_progression (start step : Rat) (n : Nat) :
    (progression start step n).reverse = progression (start + (n - 1 : Nat) * step) (-step) n := by
  apply List.ext_getElem
  · simp [progression]
  · intro i hi hi'
    have hn : i < n := by simpa [progression] using hi'
    simp only [progression, List.getElem_reverse, List.getElem_map, List.getElem_range,
      List.length_map, List.length_range]
    change start + step * ((n - 1 - i : Nat) : Rat) =
      start + (n - 1 : Nat) * step + -step * (i : Rat)
    rw [Nat.cast_sub (by omega)]
    ring

/-- The positions of a progression are in equal steps once they are sorted. -/
theorem isRegular_sorted {atol : Rat} (ha : 0 ≤ atol) (hs : step ≠ 0) (hn : 0 < n) :
    Positions.IsRegular atol (sorted (progression start step n)) := by
  have hregular {start step : Rat} (hs : 0 < step) :
      Positions.IsRegular atol (progression start step n) := by
    refine (isSpaced_progression start step n).isRegular ?_ (fun _ => hs) ha
    simp [progression, hn.ne']
  have hsorted {start step : Rat} (hs : 0 < step) :
      (progression start step n).Pairwise (· ≤ ·) := by
    refine List.pairwise_map.2 (List.pairwise_lt_range.imp fun {i j} hij => ?_)
    have hle : (i : Rat) ≤ j := Nat.cast_le.2 hij.le
    exact add_le_add_right (mul_le_mul_of_nonneg_left hle hs.le) start
  -- a falling range is sorted by turning it around, which makes it a rising one
  rcases lt_or_gt_of_ne hs with hs | hs
  · rw [sorted_eq_of_perm (List.reverse_perm _).symm]
    · rw [reverse_progression]
      exact hregular (neg_pos.2 hs)
    · rw [reverse_progression]
      exact hsorted (neg_pos.2 hs)
  · rw [sorted_eq_of_perm (List.Perm.refl _) (hsorted hs)]
    exact hregular hs

end Range

namespace TimeGrid

variable {start step stop : Rat}

/-- The grid with the positions that a range reaches, in increasing order. -/
structure OfRange (start step stop : Rat) (g : TimeGrid Rat) : Prop where
  increasing : g.values.Pairwise (· < ·)
  mem_iff : ∀ p, p ∈ g.values ↔ Range.Reaches start step stop p

/-- The positions of a range that runs towards its end make a grid once they are sorted. -/
theorem exists_ofValues_sorted (h : Range.Runs start step stop) : ∃ g,
    ofValues defaultTolerance (Range.sorted (Range.progression start step
      (⌊Range.reach start step stop⌋ + 1).toNat)) = .ok g ∧ OfRange start step stop g := by
  have hsize : 0 < (⌊Range.reach start step stop⌋ + 1).toNat := by
    have := h.size_pos
    omega
  obtain ⟨g, hg⟩ := (exists_ofValues_iff defaultTolerance_nonneg).2
    (Range.isRegular_sorted defaultTolerance_nonneg h.1 hsize)
  refine ⟨g, hg, g.pairwise_lt, fun p => ?_⟩
  rw [values_of_ofValues hg, Range.mem_sorted_iff, Range.mem_positions_iff]

theorem positions_eq (start step stop : Rat) :
    (Range.positions start step (⌊Range.reach start step stop⌋ + 1) : Except (Fault Rat) _) =
      if Range.sizeLimit ≤ (⌊Range.reach start step stop⌋ + 1).toNat then
        .error (.plain .tooManyPositions)
      else .ok (Range.progression start step (⌊Range.reach start step stop⌋ + 1).toNat) := rfl

/-- The grid of a range that runs towards its end depends on its positions only. -/
theorem ofRange_eq (h : Range.Runs start step stop) : ofRange start step stop =
    (Range.positions start step (⌊Range.reach start step stop⌋ + 1) >>= fun vs =>
      (ofValues defaultTolerance (Range.sorted vs)).mapError fault) := by
  have hstep : (step == 0) = false := by simpa using h.1
  have hsize := h.size_pos
  rw [ofRange, hstep, Range.count_eq]
  dsimp only
  rw [if_neg Bool.false_ne_true, if_neg (by omega)]

end TimeGrid

end SteppedConvolution
