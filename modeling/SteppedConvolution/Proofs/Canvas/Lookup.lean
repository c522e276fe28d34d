import Mathlib.Algebra.Order.Ring.Abs
import SteppedConvolution.Canvas.Basic
import SteppedConvolution.Proofs.Session.Opening
import SteppedConvolution.Proofs.TimeGrid.Admissible
import SteppedConvolution.Scalar.Rational

/-! # Look-ups that succeed

A step looks the other signal up at the distances from the positions of the shared grid to
an output position. The look-up succeeds when each of these distances has a closest position
on the grid, which only an undefined quotient has not.
-/

namespace SteppedConvolution

variable {K : Type} [Scalar K]

/-- Scalars over which a shared grid has a closest position to the difference of any two
numbers. Rationals are such scalars, and so are doubles. -/
class Canvas.Indexed (K : Type) [Scalar K] : Prop where
  nearestIndex_ne_none : ∀ {nx nh g : TimeGrid K},
    Canvas.sharedGrid nx nh ((nx.size : Int) + nh.size - 1) = .ok g →
    ∀ {p q : K}, Scalar.isFinite p = true → Scalar.isFinite q = true →
      Canvas.nearestIndex g (p - q) ≠ none

/-- Every rational has a closest integer. -/
theorem Canvas.nearestIndex_ne_none_rat (g : TimeGrid Rat) (p : Rat) : nearestIndex g p ≠ none := by
  unfold nearestIndex indexOf
  split
  · exact Option.some_ne_none 0
  · exact Option.some_ne_none _

instance : Canvas.Indexed Rat where
  nearestIndex_ne_none := fun {_ _ g} _ {p q} _ _ => Canvas.nearestIndex_ne_none_rat g (p - q)

/-- Scalars in which the counts of positions on a shared grid are finite. Rationals are such
scalars, and so are doubles. -/
class Canvas.Counted (K : Type) [Scalar K] : Prop where
  isFinite_ofNat : ∀ {nx nh g : TimeGrid K} {n : Nat},
    Canvas.sharedGrid nx nh ((nx.size : Int) + nh.size - 1) = .ok g → n < g.size →
      Scalar.isFinite (Scalar.ofNat n : K) = true

instance : Canvas.Counted Rat where
  isFinite_ofNat _ _ := rfl

namespace Canvas

/-- A shared grid is an admissible progression of the shared size. -/
theorem exists_size_of_sharedGrid {nx nh g : TimeGrid K} {n : Int}
    (h : sharedGrid nx nh n = .ok g) : ∃ m, sharedSize nx nh n = .ok m ∧ g.size = m.toNat ∧
      Positions.defect? TimeGrid.defaultTolerance g.values = none ∧
        g.values =
          Range.progression (Scalar.smaller nx.start nh.start) (sharedStep nx nh) g.size := by
  unfold sharedGrid at h
  cases hm : sharedSize nx nh n with
  | error e => simp [hm] at h
  | ok m =>
    simp only [hm, bind_eq_ok] at h
    obtain ⟨vs, hvs, hg⟩ := h
    have hg := mapError_eq_ok.1 hg
    have hv : g.values =
        Range.progression (Scalar.smaller nx.start nh.start) (sharedStep nx nh) m.toNat := by
      rw [TimeGrid.values_of_ofValues hg]
      unfold Range.positions at hvs
      split at hvs
      · cases hvs
      · exact (Except.ok.inj hvs).symm
    have hsize : g.size = m.toNat := by
      rw [TimeGrid.size, hv, Range.progression, List.length_map, List.length_range]
    refine ⟨m, rfl, hsize, TimeGrid.defect?_of_ofValues hg, ?_⟩
    rw [hv, hsize]

/-- A shared grid is an admissible progression with room for the longer grid. -/
theorem sharedGrid_eq_ok {nx nh g : TimeGrid K} {n : Int} (h : sharedGrid nx nh n = .ok g) :
    Positions.defect? TimeGrid.defaultTolerance g.values = none ∧
      n + (max nx.size nh.size : Nat) ≤ g.size ∧
        g.values =
          Range.progression (Scalar.smaller nx.start nh.start) (sharedStep nx nh) g.size := by
  obtain ⟨m, hm, hsize, hadmissible, hv⟩ := exists_size_of_sharedGrid h
  have hroom : n + (max nx.size nh.size : Nat) ≤ m := by
    obtain ⟨reach, -, hreach⟩ := map_eq_ok.1 hm
    rw [← hreach, Nat.cast_max]
    exact le_max_left _ _
  have hpos := g.size_pos
  exact ⟨hadmissible, by omega, hv⟩

/-- An index that is found lies on the grid. -/
theorem indexOf_lt {size : Nat} {start step p : K} {i : Nat} (hs : 0 < size)
    (hi : indexOf size start step p = some i) : i < size := by
  unfold indexOf at hi
  split at hi
  · cases hi
    exact hs
  · unfold Whole.clampBelow at hi
    split at hi <;> cases hi <;> omega

theorem nearestPositions_ok {g : TimeGrid K} {positions : List K}
    (h : ∀ p ∈ positions, nearestIndex g p ≠ none) :
    ∃ found, nearestPositions g positions = .ok found ∧ ∀ e ∈ found, e.1 < g.size := by
  refine mapM_ok fun p hp => ?_
  obtain ⟨i, hi⟩ := Option.ne_none_iff_exists'.1 (h p hp)
  have hlt := indexOf_lt g.size_pos hi
  obtain ⟨v, hv⟩ : ∃ v, g.values[i]? = some v := ⟨_, List.getElem?_eq_getElem hlt⟩
  refine ⟨(i, v), ?_, hlt⟩
  change indexOf g.size g.start g.step p = some i at hi
  rw [hi]
  simp [hv]

theorem sampleAt_ok {values : List K} {g : TimeGrid K} (hv : values.length = g.size)
    {positions : List K} (h : ∀ p ∈ positions, nearestIndex g p ≠ none) :
    ∃ ys, sampleAt values g positions = .ok ys := by
  obtain ⟨found, hfound, hlt⟩ := nearestPositions_ok h
  unfold sampleAt
  rw [hfound]
  have hlook : ∀ e ∈ positions.zip found, ∃ y,
      ((Fault.require .noSuchEntry values.toArray[e.2.1]?).map fun a =>
        if isHit (Scalar.half g.step) e.1 e.2 then a else 0 : Except (Fault K) K) = .ok y ∧
          True := by
    intro e he
    have hi : e.2.1 < values.length := hv ▸ hlt e.2 (List.of_mem_zip he).2
    simp [List.getElem?_eq_getElem hi, Fault.require, Except.map]
  obtain ⟨ys, hys, -⟩ := mapM_ok hlook
  exact ⟨ys, hys⟩

omit [Scalar K] in
theorem length_writeEntries (es : List (Nat × K)) (xs : List K) :
    (writeEntries es xs).length = xs.length := by
  induction es generalizing xs with
  | nil => rfl
  | cons e es ih =>
    change (writeEntries es (xs.set e.1 e.2)).length = xs.length
    rw [ih, List.length_set]

theorem length_of_place {threshold : K} {samples positions ys : List K} {target : TimeGrid K}
    (h : (place threshold samples positions target).outcome = .ok ys) :
    ys.length = target.size := by
  have hblank : (blank target).length = target.size := List.length_map _
  unfold place at h
  split at h
  · cases h
    exact hblank
  · split at h
    · cases h
    · rw [Logged.bind_eq_ok] at h
      obtain ⟨indices, -, h⟩ := h
      cases h
      rw [length_writeEntries, hblank]

theorem of_ofSignals {threshold : K} {x h : List K} {nx nh : TimeGrid K} {c : Canvas K}
    (hc : (ofSignals threshold x nx h nh).outcome = .ok c) :
    sharedGrid nx nh ((x.length : Int) + h.length - 1) = .ok c.grid ∧
      c.h.length = c.grid.size := by
  unfold ofSignals at hc
  simp only [Logged.bind_eq_ok, Logged.ofExcept_outcome] at hc
  obtain ⟨g, hg, px, -, ph, hph, -, -, hc⟩ := hc
  cases hc
  exact ⟨hg, length_of_place hph⟩

end Canvas

end SteppedConvolution
