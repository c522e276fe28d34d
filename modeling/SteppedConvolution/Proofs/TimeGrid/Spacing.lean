import SteppedConvolution.Convolution.Support
import SteppedConvolution.Proofs.Scalar.Exact
import SteppedConvolution.Proofs.Session.Opening
import SteppedConvolution.Proofs.TimeGrid.Admissible

/-! # Exactly spaced grids

A grid whose steps all equal one number is an arithmetic progression. So are the
positions of the output of two such grids with a common step.
-/

namespace SteppedConvolution

/-- Consecutive positions differ by exactly `d`. A single position is spaced by every number. -/
def Positions.IsSpaced (d : Rat) (vs : List Rat) : Prop := ∀ t ∈ Positions.steps vs, t = d

theorem Positions.steps_cons_cons (a b : Rat) (vs : List Rat) :
    Positions.steps (a :: b :: vs) = (b - a) :: Positions.steps (b :: vs) := rfl

theorem Positions.IsSpaced.getElem {d : Rat} {vs : List Rat} (h : Positions.IsSpaced d vs)
    (hn : vs ≠ []) {i : Nat} (hi : i < vs.length) : vs[i] = vs.head hn + i * d := by
  induction vs generalizing i with
  | nil => exact absurd rfl hn
  | cons a vs ih =>
    cases i with
    | zero => simp
    | succ i =>
      cases vs with
      | nil => simp at hi
      | cons b vs =>
        have hb : b - a = d := h (b - a) (by simp [Positions.steps_cons_cons])
        have ht : Positions.IsSpaced d (b :: vs) := by
          intro t ht
          exact h t (by simp [Positions.steps_cons_cons, ht])
        rw [List.getElem_cons_succ, ih ht (List.cons_ne_nil b vs), List.head_cons, List.head_cons,
          ← hb]
        push_cast
        ring

namespace TimeGrid

theorem stop_eq_getElem {g : TimeGrid Rat} (h : g.size - 1 < g.values.length) :
    g.stop = g.values[g.size - 1] :=
  List.getLast_eq_getElem _

/-- The steps of a grid are positive. -/
theorem steps_pos (g : TimeGrid Rat) {t : Rat} (ht : t ∈ Positions.steps g.values) : 0 < t := by
  obtain ⟨atol, h⟩ := g.admissible
  have hn := List.any_eq_false.1 (Positions.defect?_eq_none h).2.1 t ht
  simpa using hn

/-- The grid is an arithmetic progression with step `d`. -/
def Spaced (g : TimeGrid Rat) (d : Rat) : Prop := Positions.IsSpaced d g.values

variable {g : TimeGrid Rat} {d : Rat}

theorem Spaced.getElem (h : g.Spaced d) {i : Nat} (hi : i < g.values.length) :
    g.values[i] = g.start + i * d :=
  Positions.IsSpaced.getElem h g.values_ne_nil hi

theorem Spaced.getD (h : g.Spaced d) {i : Nat} (hi : i < g.size) :
    g.values.getD i 0 = g.start + i * d := by
  rw [List.getD_eq_getElem _ _ hi]
  exact h.getElem hi

theorem Spaced.stop_eq (h : g.Spaced d) : g.stop = g.start + (g.size - 1 : Nat) * d := by
  have hlast : g.size - 1 < g.values.length := Nat.sub_lt g.size_pos one_pos
  rw [stop_eq_getElem hlast]
  exact h.getElem hlast

theorem Spaced.pos (h : g.Spaced d) (hg : 1 < g.size) : 0 < d := by
  have hl : 0 < (Positions.steps g.values).length := by
    simp only [Positions.steps, List.length_zipWith, List.length_tail]
    rw [TimeGrid.size] at hg
    omega
  have hm := List.getElem_mem hl
  exact h _ hm ▸ g.steps_pos hm

theorem Spaced.step_eq (h : g.Spaced d) (hg : 1 < g.size) : g.step = d := by
  have hn : ((g.size - 1 : Nat) : Rat) ≠ 0 := by
    have : g.size - 1 ≠ 0 := by omega
    exact_mod_cast this
  unfold TimeGrid.step
  rw [if_neg (by omega), h.stop_eq]
  change (g.start + ((g.size - 1 : Nat) : Rat) * d - g.start) / ((g.size - 1 : Nat) : Rat) = d
  rw [add_sub_cancel_left, mul_div_cancel_left₀ _ hn]

end TimeGrid

/-- Equal steps from one number to another. -/
theorem Support.getElem_positions {a b d : Rat} {n : Nat} (hb : b = a + (n - 1 : Nat) * d)
    {i : Nat} (hi : i < (Support.positions a b n).length) (hn : 0 < n) :
    (Support.positions a b n)[i] = a + i * d := by
  have hin : i < n := Support.length_positions a b hn ▸ hi
  by_cases h1 : n = 1
  · have h0 : i = 0 := by omega
    subst h0
    simp [Support.positions, h1]
  · have hz : ((n - 1 : Nat) : Rat) ≠ 0 := by
      have : n - 1 ≠ 0 := by omega
      exact_mod_cast this
    have hd : (b - a) / (Scalar.ofNat (n - 1) : Rat) = d := by
      change (b - a) / ((n - 1 : Nat) : Rat) = d
      rw [hb, add_sub_cancel_left, mul_div_cancel_left₀ _ hz]
    have hentry (k : Nat) : Support.spreadEntry a b n k = a + k * d := by
      unfold Support.spreadEntry
      simp only [hd]
      split
      · rename_i h0
        have h0 : d = 0 := by simpa using h0
        rw [hb, h0]
        simp
      · change (k : Rat) * d + a = a + k * d
        ring
    simp only [Support.positions, if_neg h1, Support.spread]
    by_cases hl : i < n - 1
    · rw [List.getElem_append_left (by simpa using hl)]
      simp [hentry]
    · have hi' : i = n - 1 := by omega
      subst hi'
      rw [List.getElem_append_right (by simp)]
      simpa using hb

/-- Where both grids are in steps of `d`, so is the output. -/
theorem Session.Built.getElem?_outputGrid {tolerances : Tolerances Rat} {nx : TimeGrid Rat}
    {s : Session Rat} (hs : s.Built tolerances nx) {d : Rat} (hx : nx.Spaced d)
    (hh : s.nh.Spaced d) {i : Nat} (hi : i < s.length) :
    s.outputGrid.values[i]? = some (nx.start + s.nh.start + i * d) := by
  have hstop : nx.stop + s.nh.stop =
      nx.start + s.nh.start + (s.length - 1 : Nat) * d := by
    have hxs := nx.size_pos
    have hhs := s.nh.size_pos
    have hl : s.length - 1 = (nx.size - 1) + (s.nh.size - 1) := by
      rw [hs.length_eq, ← hs.size_nx, ← hs.size_nh]
      omega
    rw [hx.stop_eq, hh.stop_eq, hl]
    push_cast
    ring
  have hlt : i <
      (Support.positions (nx.start + s.nh.start) (nx.stop + s.nh.stop) s.length).length := by
    rwa [Support.length_positions _ _ hs.length_pos]
  rw [hs.outputGrid_eq, List.getElem?_eq_getElem hlt,
    Support.getElem_positions hstop hlt hs.length_pos]

end SteppedConvolution
