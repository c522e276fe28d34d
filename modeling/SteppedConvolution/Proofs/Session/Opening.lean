import SteppedConvolution.Proofs.Outcome
import SteppedConvolution.Session.Basic

/-! # Opening a session

What a session is made of when it opens: grids with one position for each sample,
the convolution of its samples, the positions of the output, and the canvas of the
two signals. None of these parts changes while samples are revealed.
-/

namespace SteppedConvolution

variable {K : Type} [Scalar K]

theorem TimeGrid.values_of_ofValues {atol : K} {vs : List K} {g : TimeGrid K}
    (h : TimeGrid.ofValues atol vs = .ok g) : g.values = vs := by
  unfold TimeGrid.ofValues at h
  split at h
  · cases h; rfl
  · cases h

theorem Samples.check_eq_ok {name : String} {xs ys : List K} :
    Samples.check name xs = .ok ys ↔ Samples.defect? xs = none ∧ ys = xs := by
  unfold Samples.check
  cases Samples.defect? xs with
  | none => simp [eq_comm]
  | some d => simp

theorem Samples.ne_nil_of_defect? {xs : List K} (h : Samples.defect? xs = none) : xs ≠ [] :=
  (Samples.defect?_eq_none_iff.1 h).1

theorem Convolution.convolve_eq_ok {x h y : List K} :
    Convolution.convolve x h = .ok y ↔
      Samples.defect? x = none ∧ Samples.defect? h = none ∧ y = Convolution.full x h := by
  unfold Convolution.convolve
  simp only [bind_eq_ok, Samples.check_eq_ok]
  constructor
  · rintro ⟨_, ⟨hx, rfl⟩, _, ⟨hh, rfl⟩, hy⟩
    cases hy
    exact ⟨hx, hh, rfl⟩
  · rintro ⟨hx, hh, rfl⟩
    exact ⟨_, ⟨hx, rfl⟩, _, ⟨hh, rfl⟩, rfl⟩

theorem Support.length_spread (a b : K) {n : Nat} (hn : 0 < n) :
    (Support.spread a b n).length = n := by
  simp only [Support.spread, List.length_append, List.length_map, List.length_range,
    List.length_singleton]
  omega

/-- The positions of a single output sample, or of several ones. -/
def Support.positions (start stop : K) (n : Nat) : List K :=
  if n = 1 then [start] else Support.spread start stop n

theorem Support.length_positions (start stop : K) {n : Nat} (hn : 0 < n) :
    (Support.positions start stop n).length = n := by
  unfold Support.positions
  split
  · rename_i h1
    simp [h1]
  · exact Support.length_spread start stop hn

/-- The output positions of two grids run from the sum of the starts to that of the ends. -/
theorem Support.eq_of_output {g k : TimeGrid K} {n : Nat} {vs : List K}
    (h : Support.output g.values k.values n = .ok vs) :
    0 < n ∧ vs = Support.positions (g.start + k.start) (g.stop + k.stop) n := by
  unfold Support.output at h
  by_cases hn : n = 0
  · subst hn
    cases h
  · simp only [if_neg hn, bind_eq_ok, Samples.check_eq_ok] at h
    obtain ⟨_, ⟨-, rfl⟩, _, ⟨-, rfl⟩, h⟩ := h
    rw [List.head?_eq_some_head g.values_ne_nil, List.head?_eq_some_head k.values_ne_nil,
      List.getLast?_eq_some_getLast g.values_ne_nil,
      List.getLast?_eq_some_getLast k.values_ne_nil] at h
    refine ⟨Nat.pos_of_ne_zero hn, ?_⟩
    unfold Support.positions
    by_cases h1 : n = 1
    · simp only [if_pos h1] at h ⊢
      cases h
      rfl
    · simp only [if_neg h1] at h ⊢
      cases h
      rfl

namespace Session

theorem requireRoom_eq_ok {name : String} {xs : List K} {g : TimeGrid K} {u : Unit} :
    requireRoom name xs g = .ok u ↔ xs.length ≤ g.size := by
  unfold requireRoom
  by_cases h : g.size < xs.length
  · simp [h]
  · simp [Nat.le_of_not_lt h]

/-- The leading positions of a grid that has room for them. -/
theorem values_of_leading {atol : K} {g l : TimeGrid K} {n : Nat}
    (h : (leading atol g n).outcome = .ok l) : l.values = g.values.take n := by
  unfold leading at h
  split at h
  · rename_i hs
    cases h
    exact (List.take_of_length_le (Nat.le_of_eq hs)).symm
  · rw [Logged.bind_eq_ok] at h
    obtain ⟨-, -, h⟩ := h
    exact TimeGrid.values_of_ofValues (mapError_eq_ok.1 h)

theorem size_of_leading {atol : K} {g l : TimeGrid K} {n : Nat} (hn : n ≤ g.size)
    (h : (leading atol g n).outcome = .ok l) : l.size = n := by
  rw [TimeGrid.size, values_of_leading h, List.length_take]
  exact Nat.min_eq_left hn

/-- What an opened session is made of. -/
structure Built (tolerances : Tolerances K) (nx : TimeGrid K) (s : Session K) : Prop where
  nx_eq : s.nx = .checked nx
  size_nx : nx.size = s.x.length
  size_nh : s.nh.size = s.h.length
  samples_x : Samples.defect? s.x = none
  samples_h : Samples.defect? s.h = none
  reference_eq : s.reference = Convolution.full s.x s.h
  positions_eq : Support.output nx.values s.nh.values s.length = .ok s.outputGrid.values
  canvas_eq : (Canvas.ofSignals tolerances.nonzero s.x nx s.h s.nh).outcome = .ok s.canvas

/-- The session with its first `c` samples revealed. -/
def upTo (s : Session K) (c : Nat) : Session K :=
  { s with cursor := c, output := some (s.reference.take c ++ List.replicate (s.length - c) 0) }

@[simp] theorem upTo_cursor (s : Session K) (c : Nat) : (s.upTo c).cursor = c := rfl

@[simp] theorem upTo_length (s : Session K) (c : Nat) : (s.upTo c).length = s.length := rfl

@[simp] theorem upTo_reference (s : Session K) (c : Nat) :
    (s.upTo c).reference = s.reference := rfl

@[simp] theorem upTo_x (s : Session K) (c : Nat) : (s.upTo c).x = s.x := rfl

@[simp] theorem upTo_h (s : Session K) (c : Nat) : (s.upTo c).h = s.h := rfl

@[simp] theorem upTo_nx (s : Session K) (c : Nat) : (s.upTo c).nx = s.nx := rfl

@[simp] theorem upTo_outputGrid (s : Session K) (c : Nat) :
    (s.upTo c).outputGrid = s.outputGrid := rfl

theorem upTo_output (s : Session K) (c : Nat) :
    (s.upTo c).output = some (s.reference.take c ++ List.replicate (s.length - c) 0) := rfl

/-- What a step shows does not depend on how many samples are revealed. -/
@[simp] theorem stepAt_upTo (s : Session K) (c : Nat) (i : Int) :
    (s.upTo c).stepAt i = s.stepAt i := rfl

theorem Built.upTo {tolerances : Tolerances K} {nx : TimeGrid K} {s : Session K}
    (hs : s.Built tolerances nx) (c : Nat) : (s.upTo c).Built tolerances nx :=
  ⟨hs.nx_eq, hs.size_nx, hs.size_nh, hs.samples_x, hs.samples_h, hs.reference_eq,
    hs.positions_eq, hs.canvas_eq⟩

section

variable {tolerances : Tolerances K} {nx : TimeGrid K} {s : Session K}

theorem Built.length_eq (hs : s.Built tolerances nx) :
    s.length = s.x.length + s.h.length - 1 := by
  rw [Session.length, hs.reference_eq, Convolution.length_full]

theorem Built.length_pos (hs : s.Built tolerances nx) : 0 < s.length := by
  have hx := List.length_pos_iff.2 (Samples.ne_nil_of_defect? hs.samples_x)
  have hh := List.length_pos_iff.2 (Samples.ne_nil_of_defect? hs.samples_h)
  rw [hs.length_eq]
  omega

theorem Built.outputGrid_eq (hs : s.Built tolerances nx) :
    s.outputGrid.values =
      Support.positions (nx.start + s.nh.start) (nx.stop + s.nh.stop) s.length :=
  (Support.eq_of_output hs.positions_eq).2

theorem Built.size_outputGrid (hs : s.Built tolerances nx) : s.outputGrid.size = s.length := by
  rw [TimeGrid.size, hs.outputGrid_eq, Support.length_positions _ _ hs.length_pos]

/-- A session with at most all of its samples revealed is consistent. -/
theorem Built.isConsistent_upTo (hs : s.Built tolerances nx) {c : Nat} (hc : c ≤ s.length) :
    (s.upTo c).isConsistent = true := by
  have hx := Samples.ne_nil_of_defect? hs.samples_x
  have hh := Samples.ne_nil_of_defect? hs.samples_h
  have hr := List.ne_nil_of_length_pos hs.length_pos
  have ho : (s.reference.take c ++ List.replicate (s.length - c) 0).length = s.length := by
    rw [List.length_append, List.length_take, List.length_replicate, Session.length]
    rw [Session.length] at hc
    omega
  simp [isConsistent, upTo_output, hs.nx_eq, Axis.positions, nx.values_ne_nil, hx, hh, hr, ho,
    hs.size_outputGrid, hc]

end

/-- A session opens with nothing revealed. -/
theorem built_of_ofSignals {tolerances : Tolerances K} {x h : List K} {nx nh : TimeGrid K}
    {s : Session K} (hs : (ofSignals tolerances x nx h nh).outcome = .ok s) :
    ∃ nx', s.Built tolerances nx' ∧ s = s.upTo 0 := by
  unfold ofSignals at hs
  simp only [Logged.bind_eq_ok, Logged.ofExcept_outcome, requireRoom_eq_ok,
    Convolution.convolve_eq_ok] at hs
  obtain ⟨-, hx, -, hh, nx', hnx, nh', hnh, y, ⟨dx, dh, rfl⟩, vs, hvs, g, hg, canvas, hc, -, -,
    hs⟩ := hs
  cases hs
  have hv := TimeGrid.values_of_ofValues (mapError_eq_ok.1 hg)
  refine ⟨nx', ⟨rfl, size_of_leading hx hnx, size_of_leading hh hnh, dx, dh, rfl, ?_, hc⟩, ?_⟩
  · exact hv ▸ hvs
  · simp [Session.upTo, Session.length]

theorem built_of_ofInputs {tolerances : Tolerances K} {x h : SignalInput K}
    {nx nh : Option (GridInput K)} {s : Session K}
    (hs : (ofInputs tolerances x h nx nh).outcome = .ok s) :
    ∃ nx', s.Built tolerances nx' ∧ s = s.upTo 0 := by
  unfold ofInputs at hs
  simp only [Logged.bind_eq_ok] at hs
  obtain ⟨⟨xs, gx⟩, -, ⟨ys, gh⟩, -, hs⟩ := hs
  cases gx with
  | none => cases hs
  | some gx => exact built_of_ofSignals hs

end Session

end SteppedConvolution
