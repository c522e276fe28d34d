import SteppedConvolution.Proofs.Canvas.Shifted
import SteppedConvolution.Proofs.Session.Start

/-! # Shifted sessions

When the grids of both signals move by `c`, the positions of the output move by `2 * c`. Every
part of a session is either such a position or does not depend on where the grids start, so a
session opens on shifted grids exactly when it does on the grids themselves, and a refusal has
the same reason.
-/

namespace SteppedConvolution

variable (c : Rat)

/-! ## Positions of the output -/

namespace Support

theorem spread_shift (a b : Rat) (n : Nat) :
    spread (a + c) (b + c) n = (spread a b n).map (· + c) := by
  have hentry (k : Nat) : spreadEntry (a + c) (b + c) n k = spreadEntry a b n k + c := by
    unfold spreadEntry
    simp only [add_sub_add_right_eq_sub, ← add_assoc]
    split <;> rfl
  unfold spread
  rw [List.map_append, List.map_map]
  exact congrArg (· ++ [b + c]) (List.map_congr_left fun k _ => hentry k)

theorem positions_shift (a b : Rat) (n : Nat) :
    positions (a + c) (b + c) n = (positions a b n).map (· + c) := by
  unfold positions
  rw [spread_shift]
  split <;> rfl

theorem output_shift (nx nh : TimeGrid Rat) (n : Nat) :
    output (nx.shift c).values (nh.shift c).values n =
      (output nx.values nh.values n).map (List.map (· + 2 * c)) := by
  by_cases hn : n = 0
  · subst hn
    rfl
  · have hsum (p q : Rat) : p + c + (q + c) = p + q + 2 * c := by ring
    rw [output_ok _ _ hn, output_ok _ _ hn]
    simp only [TimeGrid.start_shift, TimeGrid.stop_shift, hsum, positions_shift]
    rfl

end Support

/-! ## Opening a session -/

/-- The positions of an axis, moved by `c`. -/
def Axis.shift : Axis Rat → Axis Rat
  | checked g => checked (g.shift c)
  | unchecked vs => unchecked (vs.map (· + c))

theorem Axis.positions_shift (a : Axis Rat) :
    (a.shift c).positions = a.positions.map (· + c) := by
  cases a <;> rfl

/-- A signal as a caller gives it, with its own grid moved by `c` if it has one. -/
def SignalInput.shift : SignalInput Rat → SignalInput Rat
  | samples input => samples input
  | signal s =>
    signal { s with
      grid := s.grid.shift c
      length_eq := s.length_eq.trans (s.grid.size_shift c).symm }

theorem SignalInput.resolve_shift (atol : Rat) (name : String) (x : SignalInput Rat)
    (grid? : Option (GridInput Rat)) :
    (x.shift c).resolve atol name (grid?.map (GridInput.shift c)) =
      (x.resolve atol name grid?).map fun p => (p.1, p.2.map (TimeGrid.shift c)) := by
  cases grid? with
  | none =>
    cases x with
    | signal s => rfl
    | samples input =>
      simp only [resolve, shift, Option.map_none]
      cases Samples.ofInput name input <;> rfl
  | some g =>
    cases x with
    | signal s =>
      simp only [resolve, shift, Option.map_some, TimeGrid.ofInput_shift]
      cases TimeGrid.ofInput atol g <;> rfl
    | samples input =>
      simp only [resolve, shift, Option.map_some, TimeGrid.ofInput_shift]
      cases Samples.ofInput name input with
      | error f => rfl
      | ok xs => cases TimeGrid.ofInput atol g <;> rfl

namespace Session

/-- A session on grids that are moved by `c`. -/
def shift (s : Session Rat) : Session Rat :=
  { s with
    nx := s.nx.shift c
    nh := s.nh.shift c
    outputGrid := s.outputGrid.shift (2 * c)
    canvas := s.canvas.shift c }

theorem requireRoom_shift (name : String) (x : List Rat) (g : TimeGrid Rat) :
    requireRoom name x (g.shift c) = requireRoom name x g := by
  rw [requireRoom, requireRoom, TimeGrid.size_shift]

theorem leading_shift (atol : Rat) (g : TimeGrid Rat) (n : Nat) :
    (leading atol (g.shift c) n).outcome = (leading atol g n).outcome.map (TimeGrid.shift c) := by
  unfold leading
  rw [TimeGrid.size_shift]
  split
  · rfl
  · refine Logged.outcome_bind_map_right rfl fun _ => ?_
    rw [TimeGrid.values_shift, ← List.map_take]
    exact TimeGrid.mapError_ofValues_shift c atol TimeGrid.fault (g.values.take n)

theorem ofSignals_shift (tolerances : Tolerances Rat) (x h : List Rat) (nx nh : TimeGrid Rat) :
    (ofSignals tolerances x (nx.shift c) h (nh.shift c)).outcome =
      (ofSignals tolerances x nx h nh).outcome.map (shift c) := by
  unfold ofSignals
  rw [requireRoom_shift, requireRoom_shift]
  refine Logged.outcome_bind_map_right rfl fun _ => Logged.outcome_bind_map_right rfl fun _ => ?_
  refine Logged.outcome_bind_map (leading_shift c _ nx _) fun lx => ?_
  refine Logged.outcome_bind_map (leading_shift c _ nh _) fun lh => ?_
  refine Logged.outcome_bind_map_right rfl fun y => ?_
  refine Logged.outcome_bind_map (Support.output_shift c lx lh y.length) fun vs => ?_
  refine Logged.outcome_bind_map
    (TimeGrid.mapError_ofValues_shift (2 * c) _ TimeGrid.fault vs) fun og => ?_
  refine Logged.outcome_bind_map (Canvas.ofSignals_shift c _ x h lx lh) fun canvas => ?_
  rfl

/-- Inputs on shifted grids open the shifted session, or are refused as they were. -/
theorem ofInputs_shift (tolerances : Tolerances Rat) (x h : SignalInput Rat)
    (nx nh : Option (GridInput Rat)) :
    (ofInputs tolerances (x.shift c) (h.shift c) (nx.map (GridInput.shift c))
        (nh.map (GridInput.shift c))).outcome =
      (ofInputs tolerances x h nx nh).outcome.map (shift c) := by
  refine Logged.outcome_bind_map (SignalInput.resolve_shift c _ "x" x nx) fun p => ?_
  refine Logged.outcome_bind_map (SignalInput.resolve_shift c _ "h" h nh) fun q => ?_
  rcases p with ⟨xs, _ | gx⟩
  · rfl
  · rcases q with ⟨hs, _ | gh⟩
    · exact ofSignals_shift c tolerances xs hs gx gx
    · exact ofSignals_shift c tolerances xs hs gx gh

end Session

end SteppedConvolution
