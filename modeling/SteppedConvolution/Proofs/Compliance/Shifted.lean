import SteppedConvolution.Proofs.Session.Shifted
import SteppedConvolution.Session.Status

/-! # Reports on shifted sessions

The check of the positions compares the ends of the output with sums of the ends of the grids,
and both move by `2 * c` when the grids move by `c`. The other checks do not look at positions,
so every check keeps its status.
-/

namespace SteppedConvolution

variable (c : Rat)

/-- What a check measured, with positions moved by `c`. -/
def Measurement.shift : Measurement Rat → Measurement Rat
  | range start stop expectedStart expectedStop =>
    range (start + c) (stop + c) (expectedStart + c) (expectedStop + c)
  | m => m

/-- A check with the positions that it measured moved by `c`. -/
def Check.shift (check : Check Rat) : Check Rat :=
  { check with measurement := check.measurement.shift c }

theorem Check.ofEnds_shift (t : Rat) (nx nh ps : List Rat) :
    ofEnds t (nx.map (· + c)) (nh.map (· + c)) (ps.map (· + 2 * c)) =
      (ofEnds t nx nh ps).map (Check.shift (2 * c)) := by
  have hsum (p q : Rat) : p + c + (q + c) = p + q + 2 * c := by ring
  unfold ofEnds
  simp only [List.head?_map, List.getLast?_map]
  cases ps.head? with
  | none => rfl
  | some first =>
    cases ps.getLast? with
    | none => rfl
    | some last =>
      -- where an end is missing, both sides are the same fault
      cases nx.head? <;> cases nh.head? <;> cases nx.getLast? <;> cases nh.getLast? <;> try rfl
      simp only [Option.map_some, hsum, add_sub_add_right_eq_sub]
      rfl

/-- A report with the positions that it measured moved by `c`. -/
def Report.shift (r : Report Rat) : Report Rat :=
  { r with timeIndexing := r.timeIndexing.shift c }

theorem Report.map_status_shift (r : Report Rat) :
    (r.shift c).checks.map Check.status = r.checks.map Check.status := rfl

/-- The evidence on a session whose grids are moved by `c`. -/
def Evidence.shift (e : Evidence Rat) : Evidence Rat :=
  { e with
    nx := e.nx.map (· + c)
    nh := e.nh.map (· + c)
    positions := e.positions.map (· + 2 * c) }

theorem Evidence.report_shift (t : Rat) (e : Evidence Rat) :
    (e.shift c).report t = (e.report t).map (Report.shift (2 * c)) := by
  refine bind_map_right (r := e.commutativityCheck t) fun commutativity => ?_
  exact bind_map (Check.ofEnds_shift c t e.nx e.nh e.positions) fun time => rfl

theorem Evidence.exists_report {e : Evidence Rat} {t : Rat} (hx : Samples.defect? e.x = none)
    (hh : Samples.defect? e.h = none) (htime : ∃ time, e.timeCheck t = .ok time) :
    ∃ r, e.report t = .ok r := by
  obtain ⟨time, htime⟩ := htime
  have hconvolve := Convolution.convolve_eq_ok.2 ⟨hh, hx, rfl⟩
  have hcommutativity : ∃ check, e.commutativityCheck t = .ok check :=
    ⟨_, map_eq_ok.2 ⟨_, hconvolve, rfl⟩⟩
  obtain ⟨check, hcheck⟩ := hcommutativity
  exact ⟨_, bind_eq_ok.2 ⟨check, hcheck, bind_eq_ok.2 ⟨time, htime, rfl⟩⟩⟩

theorem Check.exists_ofEnds (t : Rat) (nx nh g : TimeGrid Rat) :
    ∃ check, ofEnds t nx.values nh.values g.values = .ok check := by
  unfold ofEnds
  rw [List.head?_eq_some_head g.values_ne_nil, List.getLast?_eq_some_getLast g.values_ne_nil,
    List.head?_eq_some_head nx.values_ne_nil, List.head?_eq_some_head nh.values_ne_nil,
    List.getLast?_eq_some_getLast nx.values_ne_nil, List.getLast?_eq_some_getLast nh.values_ne_nil]
  exact ⟨_, rfl⟩

namespace Session

/-- What the report on a session on a grid of `x` looks at, with a buffer in place of its own. -/
def evidence (s : Session Rat) (nx : TimeGrid Rat) (output : List Rat) : Evidence Rat :=
  { x := s.x, h := s.h, nx := nx.values, nh := s.nh.values, reference := s.reference
    positions := s.outputGrid.values, output, revealed := s.cursor }

theorem report_shift (t : Rat) (s : Session Rat) :
    (s.shift c).report t = (s.report t).map (Report.shift (2 * c)) := by
  have hevidence (nx : TimeGrid Rat) (output : List Rat) :=
    (s.evidence nx output).report_shift c t
  rcases s with ⟨x, h, _ | _, nh, reference, outputGrid, canvas, cursor, _ | output⟩
  · exact bind_map (hevidence _ []) fun r => rfl
  · exact hevidence _ output
  · rfl
  · rfl

/-- Whatever samples are revealed, there is a report on a session under every tolerance. -/
theorem Built.exists_report {tolerances : Tolerances Rat} {nx : TimeGrid Rat} {s : Session Rat}
    (hs : s.Built tolerances nx) (t : Rat) (k : Nat) : ∃ r, (s.upTo k).report t = .ok r := by
  have hevidence := Evidence.exists_report (t := t)
    (e := (s.upTo k).evidence nx (s.reference.take k ++ List.replicate (s.length - k) 0))
    hs.samples_x hs.samples_h (Check.exists_ofEnds t nx s.nh s.outputGrid)
  unfold report
  rw [upTo_nx, hs.nx_eq]
  exact hevidence

end Session

end SteppedConvolution
