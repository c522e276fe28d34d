import SteppedConvolution.Proofs.Canvas.OnGrid
import SteppedConvolution.Proofs.Session.Start

/-! # Trimmed grids

A session keeps one position for each sample of a longer grid, and the step of the shared grid
is that of what is kept. A signal with two samples keeps the step of its grid, so samples on
grids with a common step are placed at their own positions. Two single samples leave no step,
and the shared grid has the step 1 then.
-/

namespace SteppedConvolution

theorem Positions.IsSpaced.take {d : Rat} {vs : List Rat} (h : IsSpaced d vs) (n : Nat) :
    IsSpaced d (vs.take n) := by
  intro t ht
  obtain ⟨k, hk, rfl⟩ := mem_steps_iff.1 ht
  have hlt : k + 1 < vs.length := hk.trans_le (List.length_take_le' n vs)
  simpa using h _ (getElem_mem_steps hlt)

namespace Canvas

variable {nx nh g : TimeGrid Rat} {d threshold : Rat} {a b : Nat} {x h : List Rat}

theorem sharedStep_of_spaced (hx : nx.Spaced d) (hh : nh.Spaced d)
    (h : 1 < nx.size ∨ 1 < nh.size) : sharedStep nx nh = d := by
  unfold sharedStep
  split
  · exact hx.step_eq ‹_›
  · rw [if_pos (h.resolve_left ‹_›)]
    exact hh.step_eq (h.resolve_left ‹_›)

theorem sharedStep_of_single (hx : nx.size = 1) (hh : nh.size = 1) : sharedStep nx nh = 1 := by
  simp [sharedStep, hx, hh]

/-- A single position is in steps of every number. -/
theorem spaced_of_single (hg : g.size = 1) (d : Rat) : g.Spaced d := by
  obtain ⟨p, hp⟩ := List.length_eq_one_iff.1 hg
  simp [TimeGrid.Spaced, Positions.IsSpaced, Positions.steps, hp]

/-- Grids with a common step are aligned when one of them has two positions, and single positions
when they are a whole number apart. -/
theorem aligned_of_spaced (hx : nx.Spaced d) (hh : nh.Spaced d)
    (hoff : ∃ z : Int, nh.start - nx.start = z * d)
    (h : 1 < nx.size ∨ 1 < nh.size ∨ ∃ m : Int, nh.start - nx.start = m) : Aligned nx nh := by
  by_cases htwo : 1 < nx.size ∨ 1 < nh.size
  · have hstep := sharedStep_of_spaced hx hh htwo
    refine ⟨?_, ?_, ?_⟩ <;> rwa [hstep]
  · have hsx := nx.size_pos
    have hsh := nh.size_pos
    obtain ⟨m, hm⟩ := (h.resolve_left (by omega)).resolve_left (by omega)
    have hstep : sharedStep nx nh = 1 := sharedStep_of_single (by omega) (by omega)
    refine ⟨spaced_of_single (by omega) _, spaced_of_single (by omega) _, m, ?_⟩
    rw [hstep, mul_one, hm]

/-- Positions of a grid that sits on another one are positions of that one. -/
theorem mem_of_seat {l : TimeGrid Rat} (hs : g.Spaced d) (hl : l.Spaced d)
    (hstart : l.start = g.start + a * d) (hroom : a + l.size ≤ g.size) {p : Rat}
    (hp : p ∈ l.values) : p ∈ g.values := by
  rw [values_eq_map_range' hl hstart, List.mem_map] at hp
  obtain ⟨k, hk, rfl⟩ := hp
  have hlt : k < g.values.length := by
    have hk := (List.mem_range'_1.1 hk).2
    exact hk.trans_le hroom
  exact List.mem_iff_getElem.2 ⟨k, hlt, hs.getElem hlt⟩

/-- The shared grid of aligned grids hosts every signal on them. -/
theorem Aligned.hosts (ha : Aligned nx nh)
    (hg : sharedGrid nx nh ((nx.size : Int) + nh.size - 1) = .ok g) :
    Hosts threshold x nx.values g ∧ Hosts threshold h nh.values g := by
  obtain ⟨a, b, hs⟩ := ha.seated hg
  constructor
  · intro e he
    obtain ⟨i, -, hp, -⟩ := exists_of_mem_keptSamples he
    exact mem_of_seat hs.spaced ha.spaced_x hs.start_x hs.room_x (List.mem_of_getElem? hp)
  · intro e he
    obtain ⟨i, -, hp, -⟩ := exists_of_mem_keptSamples he
    exact mem_of_seat hs.spaced ha.spaced_h hs.start_h hs.room_h (List.mem_of_getElem? hp)

/-- A single sample has its place on a grid unless it counts and lies beside the positions. -/
theorem hosts_single_iff {l : TimeGrid Rat} (hl : l.size = 1) (hx : x.length = 1) :
    Hosts threshold x l.values g ↔ l.start ∈ g.values ∨ ∀ a ∈ x, |a| ≤ threshold := by
  obtain ⟨p, hp⟩ := List.length_eq_one_iff.1 hl
  obtain ⟨a, rfl⟩ := List.length_eq_one_iff.1 hx
  have hstart : l.start = p := by simp [TimeGrid.start, hp]
  rw [hstart, hp]
  by_cases ha : threshold < |a|
  · simp [Hosts, keptSamples, counts, Scalar.magnitude_eq_abs, ha, not_le.2 ha]
  · simp [Hosts, keptSamples, counts, Scalar.magnitude_eq_abs, ha, not_lt.1 ha]

/-- The shared grid of single positions starts at the earlier one and goes on in steps of 1. -/
theorem sharedGrid_single (hx : nx.size = 1) (hh : nh.size = 1)
    (hg : sharedGrid nx nh ((nx.size : Int) + nh.size - 1) = .ok g) :
    min nx.start nh.start ∈ g.values ∧
      ∀ p ∈ g.values, ∃ m : Int, p - min nx.start nh.start = m := by
  obtain ⟨-, -, hv⟩ := sharedGrid_eq_ok hg
  rw [sharedStep_of_single hx hh, Scalar.smaller_eq_min] at hv
  rw [hv]
  constructor
  · exact List.mem_of_mem_head? (Range.head?_progression _ _ g.size_pos)
  · intro p hp
    obtain ⟨k, -, rfl⟩ := List.mem_map.1 hp
    refine ⟨k, ?_⟩
    change min nx.start nh.start + 1 * (k : Rat) - min nx.start nh.start = ((k : Int) : Rat)
    rw [one_mul, add_sub_cancel_left, Int.cast_natCast]

/-- Two single samples that are no whole number apart have places on their shared grid unless the
later one counts. -/
theorem hosts_single_apart_iff (hx : nx.size = 1) (hh : nh.size = 1) (hlx : x.length = 1)
    (hlh : h.length = 1) (hg : sharedGrid nx nh ((nx.size : Int) + nh.size - 1) = .ok g)
    (hapart : ¬ ∃ m : Int, nh.start - nx.start = m) :
    (Hosts threshold x nx.values g ∧ Hosts threshold h nh.values g) ↔
      ∀ a ∈ if nx.start < nh.start then h else x, |a| ≤ threshold := by
  obtain ⟨hfirst, hwhole⟩ := sharedGrid_single hx hh hg
  rw [hosts_single_iff hx hlx, hosts_single_iff hh hlh]
  by_cases hlt : nx.start < nh.start
  · rw [min_eq_left hlt.le] at hfirst hwhole
    have hlater : nh.start ∉ g.values := fun hm => hapart (hwhole _ hm)
    rw [if_pos hlt, or_iff_right hlater, and_iff_right (.inl hfirst)]
  · rw [min_eq_right (not_lt.1 hlt)] at hfirst hwhole
    have hlater : nx.start ∉ g.values := by
      intro hm
      obtain ⟨m, hm⟩ := hwhole _ hm
      exact hapart ⟨-m, by rw [Int.cast_neg, ← hm, neg_sub]⟩
    rw [if_neg hlt, or_iff_right hlater, and_iff_left (.inl hfirst)]

end Canvas

/-- The samples left of signals on grids with a common step keep that step, or they do not need it:
one of the signals has two samples, or the grids start a whole number apart, or the signal that
starts later has no sample that counts. -/
def Session.KeepsSpacing (threshold : Rat) (x : List Rat) (nx : TimeGrid Rat) (h : List Rat)
    (nh : TimeGrid Rat) : Prop :=
  1 < x.length ∨ 1 < h.length ∨ (∃ m : Int, nh.start - nx.start = m) ∨
    ∀ a ∈ if nx.start < nh.start then h else x, |a| ≤ threshold

namespace Canvas

variable {nx nh g : TimeGrid Rat} {d threshold : Rat} {x h : List Rat}

/-- Signals on grids with a common step have places for all their samples that count exactly when
they keep the step. -/
theorem hosts_iff_keepsSpacing (hx : nx.Spaced d) (hh : nh.Spaced d)
    (hoff : ∃ z : Int, nh.start - nx.start = z * d) (hlx : nx.size = x.length)
    (hlh : nh.size = h.length) (hg : sharedGrid nx nh ((nx.size : Int) + nh.size - 1) = .ok g) :
    (Hosts threshold x nx.values g ∧ Hosts threshold h nh.values g) ↔
      Session.KeepsSpacing threshold x nx h nh := by
  by_cases hkeep : 1 < nx.size ∨ 1 < nh.size ∨ ∃ m : Int, nh.start - nx.start = m
  · refine iff_of_true ((aligned_of_spaced hx hh hoff hkeep).hosts hg) ?_
    rw [hlx, hlh] at hkeep
    exact hkeep.imp_right fun hkeep => hkeep.imp_right .inl
  · rw [not_or, not_or] at hkeep
    obtain ⟨hsx, hsh, hapart⟩ := hkeep
    have hpx := nx.size_pos
    have hph := nh.size_pos
    rw [hosts_single_apart_iff (by omega) (by omega) (by omega) (by omega) hg hapart,
      Session.KeepsSpacing, or_iff_right (hlx ▸ hsx), or_iff_right (hlh ▸ hsh),
      or_iff_right hapart]

/-- A canvas shows signals at their own positions exactly when it hosts them, and nothing is
reported then. -/
theorem ofSignals_placed_iff {c : Canvas Rat} (hlx : nx.size = x.length)
    (hlh : nh.size = h.length) (hc : (ofSignals threshold x nx h nh).outcome = .ok c) :
    (Placed threshold x nx.values c.grid c.x ↔ Hosts threshold x nx.values c.grid) ∧
    (Placed threshold h nh.values c.grid c.h ↔ Hosts threshold h nh.values c.grid) ∧
    (Hosts threshold x nx.values c.grid → Hosts threshold h nh.values c.grid →
      ∀ n, .misaligned n ∉ (ofSignals threshold x nx h nh).events) := by
  have hne {xs : List Rat} {l : TimeGrid Rat} (hl : l.size = xs.length) : xs ≠ [] := by
    rw [← List.length_pos_iff, ← hl]
    exact l.size_pos
  obtain ⟨hs, hsize⟩ := spaced_of_ofSignals (hne hlx) (hne hlh) hc
  have htake {xs : List Rat} {l : TimeGrid Rat} (hl : l.size = xs.length) :
      l.values.take xs.length = l.values := List.take_of_length_le hl.le
  unfold ofSignals at hc ⊢
  simp only [Logged.bind_eq_ok, Logged.ofExcept_outcome, htake hlx, htake hlh] at hc ⊢
  obtain ⟨g, hg, px, hpx, ph, hph, -, -, hc⟩ := hc
  cases hc
  refine ⟨placed_iff_hosts hsize hs hlx.symm nx.nodup hpx,
    placed_iff_hosts hsize hs hlh.symm nh.nodup hph, fun hhx hhh n hn => ?_⟩
  rw [Logged.events_bind_of_ok hg, Logged.events_bind_of_ok hpx, Logged.events_bind_of_ok hph,
    hhx.events_place hsize hs hlx.symm, hhh.events_place hsize hs hlh.symm] at hn
  simp [Logged.ofExcept, Logged.note] at hn

end Canvas

namespace Session

variable {tolerances : Tolerances Rat} {x h : List Rat} {nx nh : TimeGrid Rat} {s : Session Rat}

/-- What the inputs of a session stand for: samples of two signals with a grid for each. -/
structure Reads (tolerances : Tolerances Rat) (x h : SignalInput Rat)
    (nx nh : Option (GridInput Rat)) (xs : List Rat) (gx : TimeGrid Rat) (hs : List Rat)
    (gh : TimeGrid Rat) : Prop where
  x : x.resolve tolerances.gridUniformity "x" nx = .ok (xs, some gx)
  h : ∃ own, h.resolve tolerances.gridUniformity "h" nh = .ok (hs, own) ∧ own.getD gx = gh

theorem Reads.ofInputs_eq {x h : SignalInput Rat} {nx nh : Option (GridInput Rat)}
    {xs hs : List Rat} {gx gh : TimeGrid Rat} (hr : Reads tolerances x h nx nh xs gx hs gh) :
    ofInputs tolerances x h nx nh = ofSignals tolerances xs gx hs gh := by
  obtain ⟨own, hh, rfl⟩ := hr.h
  unfold ofInputs
  dsimp only
  rw [hr.x, hh]
  rfl

theorem reads_grid {atol : Rat} {name : String} (hx : x ≠ []) :
    (SignalInput.samples (.ofList x)).resolve atol name (some (.grid nx)) = .ok (x, some nx) :=
  (resolve_samples_eq_ok (Input.shaped_ofList x) name).2 ⟨hx, rfl, rfl⟩

theorem reads_positions {atol : Rat} {name : String} (hx : x ≠ [])
    (hn : Positions.defect? atol nx.values = none) :
    (SignalInput.samples (.ofList x)).resolve atol name (some (.positions (.ofList nx.values))) =
      .ok (x, some nx) := by
  have hread := (ofInput_positions (Input.shaped_ofList nx.values)).2 (TimeGrid.ofValues_values hn)
  exact (resolve_samples_eq_ok (Input.shaped_ofList x) name).2
    ⟨hx, rfl, functor_map_eq_ok.2 ⟨nx, hread, rfl⟩⟩

/-- The canvas of a session is that of the leading positions, and what is reported of samples that
are away from their places comes from there. -/
theorem exists_leading_of_ofSignals (hs : (ofSignals tolerances x nx h nh).outcome = .ok s) :
    ∃ lx lh, (leading tolerances.gridUniformity nx x.length).outcome = .ok lx ∧
      (leading tolerances.gridUniformity nh h.length).outcome = .ok lh ∧
      (Canvas.ofSignals tolerances.nonzero x lx h lh).outcome = .ok s.canvas ∧
      ∀ n, .misaligned n ∈ (ofSignals tolerances x nx h nh).events →
        .misaligned n ∈ (Canvas.ofSignals tolerances.nonzero x lx h lh).events := by
  have hsilent (g : TimeGrid Rat) (count n : Nat) :
      .misaligned n ∉ (leading tolerances.gridUniformity g count).events := by
    unfold leading
    split
    · simp
    · simp [Logged.note, Logged.ofExcept]
  unfold ofSignals at hs ⊢
  simp only [Logged.bind_eq_ok, Logged.ofExcept_outcome] at hs
  obtain ⟨-, -, -, -, lx, hlx, lh, hlh, y, hy, -, -, g, -, canvas, hc, -, -, hs⟩ := hs
  cases hs
  refine ⟨lx, lh, hlx, hlh, hc, fun n hn => ?_⟩
  simp only [Logged.mem_events_bind, Logged.ofExcept, Logged.note, Logged.pure_eq, hlx, hlh, hy,
    hsilent, List.not_mem_nil, List.mem_cons, Except.ok.injEq, reduceCtorEq, or_self, or_false,
    false_or, and_false, exists_const, exists_false, exists_and_right, exists_eq_left'] at hn
  obtain ⟨-, -, -, -, -, hn⟩ := hn
  exact hn

/-- Every sample that counts is shown at its own position: the canvas has that position, and the
sample stands there. -/
def PlacesExactly (s : Session Rat) (threshold : Rat) (x : List Rat) (nx : TimeGrid Rat)
    (h : List Rat) (nh : TimeGrid Rat) : Prop :=
  Canvas.Placed threshold x nx.values s.canvas.grid s.canvas.x ∧
    Canvas.Placed threshold h nh.values s.canvas.grid s.canvas.h

variable {d : Rat}

theorem spaced_of_leading {atol : Rat} {l : TimeGrid Rat} {n : Nat} (hx : nx.Spaced d)
    (hl : (leading atol nx n).outcome = .ok l) : l.Spaced d := by
  rw [TimeGrid.Spaced, values_of_leading hl]
  exact Positions.IsSpaced.take hx n

theorem start_of_leading {atol : Rat} {l : TimeGrid Rat} {n : Nat}
    (hl : (leading atol nx n).outcome = .ok l) : l.start = nx.start := by
  have hn : n ≠ 0 := by
    rintro rfl
    exact l.values_ne_nil (values_of_leading hl)
  simp only [TimeGrid.start, values_of_leading hl, List.head_take]

/-- Positions behind the samples are not looked at. -/
theorem placed_of_leading {atol threshold : Rat} {l g : TimeGrid Rat} {ys : List Rat}
    (hl : (leading atol nx x.length).outcome = .ok l) :
    Canvas.Placed threshold x nx.values g ys ↔ Canvas.Placed threshold x l.values g ys := by
  unfold Canvas.Placed
  rw [values_of_leading hl]
  refine forall_congr' fun i => forall_congr' fun a => forall_congr' fun p =>
    imp_congr_right fun ha => ?_
  rw [List.getElem?_take_of_lt (List.getElem?_eq_some_iff.1 ha).1]

/-- Signals on grids with a common step are shown at their own positions exactly when what is left
of them keeps the step, and nothing is reported then. -/
theorem placesExactly_iff (hx : nx.Spaced d) (hh : nh.Spaced d)
    (hoff : ∃ z : Int, nh.start - nx.start = z * d)
    (hs : (ofSignals tolerances x nx h nh).outcome = .ok s) :
    (s.PlacesExactly tolerances.nonzero x nx h nh ↔ KeepsSpacing tolerances.nonzero x nx h nh) ∧
      (KeepsSpacing tolerances.nonzero x nx h nh →
        ∀ n, .misaligned n ∉ (ofSignals tolerances x nx h nh).events) := by
  obtain ⟨hfx, hfh⟩ := fits_of_ofSignals hs
  obtain ⟨lx, lh, hlx, hlh, hc, hevents⟩ := exists_leading_of_ofSignals hs
  have hsx := size_of_leading hfx.room hlx
  have hsh := size_of_leading hfh.room hlh
  obtain ⟨hpx, hph, hsilent⟩ := Canvas.ofSignals_placed_iff hsx hsh hc
  have hgrid := (Canvas.of_ofSignals hc).1
  rw [← hsx, ← hsh] at hgrid
  have hstart : lh.start - lx.start = nh.start - nx.start := by
    rw [start_of_leading hlx, start_of_leading hlh]
  have hkeep : Canvas.Hosts tolerances.nonzero x lx.values s.canvas.grid ∧
      Canvas.Hosts tolerances.nonzero h lh.values s.canvas.grid ↔
        KeepsSpacing tolerances.nonzero x lx h lh :=
    Canvas.hosts_iff_keepsSpacing (spaced_of_leading hx hlx) (spaced_of_leading hh hlh)
      (hstart ▸ hoff) hsx hsh hgrid
  rw [KeepsSpacing, start_of_leading hlx, start_of_leading hlh] at hkeep
  rw [PlacesExactly, placed_of_leading hlx, placed_of_leading hlh, hpx, hph]
  refine ⟨hkeep, fun hk n hn => ?_⟩
  obtain ⟨hhx, hhh⟩ := hkeep.2 hk
  exact hsilent hhx hhh n (hevents n hn)

end Session

namespace Engine

/-- Where two grids have the same step and start a whole number of steps apart, a start that
succeeds shows every sample that counts at its own position exactly when what is left of the
signals keeps the step, and nothing is reported then. -/
theorem start_placesExactly_iff (e : Engine Rat) {x h : SignalInput Rat}
    {nx nh : Option (GridInput Rat)} {xs hs : List Rat} {gx gh : TimeGrid Rat} {d : Rat}
    (hr : Session.Reads e.tolerances x h nx nh xs gx hs gh) (hx : gx.Spaced d) (hh : gh.Spaced d)
    (hoff : ∃ z : Int, gh.start - gx.start = z * d) (ho : (e.start x h nx nh).outcome = .ok ()) :
    ∃ s, (e.start x h nx nh).engine.session = some s ∧
      (s.PlacesExactly e.tolerances.nonzero xs gx hs gh ↔
        Session.KeepsSpacing e.tolerances.nonzero xs gx hs gh) ∧
      (Session.KeepsSpacing e.tolerances.nonzero xs gx hs gh →
        ∀ n, .misaligned n ∉ (e.start x h nx nh).events) := by
  obtain ⟨s, hs⟩ := e.start_outcome_iff.1 ho
  refine ⟨s.upTo 0, ?_⟩
  rw [start_opened hs]
  rw [hr.ofInputs_eq] at hs ⊢
  have hplaced := Session.placesExactly_iff hx hh hoff hs
  exact ⟨rfl, hplaced⟩

/-- One sample at the first of three positions, and two samples that start at the last one. -/
theorem start_placesExactly_shorter :
    let e := idle (⟨.standard, ToleranceSettings.firstNegative?_standard⟩ : Tolerances Rat)
    let gx : TimeGrid Rat := ⟨[0, 1 / 2, 1], 0, by decide +kernel⟩
    let gh : TimeGrid Rat := ⟨[1, 3 / 2], 0, by decide +kernel⟩
    let started := e.start (.samples (.ofList [1])) (.samples (.ofList [2, -1]))
      (some (.positions (.ofList gx.values))) (some (.grid gh))
    gx.Spaced (1 / 2) ∧ gh.Spaced (1 / 2) ∧ (∃ z : Int, gh.start - gx.start = z * (1 / 2)) ∧
      started.outcome = .ok () ∧ (∃ s, started.engine.session = some s ∧
        s.PlacesExactly e.tolerances.nonzero [1] gx [2, -1] gh) ∧
      ∀ n, .misaligned n ∉ started.events := by
  intro e gx gh started
  have hx : gx.Spaced (1 / 2) :=
    (by decide +kernel : ∀ t ∈ Positions.steps gx.values, t = 1 / 2)
  have hh : gh.Spaced (1 / 2) :=
    (by decide +kernel : ∀ t ∈ Positions.steps gh.values, t = 1 / 2)
  have hoff : ∃ z : Int, gh.start - gx.start = z * (1 / 2) := ⟨2, by decide +kernel⟩
  have hr : Session.Reads e.tolerances (.samples (.ofList [1])) (.samples (.ofList [2, -1]))
      (some (.positions (.ofList gx.values))) (some (.grid gh)) [1] gx [2, -1] gh :=
    ⟨Session.reads_positions (List.cons_ne_nil _ _) (by decide +kernel), some gh,
      Session.reads_grid (List.cons_ne_nil _ _), rfl⟩
  have ho : started.outcome = .ok () := eq_ok_of_toOption (by decide +kernel)
  obtain ⟨s, hs, hiff, hsilent⟩ := e.start_placesExactly_iff hr hx hh hoff ho
  have hkeep : Session.KeepsSpacing e.tolerances.nonzero [1] gx [2, -1] gh :=
    .inr (.inl (by decide))
  exact ⟨hx, hh, hoff, ho, ⟨s, hs, hiff.2 hkeep⟩, hsilent hkeep⟩

/-- Two single samples half a step of 1 apart, each on a grid of two positions with the step `1/2`.
The shared grid has the step 1, so that the second sample is moved, and this is reported. -/
theorem start_moves_single_samples :
    let e := idle (⟨.standard, ToleranceSettings.firstNegative?_standard⟩ : Tolerances Rat)
    let gx : TimeGrid Rat := ⟨[0, 1 / 2], 0, by decide +kernel⟩
    let gh : TimeGrid Rat := ⟨[1 / 2, 1], 0, by decide +kernel⟩
    let x : SignalInput Rat := .samples (.ofList [1])
    let nx : Option (GridInput Rat) := some (.positions (.ofList gx.values))
    let nh : Option (GridInput Rat) := some (.positions (.ofList gh.values))
    Session.Reads e.tolerances x x nx nh [1] gx [1] gh ∧ gx.size = 2 ∧ gh.size = 2 ∧
      gx.Spaced (1 / 2) ∧ gh.Spaced (1 / 2) ∧ (∃ z : Int, gh.start - gx.start = z * (1 / 2)) ∧
      (e.start x x nx nh).outcome = .ok () ∧
      (∃ s, (e.start x x nx nh).engine.session = some s ∧
        ¬ s.PlacesExactly e.tolerances.nonzero [1] gx [1] gh) ∧
      .misaligned 1 ∈ (e.start x x nx nh).events := by
  intro e gx gh x nx nh
  have hx : gx.Spaced (1 / 2) :=
    (by decide +kernel : ∀ t ∈ Positions.steps gx.values, t = 1 / 2)
  have hh : gh.Spaced (1 / 2) :=
    (by decide +kernel : ∀ t ∈ Positions.steps gh.values, t = 1 / 2)
  have hr : Session.Reads e.tolerances x x nx nh [1] gx [1] gh :=
    ⟨Session.reads_positions (List.cons_ne_nil _ _) (by decide +kernel), some gh,
      Session.reads_positions (List.cons_ne_nil _ _) (by decide +kernel), rfl⟩
  have hview : (e.start x x nx nh).engine.session.map (fun s => s.canvas.grid.values) =
      some [0, 1] := by decide +kernel
  obtain ⟨s, hs, hgrid⟩ := Option.map_eq_some_iff.1 hview
  refine ⟨hr, rfl, rfl, hx, hh, ⟨1, by decide +kernel⟩, eq_ok_of_toOption (by decide +kernel),
    ⟨s, hs, ?_⟩, ?_⟩
  · rintro ⟨-, hplaced⟩
    obtain ⟨k, hk, -⟩ := hplaced 0 1 (1 / 2) rfl rfl (by decide +kernel)
    have hmem := List.mem_of_getElem? hk
    rw [hgrid] at hmem
    exact absurd hmem (by decide +kernel)
  · have hreported : ((e.start x x nx nh).events.any fun
        | .misaligned n => n = 1
        | _ => false) = true := by decide +kernel
    obtain ⟨ev, hev, hone⟩ := List.any_eq_true.1 hreported
    split at hone
    · rwa [of_decide_eq_true hone] at hev
    · cases hone

end Engine

end SteppedConvolution
