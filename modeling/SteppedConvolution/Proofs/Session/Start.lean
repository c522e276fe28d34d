import SteppedConvolution.Proofs.Canvas.Extent
import SteppedConvolution.Proofs.Session.Moves

/-! # Sessions that start

Over the rationals a session of two signals starts exactly when both fit their grids and the
shared grid is not too long to be stored. A grid that is longer than its signal is cut and
checked once more; the grids that are derived after that pass their checks by themselves.
-/

namespace SteppedConvolution

theorem Tolerances.gridUniformity_nonneg (t : Tolerances Rat) : 0 ≤ t.gridUniformity := by
  have h := List.find?_eq_none.1 t.nonnegative .gridUniformity (by simp [ToleranceSettings.names])
  rwa [ToleranceSettings.get, Bool.not_eq_true, Bool.not_eq_false', decide_eq_true_eq] at h

namespace Support

/-- The positions of the output are regular, however different the steps of the two grids are. -/
theorem isRegular_output {atol : Rat} (ha : 0 ≤ atol) (lx lh : TimeGrid Rat) {n : Nat}
    (hn : n + 1 = lx.size + lh.size) :
    Positions.IsRegular atol (positions (lx.start + lh.start) (lx.stop + lh.stop) n) := by
  have hx := lx.size_pos
  have hh := lh.size_pos
  have hl := length_positions (lx.start + lh.start) (lx.stop + lh.stop)
    (n := n) (by omega)
  refine (isSpaced_positions _ _ n).isRegular ?_ (fun hlt => ?_) ha
  · rw [← List.length_pos_iff]
    omega
  · have hdiv : (0 : Rat) < (n - 1 : Nat) := by
      have : 0 < n - 1 := by omega
      exact_mod_cast this
    refine div_pos ?_ hdiv
    have hlx := lx.start_le_stop
    have hlh := lh.start_le_stop
    by_cases h1 : 1 < lx.size
    · linarith [lx.start_lt_stop h1]
    · linarith [lh.start_lt_stop (by omega)]

/-- Two grids have output positions for every number of samples but zero. -/
theorem output_ok (lx lh : TimeGrid Rat) {n : Nat} (hn : n ≠ 0) :
    output lx.values lh.values n =
      .ok (positions (lx.start + lh.start) (lx.stop + lh.stop) n) := by
  have hcheck (name : String) (g : TimeGrid Rat) : Samples.check name g.values = .ok g.values :=
    Samples.check_eq_ok.2 ⟨Samples.defect?_eq_none_rat_iff.2 g.values_ne_nil, rfl⟩
  unfold output positions
  rw [if_neg hn]
  simp only [bind_eq_ok, hcheck]
  refine ⟨_, rfl, _, rfl, ?_⟩
  rw [List.head?_eq_some_head lx.values_ne_nil, List.head?_eq_some_head lh.values_ne_nil,
    List.getLast?_eq_some_getLast lx.values_ne_nil, List.getLast?_eq_some_getLast lh.values_ne_nil]
  dsimp only
  split <;> rfl

end Support

namespace Session

variable {tolerances : Tolerances Rat} {atol : Rat}

section

variable {x h : List Rat} {nx nh : TimeGrid Rat}

/-- The leading positions of a grid can be taken for `n` samples: there are no others, or they are
regular. -/
def Leads (atol : Rat) (g : TimeGrid Rat) (n : Nat) : Prop :=
  g.size = n ∨ Positions.IsRegular atol (g.values.take n)

theorem exists_leading_iff (ha : 0 ≤ atol) (g : TimeGrid Rat) (n : Nat) :
    (∃ l, (leading atol g n).outcome = .ok l) ↔ Leads atol g n := by
  unfold leading Leads
  split
  · rename_i hs
    simp [hs]
  · rename_i hs
    simp only [Logged.bind_eq_ok, Logged.ofExcept_outcome, mapError_eq_ok, Logged.note, hs,
      false_or, ← TimeGrid.exists_ofValues_iff ha]
    simp

/-- The signal has samples, its grid has a position for each, and the leading positions of the grid
can be taken for them. -/
structure Fits (atol : Rat) (x : List Rat) (g : TimeGrid Rat) : Prop where
  nonempty : x ≠ []
  room : x.length ≤ g.size
  leads : Leads atol g x.length

/-- A session of signals whose leading positions are found is built around their canvas. -/
theorem ofSignals_eq_map {lx lh : TimeGrid Rat} (hx : x ≠ []) (hh : h ≠ [])
    (hrx : x.length ≤ nx.size) (hrh : h.length ≤ nh.size)
    (hlx : (leading tolerances.gridUniformity nx x.length).outcome = .ok lx)
    (hlh : (leading tolerances.gridUniformity nh h.length).outcome = .ok lh) :
    ∃ build : Canvas Rat → Session Rat, (ofSignals tolerances x nx h nh).outcome =
      (Canvas.ofSignals tolerances.nonzero x lx h lh).outcome.map build := by
  have hsx := size_of_leading hrx hlx
  have hsh := size_of_leading hrh hlh
  have hlength : (Convolution.full x h).length + 1 = lx.size + lh.size := by
    have := List.length_pos_iff.2 hx
    rw [Convolution.length_full, hsx, hsh]
    omega
  have hconvolve : Convolution.convolve x h = .ok (Convolution.full x h) :=
    Convolution.convolve_eq_ok.2
      ⟨Samples.defect?_eq_none_rat_iff.2 hx, Samples.defect?_eq_none_rat_iff.2 hh, rfl⟩
  have hne : (Convolution.full x h).length ≠ 0 := by
    have := lx.size_pos
    have := lh.size_pos
    omega
  have houtput := Support.output_ok lx lh hne
  -- the output grid passes under the tolerance of the engine because its steps are equal
  obtain ⟨og, hog⟩ := (TimeGrid.exists_ofValues_iff tolerances.gridUniformity_nonneg).2
    (Support.isRegular_output tolerances.gridUniformity_nonneg lx lh hlength)
  have hroom (name : String) {xs : List Rat} {g : TimeGrid Rat} (hr : xs.length ≤ g.size) :
      requireRoom name xs g = .ok () := requireRoom_eq_ok.2 hr
  have hgrid := mapError_eq_ok (g := TimeGrid.fault (K := Rat)).2 hog
  refine ⟨fun canvas => { x, h, nx := .checked lx, nh := lh, canvas, outputGrid := og, cursor := 0
                          reference := Convolution.full x h
                          output := some (List.replicate (Convolution.full x h).length 0) }, ?_⟩
  unfold ofSignals
  rw [hroom "x" hrx, hroom "h" hrh, Logged.outcome_bind_of_ok rfl, Logged.outcome_bind_of_ok rfl,
    Logged.outcome_bind_of_ok hlx, Logged.outcome_bind_of_ok hlh, hconvolve,
    Logged.outcome_bind_of_ok rfl, houtput, Logged.outcome_bind_of_ok rfl, hgrid,
    Logged.outcome_bind_of_ok rfl]
  rcases Canvas.ofSignals tolerances.nonzero x lx h lh with ⟨events, f | c⟩
  · rfl
  · rfl

/-- The number of positions on the canvas of two signals. -/
def extent (x : List Rat) (nx : TimeGrid Rat) (h : List Rat) (nh : TimeGrid Rat) : Int :=
  Canvas.extent (nx.values.take x.length) (nh.values.take h.length)

/-- With signals that fit their grids, all that can fail is a canvas that is too long. -/
theorem ofSignals_of_fits (hx : Fits tolerances.gridUniformity x nx)
    (hh : Fits tolerances.gridUniformity h nh) :
    (extent x nx h nh < Range.sizeLimit →
      ∃ s, (ofSignals tolerances x nx h nh).outcome = .ok s) ∧
    ((Range.sizeLimit : Int) ≤ extent x nx h nh →
      (ofSignals tolerances x nx h nh).outcome = .error (.plain .tooManyPositions)) := by
  obtain ⟨lx, hlx⟩ := (exists_leading_iff tolerances.gridUniformity_nonneg nx _).2 hx.leads
  obtain ⟨lh, hlh⟩ := (exists_leading_iff tolerances.gridUniformity_nonneg nh _).2 hh.leads
  obtain ⟨build, hbuild⟩ := ofSignals_eq_map hx.nonempty hh.nonempty hx.room hh.room hlx hlh
  have hsx := size_of_leading hx.room hlx
  have hsh := size_of_leading hh.room hlh
  rw [hbuild, extent, ← values_of_leading hlx, ← values_of_leading hlh]
  constructor
  · intro hlt
    obtain ⟨c, hc⟩ := Canvas.ofSignals_ok tolerances.nonzero hsx hsh hlt
    exact ⟨build c, by rw [hc]; rfl⟩
  · intro hle
    rw [Canvas.ofSignals_refused hsx hsh hle]
    rfl

theorem fits_of_ofSignals {s : Session Rat}
    (hs : (ofSignals tolerances x nx h nh).outcome = .ok s) :
    Fits tolerances.gridUniformity x nx ∧ Fits tolerances.gridUniformity h nh := by
  unfold ofSignals at hs
  simp only [Logged.bind_eq_ok, Logged.ofExcept_outcome, requireRoom_eq_ok,
    Convolution.convolve_eq_ok] at hs
  obtain ⟨-, hrx, -, hrh, lx, hlx, lh, hlh, y, ⟨dx, dh, -⟩, -⟩ := hs
  have hleads := exists_leading_iff tolerances.gridUniformity_nonneg
  exact ⟨⟨Samples.ne_nil_of_defect? dx, hrx, (hleads nx _).1 ⟨lx, hlx⟩⟩,
    ⟨Samples.ne_nil_of_defect? dh, hrh, (hleads nh _).1 ⟨lh, hlh⟩⟩⟩

/-- A session opens exactly with signals that fit their grids and a canvas that is not too long. -/
theorem exists_ofSignals_iff : (∃ s, (ofSignals tolerances x nx h nh).outcome = .ok s) ↔
    Fits tolerances.gridUniformity x nx ∧ Fits tolerances.gridUniformity h nh ∧
      extent x nx h nh < Range.sizeLimit := by
  constructor
  · rintro ⟨s, hs⟩
    obtain ⟨hx, hh⟩ := fits_of_ofSignals hs
    refine ⟨hx, hh, lt_of_not_ge fun hle => ?_⟩
    rw [(ofSignals_of_fits hx hh).2 hle] at hs
    cases hs
  · rintro ⟨hx, hh, hlt⟩
    exact (ofSignals_of_fits hx hh).1 hlt

end

/-! ## Inputs of a session -/

variable {x h : Input Rat} {xs hs : List Rat} {gx gh : Option (GridInput Rat)} {nx : TimeGrid Rat}

/-- Samples are read when there are some, and the grid beside them on its own. -/
theorem resolve_samples_eq_ok (hx : x.shaped = .ok (.ofList xs)) (name : String) {ys : List Rat}
    {g? : Option (TimeGrid Rat)} :
    (SignalInput.samples x).resolve atol name gx = .ok (ys, g?) ↔
      xs ≠ [] ∧ ys = xs ∧ gx.mapM (TimeGrid.ofInput atol) = .ok g? := by
  have hread : Samples.ofInput name x = Samples.check name xs := by
    rw [Samples.ofInput, hx]
    exact Samples.ofShaped_ofList name xs
  cases gx with
  | none =>
    simp only [SignalInput.resolve, hread, bind_pure_comp, functor_map_eq_ok, bind_eq_ok,
      Samples.check_eq_ok, Samples.defect?_eq_none_rat_iff, Option.mapM_none]
    constructor
    · rintro ⟨_, ⟨hxs, rfl⟩, _, ⟨⟩, ⟨⟩⟩
      exact ⟨hxs, rfl, rfl⟩
    · rintro ⟨hxs, rfl, ⟨⟩⟩
      exact ⟨_, ⟨hxs, rfl⟩, _, rfl, rfl⟩
  | some g =>
    simp only [SignalInput.resolve, hread, bind_pure_comp, functor_map_eq_ok, bind_eq_ok,
      Samples.check_eq_ok, Samples.defect?_eq_none_rat_iff, Option.mapM_some]
    constructor
    · rintro ⟨_, ⟨hxs, rfl⟩, _, ⟨⟩, k, hk, ⟨⟩⟩
      exact ⟨hxs, rfl, k, hk, rfl⟩
    · rintro ⟨hxs, rfl, k, hk, rfl⟩
      exact ⟨_, ⟨hxs, rfl⟩, _, rfl, k, hk, rfl⟩

/-- The session of inputs that can be read is that of what they stand for. -/
theorem ofInputs_outcome (hx : x.shaped = .ok (.ofList xs)) (hh : h.shaped = .ok (.ofList hs))
    (hxs : xs ≠ []) (hhs : hs ≠ []) {g? : Option (TimeGrid Rat)}
    (hgx : gx.mapM (TimeGrid.ofInput tolerances.gridUniformity) = .ok (some nx))
    (hgh : gh.mapM (TimeGrid.ofInput tolerances.gridUniformity) = .ok g?) :
    (ofInputs tolerances (.samples x) (.samples h) gx gh).outcome =
      (ofSignals tolerances xs nx hs (g?.getD nx)).outcome := by
  have hrx := (resolve_samples_eq_ok hx "x").2 ⟨hxs, rfl, hgx⟩
  have hrh := (resolve_samples_eq_ok hh "h").2 ⟨hhs, rfl, hgh⟩
  unfold ofInputs
  dsimp only
  rw [hrx, hrh, Logged.outcome_bind_of_ok rfl, Logged.outcome_bind_of_ok rfl]

theorem exists_ofInputs_iff (hx : x.shaped = .ok (.ofList xs)) (hh : h.shaped = .ok (.ofList hs)) :
    (∃ s, (ofInputs tolerances (.samples x) (.samples h) gx gh).outcome = .ok s) ↔
      ∃ nx g?, gx.mapM (TimeGrid.ofInput tolerances.gridUniformity) = .ok (some nx) ∧
        gh.mapM (TimeGrid.ofInput tolerances.gridUniformity) = .ok g? ∧
        Fits tolerances.gridUniformity xs nx ∧ Fits tolerances.gridUniformity hs (g?.getD nx) ∧
        extent xs nx hs (g?.getD nx) < Range.sizeLimit := by
  constructor
  · rintro ⟨s, hs⟩
    have hparts := hs
    unfold ofInputs at hparts
    simp only [Logged.bind_eq_ok, Logged.ofExcept_outcome] at hparts
    obtain ⟨⟨ys, gx?⟩, hrx, ⟨zs, gh?⟩, hrh, hopen⟩ := hparts
    obtain ⟨hxs, rfl, hgx⟩ := (resolve_samples_eq_ok hx "x").1 hrx
    obtain ⟨hhs, rfl, hgh⟩ := (resolve_samples_eq_ok hh "h").1 hrh
    cases gx? with
    | none => cases hopen
    | some nx => exact ⟨nx, gh?, hgx, hgh, exists_ofSignals_iff.1 ⟨s, hopen⟩⟩
  · rintro ⟨nx, g?, hgx, hgh, hfits⟩
    rw [ofInputs_outcome hx hh hfits.1.nonempty hfits.2.1.nonempty hgx hgh]
    exact exists_ofSignals_iff.2 hfits

/-! ## Positions of a session -/

/-- Samples and positions of a signal with which a session can start. -/
structure Startable (atol : Rat) (xs vs : List Rat) : Prop where
  nonempty : xs ≠ []
  regular : Positions.IsRegular atol vs
  room : xs.length ≤ vs.length

variable {vs : List Rat} {ix ih : Option (Input Rat)} {ps qs : Option (List Rat)}

/-- The grid of given positions holds a signal exactly when the positions do. -/
theorem fits_ofValues_iff (ha : 0 ≤ atol) {g : TimeGrid Rat}
    (hg : TimeGrid.ofValues atol vs = .ok g) : Fits atol xs g ↔ Startable atol xs vs := by
  have hv := TimeGrid.values_of_ofValues hg
  have hr := (TimeGrid.exists_ofValues_iff ha).1 ⟨g, hg⟩
  constructor
  · intro hf
    exact ⟨hf.nonempty, hr, hv ▸ hf.room⟩
  · intro hs
    have hn := (List.length_pos_iff.2 hs.nonempty).ne'
    refine ⟨hs.nonempty, ?_, Or.inr ?_⟩
    · rw [TimeGrid.size, hv]
      exact hs.room
    · rw [hv]
      exact hr.take hn

theorem ofInput_positions {input : Input Rat} (h : input.shaped = .ok (.ofList vs))
    {g : TimeGrid Rat} :
    TimeGrid.ofInput atol (.positions input) = .ok g ↔ TimeGrid.ofValues atol vs = .ok g := by
  simp only [TimeGrid.ofInput, Samples.shapedInput, h]
  exact mapError_eq_ok

theorem mapM_positions_eq_ok (h : ix.map Input.shaped = ps.map fun vs => .ok (.ofList vs))
    {g? : Option (TimeGrid Rat)} :
    (ix.map GridInput.positions).mapM (TimeGrid.ofInput atol) = .ok g? ↔
      ps.mapM (TimeGrid.ofValues atol) = .ok g? := by
  rcases ix with _ | i <;> rcases ps with _ | vs
  · constructor
    · rintro ⟨⟩
      rfl
    · rintro ⟨⟩
      rfl
  · cases h
  · cases h
  · have hi : i.shaped = .ok (.ofList vs) := Option.some.inj h
    simp only [Option.map_some, Option.mapM_some, functor_map_eq_ok, ofInput_positions hi]

/-- With signals that fit their positions, all that can fail is a canvas that is too long. -/
theorem ofInputs_of_startable (hx : x.shaped = .ok (.ofList xs)) (hh : h.shaped = .ok (.ofList hs))
    (hix : ix.map Input.shaped = some (.ok (.ofList vs)))
    (hih : ih.map Input.shaped = qs.map fun vs => .ok (.ofList vs))
    (hxs : Startable tolerances.gridUniformity xs vs)
    (hhs : Startable tolerances.gridUniformity hs (qs.getD vs)) :
    (Canvas.extent (vs.take xs.length) ((qs.getD vs).take hs.length) < Range.sizeLimit →
      ∃ s, (ofInputs tolerances (.samples x) (.samples h) (ix.map .positions)
        (ih.map .positions)).outcome = .ok s) ∧
    ((Range.sizeLimit : Int) ≤ Canvas.extent (vs.take xs.length) ((qs.getD vs).take hs.length) →
      (ofInputs tolerances (.samples x) (.samples h) (ix.map .positions)
        (ih.map .positions)).outcome = .error (.plain .tooManyPositions)) := by
  have ha := tolerances.gridUniformity_nonneg
  obtain ⟨nx, hnx⟩ := (TimeGrid.exists_ofValues_iff ha).2 hxs.regular
  obtain ⟨nh, hnh⟩ := (TimeGrid.exists_ofValues_iff ha).2 hhs.regular
  have hps : ix.map Input.shaped = (some vs).map fun vs => .ok (.ofList vs) := hix
  have hgx := (mapM_positions_eq_ok hps).2 (functor_map_eq_ok.2 ⟨nx, hnx, rfl⟩)
  -- without positions of its own the second signal is on the grid of the first one
  obtain ⟨g?, hg, hget⟩ : ∃ g?, qs.mapM (TimeGrid.ofValues tolerances.gridUniformity) = .ok g? ∧
      g?.getD nx = nh := by
    cases qs with
    | none => exact ⟨none, rfl, Except.ok.inj (hnx.symm.trans hnh)⟩
    | some ws => exact ⟨some nh, functor_map_eq_ok.2 ⟨nh, hnh, rfl⟩, rfl⟩
  rw [ofInputs_outcome hx hh hxs.nonempty hhs.nonempty hgx ((mapM_positions_eq_ok hih).2 hg), hget,
    ← TimeGrid.values_of_ofValues hnh, ← TimeGrid.values_of_ofValues hnx]
  exact ofSignals_of_fits ((fits_ofValues_iff ha hnx).2 hxs) ((fits_ofValues_iff ha hnh).2 hhs)

theorem exists_ofInputs_positions_iff (hx : x.shaped = .ok (.ofList xs))
    (hh : h.shaped = .ok (.ofList hs))
    (hix : ix.map Input.shaped = ps.map fun vs => .ok (.ofList vs))
    (hih : ih.map Input.shaped = qs.map fun vs => .ok (.ofList vs)) :
    (∃ s, (ofInputs tolerances (.samples x) (.samples h) (ix.map .positions)
        (ih.map .positions)).outcome = .ok s) ↔
      ∃ vs, ps = some vs ∧ Startable tolerances.gridUniformity xs vs ∧
        Startable tolerances.gridUniformity hs (qs.getD vs) ∧
        Canvas.extent (vs.take xs.length) ((qs.getD vs).take hs.length) < Range.sizeLimit := by
  have ha := tolerances.gridUniformity_nonneg
  constructor
  · rw [exists_ofInputs_iff hx hh]
    rintro ⟨nx, g?, hgx, hgh, hfx, hfh, hlt⟩
    rw [mapM_positions_eq_ok hix] at hgx
    rw [mapM_positions_eq_ok hih] at hgh
    cases ps with
    | none => cases hgx
    | some vs =>
      obtain ⟨nx', hnx, ⟨⟩⟩ := functor_map_eq_ok.1 hgx
      have hnh : TimeGrid.ofValues tolerances.gridUniformity (qs.getD vs) = .ok (g?.getD nx) := by
        cases qs with
        | none =>
          cases hgh
          exact hnx
        | some ws =>
          obtain ⟨nh, hnh, rfl⟩ := functor_map_eq_ok.1 hgh
          exact hnh
      rw [extent, TimeGrid.values_of_ofValues hnx, TimeGrid.values_of_ofValues hnh] at hlt
      exact ⟨vs, rfl, (fits_ofValues_iff ha hnx).1 hfx, (fits_ofValues_iff ha hnh).1 hfh, hlt⟩
  · rintro ⟨vs, rfl, hxs, hhs, hlt⟩
    exact (ofInputs_of_startable hx hh hix hih hxs hhs).1 hlt

end Session

namespace Engine

variable {x h : Input Rat} {xs hs : List Rat}

theorem start_outcome_iff (e : Engine Rat) {x h : SignalInput Rat}
    {gx gh : Option (GridInput Rat)} : (e.start x h gx gh).outcome = .ok () ↔
      ∃ s, (Session.ofInputs e.tolerances x h gx gh).outcome = .ok s := by
  constructor
  · intro ho
    cases hs : (Session.ofInputs e.tolerances x h gx gh).outcome with
    | ok s => exact ⟨s, rfl⟩
    | error f =>
      rw [start_refused hs] at ho
      cases ho
  · rintro ⟨s, hs⟩
    rw [start_opened hs]

/-- A start with one-dimensional numbers succeeds exactly when both signals have samples, both
lists of positions are regular and long enough, and the canvas is not too long to be stored. If
only the last of these is missing, this is what the start fails with. -/
theorem start_positions (e : Engine Rat) {nx nh : Option (Input Rat)}
    {ps qs : Option (List Rat)} (hx : x.shaped = .ok (.ofList xs))
    (hh : h.shaped = .ok (.ofList hs))
    (hnx : nx.map Input.shaped = ps.map fun vs => .ok (.ofList vs))
    (hnh : nh.map Input.shaped = qs.map fun vs => .ok (.ofList vs)) :
    let atol := e.tolerances.gridUniformity
    let started :=
      (e.start (.samples x) (.samples h) (nx.map .positions) (nh.map .positions)).outcome
    (started = .ok () ↔ ∃ vs, ps = some vs ∧ Session.Startable atol xs vs ∧
      Session.Startable atol hs (qs.getD vs) ∧
      Canvas.extent (vs.take xs.length) ((qs.getD vs).take hs.length) < Range.sizeLimit) ∧
    ∀ vs, ps = some vs → Session.Startable atol xs vs → Session.Startable atol hs (qs.getD vs) →
      started = .ok () ∨ started = .error (.plain .tooManyPositions) := by
  intro atol started
  refine ⟨e.start_outcome_iff.trans (Session.exists_ofInputs_positions_iff hx hh hnx hnh), ?_⟩
  rintro vs rfl hxs hhs
  obtain ⟨hopens, hrefused⟩ := Session.ofInputs_of_startable hx hh hnx hnh hxs hhs
  rcases lt_or_ge (Canvas.extent (vs.take xs.length) ((qs.getD vs).take hs.length))
    Range.sizeLimit with hlt | hge
  · exact .inl (e.start_outcome_iff.2 (hopens hlt))
  · right
    change (e.start _ _ _ _).outcome = _
    rw [start_refused (hrefused hge)]

/-- Two samples at the first of three positions, and one sample on the same positions. -/
theorem start_positions_halves :
    let e := idle (⟨.standard, ToleranceSettings.firstNegative?_standard⟩ : Tolerances Rat)
    Session.Startable e.tolerances.gridUniformity [1, 2] [0, 1 / 2, 1] ∧
      (e.start (.samples (.ofList [1, 2])) (.samples (.ofList [-1]))
        (some (.positions (.ofList [0, 1 / 2, 1]))) none).outcome = .ok () := by
  intro e
  have hregular := (Positions.defect?_eq_none_iff e.tolerances.gridUniformity_nonneg).1
    (show Positions.defect? _ [0, 1 / 2, 1] = none by decide +kernel)
  have hx : Session.Startable e.tolerances.gridUniformity [1, 2] [0, 1 / 2, 1] :=
    ⟨List.cons_ne_nil _ _, hregular, by decide⟩
  have hh : Session.Startable e.tolerances.gridUniformity [-1] [0, 1 / 2, 1] :=
    ⟨List.cons_ne_nil _ _, hregular, by decide⟩
  have hps : (some (Input.ofList [0, 1 / 2, 1])).map Input.shaped =
      (some [0, 1 / 2, (1 : Rat)]).map fun vs => .ok (.ofList vs) :=
    congrArg some (Input.shaped_ofList _)
  have hqs : (none : Option (Input Rat)).map Input.shaped =
      (none : Option (List Rat)).map fun vs => .ok (.ofList vs) := rfl
  have hstart := e.start_positions (Input.shaped_ofList [1, 2]) (Input.shaped_ofList [-1]) hps hqs
  exact ⟨hx, hstart.1.2 ⟨_, rfl, hx, hh, by decide +kernel⟩⟩

/-- Two single samples so far apart that the positions between them cannot be stored. -/
theorem start_far_apart :
    let e := idle (⟨.standard, ToleranceSettings.firstNegative?_standard⟩ : Tolerances Rat)
    Session.Startable e.tolerances.gridUniformity [1] [0] ∧
      Session.Startable e.tolerances.gridUniformity [1] [10 ^ 30] ∧
      (e.start (.samples (.ofList [1])) (.samples (.ofList [1])) (some (.positions (.ofList [0])))
        (some (.positions (.ofList [10 ^ 30])))).outcome = .error (.plain .tooManyPositions) := by
  intro e
  have hsingle (p : Rat) : Session.Startable e.tolerances.gridUniformity [1] [p] :=
    ⟨List.cons_ne_nil _ _, ⟨List.cons_ne_nil _ _, by simp, by simp⟩, le_rfl⟩
  exact ⟨hsingle 0, hsingle (10 ^ 30), eq_error_of_errorOf? (by decide +kernel)⟩

/-- A start with grids succeeds exactly when both signals fit their grids and the canvas is not
too long to be stored. A grid with a position for each sample is taken as it is. -/
theorem start_grids (e : Engine Rat) (nx nh : TimeGrid Rat) (hx : x.shaped = .ok (.ofList xs))
    (hh : h.shaped = .ok (.ofList hs)) (hxs : xs ≠ []) (hhs : hs ≠ [])
    (hrx : xs.length ≤ nx.size) (hrh : hs.length ≤ nh.size) :
    (e.start (.samples x) (.samples h) (some (.grid nx)) (some (.grid nh))).outcome = .ok () ↔
      Session.Leads e.tolerances.gridUniformity nx xs.length ∧
      Session.Leads e.tolerances.gridUniformity nh hs.length ∧
      Session.extent xs nx hs nh < Range.sizeLimit := by
  rw [start_outcome_iff, Session.exists_ofInputs_iff hx hh]
  constructor
  · rintro ⟨_, _, ⟨⟩, ⟨⟩, hfx, hfh, hlt⟩
    exact ⟨hfx.leads, hfh.leads, hlt⟩
  · rintro ⟨hlx, hlh, hlt⟩
    exact ⟨nx, some nh, rfl, rfl, ⟨hxs, hrx, hlx⟩, ⟨hhs, hrh, hlh⟩, hlt⟩

/-- Two samples on a grid of three positions, and one on a grid of its own. -/
theorem start_grids_longer :
    let e := idle (⟨.standard, ToleranceSettings.firstNegative?_standard⟩ : Tolerances Rat)
    let nx : TimeGrid Rat := ⟨[0, 1, 3], 1, by decide +kernel⟩
    let nh : TimeGrid Rat := ⟨[0], 1, by decide +kernel⟩
    (e.start (.samples (.ofList [1, 2])) (.samples (.ofList [1])) (some (.grid nx))
      (some (.grid nh))).outcome = .ok () := by
  intro e nx nh
  have hleads : Positions.IsRegular e.tolerances.gridUniformity (nx.values.take 2) :=
    (Positions.defect?_eq_none_iff e.tolerances.gridUniformity_nonneg).1 (by decide +kernel)
  exact (e.start_grids nx nh (Input.shaped_ofList [1, 2]) (Input.shaped_ofList [1])
    (List.cons_ne_nil _ _) (List.cons_ne_nil _ _) (by decide) (by decide)).2
    ⟨.inr hleads, .inl rfl, by decide +kernel⟩

/-- Three samples on a grid of four positions that was built under a greater tolerance. -/
theorem start_coarse_grid :
    let e := idle (⟨.standard, ToleranceSettings.firstNegative?_standard⟩ : Tolerances Rat)
    let nx : TimeGrid Rat := ⟨[0, 1, 3, 4], 1, by decide +kernel⟩
    let nh : TimeGrid Rat := ⟨[0], 1, by decide +kernel⟩
    (e.start (.samples (.ofList [1, 2, 3])) (.samples (.ofList [1])) (some (.grid nx))
      (some (.grid nh))).outcome = .error (.data (.grid "Time grid" .notUniform)) :=
  eq_error_of_errorOf? (by decide +kernel)

end Engine

end SteppedConvolution
