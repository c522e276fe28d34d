import SteppedConvolution.Proofs.Compliance.Shifted
import SteppedConvolution.Proofs.Session.Cursor

/-! # Shifted histories

An engine whose session is on shifted grids takes every operation just as the engine itself does.
What a step shows has its position moved by `2 * c` and is the same otherwise, so a convolution
takes the same course wherever time starts.
-/

namespace SteppedConvolution

variable (c : Rat)

/-- What a step shows, with its position moved by `c`. -/
def Step.shift (step : Step Rat) : Step Rat := { step with position := step.position + c }

@[simp] theorem Step.shift_sample (step : Step Rat) : (step.shift c).sample = step.sample := rfl

/-! ## Steps of a session -/

theorem Indexing.entryAt?_map {α β : Type} (f : α → β) (xs : List α) (i : Int) :
    entryAt? (xs.map f) i = (entryAt? xs i).map f := by
  unfold entryAt?
  rw [List.length_map]
  cases place? xs.length i with
  | none => rfl
  | some k => exact List.getElem?_map ..

namespace Session

theorem entry_map (f : Rat → Rat) (xs : List Rat) (i : Int) :
    entry (xs.map f) i = (entry xs i).map f := by
  unfold entry
  rw [Indexing.entryAt?_map]
  cases Indexing.entryAt? xs i <;> rfl

/-- The position of products appears only in what is noted of them. -/
theorem clampProducts_outcome (p q : Rat) (products : List Rat) :
    (clampProducts p products).outcome = (clampProducts q products).outcome := by
  unfold clampProducts
  rw [Logged.outcome_bind_of_ok (Logged.noteIf_outcome _ _),
    Logged.outcome_bind_of_ok (Logged.noteIf_outcome _ _)]

theorem stepAt_shift (s : Session Rat) (i : Int) :
    ((s.shift c).stepAt i).outcome = (s.stepAt i).outcome.map (Step.shift (2 * c)) := by
  refine Logged.outcome_bind_map (entry_map (· + 2 * c) s.outputGrid.values i) fun position => ?_
  refine Logged.outcome_bind_map_right rfl fun sample => ?_
  -- both the output position and the positions of the canvas move, so the distances move by `c`
  have hdistances : ((s.canvas.grid.shift c).values.map fun k => position + 2 * c - k) =
      (s.canvas.grid.values.map fun k => position - k).map (· + c) := by
    rw [TimeGrid.values_shift, List.map_map, List.map_map]
    refine List.map_congr_left fun k _ => ?_
    change position + 2 * c - (k + c) = position - k + c
    ring
  change (Logged.ofExcept (Canvas.sampleAt s.canvas.h (s.canvas.grid.shift c)
    ((s.canvas.grid.shift c).values.map fun k => position + 2 * c - k)) >>= _).outcome = _
  rw [hdistances, Canvas.sampleAt_shift]
  refine Logged.outcome_bind_map_right rfl fun shifted => ?_
  exact Logged.outcome_bind_map_right (clampProducts_outcome _ _ _) fun product => rfl

variable (s : Session Rat)

@[simp] theorem shift_cursor : (s.shift c).cursor = s.cursor := rfl

@[simp] theorem shift_output : (s.shift c).output = s.output := rfl

@[simp] theorem shift_length : (s.shift c).length = s.length := rfl

@[simp] theorem shift_isComplete : (s.shift c).isComplete = s.isComplete := rfl

@[simp] theorem shift_isConsistent : (s.shift c).isConsistent = s.isConsistent := by
  have hpositions : (s.shift c).nx.positions.isEmpty = s.nx.positions.isEmpty := by
    change (s.nx.shift c).positions.isEmpty = _
    rw [Axis.positions_shift, List.isEmpty_map]
  have hsize : (s.shift c).outputGrid.size = s.outputGrid.size := s.outputGrid.size_shift _
  unfold isConsistent
  rw [hpositions, hsize]
  rfl

theorem reveal_shift : (Engine.reveal (s.shift c)).outcome =
    (Engine.reveal s).outcome.map (Prod.map (Step.shift (2 * c)) (shift c)) := by
  unfold Engine.reveal
  rw [shift_output, shift_cursor]
  refine Logged.outcome_bind_map (stepAt_shift c s s.cursor) fun step => ?_
  cases s.output with
  | none => rfl
  | some output =>
    rw [Step.shift_sample]
    dsimp only
    cases Indexing.replaceAt? output s.cursor step.sample with
    | none => rfl
    | some output =>
      refine Logged.outcome_bind_map_right rfl fun _ => ?_
      exact Logged.outcome_bind_map_right rfl fun _ => rfl

end Session

/-! ## Operations of an engine -/

/-- An operation as it is given for grids that are moved by `c`. -/
def Command.shift : Command Rat → Command Rat
  | start x h nx nh =>
    start (x.shift c) (h.shift c) (nx.map (GridInput.shift c)) (nh.map (GridInput.shift c))
  | step => step
  | stepAt index => stepAt index
  | rewind index => rewind index
  | stepBack => stepBack
  | reset => reset
  | setSelfChecks on => setSelfChecks on

namespace Engine

/-- An engine whose session is on grids that are moved by `c`. -/
def shift (e : Engine Rat) : Engine Rat := { e with session := e.session.map (Session.shift c) }

@[simp] theorem shift_tolerances (e : Engine Rat) : (e.shift c).tolerances = e.tolerances := rfl

@[simp] theorem shift_selfChecks (e : Engine Rat) : (e.shift c).selfChecks = e.selfChecks := rfl

/-- A transition that leads where another one leads, on grids that are moved by `c`, and ends as
that one does. -/
structure Follows {α β : Type} (τ : α → β) (t : Transition Rat α) (t' : Transition Rat β) :
    Prop where
  engine : t'.engine = t.engine.shift c
  outcome : t'.outcome = t.outcome.map τ

variable {c} {α β : Type} {τ : α → β} {e : Engine Rat} {s : Session Rat}

theorem Follows.stay {r : Logged Rat α} {r' : Logged Rat β}
    (h : r'.outcome = r.outcome.map τ) : Follows c τ (e.stay r) ((e.shift c).stay r') :=
  ⟨rfl, h⟩

theorem Follows.move (events events' : List (Event Rat)) (a : α) :
    Follows c τ (e.move s events a) ((e.shift c).move (s.shift c) events' (τ a)) := by
  refine ⟨rfl, ?_⟩
  unfold Engine.move isConsistent
  simp only [Session.shift_isConsistent, shift_selfChecks]
  split <;> rfl

/-- A transition whose result is left out follows one whose result is left out. -/
theorem Follows.forget {t : Transition Rat α} {t' : Transition Rat β} (h : Follows c τ t t') :
    Follows c id t.forget t'.forget := by
  refine ⟨h.engine, ?_⟩
  simp only [Transition.forget, h.outcome]
  cases t.outcome <;> rfl

theorem requireSession_shift (e : Engine Rat) :
    (e.shift c).requireSession = e.requireSession.map (Session.shift c) := by
  unfold requireSession shift
  cases e.session <;> rfl

theorem start_shift (e : Engine Rat) (x h : SignalInput Rat) (nx nh : Option (GridInput Rat)) :
    Follows c id (e.start x h nx nh) ((e.shift c).start (x.shift c) (h.shift c)
      (nx.map (GridInput.shift c)) (nh.map (GridInput.shift c))) := by
  have hshifted : (Session.ofInputs (e.shift c).tolerances (x.shift c) (h.shift c)
      (nx.map (GridInput.shift c)) (nh.map (GridInput.shift c))).outcome =
        (Session.ofInputs e.tolerances x h nx nh).outcome.map (Session.shift c) :=
    Session.ofInputs_shift c e.tolerances x h nx nh
  cases ho : (Session.ofInputs e.tolerances x h nx nh).outcome with
  | error f =>
    rw [ho] at hshifted
    rw [start_refused ho, start_refused hshifted]
    exact ⟨rfl, rfl⟩
  | ok s =>
    rw [ho] at hshifted
    rw [start_opened ho, start_opened hshifted]
    exact ⟨rfl, rfl⟩

theorem step_shift (e : Engine Rat) :
    Follows c (Option.map (Step.shift (2 * c))) e.step (e.shift c).step := by
  unfold step
  rw [requireSession_shift]
  cases e.requireSession with
  | error f => exact .stay rfl
  | ok s =>
    dsimp only [Except.map]
    rw [Session.shift_isComplete, Session.reveal_shift]
    split
    · exact .stay rfl
    · cases (reveal s).outcome with
      | error f => exact ⟨rfl, rfl⟩
      | ok revealed => exact .move _ _ (some revealed.1)

theorem stepAt_shift (e : Engine Rat) (index : IndexArgument) :
    Follows c (Step.shift (2 * c)) (e.stepAt index) ((e.shift c).stepAt index) := by
  unfold stepAt
  rw [requireSession_shift]
  cases e.requireSession with
  | error f => exact .stay rfl
  | ok s =>
    dsimp only [Except.map]
    rw [Session.shift_length]
    cases (index.resolve (s.length - 1) : Except (Fault Rat) Nat) with
    | error f => exact .stay rfl
    | ok i => exact .stay (Session.stepAt_shift c s i)

theorem rewind_shift (e : Engine Rat) (index : IndexArgument) :
    Follows c id (e.rewind index) ((e.shift c).rewind index) := by
  unfold rewind
  rw [requireSession_shift]
  cases e.requireSession with
  | error f => exact .stay rfl
  | ok s =>
    dsimp only [Except.map]
    rw [Session.shift_cursor, Session.shift_output]
    cases (index.resolve s.cursor : Except (Fault Rat) Nat) with
    | error f => exact .stay rfl
    | ok i =>
      cases s.output with
      | none => exact ⟨rfl, rfl⟩
      | some output => exact .move _ _ ()

theorem lastStep_shift (e : Engine Rat) :
    Follows c (Option.map (Step.shift (2 * c))) e.lastStep (e.shift c).lastStep := by
  unfold lastStep
  rw [requireSession_shift]
  cases e.requireSession with
  | error f => exact .stay rfl
  | ok s =>
    dsimp only [Except.map]
    rw [Session.shift_cursor]
    split
    · exact .stay rfl
    · refine .stay ?_
      rw [Logged.map_outcome, Logged.map_outcome, Session.stepAt_shift]
      cases (s.stepAt (s.cursor - 1)).outcome <;> rfl

theorem stepBack_shift (e : Engine Rat) :
    Follows c (Option.map (Step.shift (2 * c))) e.stepBack (e.shift c).stepBack := by
  unfold stepBack
  rw [requireSession_shift]
  cases e.requireSession with
  | error f => exact .stay rfl
  | ok s =>
    dsimp only [Except.map]
    rw [Session.shift_cursor]
    split
    · exact .stay rfl
    · obtain ⟨hengine, houtcome⟩ := e.rewind_shift (c := c) (.integer (s.cursor - 1))
      have hlast := (e.rewind (.integer (s.cursor - 1))).engine.lastStep_shift (c := c)
      rw [← hengine] at hlast
      rw [houtcome]
      cases (e.rewind (.integer (s.cursor - 1))).outcome with
      | error f => exact ⟨hengine, rfl⟩
      | ok u => exact ⟨hlast.engine, hlast.outcome⟩

/-- Every operation on shifted grids follows the operation. -/
theorem perform_shift (e : Engine Rat) (command : Command Rat) :
    Follows c id (e.perform command) ((e.shift c).perform (command.shift c)) := by
  cases command with
  | start x h nx nh => exact e.start_shift x h nx nh
  | step => exact e.step_shift.forget
  | stepAt index => exact (e.stepAt_shift index).forget
  | rewind index => exact e.rewind_shift index
  | stepBack => exact e.stepBack_shift.forget
  | reset => exact ⟨rfl, rfl⟩
  | setSelfChecks on => exact ⟨rfl, rfl⟩

/-- Every list of operations on shifted grids leads to the shifted engine. -/
theorem after_shift (e : Engine Rat) (commands : List (Command Rat)) :
    (e.shift c).after (commands.map (Command.shift c)) = (e.after commands).shift c := by
  induction commands generalizing e with
  | nil => rfl
  | cons command commands ih =>
    rw [List.map_cons, after, after, (e.perform_shift command).engine, ih]

/-! ## Reports after a history -/

theorem verify_shift (e : Engine Rat) :
    (e.shift c).verify.outcome = e.verify.outcome.map (Report.shift (2 * c)) := by
  refine Logged.outcome_bind_map (requireSession_shift e) fun s => ?_
  refine Logged.outcome_bind_map (Session.report_shift c e.tolerances.compliance s) fun r => ?_
  exact Logged.outcome_bind_map_right rfl fun _ => rfl

theorem At.exists_verify {e : Engine Rat} {s : Session Rat} {k : Nat} (he : e.At s k) :
    ∃ r, e.verify.outcome = .ok r := by
  obtain ⟨nx, hb⟩ := he.built
  obtain ⟨r, hr⟩ := hb.exists_report e.tolerances.compliance k
  have hrequire : e.requireSession = .ok (s.upTo k) := by rw [requireSession, he.session]
  exact ⟨r, Logged.bind_eq_ok.2 ⟨_, hrequire, Logged.bind_eq_ok.2 ⟨r, hr, rfl⟩⟩⟩

theorem cursor_shift (e : Engine Rat) : (e.shift c).cursor = e.cursor := by
  unfold cursor shift
  cases e.session <;> rfl

/-- A start on shifted grids leads to the engine on shifted grids. -/
theorem start_moved (e : Engine Rat) (c : Rat) {x h : SignalInput Rat}
    {nx nh : Option (GridInput Rat)} {s : Session Rat}
    (ho : (Session.ofInputs e.tolerances x h nx nh).outcome = .ok s) :
    let moved := e.start (x.shift c) (h.shift c) (nx.map (GridInput.shift c))
      (nh.map (GridInput.shift c))
    moved.outcome = .ok () ∧ moved.engine = (e.start x h nx nh).engine.shift c := by
  have hshifted := Session.ofInputs_shift c e.tolerances x h nx nh
  rw [ho] at hshifted
  intro moved
  rw [show moved = _ from start_opened hshifted, start_opened ho]
  exact ⟨rfl, rfl⟩

/-- Convolution does not depend on where time starts. A start that succeeds also succeeds with both
grids moved by `c`. It has the same reference and the same signals on its canvas, whose grid moves
by `c`, and the positions of its output move by `2 * c`. Every step shows the same but for its
position. After every list of operations the cursors are the same, and so are all checks of the
report. -/
theorem time_shift (e : Engine Rat) (c : Rat) {x h : SignalInput Rat}
    {nx nh : Option (GridInput Rat)} (ho : (e.start x h nx nh).outcome = .ok ()) :
    let started := e.start x h nx nh
    let moved := e.start (x.shift c) (h.shift c) (nx.map (GridInput.shift c))
      (nh.map (GridInput.shift c))
    moved.outcome = .ok () ∧ ∃ s t, started.engine.session = some s ∧
      moved.engine.session = some t ∧ t.reference = s.reference ∧
      t.canvas.x = s.canvas.x ∧ t.canvas.h = s.canvas.h ∧
      t.canvas.grid.values = s.canvas.grid.values.map (· + c) ∧
      t.outputGrid.values = s.outputGrid.values.map (· + 2 * c) ∧
      (∀ i < s.length, ∃ a b, (started.engine.stepAt (.integer i)).outcome = .ok a ∧
        (moved.engine.stepAt (.integer i)).outcome = .ok b ∧ b.sample = a.sample ∧
        b.shifted = a.shifted ∧ b.product = a.product ∧ b.position = a.position + 2 * c) ∧
      ∀ commands : List (Command Rat),
        let now := started.engine.after commands
        let movedNow := moved.engine.after (commands.map (Command.shift c))
        movedNow.cursor = now.cursor ∧ ∀ u, now.session = some u →
          ∃ r r', now.verify.outcome = .ok r ∧ movedNow.verify.outcome = .ok r' ∧
            r'.checks.map Check.status = r.checks.map Check.status := by
  intro started moved
  obtain ⟨s, hs⟩ := e.start_outcome_iff.1 ho
  obtain ⟨houtcome, hengine⟩ := e.start_moved c hs
  have hat := at_opened hs
  have hstarted : started.engine = e.revealedTo s 0 := by
    rw [show started = _ from start_opened hs]
    rfl
  have hmoved : moved.engine = (e.revealedTo s 0).shift c := by
    rw [← hstarted]
    exact hengine
  rw [hstarted, hmoved]
  refine ⟨houtcome, s.upTo 0, (s.upTo 0).shift c, rfl, rfl, rfl, rfl, rfl, rfl, rfl, ?_, ?_⟩
  · intro i hi
    obtain ⟨nx', hb⟩ := hat.built
    obtain ⟨a, ha⟩ := hb.canShow hi
    have hshown : ((e.revealedTo s 0).stepAt (.integer i)).outcome = .ok a := by
      rw [hat.stepAt_eq hi]
      exact ha
    have hshifted := ((e.revealedTo s 0).stepAt_shift (c := c) (.integer i)).outcome
    rw [hshown] at hshifted
    exact ⟨a, a.shift (2 * c), hshown, hshifted, rfl, rfl, rfl, rfl⟩
  · intro commands now movedNow
    have hafter : movedNow = now.shift c := after_shift _ commands
    rw [hafter]
    refine ⟨cursor_shift now, fun u hu => ?_⟩
    obtain ⟨t, k, hnow⟩ : ∃ t k, now.At t k := by
      rcases Stands.after (.inr ⟨s, 0, hat⟩) commands with hnone | hnow
      · cases hnone.symm.trans hu
      · exact hnow
    obtain ⟨r, hr⟩ := hnow.exists_verify
    have hverify := now.verify_shift (c := c)
    rw [hr] at hverify
    exact ⟨r, r.shift (2 * c), hr, hverify, r.map_status_shift (2 * c)⟩

/-- Grids with the steps `1 / 2` and 1, moved by a seventh: the last step, and the checks after one
step. -/
theorem time_shift_sevenths :
    let e := idle (⟨.standard, ToleranceSettings.firstNegative?_standard⟩ : Tolerances Rat)
    let x : SignalInput Rat := .samples (.ofList [1, 2])
    let h : SignalInput Rat := .samples (.ofList [1, -1])
    let nx : Option (GridInput Rat) := some (.positions (.ofList [0, 1 / 2]))
    let nh : Option (GridInput Rat) := some (.positions (.ofList [1 / 3, 4 / 3]))
    let started := e.start x h nx nh
    let moved := e.start x h (nx.map (GridInput.shift (1 / 7))) (nh.map (GridInput.shift (1 / 7)))
    started.outcome = .ok () ∧ moved.outcome = .ok () ∧
      (∃ a b, (started.engine.stepAt (.integer 2)).outcome = .ok a ∧
        (moved.engine.stepAt (.integer 2)).outcome = .ok b ∧ b.product = a.product ∧
        b.position = a.position + 2 / 7) ∧
      ∃ r r', (started.engine.after [.step]).verify.outcome = .ok r ∧
        (moved.engine.after [.step]).verify.outcome = .ok r' ∧
        r'.checks.map Check.status = r.checks.map Check.status := by
  intro e x h nx nh started moved
  have ho : started.outcome = .ok () := eq_ok_of_toOption (by decide +kernel)
  obtain ⟨hmoved, s, t, hs, -, -, -, -, -, -, hsteps, hall⟩ := e.time_shift (1 / 7) ho
  have hlength : started.engine.session.map Session.length = some 3 := by decide +kernel
  have hstepped : (started.engine.after [.step]).session.isSome = true := by decide +kernel
  rw [hs] at hlength
  obtain ⟨a, b, ha, hb, -, -, hproduct, hposition⟩ :=
    hsteps 2 (by rw [Option.some.inj hlength]; decide)
  obtain ⟨u, hu⟩ := Option.isSome_iff_exists.1 hstepped
  refine ⟨ho, hmoved, ⟨a, b, ha, hb, hproduct, ?_⟩, (hall [.step]).2 u hu⟩
  rw [hposition]
  norm_num

end Engine

end SteppedConvolution
