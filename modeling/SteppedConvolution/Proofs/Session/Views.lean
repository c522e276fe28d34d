import SteppedConvolution.Proofs.Session.Phase

/-! # What an engine says of itself

The phase of an engine, its progress, the snapshot for displays and the step that was shown
last are computed one by one. After every history they tell the same number of revealed
samples.
-/

namespace SteppedConvolution

variable {K : Type} [Scalar K]

namespace Session

theorem peakOf_of_ne_nil {xs : List K} (h : xs ≠ []) : peakOf xs = .ok (Scalar.peak xs) := if_neg h

theorem Built.shownProgress_upTo [Canvas.Counted K] {tolerances : Tolerances K} {nx : TimeGrid K}
    {s : Session K} (hs : s.Built tolerances nx) {c : Nat} (hc : c ≤ s.length) :
    (s.upTo c).shownProgress = .ok (s.upTo c).progress := by
  obtain ⟨hgrid, -⟩ := Canvas.of_ofSignals hs.canvas_eq
  rw [← hs.size_nx, ← hs.size_nh] at hgrid
  have hlt : c < s.canvas.grid.size := by
    have hroom := (Canvas.sharedGrid_eq_ok hgrid).2.1
    have hlength := hs.length_eq
    rw [← hs.size_nx, ← hs.size_nh] at hlength
    have := nx.size_pos
    omega
  have hfinite := Canvas.Counted.isFinite_ofNat hgrid hlt
  unfold shownProgress
  rw [upTo_cursor, Int.natAbs_natCast, hfinite, Bool.not_true]
  simp

theorem currentPosition_upTo (s : Session K) {c : Nat} (hc : c ≤ s.length)
    (hs : s.outputGrid.size = s.length) :
    (s.upTo c).currentPosition = .ok (if c = 0 then none else s.outputGrid.values[c - 1]?) := by
  unfold currentPosition
  rcases c with _ | c
  · simp
  · have hlt : c < s.outputGrid.values.length := by
      change c < s.outputGrid.size
      omega
    have hcond : (0 : Int) < (c + 1 : Nat) ∧ ((c + 1 : Nat) : Int) ≤ s.length := by omega
    rw [upTo_cursor, upTo_length, if_pos hcond, Int.natCast_succ, Int.add_sub_cancel,
      entry_natCast]
    simp [hlt, Fault.require, Except.map]

/-- The position of the last of the first `c` samples: there is none without samples, and one of
the output's otherwise. -/
theorem Built.lastPosition_iff {tolerances : Tolerances K} {nx : TimeGrid K} {s : Session K}
    (hs : s.Built tolerances nx) {c : Nat} (hc : c ≤ s.length) {position : Option K}
    (h : position = if c = 0 then none else s.outputGrid.values[c - 1]?) :
    (position = none ↔ c = 0) ∧
      ∀ p, position = some p ↔ 0 < c ∧ s.outputGrid.values[c - 1]? = some p := by
  rcases Nat.eq_zero_or_pos c with h0 | h0
  · rw [if_pos h0] at h
    simp [h, h0]
  · rw [if_neg h0.ne'] at h
    have hlt : c - 1 < s.outputGrid.values.length := by
      change c - 1 < s.outputGrid.size
      rw [hs.size_outputGrid]
      omega
    simp [h, h0, h0.ne', hlt]

/-- What a snapshot shows of a session with its first `c` samples revealed. -/
theorem Built.info_upTo [Scalar.Ordered K] {tolerances : Tolerances K} {nx : TimeGrid K}
    {s : Session K} (hs : s.Built tolerances nx) (c : Nat) (t : K) (position : Option K) :
    ∃ shown, (s.upTo c).info t position = .ok shown ∧ shown.position = position ∧
      Scalar.IsPeak (s.reference.take c) shown.peakOutput := by
  have houtput : s.reference.take c ++ List.replicate (s.length - c) 0 ≠ [] := by
    rw [← List.length_pos_iff, List.length_append, List.length_take, List.length_replicate]
    have := hs.length_pos
    rw [Session.length] at this ⊢
    omega
  have hx := Samples.ne_nil_of_defect? hs.samples_x
  have hh := Samples.ne_nil_of_defect? hs.samples_h
  let shown : SessionInfo K :=
    { position
      canvasSize := s.canvas.grid.size
      canvasStep := s.canvas.grid.step
      start := s.outputGrid.start
      stop := s.outputGrid.stop
      peakX := Scalar.peak s.x
      peakH := Scalar.peak s.h
      peakOutput := Scalar.peak (s.reference.take c ++ List.replicate (s.length - c) 0)
      comparison := (s.upTo c).comparison t }
  refine ⟨shown, ?_, rfl, Scalar.isPeak_append_replicate _ (s.length - c)⟩
  unfold info
  rw [upTo_x, upTo_h, peakOf_of_ne_nil hx, peakOf_of_ne_nil hh, upTo_output]
  change (peakOf _ >>= _) = _
  rw [peakOf_of_ne_nil houtput]
  rfl

end Session

namespace Engine

variable {e : Engine K} {s : Session K} {c : Nat}

/-! ## Operations that do not move the cursor -/

/-- The operations of a list leave the cursor where it is. -/
def KeepsCursor (e : Engine K) : List (Command K) → Prop
  | [] => True
  | c :: cs => (e.perform c).engine.cursor = e.cursor ∧ (e.perform c).engine.KeepsCursor cs

namespace At

/-- Behind a revealed sample an operation that does not move the cursor does not touch the
session. -/
theorem perform_keeps [Canvas.Indexed K] (he : e.At s c) (h0 : 0 < c) {command : Command K}
    (hk : (e.perform command).engine.cursor = e.cursor) : (e.perform command).engine.At s c := by
  have hstay {i : Nat} (hi : i ≤ s.length)
      (hengine : (e.perform command).engine = e.revealedTo s i) :
      (e.perform command).engine.At s c := by
    have hat := he.at_revealedTo hi
    rw [hengine] at hk ⊢
    rw [hat.cursor_eq, he.cursor_eq] at hk
    exact Int.ofNat.inj hk ▸ hat
  cases command with
  | start x h nx nh =>
    cases ho : (Session.ofInputs e.tolerances x h nx nh).outcome with
    | error f =>
      change (e.start x h nx nh).engine.At s c
      rw [start_refused ho]
      exact he
    | ok s' =>
      change (e.start x h nx nh).engine.cursor = _ at hk
      rw [start_opened ho, he.cursor_eq] at hk
      exact absurd (Int.ofNat.inj hk) (Nat.ne_of_lt h0)
  | step => exact hstay (min_le_right _ _) he.step_eq
  | stepAt index =>
    change (e.stepAt index).engine.At s c
    rw [stepAt_engine]
    exact he
  | rewind index =>
    obtain ⟨i, hi, hengine⟩ := he.rewind_engine index
    exact hstay (hi.trans he.le) hengine
  | stepBack => exact hstay ((Nat.sub_le c 1).trans he.le) he.stepBack_eq
  | reset =>
    rw [he.cursor_eq] at hk
    exact absurd (Int.ofNat.inj hk) (Nat.ne_of_lt h0)
  | setSelfChecks on => exact ⟨he.built, he.le, he.session, he.shown⟩

theorem after_keeps [Canvas.Indexed K] (he : e.At s c) (h0 : 0 < c) {cs : List (Command K)}
    (hk : e.KeepsCursor cs) : (e.after cs).At s c := by
  induction cs generalizing e with
  | nil => exact he
  | cons command cs ih => exact ih (he.perform_keeps h0 hk.1) hk.2

end At

/-! ## The views -/

/-- A snapshot of an engine with the first `c` samples of a session revealed: it repeats what the
engine tells one by one, and shows the last of these samples and the largest. -/
structure Snapshot (e : Engine K) (s : Session K) (c : Nat) (info : EngineInfo K)
    (shown : SessionInfo K) : Prop where
  session : info.session = some shown
  phase : info.phase = e.phase
  progress : info.progress = e.progress
  isComplete : info.isComplete = e.isComplete
  outputLength : info.outputLength = s.length
  cursor : info.cursor = c
  noPosition : shown.position = none ↔ c = 0
  position : ∀ p, shown.position = some p ↔ 0 < c ∧ s.outputGrid.values[c - 1]? = some p
  peakOutput : Scalar.IsPeak (s.reference.take c) shown.peakOutput

theorem At.shownProgress_eq [Canvas.Counted K] (he : e.At s c) :
    e.shownProgress = .ok e.progress := by
  obtain ⟨nx, hb⟩ := he.built
  rw [Engine.shownProgress, Engine.progress, he.session]
  exact hb.shownProgress_upTo he.le

theorem At.snapshot [Canvas.Counted K] [Scalar.Ordered K] (he : e.At s c) :
    ∃ info shown, e.info = .ok info ∧ e.Snapshot s c info shown := by
  obtain ⟨nx, hb⟩ := he.built
  have hle := he.le
  let position := if c = 0 then none else s.outputGrid.values[c - 1]?
  obtain ⟨shown, hshown, hposition, hpeak⟩ := hb.info_upTo c e.tolerances.compliance position
  let info : EngineInfo K :=
    { phase := e.phase
      progress := (s.upTo c).progress
      isComplete := (s.upTo c).isComplete
      outputLength := s.length
      cursor := c
      session := some shown }
  obtain ⟨hnone, hsome⟩ := hb.lastPosition_iff hle hposition
  refine ⟨info, shown, ?_, rfl, rfl, ?_, ?_, rfl, rfl, hnone, hsome, hpeak⟩
  · rw [Engine.info, he.session]
    simp only [Session.currentPosition_upTo s hle hb.size_outputGrid, hb.shownProgress_upTo hle]
    change ((s.upTo c).info e.tolerances.compliance position >>= _) = _
    rw [hshown]
    rfl
  · rw [Engine.progress, he.session]
  · rw [Engine.isComplete, he.session]

/-- What an engine says of itself with the first `c` samples of a session revealed. -/
structure Views (e : Engine K) (s : Session K) (c : Nat) : Prop where
  ready : e.phase = .ready ↔ c = 0
  running : e.phase = .running ↔ 0 < c ∧ c < s.length
  completed : e.phase = .completed ↔ c = s.length
  isComplete : e.isComplete = true ↔ c = s.length
  progress : s.length ≤ Session.largestWhole → (e.progress = Scalar.ofNat 100 ↔ c = s.length)
  shownProgress : e.shownProgress = .ok e.progress
  needsReset : e.needsReset = true ↔ 0 < c
  info : ∃ info shown, e.info = .ok info ∧ e.Snapshot s c info shown

/-- The views do not depend on the cursor of the session. -/
theorem Views.upTo (h : e.Views s c) : e.Views (s.upTo c) c where
  ready := h.ready
  running := h.running
  completed := h.completed
  isComplete := h.isComplete
  progress := h.progress
  shownProgress := h.shownProgress
  needsReset := h.needsReset
  info := by
    obtain ⟨info, shown, hinfo, hs⟩ := h.info
    exact ⟨info, shown, hinfo, hs.session, hs.phase, hs.progress, hs.isComplete, hs.outputLength,
      hs.cursor, hs.noPosition, hs.position, hs.peakOutput⟩

namespace At

theorem phase_eq_running (he : e.At s c) : e.phase = .running ↔ 0 < c ∧ c < s.length := by
  have hle := he.le
  rw [he.phase_eq, phaseAt]
  split_ifs <;> simp <;> omega

theorem needsReset_eq (he : e.At s c) : e.needsReset = true ↔ 0 < c := by
  have hle := he.le
  have hpos := he.length_pos
  rw [needsReset, Bool.or_eq_true, decide_eq_true_eq, decide_eq_true_eq, he.phase_eq_running,
    he.phase_eq, phaseAt_eq_completed]
  omega

theorem views [Canvas.Counted K] [Scalar.Ordered K] [Session.Graduated K] (he : e.At s c) :
    e.Views s c where
  ready := by rw [he.phase_eq, phaseAt_eq_ready he.length_pos]
  running := he.phase_eq_running
  completed := by rw [he.phase_eq, phaseAt_eq_completed]
  isComplete := by
    rw [he.isComplete_eq, decide_eq_true_eq]
    exact ⟨fun h => Nat.le_antisymm he.le h, fun h => h.ge⟩
  progress hwhole := by
    rw [he.progress_eq]
    exact Session.percent_eq_hundred_iff Scalar.Ordered.lt_irrefl he.le he.length_pos hwhole
  shownProgress := he.shownProgress_eq
  needsReset := he.needsReset_eq
  info := he.snapshot

end At

/-! ## The step that was shown last -/

/-- The snapshot of an engine shows a position. -/
def ShowsPosition (e : Engine K) (p : K) : Prop :=
  ∃ info shown, e.info = .ok info ∧ info.session = some shown ∧ shown.position = some p

namespace At

variable [Canvas.Indexed K] [Canvas.Counted K] [Scalar.Ordered K] {shown : Step K}
  {cs : List (Command K)}

/-- Behind sample `i` the snapshot shows the position of its step until the cursor moves. -/
theorem showsPosition {i : Nat} (he : e.At s (i + 1)) (hs : (s.stepAt i).outcome = .ok shown)
    (hk : e.KeepsCursor cs) : (e.after cs).ShowsPosition shown.position := by
  obtain ⟨info, last, hinfo, hlast⟩ := (he.after_keeps i.succ_pos hk).snapshot
  exact ⟨info, last, hinfo, hlast.session,
    (hlast.position _).2 ⟨i.succ_pos, (Session.stepAt_eq_ok.1 hs).1⟩⟩

theorem step_showsPosition (he : e.At s c) (hs : e.step.outcome = .ok (some shown))
    (hk : e.step.engine.KeepsCursor cs) :
    (e.step.engine.after cs).ShowsPosition shown.position := by
  rcases Nat.lt_or_eq_of_le he.le with hc | rfl
  · rw [he.step_outcome hc, map_eq_ok] at hs
    obtain ⟨step, hs, hshown⟩ := hs
    obtain rfl := Option.some.inj hshown
    have hengine := he.step_engine hc ⟨step, hs⟩
    rw [hengine] at hk ⊢
    exact (he.at_revealedTo hc).showsPosition hs hk
  · rw [he.step_complete] at hs
    cases hs

theorem stepBack_showsPosition (he : e.At s c) (hs : e.stepBack.outcome = .ok (some shown))
    (hk : e.stepBack.engine.KeepsCursor cs) :
    (e.stepBack.engine.after cs).ShowsPosition shown.position := by
  rcases c with _ | _ | i
  · rw [he.stepBack_start] at hs
    cases hs
  · rw [he.stepBack_outcome] at hs
    cases hs
  · rw [he.stepBack_outcome, shownBack, if_neg i.succ_ne_zero, map_eq_ok] at hs
    obtain ⟨step, hs, hshown⟩ := hs
    obtain rfl := Option.some.inj hshown
    rw [he.stepBack_engine] at hk ⊢
    exact (he.back (Nat.le_succ _)).showsPosition hs hk

end At

/-! ## After every history -/

/-- The views of an engine agree: all of them tell the same number of revealed samples, the
position is that of the step that was shown last, and the phase only moves along `Leads`. -/
structure Agrees (e : Engine K) : Prop where
  idle : e.phase = .idle ↔ e.session = none
  idleInfo : e.session = none → e.info = .ok ⟨.idle, 0, false, 0, 0, none⟩
  views : ∀ s, e.session = some s → ∃ c : Nat, s.cursor = c ∧ e.Views s c
  stepped : ∀ shown cs, e.step.outcome = .ok (some shown) → e.step.engine.KeepsCursor cs →
    (e.step.engine.after cs).ShowsPosition shown.position
  steppedBack : ∀ shown cs, e.stepBack.outcome = .ok (some shown) →
    e.stepBack.engine.KeepsCursor cs → (e.stepBack.engine.after cs).ShowsPosition shown.position
  leads : ∀ r p, e.Leads r p → (e.respond r).outcome = .ok () ∧ (e.respond r).engine.phase = p
  only : ∀ r, (e.respond r).engine.phase ≠ e.phase → e.Leads r (e.respond r).engine.phase

/-- After every history the views of an engine agree. -/
theorem views_agree [Canvas.Indexed K] [Canvas.Counted K] [Scalar.Ordered K]
    [Session.Graduated K] (he : e.Reachable) : e.Agrees where
  idle := phase_eq_idle
  idleInfo hs := by rw [info, hs]
  views s hs := by
    obtain ⟨opened, c, hat, rfl⟩ := he.standsAt hs
    exact ⟨c, rfl, hat.views.upTo⟩
  stepped shown cs hs hk := by
    rcases he.stands with hn | ⟨s, c, hat⟩
    · simp [step, requireSession, hn, stay, Logged.fail] at hs
    · exact hat.step_showsPosition hs hk
  steppedBack shown cs hs hk := by
    rcases he.stands with hn | ⟨s, c, hat⟩
    · simp [stepBack, requireSession, hn, stay, Logged.fail] at hs
    · exact hat.stepBack_showsPosition hs hk
  leads _ _ h := h.respond he.stands
  only _ h := he.stands.leads h

/-- Doubles in steps of a tenth, with one of three samples revealed after two steps back. -/
theorem views_agree_tenths :
    let e := (Engine.idle (⟨.standard, rfl⟩ : Tolerances Float)).after
      [.start (.samples (.ofList [1, 2])) (.samples (.ofList [1, -1]))
        (some (.positions (.ofList [0, 0.1]))) none, .step, .step, .step, .stepBack, .stepBack]
    e.phase = .running ∧ e.cursor = 1 ∧ e.Agrees := by
  intro e
  have hphase : e.phase = .running := by decide +kernel
  have hcursor : e.cursor = 1 := by decide +kernel
  exact ⟨hphase, hcursor, views_agree ⟨_, _, rfl⟩⟩

end Engine

end SteppedConvolution
