import SteppedConvolution.Proofs.Canvas.Lookup
import SteppedConvolution.Proofs.Session.History

/-! # Where an engine stands

An engine with a session stands behind some of its samples. Whatever its history, each of
these samples was revealed by a step, so the steps in front of the cursor can be shown
again. Single and repeated moves then only change the number of revealed samples.
-/

namespace SteppedConvolution

variable {K : Type} [Scalar K]

/-- What the step to an output index shows can be computed. -/
def Session.CanShow (s : Session K) (i : Nat) : Prop := ∃ step, (s.stepAt i).outcome = .ok step

/-- Every step of a session can be shown. -/
theorem Session.Built.canShow [Canvas.Indexed K] {tolerances : Tolerances K} {nx : TimeGrid K}
    {s : Session K} (hs : s.Built tolerances nx) {i : Nat} (hi : i < s.length) : s.CanShow i := by
  obtain ⟨hgrid, hlength⟩ := Canvas.of_ofSignals hs.canvas_eq
  rw [← hs.size_nx, ← hs.size_nh] at hgrid
  have hout : i < s.outputGrid.values.length := by
    change i < s.outputGrid.size
    rwa [hs.size_outputGrid]
  have hlook : ∀ p ∈ s.canvas.grid.values.map fun k => s.outputGrid.values[i] - k,
      Canvas.nearestIndex s.canvas.grid p ≠ none := by
    intro p hp
    obtain ⟨k, hk, rfl⟩ := List.mem_map.1 hp
    exact Canvas.Indexed.nearestIndex_ne_none hgrid
      (s.outputGrid.isFinite_of_mem (List.getElem_mem hout)) (s.canvas.grid.isFinite_of_mem hk)
  obtain ⟨shifted, hshifted⟩ := Canvas.sampleAt_ok hlength hlook
  refine ⟨⟨s.outputGrid.values[i], s.reference[i], shifted,
    (Samples.clampNonFinite (List.zipWith (· * ·) s.canvas.x shifted)).1⟩, ?_⟩
  exact Session.stepAt_eq_ok.2
    ⟨List.getElem?_eq_getElem hout, List.getElem?_eq_getElem hi, hshifted, rfl⟩

namespace Engine

/-- The engine with the first `c` samples of a session revealed. -/
def revealedTo (e : Engine K) (s : Session K) (c : Nat) : Engine K :=
  { e with session := some (s.upTo c) }

@[simp] theorem revealedTo_tolerances (e : Engine K) (s : Session K) (c : Nat) :
    (e.revealedTo s c).tolerances = e.tolerances := rfl

@[simp] theorem revealedTo_session (e : Engine K) (s : Session K) (c : Nat) :
    (e.revealedTo s c).session = some (s.upTo c) := rfl

@[simp] theorem revealedTo_revealedTo (e : Engine K) (s : Session K) (b c : Nat) :
    (e.revealedTo s b).revealedTo s c = e.revealedTo s c := rfl

/-- The operations of a list all succeed, one after the other. -/
def Succeeds (e : Engine K) : List (Command K) → Prop
  | [] => True
  | c :: cs => (e.perform c).outcome = .ok () ∧ (e.perform c).engine.Succeeds cs

/-- The engine stands behind the first `c` samples of a session, whose steps can be shown. -/
structure At (e : Engine K) (s : Session K) (c : Nat) : Prop where
  built : ∃ nx, s.Built e.tolerances nx
  le : c ≤ s.length
  session : e.session = some (s.upTo c)
  shown : ∀ i < c, s.CanShow i

namespace At

variable {e : Engine K} {s : Session K} {c : Nat}

theorem revealedTo_eq (he : e.At s c) : e.revealedTo s c = e := by
  rw [revealedTo, ← he.session]

theorem back (he : e.At s c) {i : Nat} (hi : i ≤ c) : (e.revealedTo s i).At s i where
  built := he.built
  le := Nat.le_trans hi he.le
  session := rfl
  shown := fun j hj => he.shown j (Nat.lt_of_lt_of_le hj hi)

theorem forth (he : e.At s c) (hc : c < s.length) (hs : s.CanShow c) :
    (e.revealedTo s (c + 1)).At s (c + 1) where
  built := he.built
  le := hc
  session := rfl
  shown := by
    intro i hi
    rcases Nat.lt_succ_iff_lt_or_eq.1 hi with hlt | rfl
    · exact he.shown i hlt
    · exact hs

/-! ## Single moves -/

theorem step_complete (he : e.At s s.length) : e.step = ⟨e, [], .ok none⟩ :=
  Engine.step_complete he.session (Nat.le_refl _)

theorem step_engine (he : e.At s c) (hc : c < s.length) (hs : s.CanShow c) :
    e.step.engine = e.revealedTo s (c + 1) := by
  obtain ⟨nx, hb⟩ := he.built
  obtain ⟨step, hs⟩ := hs
  rw [(step_upTo hb he.session hc).2, hs]
  rfl

theorem step_outcome (he : e.At s c) (hc : c < s.length) :
    e.step.outcome = (s.stepAt c).outcome.map some := by
  obtain ⟨nx, hb⟩ := he.built
  exact (step_upTo hb he.session hc).1

/-- A step that fails leaves the engine as it is. -/
theorem step_failed (he : e.At s c) {f : Fault K} (hf : e.step.outcome = .error f) :
    e.step.engine = e := by
  obtain ⟨nx, hb⟩ := he.built
  rcases Nat.lt_or_ge c s.length with hc | hc
  · obtain ⟨houtcome, hengine⟩ := step_upTo hb he.session hc
    rw [hengine]
    cases hs : (s.stepAt c).outcome with
    | error g => rfl
    | ok step =>
      rw [houtcome, hs] at hf
      cases hf
  · rw [Engine.step_complete he.session hc]

theorem stepAt_eq (he : e.At s c) {i : Nat} (hi : i < s.length) :
    e.stepAt (.integer i) = e.stay (s.stepAt i) := by
  rw [stepAt_natCast he.session (by simpa using hi), Session.stepAt_upTo]

theorem rewind_eq (he : e.At s c) {i : Nat} (hi : i ≤ c) :
    e.rewind (.integer i) = ⟨e.revealedTo s i, [.rewound i], .ok ()⟩ := by
  obtain ⟨nx, hb⟩ := he.built
  exact rewind_upTo hb he.session he.le (IndexArgument.resolve_natCast (Int.ofNat_le.2 hi))

/-- A rewind that fails leaves the engine as it is. -/
theorem rewind_failed (he : e.At s c) {index : IndexArgument} {f : Fault K}
    (hf : (e.rewind index).outcome = .error f) : (e.rewind index).engine = e := by
  obtain ⟨nx, hb⟩ := he.built
  cases hi : (index.resolve c : Except (Fault K) Nat) with
  | error g => rw [rewind_refused he.session hi]
  | ok i =>
    rw [rewind_upTo hb he.session he.le hi] at hf
    cases hf

/-- What a step back to the first `c` samples shows: the step of the last one of them, or none. -/
def shownBack (s : Session K) (c : Nat) : Except (Fault K) (Option (Step K)) :=
  if c = 0 then .ok none else (s.stepAt (c - 1 : Nat)).outcome.map some

theorem stepBack_start (he : e.At s 0) : e.stepBack = ⟨e, [], .ok none⟩ :=
  Engine.stepBack_start he.session

theorem stepBack_engine (he : e.At s (c + 1)) : e.stepBack.engine = e.revealedTo s c := by
  obtain ⟨nx, hb⟩ := he.built
  rw [stepBack_upTo hb he.session he.le]
  rfl

theorem stepBack_outcome (he : e.At s (c + 1)) : e.stepBack.outcome = shownBack s c := by
  obtain ⟨nx, hb⟩ := he.built
  rw [stepBack_upTo hb he.session he.le]
  cases c with
  | zero => rfl
  | succ c =>
    have hz : ¬ (c : Int) + 1 = 0 := by omega
    simp [lastStep, requireSession, stay, shownBack, Logged.map_outcome, hz]

/-- A step back never fails, as the step it shows was shown before. -/
theorem stepBack_ok (he : e.At s c) : ∃ shown, e.stepBack.outcome = .ok shown := by
  cases c with
  | zero =>
    rw [he.stepBack_start]
    exact ⟨none, rfl⟩
  | succ c =>
    rw [he.stepBack_outcome]
    cases c with
    | zero => exact ⟨none, rfl⟩
    | succ c =>
      obtain ⟨step, hs⟩ := he.shown c (by omega)
      refine ⟨some step, ?_⟩
      simp [shownBack, hs, Except.map]

/-! ## Repeated moves -/

theorem after_steps (he : e.At s c) {k : Nat} (hk : c + k ≤ s.length)
    (hs : ∀ i, c ≤ i → i < c + k → s.CanShow i) :
    e.Succeeds (List.replicate k .step) ∧
      e.after (List.replicate k .step) = e.revealedTo s (c + k) ∧
      (e.revealedTo s (c + k)).At s (c + k) := by
  induction k generalizing e c with
  | zero => exact ⟨trivial, he.revealedTo_eq.symm, he.back (Nat.le_refl _)⟩
  | succ k ih =>
    have hc := hs c (Nat.le_refl _) (by omega)
    have hlt : c < s.length := by omega
    have hadd : c + (k + 1) = c + 1 + k := by omega
    obtain ⟨hsucceeds, hafter, hat⟩ :=
      ih (he.forth hlt hc) (by omega) fun i hi hlt => hs i (by omega) (by omega)
    have hengine : (e.perform .step).engine = e.revealedTo s (c + 1) := he.step_engine hlt hc
    rw [hadd, List.replicate_succ, Succeeds, Engine.after, hengine]
    refine ⟨⟨?_, hsucceeds⟩, hafter, hat⟩
    obtain ⟨step, hc⟩ := hc
    change e.step.outcome.map _ = _
    rw [he.step_outcome hlt, hc]
    rfl

theorem after_stepBacks (he : e.At s c) {k : Nat} (hk : k ≤ c) :
    e.Succeeds (List.replicate k .stepBack) ∧
      e.after (List.replicate k .stepBack) = e.revealedTo s (c - k) := by
  induction k generalizing e c with
  | zero => exact ⟨trivial, he.revealedTo_eq.symm⟩
  | succ k ih =>
    obtain ⟨b, rfl⟩ := Nat.exists_eq_succ_of_ne_zero (by omega : c ≠ 0)
    have hsub : b + 1 - (k + 1) = b - k := by omega
    obtain ⟨hsucceeds, hafter⟩ := ih (he.back (Nat.le_succ b)) (by omega)
    have hengine : (e.perform .stepBack).engine = e.revealedTo s b := he.stepBack_engine
    rw [hsub, List.replicate_succ, Succeeds, Engine.after, hengine]
    refine ⟨⟨?_, hsucceeds⟩, hafter⟩
    obtain ⟨shown, hs⟩ := he.stepBack_ok
    change e.stepBack.outcome.map _ = _
    rw [hs]
    rfl

/-! ## Where single moves lead -/

/-- Wherever an engine stands, every number of samples of its session can be revealed. -/
theorem at_revealedTo [Canvas.Indexed K] (he : e.At s c) {i : Nat} (hi : i ≤ s.length) :
    (e.revealedTo s i).At s i where
  built := he.built
  le := hi
  session := rfl
  shown := by
    obtain ⟨nx, hb⟩ := he.built
    exact fun j hj => hb.canShow (Nat.lt_of_lt_of_le hj hi)

theorem step_eq [Canvas.Indexed K] (he : e.At s c) :
    e.step.engine = e.revealedTo s (min (c + 1) s.length) := by
  obtain ⟨nx, hb⟩ := he.built
  rcases Nat.lt_or_ge c s.length with hc | hc
  · rw [he.step_engine hc (hb.canShow hc), Nat.min_eq_left hc]
  · have hlast : min (c + 1) s.length = c := by
      have := he.le
      omega
    rw [Engine.step_complete he.session hc, hlast, he.revealedTo_eq]

theorem rewind_engine (he : e.At s c) (index : IndexArgument) :
    ∃ i ≤ c, (e.rewind index).engine = e.revealedTo s i := by
  cases hi : (index.resolve c : Except (Fault K) Nat) with
  | error f =>
    rw [rewind_refused he.session hi]
    exact ⟨c, Nat.le_refl c, he.revealedTo_eq.symm⟩
  | ok i =>
    obtain ⟨hic, rfl⟩ := IndexArgument.resolve_eq_ok hi
    have hic := Int.ofNat_le.1 hic
    rw [he.rewind_eq hic]
    exact ⟨i, hic, rfl⟩

theorem stepBack_eq (he : e.At s c) : e.stepBack.engine = e.revealedTo s (c - 1) := by
  cases c with
  | zero =>
    rw [he.stepBack_start]
    exact he.revealedTo_eq.symm
  | succ c => exact he.stepBack_engine

end At

/-! ## After every history -/

/-- The engine has no session, or it stands behind the first samples of one. -/
def Stands (e : Engine K) : Prop := e.session = none ∨ ∃ s c, e.At s c

theorem Stands.of_holds_none {e : Engine K} (he : e.Holds none) : e.Stands := by
  cases he with
  | none he => exact .inl he

/-- An engine stands in front of the session that it opens. -/
theorem at_opened {e : Engine K} {x h : SignalInput K} {nx nh : Option (GridInput K)}
    {s : Session K} (ho : (Session.ofInputs e.tolerances x h nx nh).outcome = .ok s) :
    (e.revealedTo s 0).At s 0 := by
  obtain ⟨nx', hs, -⟩ := Session.built_of_ofInputs ho
  exact ⟨⟨nx', hs⟩, Nat.zero_le _, rfl, fun i hi => absurd hi (Nat.not_lt_zero i)⟩

theorem Stands.start {e : Engine K} (he : e.Stands) (x h : SignalInput K)
    (nx nh : Option (GridInput K)) : (e.start x h nx nh).engine.Stands := by
  cases ho : (Session.ofInputs e.tolerances x h nx nh).outcome with
  | error f =>
    rw [start_refused ho]
    exact he
  | ok s =>
    rw [start_opened ho]
    exact .inr ⟨s, 0, at_opened ho⟩

theorem Stands.step {e : Engine K} (he : e.Stands) : e.step.engine.Stands := by
  rcases he with he | ⟨s, c, he⟩
  · exact of_holds_none (Holds.none he).step
  · cases ho : e.step.outcome with
    | error f =>
      rw [he.step_failed ho]
      exact .inr ⟨s, c, he⟩
    | ok shown =>
      rcases Nat.lt_or_ge c s.length with hc | hc
      · rw [he.step_outcome hc, map_eq_ok] at ho
        obtain ⟨step, hs, -⟩ := ho
        rw [he.step_engine hc ⟨step, hs⟩]
        exact .inr ⟨s, c + 1, he.forth hc ⟨step, hs⟩⟩
      · rw [Engine.step_complete he.session hc]
        exact .inr ⟨s, c, he⟩

theorem Stands.rewind {e : Engine K} (he : e.Stands) (index : IndexArgument) :
    (e.rewind index).engine.Stands := by
  rcases he with he | ⟨s, c, he⟩
  · exact of_holds_none ((Holds.none he).rewind index)
  · cases hi : (index.resolve c : Except (Fault K) Nat) with
    | error f =>
      rw [rewind_refused he.session hi]
      exact .inr ⟨s, c, he⟩
    | ok i =>
      obtain ⟨hic, rfl⟩ := IndexArgument.resolve_eq_ok hi
      have hic := Int.ofNat_le.1 hic
      rw [he.rewind_eq hic]
      exact .inr ⟨s, i, he.back hic⟩

theorem Stands.stepBack {e : Engine K} (he : e.Stands) : e.stepBack.engine.Stands := by
  rcases he with he | ⟨s, c, he⟩
  · exact of_holds_none (Holds.none he).stepBack
  · cases c with
    | zero =>
      rw [he.stepBack_start]
      exact .inr ⟨s, 0, he⟩
    | succ c =>
      rw [he.stepBack_engine]
      exact .inr ⟨s, c, he.back (Nat.le_succ c)⟩

/-- One operation leads to an engine that stands somewhere. -/
theorem Stands.perform {e : Engine K} (he : e.Stands) (command : Command K) :
    (e.perform command).engine.Stands := by
  cases command with
  | start x h nx nh => exact he.start x h nx nh
  | step => exact he.step
  | stepAt index =>
    change (e.stepAt index).engine.Stands
    rw [stepAt_engine]
    exact he
  | rewind index => exact he.rewind index
  | stepBack => exact he.stepBack
  | reset => exact .inl rfl
  | setSelfChecks on =>
    rcases he with he | ⟨s, c, he⟩
    · exact .inl he
    · exact .inr ⟨s, c, he.built, he.le, he.session, he.shown⟩

/-- Any list of operations leads to an engine that stands somewhere. -/
theorem Stands.after {e : Engine K} (he : e.Stands) (commands : List (Command K)) :
    (e.after commands).Stands := by
  induction commands generalizing e with
  | nil => exact he
  | cons command commands ih => exact ih (he.perform command)

theorem Reachable.stands {e : Engine K} (he : e.Reachable) : e.Stands := by
  obtain ⟨tolerances, commands, rfl⟩ := he
  exact Stands.after (.inl rfl) commands

/-- A reachable engine stands behind the samples that its cursor counts. -/
theorem Reachable.standsAt {e : Engine K} (he : e.Reachable) {t : Session K}
    (ht : e.session = some t) :
    ∃ s c, e.At s c ∧ t = s.upTo c := by
  rcases he.stands with hn | ⟨s, c, hs⟩
  · cases hn.symm.trans ht
  · exact ⟨s, c, hs, Option.some.inj (ht.symm.trans hs.session)⟩

end Engine

end SteppedConvolution
