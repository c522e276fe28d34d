import SteppedConvolution.Proofs.Session.Moves

/-! # Histories of an engine

An engine after any list of operations. Beside the engine runs the session that the
last successful start has opened; no other operation replaces it. Whatever the
history, the engine holds that session with its first samples revealed and zeros
behind them, so it is always consistent.
-/

namespace SteppedConvolution

variable {K : Type} [Scalar K] {α : Type}

/-- The operations that move an engine or look at one of its steps. -/
inductive Command (K : Type) [Scalar K] where
  | start (x h : SignalInput K) (nx nh : Option (GridInput K))
  | step
  | stepAt (index : IndexArgument)
  | rewind (index : IndexArgument)
  | stepBack
  | reset
  | setSelfChecks (on : Bool)

/-- A transition whose result is left out. -/
def Transition.forget (t : Transition K α) : Transition K Unit :=
  ⟨t.engine, t.events, t.outcome.map fun _ => ()⟩

namespace Engine

/-- What an operation does to an engine. -/
def perform (e : Engine K) : Command K → Transition K Unit
  | .start x h nx nh => e.start x h nx nh
  | .step => e.step.forget
  | .stepAt index => (e.stepAt index).forget
  | .rewind index => e.rewind index
  | .stepBack => e.stepBack.forget
  | .reset => e.reset
  | .setSelfChecks on => ⟨e.setSelfChecks on, [], .ok ()⟩

/-- The engine after a list of operations, whether they fail or not. -/
def after (e : Engine K) : List (Command K) → Engine K
  | [] => e
  | c :: cs => (e.perform c).engine.after cs

/-- The session opened last, after one more operation. -/
def openedBy (e : Engine K) (last : Option (Session K)) : Command K → Option (Session K)
  | .start x h nx nh =>
    match (Session.ofInputs e.tolerances x h nx nh).outcome with
    | .ok s => some s
    | .error _ => last
  | .reset => none
  | _ => last

/-- The session that the last successful start of a list of operations has opened, unless the
engine was reset since. -/
def lastOpened (e : Engine K) (last : Option (Session K)) : List (Command K) → Option (Session K)
  | [] => last
  | c :: cs => (e.perform c).engine.lastOpened (e.openedBy last c) cs

/-- An engine that some history leads to. -/
def Reachable (e : Engine K) : Prop :=
  ∃ (tolerances : Tolerances K) (commands : List (Command K)),
    (idle tolerances).after commands = e

/-- The engine holds the session that was opened last, with some of its first samples revealed. -/
inductive Holds (e : Engine K) : Option (Session K) → Prop
  | none (he : e.session = none) : Holds e none
  | some {nx : TimeGrid K} {s : Session K} {c : Nat} (hs : s.Built e.tolerances nx)
      (hc : c ≤ s.length) (he : e.session = some (s.upTo c)) : Holds e (some s)

theorem Holds.withSession {e : Engine K} {nx : TimeGrid K} {s : Session K} {c : Nat}
    (hs : s.Built e.tolerances nx) (hc : c ≤ s.length) :
    Holds { e with session := .some (s.upTo c) } (.some s) :=
  .some hs hc rfl

theorem Holds.start {e : Engine K} {last : Option (Session K)} (he : e.Holds last)
    (x h : SignalInput K) (nx nh : Option (GridInput K)) :
    (e.start x h nx nh).engine.Holds (e.openedBy last (.start x h nx nh)) := by
  unfold openedBy
  cases ho : (Session.ofInputs e.tolerances x h nx nh).outcome with
  | error f =>
    rw [start_refused ho]
    simpa only [ho] using he
  | ok s =>
    obtain ⟨nx', hs, -⟩ := Session.built_of_ofInputs ho
    rw [start_opened ho]
    simpa only [ho] using Holds.withSession hs (Nat.zero_le _)

theorem Holds.step {e : Engine K} {last : Option (Session K)} (he : e.Holds last) :
    e.step.engine.Holds last := by
  cases he with
  | none he =>
    have hstep : e.step = e.stay (Logged.fail (.state .notInitialized)) := by
      simp [Engine.step, requireSession, he]
    rw [hstep]
    exact .none he
  | @some nx s c hs hc he =>
    by_cases hl : s.length ≤ c
    · rw [step_complete he hl]
      exact .some hs hc he
    · have hlt := Nat.lt_of_not_le hl
      rw [(step_upTo hs he hlt).2]
      cases (s.stepAt c).outcome with
      | error f => exact .some hs hc he
      | ok step => exact Holds.withSession hs hlt

theorem Holds.rewind {e : Engine K} {last : Option (Session K)} (he : e.Holds last)
    (index : IndexArgument) : (e.rewind index).engine.Holds last := by
  cases he with
  | none he =>
    have hr : e.rewind index = e.stay (Logged.fail (.state .notInitialized)) := by
      simp [Engine.rewind, requireSession, he]
    rw [hr]
    exact .none he
  | @some nx s c hs hc he =>
    cases hi : (index.resolve c : Except (Fault K) Nat) with
    | error f =>
      rw [rewind_refused he hi]
      exact .some hs hc he
    | ok i =>
      have hic : i ≤ c := Int.ofNat_le.1 (IndexArgument.resolve_eq_ok hi).1
      rw [rewind_upTo hs he hc hi]
      exact Holds.withSession hs (Nat.le_trans hic hc)

theorem Holds.stepBack {e : Engine K} {last : Option (Session K)} (he : e.Holds last) :
    e.stepBack.engine.Holds last := by
  cases he with
  | none he =>
    have hb : e.stepBack = e.stay (Logged.fail (.state .notInitialized)) := by
      simp [Engine.stepBack, requireSession, he]
    rw [hb]
    exact .none he
  | @some nx s c hs hc he =>
    cases c with
    | zero =>
      rw [stepBack_start he]
      exact .some hs hc he
    | succ c =>
      rw [stepBack_upTo hs he hc]
      exact Holds.withSession hs (Nat.le_of_succ_le hc)

/-- One operation keeps what an engine holds. -/
theorem Holds.perform {e : Engine K} {last : Option (Session K)} (he : e.Holds last)
    (c : Command K) : (e.perform c).engine.Holds (e.openedBy last c) := by
  cases c with
  | start x h nx nh => exact he.start x h nx nh
  | step => exact he.step
  | stepAt index =>
    change (e.stepAt index).engine.Holds last
    rw [stepAt_engine]
    exact he
  | rewind index => exact he.rewind index
  | stepBack => exact he.stepBack
  | reset => exact .none rfl
  | setSelfChecks on =>
    cases he with
    | none he => exact .none he
    | some hs hc he => exact .some hs hc he

/-- Any list of operations keeps what an engine holds. -/
theorem Holds.after {e : Engine K} {last : Option (Session K)} (he : e.Holds last)
    (commands : List (Command K)) : (e.after commands).Holds (e.lastOpened last commands) := by
  induction commands generalizing e last with
  | nil => exact he
  | cons c cs ih => exact ih (he.perform c)

theorem Holds.isConsistent {e : Engine K} {last : Option (Session K)} (he : e.Holds last) :
    e.isConsistent = true := by
  cases he with
  | none he => simp [Engine.isConsistent, he]
  | some hs hc he => simp [Engine.isConsistent, he, hs.isConsistent_upTo hc]

/-- What a reachable engine holds. -/
theorem Reachable.holds {e : Engine K} (he : e.Reachable) : ∃ last, e.Holds last := by
  obtain ⟨tolerances, commands, rfl⟩ := he
  exact ⟨_, Holds.after (.none rfl) commands⟩

/-- The session of a reachable engine, whatever samples are revealed, is made as it was opened. -/
theorem Reachable.built {e : Engine K} (he : e.Reachable) {s : Session K}
    (hs : e.session = some s) : ∃ nx, s.Built e.tolerances nx := by
  obtain ⟨last, hl⟩ := he.holds
  cases hl with
  | none hn => cases hn.symm.trans hs
  | @some nx opened c hb hc ho =>
    cases hs.symm.trans ho
    exact ⟨nx, hb.upTo c⟩

end Engine

end SteppedConvolution
