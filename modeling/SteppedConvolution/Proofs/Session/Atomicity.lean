import SteppedConvolution.Proofs.Scalar.Exact
import SteppedConvolution.Proofs.Session.Cursor
import SteppedConvolution.Session.Status

/-! # Failing operations

An operation that fails leaves the engine as it was. Starting, stepping and rewinding check
before they move, and the self-check behind a move does not fail. A step back moves before it
shows a step, but that step was shown before.
-/

namespace SteppedConvolution

variable {K : Type} [Scalar K] {α : Type}

/-- The operations of an engine: the moves, and the reports on its session. -/
inductive Request (K : Type) [Scalar K] where
  | command (command : Command K)
  | verify
  | completeOutput
  | comparison

namespace Engine

/-- What any operation does to an engine. -/
def respond (e : Engine K) : Request K → Transition K Unit
  | .command c => e.perform c
  | .verify => (e.stay e.verify).forget
  | .completeOutput => (e.stay (Logged.ofExcept e.completeOutput)).forget
  | .comparison => (e.stay (Logged.ofExcept e.comparison)).forget

theorem outcome_of_forget {t : Transition K α} {f : Fault K}
    (hf : t.forget.outcome = .error f) : t.outcome = .error f := by
  rcases t with ⟨engine, events, outcome⟩
  cases outcome with
  | ok a => cases hf
  | error g => exact congrArg Except.error (Except.error.inj hf)

variable {e : Engine K} {f : Fault K}

theorem start_failed {x h : SignalInput K} {nx nh : Option (GridInput K)}
    (hf : (e.start x h nx nh).outcome = .error f) : (e.start x h nx nh).engine = e := by
  cases ho : (Session.ofInputs e.tolerances x h nx nh).outcome with
  | error g => rw [start_refused ho]
  | ok s =>
    rw [start_opened ho] at hf
    cases hf

/-- Without a session every operation but a start leaves the engine as it is. -/
theorem engine_eq_of_idle (he : e.session = none) :
    e.step.engine = e ∧ (∀ index, (e.rewind index).engine = e) ∧ e.stepBack.engine = e := by
  simp [step, rewind, stepBack, requireSession, he, stay]

theorem Stands.perform_failed (he : e.Stands) {c : Command K}
    (hf : (e.perform c).outcome = .error f) : (e.perform c).engine = e := by
  cases c with
  | start x h nx nh => exact start_failed hf
  | stepAt index => exact stepAt_engine e index
  | reset => cases hf
  | setSelfChecks on => cases hf
  | step =>
    rcases he with he | ⟨s, c, he⟩
    · exact (engine_eq_of_idle he).1
    · exact he.step_failed (outcome_of_forget hf)
  | rewind index =>
    rcases he with he | ⟨s, c, he⟩
    · exact (engine_eq_of_idle he).2.1 index
    · exact he.rewind_failed hf
  | stepBack =>
    rcases he with he | ⟨s, c, he⟩
    · exact (engine_eq_of_idle he).2.2
    · obtain ⟨shown, hs⟩ := he.stepBack_ok
      cases hs.symm.trans (outcome_of_forget hf)

/-- Whatever an engine has been through, an operation that fails leaves it as it was. -/
theorem engine_eq_of_failed (he : e.Reachable) {r : Request K}
    (hf : (e.respond r).outcome = .error f) : (e.respond r).engine = e := by
  cases r with
  | command c => exact he.stands.perform_failed hf
  | verify => rfl
  | completeOutput => rfl
  | comparison => rfl

/-- With self-checks on and one sample revealed, a start with a grid that is too short. -/
theorem engine_eq_of_failed_start :
    let e := (Engine.idle
      (⟨.standard, ToleranceSettings.firstNegative?_standard⟩ : Tolerances Rat)).after
      [.setSelfChecks true, .start (.samples (.ofList [1, 2])) (.samples (.ofList [1, -1]))
        (some (.positions (.ofList [0, 1]))) none, .step]
    let r : Request Rat := .command (.start (.samples (.ofList [1, 2, 3])) (.samples (.ofList [1]))
      (some (.positions (.ofList [0, 1]))) none)
    (e.respond r).outcome = .error (.data (.shortGrid "x" 3 2)) ∧ (e.respond r).engine = e := by
  intro e r
  have hf : (e.respond r).outcome = .error (.data (.shortGrid "x" 3 2)) :=
    eq_error_of_errorOf? (by decide +kernel)
  exact ⟨hf, engine_eq_of_failed ⟨_, _, rfl⟩ hf⟩

end Engine

end SteppedConvolution
