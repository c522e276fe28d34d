import SteppedConvolution.Proofs.Binary.SharedGrid
import SteppedConvolution.Proofs.Session.Cursor
import SteppedConvolution.Session.Status

/-! # Undoing moves

Moves of an engine undo each other. Stepping and rewinding to the old cursor, a step and a
step back, a step back and a step each give back the whole engine, with its output buffer.
A rewind is as many steps back as it goes.
-/

namespace SteppedConvolution.Engine

variable {K : Type} [Scalar K] {e : Engine K} {s : Session K} {c : Nat}

/-- How the moves of an engine with `c` revealed samples out of `length` undo each other. -/
structure Undoes (e : Engine K) (length c : Nat) : Prop where
  rewind_steps : ∀ k, c + k ≤ length →
    e.Succeeds (List.replicate k .step) ∧
      (e.after (List.replicate k .step)).cursor = (c + k : Nat) ∧
      (e.after (List.replicate k .step)).rewind (.integer c) = ⟨e, [.rewound c], .ok ()⟩
  stepBack_step : c < length → ∃ step shown,
    e.step.outcome = .ok (some step) ∧ e.step.engine.stepBack.engine = e ∧
      e.step.engine.stepBack.outcome = .ok shown ∧
      (c = 0 → shown = none) ∧
      ∀ b, c = b + 1 → (e.stepAt (.integer b)).outcome.map some = .ok shown
  step_stepBack : 0 < c → ∃ shown step,
    e.stepBack.outcome = .ok shown ∧ e.stepBack.engine.step.outcome = .ok (some step) ∧
      e.stepBack.engine.step.engine = e
  rewind_rewind : ∀ i j : Nat, i ≤ j → j ≤ c →
    (e.rewind (.integer j)).outcome = .ok () ∧
      (e.rewind (.integer j)).engine.rewind (.integer i) = e.rewind (.integer i)
  rewind_stepBacks : ∀ i : Nat, i ≤ c →
    e.Succeeds (List.replicate (c - i) .stepBack) ∧
      (e.rewind (.integer i)).outcome = .ok () ∧
      e.after (List.replicate (c - i) .stepBack) = (e.rewind (.integer i)).engine

namespace At

theorem rewind_forth (he : e.At s c) {k : Nat} (hk : (e.revealedTo s (c + k)).At s (c + k)) :
    (e.revealedTo s (c + k)).rewind (.integer c) = ⟨e, [.rewound c], .ok ()⟩ := by
  rw [hk.rewind_eq (Nat.le_add_right c k), revealedTo_revealedTo, he.revealedTo_eq]

theorem rewind_back (he : e.At s c) {i j : Nat} (hij : i ≤ j) (hj : j ≤ c) :
    (e.rewind (.integer j)).engine.rewind (.integer i) = e.rewind (.integer i) := by
  rw [he.rewind_eq hj, he.rewind_eq (Nat.le_trans hij hj), (he.back hj).rewind_eq hij]
  rfl

/-- A step back behind a step shows what was shown before it. -/
theorem stepBack_forth (he : e.At s c) (hc : c < s.length) (hs : s.CanShow c) :
    (e.revealedTo s (c + 1)).stepBack.engine = e ∧
      (e.revealedTo s (c + 1)).stepBack.outcome = shownBack s c := by
  have hnext := he.forth hc hs
  rw [hnext.stepBack_engine, hnext.stepBack_outcome, revealedTo_revealedTo, he.revealedTo_eq]
  exact ⟨rfl, rfl⟩

theorem step_back (he : e.At s (c + 1)) :
    (e.revealedTo s c).step.engine = e ∧
      ∃ step, (e.revealedTo s c).step.outcome = .ok (some step) := by
  have hprev := he.back (Nat.le_succ c)
  have hc : c < s.length := he.le
  have hs := he.shown c (Nat.lt_succ_self c)
  refine ⟨?_, ?_⟩
  · rw [hprev.step_engine hc hs, revealedTo_revealedTo, he.revealedTo_eq]
  · obtain ⟨step, hs⟩ := hs
    refine ⟨step, ?_⟩
    rw [hprev.step_outcome hc, hs]
    rfl

theorem shownBack_ok (he : e.At s c) :
    ∃ shown, shownBack s c = .ok shown ∧ (c = 0 → shown = none) ∧
      ∀ b, c = b + 1 → (e.stepAt (.integer b)).outcome.map some = .ok shown := by
  cases c with
  | zero => exact ⟨none, rfl, fun _ => rfl, fun b hb => absurd hb (by omega)⟩
  | succ b =>
    obtain ⟨step, hs⟩ := he.shown b (Nat.lt_succ_self b)
    have hlt : b < s.length := he.le
    refine ⟨some step, ?_, fun h0 => absurd h0 (Nat.succ_ne_zero b), ?_⟩
    · simp [shownBack, hs, Except.map]
    · rintro b' hb
      obtain rfl := Nat.succ.inj hb
      rw [he.stepAt_eq hlt]
      change (s.stepAt b).outcome.map some = _
      rw [hs]
      rfl

theorem undoes [Canvas.Indexed K] (he : e.At s c) : e.Undoes s.length c := by
  obtain ⟨nx, hb⟩ := he.built
  refine ⟨?_, ?_, ?_, ?_, ?_⟩
  · intro k hk
    obtain ⟨hsucceeds, hafter, hat⟩ :=
      he.after_steps hk fun i _ hi => hb.canShow (Nat.lt_of_lt_of_le hi hk)
    rw [hafter]
    exact ⟨hsucceeds, rfl, he.rewind_forth hat⟩
  · intro hc
    obtain ⟨step, hs⟩ := hb.canShow hc
    obtain ⟨hengine, houtcome⟩ := he.stepBack_forth hc ⟨step, hs⟩
    obtain ⟨shown, hshown, hback⟩ := he.shownBack_ok
    rw [he.step_engine hc ⟨step, hs⟩, he.step_outcome hc, hs]
    exact ⟨step, shown, rfl, hengine, houtcome.trans hshown, hback⟩
  · intro hc
    obtain ⟨b, rfl⟩ := Nat.exists_eq_succ_of_ne_zero (Nat.ne_of_gt hc)
    obtain ⟨shown, hshown⟩ := he.stepBack_ok
    obtain ⟨hengine, step, hstep⟩ := he.step_back
    rw [he.stepBack_engine]
    exact ⟨shown, step, hshown, hstep, hengine⟩
  · intro i j hij hj
    refine ⟨?_, he.rewind_back hij hj⟩
    rw [he.rewind_eq hj]
  · intro i hi
    obtain ⟨hsucceeds, hafter⟩ := he.after_stepBacks (Nat.sub_le c i)
    rw [hafter, he.rewind_eq hi, Nat.sub_sub_self hi]
    exact ⟨hsucceeds, rfl, rfl⟩

end At

/-- At any time of any history the moves of an engine undo each other. -/
theorem moves_undo [Canvas.Indexed K] (he : e.Reachable) (hs : e.session = some s) :
    ∃ c : Nat, s.cursor = c ∧ e.Undoes s.length c := by
  obtain ⟨opened, c, hat, rfl⟩ := he.standsAt hs
  exact ⟨c, rfl, hat.undoes⟩

/-- Doubles on grids a third apart, with self-checks on and one sample hidden again. -/
theorem moves_undo_hidden :
    let e := (Engine.idle (⟨.standard, rfl⟩ : Tolerances Float)).after
      [.setSelfChecks true, .start (.samples (.ofList [1, 2, 0.5])) (.samples (.ofList [3, -1]))
        (some (.positions (.ofList [0, 0.1, 0.2])))
        (some (.positions (.ofList [1 / 3, 1 / 3 + 0.1]))), .step, .step, .step, .stepBack]
    ∃ s, e.session = some s ∧ s.length = 4 ∧ s.cursor = 2 ∧ e.Undoes 4 2 := by
  intro e
  have hview : e.session.map (fun s => (s.length, s.cursor)) = some (4, 2) := by decide +kernel
  obtain ⟨s, hs, hview⟩ := Option.map_eq_some_iff.1 hview
  obtain ⟨hlength, hcursor⟩ := Prod.mk.inj hview
  obtain ⟨c, hc, hundoes⟩ := moves_undo ⟨_, _, rfl⟩ hs
  obtain rfl : c = 2 := Int.ofNat.inj (hc.symm.trans hcursor)
  rw [hlength] at hundoes
  exact ⟨s, hs, hlength, hcursor, hundoes⟩

end SteppedConvolution.Engine
