import SteppedConvolution.Proofs.Binary.Percent
import SteppedConvolution.Proofs.Binary.SharedGrid
import SteppedConvolution.Proofs.Session.Cursor
import SteppedConvolution.Session.Status

/-! # Replaying a convolution

Stepping until every sample is revealed takes one step for each sample that is still hidden.
The steps are those that can be shown by index beforehand, wherever the engine stands and
however it came there, and at the end the output buffer holds the whole convolution.
-/

namespace SteppedConvolution

variable {K : Type} [Scalar K]

namespace Session

theorem progress_upTo {s : Session K} (hs : 0 < s.length) (c : Nat) :
    (s.upTo c).progress = percent c s.length := by
  rw [progress, upTo_length, upTo_cursor, if_neg hs.ne']

end Session

namespace Engine

/-- The loop that takes steps until every sample is revealed: what its steps show, with the
progress after each of them, and the engine it ends with. -/
inductive UntilComplete : Engine K → List (RunEntry K) → Engine K → Prop
  | complete {e : Engine K} (h : e.isComplete = true) : UntilComplete e [] e
  | step {e done : Engine K} {shown : Step K} {rest : List (RunEntry K)}
      (h : e.isComplete = false) (hs : e.step.outcome = .ok (some shown))
      (hr : UntilComplete e.step.engine rest done) :
      UntilComplete e (⟨shown, e.step.engine.progress⟩ :: rest) done

theorem UntilComplete.runFor {e done : Engine K} {entries : List (RunEntry K)}
    (h : UntilComplete e entries done) :
    (e.runFor entries.length).outcome = .ok entries ∧
      (e.runFor entries.length).engine = done := by
  induction h with
  | complete h => exact ⟨rfl, rfl⟩
  | step h hs hr ih =>
    obtain ⟨houtcome, hengine⟩ := ih
    simp only [List.length_cons, Engine.runFor, hs, houtcome, hengine]
    exact ⟨rfl, trivial⟩

/-- What stepping an engine with `c` revealed samples of a session to the end gives. -/
structure Replays (e : Engine K) (s : Session K) (c : Nat) (entries : List (RunEntry K))
    (done : Engine K) : Prop where
  loop : UntilComplete e entries done
  length : entries.length = s.length - c
  entry : ∀ (i : Nat) (entry : RunEntry K), entries[i]? = some entry →
    (e.stepAt (.integer (c + i : Nat))).outcome = .ok entry.step ∧
      s.outputGrid.values[c + i]? = some entry.step.position ∧
      s.reference[c + i]? = some entry.step.sample
  increasing : s.length ≤ Session.largestWhole →
    (e.progress :: entries.map RunEntry.progress).Pairwise (· < ·)
  last : s.length ≤ Session.largestWhole →
    (e.progress :: entries.map RunEntry.progress).getLast? = some (Scalar.ofNat 100)
  output : done.output = .ok s.reference
  further : ∀ n, (done.after (List.replicate n .step)).step = ⟨done, [], .ok none⟩

variable {e : Engine K} {s : Session K} {c : Nat}

/-- A replay does not depend on the cursor of the session. -/
theorem Replays.upTo {entries : List (RunEntry K)} {done : Engine K}
    (h : e.Replays s c entries done) : e.Replays (s.upTo c) c entries done where
  loop := h.loop
  length := h.length
  entry := h.entry
  increasing := h.increasing
  last := h.last
  output := h.output
  further := h.further

namespace At

theorem isComplete_eq (he : e.At s c) : e.isComplete = decide (s.length ≤ c) := by
  rw [isComplete, he.session]
  exact isComplete_upTo s c

theorem progress_eq (he : e.At s c) : e.progress = Session.percent c s.length := by
  obtain ⟨nx, hb⟩ := he.built
  rw [Engine.progress, he.session]
  exact Session.progress_upTo hb.length_pos c

/-- The loop from an engine of which `k` samples are still hidden. -/
theorem untilComplete [Canvas.Indexed K] (he : e.At s c) {k : Nat} (hk : c + k = s.length) :
    ∃ entries, UntilComplete e entries (e.revealedTo s s.length) ∧ entries.length = k ∧
      (∀ (i : Nat) (entry : RunEntry K), entries[i]? = some entry →
        (s.stepAt (c + i : Nat)).outcome = .ok entry.step) ∧
      entries.map RunEntry.progress =
        (List.range' (c + 1) k).map fun b : Nat => Session.percent b s.length := by
  -- on the samples that are still hidden: a step leads to an engine that stands one further
  induction k generalizing e c with
  | zero =>
    obtain rfl : c = s.length := hk
    refine ⟨[], ?_, rfl, fun i entry h => by simp at h, rfl⟩
    rw [he.revealedTo_eq]
    exact .complete (by simp [he.isComplete_eq])
  | succ k ih =>
    obtain ⟨nx, hb⟩ := he.built
    have hc : c < s.length := by omega
    obtain ⟨step, hs⟩ := hb.canShow hc
    have hnext := he.forth hc ⟨step, hs⟩
    have hengine := he.step_engine hc ⟨step, hs⟩
    obtain ⟨rest, hloop, hlength, hsteps, hprogress⟩ := ih hnext (by omega)
    refine ⟨⟨step, e.step.engine.progress⟩ :: rest, .step ?_ ?_ ?_, by simp [hlength], ?_, ?_⟩
    · simp [he.isComplete_eq, hc]
    · rw [he.step_outcome hc, hs]
      rfl
    · rw [hengine]
      exact hloop
    · intro i entry hi
      cases i with
      | zero =>
        obtain rfl := Option.some.inj hi
        exact hs
      | succ i =>
        have hadd : c + (i + 1) = c + 1 + i := by omega
        rw [hadd]
        exact hsteps i entry hi
    · rw [List.map_cons, hprogress, hengine, hnext.progress_eq, List.range'_succ, List.map_cons]

theorem after_complete (he : e.At s s.length) (n : Nat) :
    e.after (List.replicate n .step) = e := by
  induction n with
  | zero => rfl
  | succ n ih =>
    rw [List.replicate_succ, Engine.after]
    change e.step.engine.after _ = _
    rw [he.step_complete]
    exact ih

theorem replays [Canvas.Indexed K] [Session.Graduated K] (he : e.At s c) :
    ∃ entries, e.Replays s c entries (e.revealedTo s s.length) := by
  obtain ⟨nx, hb⟩ := he.built
  obtain ⟨entries, hloop, hlength, hsteps, hprogress⟩ :=
    he.untilComplete (k := s.length - c) (by have := he.le; omega)
  have hat := (he.after_steps (k := s.length - c) (by have := he.le; omega)
    fun i _ hi => hb.canShow (by have := he.le; omega)).2.2
  rw [Nat.add_sub_cancel' he.le] at hat
  have hall : e.progress :: entries.map RunEntry.progress =
      (List.range' c (s.length - c + 1)).map fun b : Nat => Session.percent b s.length := by
    rw [hprogress, he.progress_eq, List.range'_succ, List.map_cons]
  refine ⟨entries, hloop, hlength, ?_, ?_, ?_, ?_, ?_⟩
  · intro i entry hi
    have hlt : c + i < s.length := by
      have := (List.getElem?_eq_some_iff.1 hi).1
      omega
    have hstep := hsteps i entry hi
    rw [he.stepAt_eq hlt]
    exact ⟨hstep, (Session.stepAt_eq_ok.1 hstep).1, (Session.stepAt_eq_ok.1 hstep).2.1⟩
  · intro hwhole
    rw [hall, List.pairwise_map]
    refine (List.pairwise_lt_range' 1).imp_of_mem fun _ hb hlt => ?_
    have hle := (List.mem_range'_1.1 hb).2
    exact Session.Graduated.percent_lt hlt (by have := he.le; omega) hwhole
  · intro hwhole
    rw [hall, List.range'_1_concat, List.map_append, List.map_singleton, List.getLast?_concat,
      Nat.add_sub_cancel' he.le, Session.Graduated.percent_self hb.length_pos hwhole]
  · rw [Engine.output, revealedTo_session]
    simp [Session.upTo_output, Session.length]
  · intro n
    rw [hat.after_complete n, hat.step_complete]

end At

/-- At any time of any history, stepping until every sample is revealed replays the rest of the
convolution. Doubles and rationals alike are indexed and graduated scalars. -/
theorem run_replays [Canvas.Indexed K] [Session.Graduated K] (he : e.Reachable)
    (hs : e.session = some s) : ∃ (c : Nat) (entries : List (RunEntry K)) (done : Engine K),
      s.cursor = c ∧ e.Replays s c entries done ∧ e.run.outcome = .ok entries ∧
        e.run.engine = done := by
  obtain ⟨opened, c, hat, rfl⟩ := he.standsAt hs
  obtain ⟨entries, h⟩ := hat.replays
  have hrun : e.run = e.runFor entries.length := by
    rw [h.length]
    simp [run, requireSession, hs]
  refine ⟨c, entries, _, rfl, h.upTo, ?_⟩
  rw [hrun]
  exact h.loop.runFor

/-- Doubles in steps of a tenth, with self-checks on, after a step back and a rewind. -/
theorem run_replays_rewound :
    let e := (Engine.idle (⟨.standard, rfl⟩ : Tolerances Float)).after
      [.setSelfChecks true, .start (.samples (.ofList [1, 2])) (.samples (.ofList [1, -1]))
        (some (.positions (.ofList [0, 0.1]))) none, .step, .step, .stepBack, .step,
        .rewind (.integer 1)]
    ∃ s entries done, e.session = some s ∧ s.length = 3 ∧ s.cursor = 1 ∧
      e.Replays s 1 entries done ∧ e.run.outcome = .ok entries ∧ e.run.engine = done := by
  intro e
  have hview : e.session.map (fun s => (s.length, s.cursor)) = some (3, 1) := by decide +kernel
  obtain ⟨s, hs, hview⟩ := Option.map_eq_some_iff.1 hview
  obtain ⟨hlength, hcursor⟩ := Prod.mk.inj hview
  obtain ⟨c, entries, done, hc, hreplays⟩ := run_replays ⟨_, _, rfl⟩ hs
  obtain rfl : c = 1 := Int.ofNat.inj (hc.symm.trans hcursor)
  exact ⟨s, entries, done, hs, hlength, hcursor, hreplays⟩

end Engine

end SteppedConvolution
