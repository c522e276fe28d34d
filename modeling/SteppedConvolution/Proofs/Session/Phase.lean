import SteppedConvolution.Proofs.Session.Atomicity
import SteppedConvolution.Proofs.Session.Replay

/-! # Phases of an engine

The phase of an engine follows from the number of its revealed samples. A start, a reset and
the moves lead to phases that can be told beforehand, and nothing else changes the phase.
-/

namespace SteppedConvolution.Engine

variable {K : Type} [Scalar K] {e : Engine K} {s : Session K} {c : Nat}

/-- The phase with `c` out of `length` samples revealed. -/
def phaseAt (length c : Nat) : Phase :=
  if c = length then .completed else if c = 0 then .ready else .running

theorem phaseAt_length (length : Nat) : phaseAt length length = .completed := if_pos rfl

theorem phaseAt_zero {length : Nat} (h : 0 < length) : phaseAt length 0 = .ready := by
  rw [phaseAt, if_neg (Nat.ne_of_lt h), if_pos rfl]

theorem phaseAt_between {length : Nat} (h0 : 0 < c) (h : c < length) :
    phaseAt length c = .running := by
  rw [phaseAt, if_neg (Nat.ne_of_lt h), if_neg (Nat.ne_of_gt h0)]

theorem phaseAt_eq_completed {length : Nat} : phaseAt length c = .completed ↔ c = length := by
  unfold phaseAt
  split_ifs with hl h0
  · simp [hl]
  · simp [hl]
  · simp [hl]

theorem phaseAt_eq_ready {length : Nat} (h : 0 < length) :
    phaseAt length c = .ready ↔ c = 0 := by
  unfold phaseAt
  split_ifs with hl h0
  · simp
    omega
  · simp [h0]
  · simp [h0]

theorem phase_eq_idle : e.phase = .idle ↔ e.session = none := by
  unfold phase
  cases e.session with
  | none => simp
  | some s =>
    dsimp only
    split_ifs <;> simp

namespace At

theorem length_pos (he : e.At s c) : 0 < s.length := by
  obtain ⟨nx, hb⟩ := he.built
  exact hb.length_pos

theorem cursor_eq (he : e.At s c) : e.cursor = c := by
  rw [cursor, he.session]
  rfl

theorem outputLength_eq (he : e.At s c) : e.outputLength = s.length := by
  rw [outputLength, he.session]
  rfl

theorem phase_eq (he : e.At s c) : e.phase = phaseAt s.length c := by
  have hle := he.le
  have hpos := he.length_pos
  rw [phase, he.session]
  simp only [isComplete_upTo, Session.upTo_cursor, decide_eq_true_eq, Int.natCast_pos]
  rcases Nat.lt_or_eq_of_le hle with hlt | rfl
  · rw [if_neg (Nat.not_le.2 hlt)]
    rcases Nat.eq_zero_or_pos c with rfl | h0
    · rw [if_neg (Nat.lt_irrefl 0), phaseAt_zero hpos]
    · rw [if_pos h0, phaseAt_between h0 hlt]
  · rw [if_pos (Nat.le_refl _), phaseAt_length]

theorem phase_revealedTo [Canvas.Indexed K] (he : e.At s c) {i : Nat} (hi : i ≤ s.length) :
    (e.revealedTo s i).phase = phaseAt s.length i := (he.at_revealedTo hi).phase_eq

theorem lt_of_phase (he : e.At s c) (hp : e.phase = .ready ∨ e.phase = .running) :
    c < s.length := by
  refine lt_of_le_of_ne he.le fun hc => ?_
  rw [he.phase_eq, hc, phaseAt_length] at hp
  rcases hp with hp | hp <;> cases hp

theorem phase_of_lt (he : e.At s c) (hc : c < s.length) :
    e.phase = .ready ∨ e.phase = .running := by
  rw [he.phase_eq]
  rcases Nat.eq_zero_or_pos c with rfl | h0
  · exact .inl (phaseAt_zero he.length_pos)
  · exact .inr (phaseAt_between h0 hc)

end At

/-- The requests that lead an engine to a phase: a start that succeeds, a reset, the steps up to
the last one, and the moves back. -/
inductive Leads (e : Engine K) : Request K → Phase → Prop
  | start {x h : SignalInput K} {nx nh : Option (GridInput K)}
      (ho : (e.start x h nx nh).outcome = .ok ()) : Leads e (.command (.start x h nx nh)) .ready
  | reset : Leads e (.command .reset) .idle
  | step (hp : e.phase = .ready ∨ e.phase = .running) (hc : e.cursor + 1 < e.outputLength) :
      Leads e (.command .step) .running
  | lastStep (hp : e.phase = .ready ∨ e.phase = .running) (hc : e.cursor + 1 = e.outputLength) :
      Leads e (.command .step) .completed
  | rewindStart (hp : e.phase ≠ .idle) : Leads e (.command (.rewind (.integer 0))) .ready
  | rewind {i : Nat} (h0 : 0 < i) (hi : i ≤ e.cursor) (hl : i < e.outputLength) :
      Leads e (.command (.rewind (.integer i))) .running
  | rewindEnd (hp : e.phase ≠ .idle) (hc : e.cursor = e.outputLength) :
      Leads e (.command (.rewind (.integer e.outputLength))) .completed
  | stepBackStart (hp : e.phase ≠ .idle) (hc : e.cursor ≤ 1) :
      Leads e (.command .stepBack) .ready
  | stepBack (hc : 1 < e.cursor) : Leads e (.command .stepBack) .running

theorem Stands.exists_at (he : e.Stands) (hp : e.phase ≠ .idle) : ∃ s c, e.At s c :=
  he.resolve_left fun hn => hp (phase_eq_idle.2 hn)

theorem phase_start_ok {x h : SignalInput K} {nx nh : Option (GridInput K)}
    (ho : (e.start x h nx nh).outcome = .ok ()) : (e.start x h nx nh).engine.phase = .ready := by
  cases hs : (Session.ofInputs e.tolerances x h nx nh).outcome with
  | error f =>
    rw [start_refused hs] at ho
    cases ho
  | ok s =>
    rw [start_opened hs]
    exact (at_opened hs).phase_eq.trans (phaseAt_zero (at_opened hs).length_pos)

namespace At

theorem respond_step [Canvas.Indexed K] (he : e.At s c) (hc : c < s.length) :
    (e.respond (.command .step)).outcome = .ok () ∧
      (e.respond (.command .step)).engine.phase = phaseAt s.length (c + 1) := by
  obtain ⟨nx, hb⟩ := he.built
  obtain ⟨step, hs⟩ := hb.canShow hc
  constructor
  · change e.step.outcome.map _ = .ok ()
    rw [he.step_outcome hc, hs]
    rfl
  · change e.step.engine.phase = _
    rw [he.step_engine hc ⟨step, hs⟩, he.phase_revealedTo hc]

theorem respond_rewind [Canvas.Indexed K] (he : e.At s c) {i : Nat} (hi : i ≤ c) :
    (e.respond (.command (.rewind (.integer i)))).outcome = .ok () ∧
      (e.respond (.command (.rewind (.integer i)))).engine.phase = phaseAt s.length i := by
  change (e.rewind _).outcome = _ ∧ (e.rewind _).engine.phase = _
  rw [he.rewind_eq hi]
  exact ⟨rfl, he.phase_revealedTo (hi.trans he.le)⟩

theorem respond_stepBack [Canvas.Indexed K] (he : e.At s c) :
    (e.respond (.command .stepBack)).outcome = .ok () ∧
      (e.respond (.command .stepBack)).engine.phase = phaseAt s.length (c - 1) := by
  constructor
  · obtain ⟨shown, hs⟩ := he.stepBack_ok
    change e.stepBack.outcome.map _ = .ok ()
    rw [hs]
    rfl
  · change e.stepBack.engine.phase = _
    rw [he.stepBack_eq, he.phase_revealedTo ((Nat.sub_le c 1).trans he.le)]

end At

/-- Each of these requests succeeds and leads to its phase. -/
theorem Leads.respond [Canvas.Indexed K] (he : e.Stands) {r : Request K} {p : Phase}
    (h : e.Leads r p) : (e.respond r).outcome = .ok () ∧ (e.respond r).engine.phase = p := by
  by_cases hi : e.phase = .idle
  · -- without a session only a start and a reset are left
    have hc : e.cursor = 0 := by rw [cursor, phase_eq_idle.1 hi]
    cases h with
    | start ho => exact ⟨ho, phase_start_ok ho⟩
    | reset => exact ⟨rfl, rfl⟩
    | step hp => rw [hi] at hp; simp at hp
    | lastStep hp => rw [hi] at hp; simp at hp
    | rewindStart hp => exact absurd hi hp
    | rewind h0 hle => omega
    | rewindEnd hp => exact absurd hi hp
    | stepBackStart hp => exact absurd hi hp
    | stepBack hlt => omega
  · obtain ⟨s, c, hat⟩ := he.exists_at hi
    have hpos := hat.length_pos
    cases h with
    | start ho => exact ⟨ho, phase_start_ok ho⟩
    | reset => exact ⟨rfl, rfl⟩
    | step hp hc =>
      rw [hat.cursor_eq, hat.outputLength_eq] at hc
      obtain ⟨ho, hphase⟩ := hat.respond_step (hat.lt_of_phase hp)
      exact ⟨ho, hphase.trans (phaseAt_between c.succ_pos (by omega))⟩
    | lastStep hp hc =>
      rw [hat.cursor_eq, hat.outputLength_eq] at hc
      obtain ⟨ho, hphase⟩ := hat.respond_step (hat.lt_of_phase hp)
      exact ⟨ho, hphase.trans (phaseAt_eq_completed.2 (by omega))⟩
    | rewindStart =>
      obtain ⟨ho, hphase⟩ := hat.respond_rewind (Nat.zero_le c)
      exact ⟨ho, hphase.trans (phaseAt_zero hpos)⟩
    | rewind h0 hle hl =>
      rw [hat.cursor_eq] at hle
      rw [hat.outputLength_eq] at hl
      obtain ⟨ho, hphase⟩ := hat.respond_rewind (Int.ofNat_le.1 hle)
      exact ⟨ho, hphase.trans (phaseAt_between h0 hl)⟩
    | rewindEnd hp hc =>
      rw [hat.cursor_eq, hat.outputLength_eq] at hc
      rw [hat.outputLength_eq]
      obtain ⟨ho, hphase⟩ := hat.respond_rewind (Int.ofNat_le.1 hc.ge)
      exact ⟨ho, hphase.trans (phaseAt_length _)⟩
    | stepBackStart hp hc =>
      rw [hat.cursor_eq] at hc
      obtain ⟨ho, hphase⟩ := hat.respond_stepBack
      refine ⟨ho, hphase.trans ?_⟩
      rw [show c - 1 = 0 by omega, phaseAt_zero hpos]
    | stepBack hc =>
      rw [hat.cursor_eq] at hc
      have hle := hat.le
      obtain ⟨ho, hphase⟩ := hat.respond_stepBack
      exact ⟨ho, hphase.trans (phaseAt_between (by omega) (by omega))⟩

theorem At.leads_step [Canvas.Indexed K] (he : e.At s c)
    (hp : (e.respond (.command .step)).engine.phase ≠ e.phase) :
    e.Leads (.command .step) (e.respond (.command .step)).engine.phase := by
  rcases Nat.lt_or_eq_of_le he.le with hlt | rfl
  · rw [(he.respond_step hlt).2]
    rcases Nat.lt_or_eq_of_le hlt with hnext | hlast
    · rw [phaseAt_between c.succ_pos hnext]
      refine .step (he.phase_of_lt hlt) ?_
      rw [he.cursor_eq, he.outputLength_eq]
      omega
    · rw [phaseAt_eq_completed.2 hlast]
      refine .lastStep (he.phase_of_lt hlt) ?_
      rw [he.cursor_eq, he.outputLength_eq]
      omega
  · refine absurd ?_ hp
    change e.step.engine.phase = _
    rw [he.step_complete]

theorem At.leads_rewind [Canvas.Indexed K] (he : e.At s c) (hi : e.phase ≠ .idle)
    {index : IndexArgument}
    (hp : (e.respond (.command (.rewind index))).engine.phase ≠ e.phase) :
    e.Leads (.command (.rewind index)) (e.respond (.command (.rewind index))).engine.phase := by
  cases hr : (index.resolve c : Except (Fault K) Nat) with
  | error f =>
    refine absurd ?_ hp
    change (e.rewind index).engine.phase = _
    rw [rewind_refused he.session hr]
  | ok i =>
    obtain ⟨hic, rfl⟩ := IndexArgument.resolve_eq_ok hr
    have hic := Int.ofNat_le.1 hic
    have hle := he.le
    rw [(he.respond_rewind hic).2]
    rcases Nat.eq_zero_or_pos i with rfl | h0
    · rw [phaseAt_zero he.length_pos]
      exact .rewindStart hi
    · rcases Nat.lt_or_eq_of_le (hic.trans hle) with hlt | rfl
      · rw [phaseAt_between h0 hlt]
        refine .rewind h0 ?_ ?_
        · rw [he.cursor_eq]
          exact Int.ofNat_le.2 hic
        · rwa [he.outputLength_eq]
      · rw [phaseAt_length, ← he.outputLength_eq]
        refine .rewindEnd hi ?_
        rw [he.cursor_eq, he.outputLength_eq]
        omega

theorem At.leads_stepBack [Canvas.Indexed K] (he : e.At s c) (hi : e.phase ≠ .idle) :
    e.Leads (.command .stepBack) (e.respond (.command .stepBack)).engine.phase := by
  have hle := he.le
  have hcursor := he.cursor_eq
  rw [he.respond_stepBack.2]
  rcases Nat.lt_or_ge 1 c with hlt | hge
  · rw [phaseAt_between (by omega) (by omega)]
    exact .stepBack (by omega)
  · rw [show c - 1 = 0 by omega, phaseAt_zero he.length_pos]
    exact .stepBackStart hi (by omega)

/-- No other request changes the phase of an engine, nor do these lead anywhere else. -/
theorem Stands.leads [Canvas.Indexed K] (he : e.Stands) {r : Request K}
    (hp : (e.respond r).engine.phase ≠ e.phase) : e.Leads r (e.respond r).engine.phase := by
  cases r with
  | verify => exact absurd rfl hp
  | completeOutput => exact absurd rfl hp
  | comparison => exact absurd rfl hp
  | command command =>
    have hidle (hi : e.phase = .idle) := engine_eq_of_idle (phase_eq_idle.1 hi)
    cases command with
    | reset => exact .reset
    | setSelfChecks on => exact absurd rfl hp
    | stepAt index => exact absurd (congrArg phase (stepAt_engine e index)) hp
    | start x h nx nh =>
      cases ho : (e.start x h nx nh).outcome with
      | error f => exact absurd (congrArg phase (start_failed ho)) hp
      | ok u =>
        have hphase := phase_start_ok ho
        change e.Leads _ (e.start x h nx nh).engine.phase
        rw [hphase]
        exact .start ho
    | step =>
      have hi : e.phase ≠ .idle := fun hi => hp (congrArg phase (hidle hi).1)
      obtain ⟨s, c, hat⟩ := he.exists_at hi
      exact hat.leads_step hp
    | rewind index =>
      have hi : e.phase ≠ .idle := fun hi => hp (congrArg phase ((hidle hi).2.1 index))
      obtain ⟨s, c, hat⟩ := he.exists_at hi
      exact hat.leads_rewind hi hp
    | stepBack =>
      have hi : e.phase ≠ .idle := fun hi => hp (congrArg phase (hidle hi).2.2)
      obtain ⟨s, c, hat⟩ := he.exists_at hi
      exact hat.leads_stepBack hi

end SteppedConvolution.Engine
