import SteppedConvolution.Proofs.Session.Opening
import SteppedConvolution.Session.Engine

/-! # Moves of an engine

Every move of an engine takes a session with its first samples revealed to the same
session with other ones revealed. Each operation has one lemma that says which.
-/

namespace SteppedConvolution

variable {K : Type} [Scalar K]

theorem Indexing.entryAt?_natCast {α : Type} (xs : List α) (i : Nat) :
    Indexing.entryAt? xs (i : Int) = xs[i]? := by
  unfold Indexing.entryAt? Indexing.place?
  by_cases h : i < xs.length
  · simp [h]
  · simp [h]

theorem Indexing.replaceAt?_natCast {α : Type} {xs : List α} {i : Nat} (h : i < xs.length)
    (a : α) : Indexing.replaceAt? xs (i : Int) a = some (xs.set i a) := by
  simp [Indexing.replaceAt?, Indexing.place?, h]

/-- Revealing one more entry of a list that is followed by zeros. -/
theorem set_take_append_replicate {xs : List K} {c : Nat} (hc : c < xs.length) :
    (xs.take c ++ List.replicate (xs.length - c) 0).set c xs[c] =
      xs.take (c + 1) ++ List.replicate (xs.length - (c + 1)) 0 := by
  have hl : (xs.take c).length = c := by
    rw [List.length_take]
    omega
  have hr : xs.length - c = (xs.length - (c + 1)) + 1 := by omega
  rw [List.set_append_right _ _ (by omega), hl, Nat.sub_self, hr, List.replicate_succ,
    List.set_cons_zero, List.take_add_one, List.getElem?_eq_getElem hc, Option.toList_some,
    List.append_assoc, List.singleton_append]

/-- Clearing entries of a list that is followed by zeros. -/
theorem overwriteFrom_take_append_replicate {xs : List K} {c i : Nat} (hi : i ≤ c)
    (hc : c ≤ xs.length) :
    Indexing.overwriteFrom (xs.take c ++ List.replicate (xs.length - c) 0) i (0 : K) =
      xs.take i ++ List.replicate (xs.length - i) 0 := by
  have hl : (xs.take c).length = c := by
    rw [List.length_take]
    omega
  unfold Indexing.overwriteFrom
  rw [List.take_append_of_le_length (by omega), List.take_take, Nat.min_eq_left hi,
    List.map_const', List.length_drop, List.length_append, hl, List.length_replicate]
  congr 2
  omega

omit [Scalar K] in
theorem IndexArgument.resolve_natCast {upper : Int} {i : Nat} (h : (i : Int) ≤ upper) :
    ((IndexArgument.integer i).resolve upper : Except (Fault K) Nat) = .ok i := by
  have hi : 0 ≤ (i : Int) ∧ (i : Int) ≤ upper := ⟨Int.natCast_nonneg i, h⟩
  simp [IndexArgument.resolve, hi]

omit [Scalar K] in
theorem IndexArgument.resolve_eq_ok {upper : Int} {index : IndexArgument} {i : Nat}
    (h : (index.resolve upper : Except (Fault K) Nat) = .ok i) :
    (i : Int) ≤ upper ∧ index = .integer i := by
  cases index with
  | other type => cases h
  | integer k =>
    by_cases hk : 0 ≤ k ∧ k ≤ upper
    · simp only [IndexArgument.resolve, if_pos hk] at h
      cases h
      rw [Int.toNat_of_nonneg hk.1]
      exact ⟨hk.2, rfl⟩
    · simp only [IndexArgument.resolve, if_neg hk] at h
      cases h

namespace Session

omit [Scalar K] in
theorem entry_natCast (xs : List K) (i : Nat) :
    entry xs (i : Int) = Fault.require .noSuchEntry xs[i]? := by
  unfold entry
  rw [Indexing.entryAt?_natCast]
  cases xs[i]? <;> rfl

/-- The parts of what a step shows. -/
theorem stepAt_eq_ok {s : Session K} {i : Nat} {step : Step K} :
    (s.stepAt i).outcome = .ok step ↔
      s.outputGrid.values[i]? = some step.position ∧ s.reference[i]? = some step.sample ∧
        Canvas.sampleAt s.canvas.h s.canvas.grid
          (s.canvas.grid.values.map fun k => step.position - k) = .ok step.shifted ∧
        step.product =
          (Samples.clampNonFinite (List.zipWith (· * ·) s.canvas.x step.shifted)).1 := by
  unfold stepAt clampProducts
  simp only [Logged.bind_eq_ok, Logged.ofExcept_outcome, Logged.noteIf_outcome, entry_natCast,
    Fault.require_eq_ok]
  constructor
  · rintro ⟨_, hp, _, hr, _, hs, _, ⟨_, -, ⟨⟩⟩, ⟨⟩⟩
    exact ⟨hp, hr, hs, rfl⟩
  · rintro ⟨hp, hr, hs, ht⟩
    refine ⟨_, hp, _, hr, _, hs, _, ⟨(), trivial, rfl⟩, ?_⟩
    rw [← ht]
    rfl

/-- Revealing shows the step to the cursor and moves by one sample. -/
theorem reveal_upTo {s : Session K} {c : Nat} (hc : c < s.length) :
    (Engine.reveal (s.upTo c)).outcome =
      (s.stepAt c).outcome.map fun step => (step, s.upTo (c + 1)) := by
  unfold Engine.reveal
  rw [upTo_cursor, stepAt_upTo]
  rcases hs : s.stepAt c with ⟨events, outcome⟩
  cases outcome with
  | error f => rfl
  | ok step =>
    have hr : s.reference[c] = step.sample := by
      have h := (stepAt_eq_ok.1 (congrArg Logged.outcome hs)).2.1
      rw [List.getElem?_eq_getElem hc] at h
      exact Option.some.inj h
    have hl : c < (s.reference.take c ++ List.replicate (s.length - c) (0 : K)).length := by
      rw [List.length_append, List.length_take, List.length_replicate]
      rw [Session.length] at hc ⊢
      omega
    have hset := set_take_append_replicate (K := K) hc
    rw [hr] at hset
    rw [Logged.bind_ok, upTo_output]
    simp only [Indexing.replaceAt?_natCast hl]
    simp only [Session.length, hset]
    cases hd : ({ s.upTo c with
        cursor := (c : Int) + 1
        output := some (s.reference.take (c + 1) ++
          List.replicate (s.reference.length - (c + 1)) 0) } : Session K).isComplete <;> rfl

end Session

namespace Engine

variable {tolerances : Tolerances K} {nx : TimeGrid K} {s : Session K} {e : Engine K} {c : Nat}

theorem isComplete_upTo (s : Session K) (c : Nat) :
    (s.upTo c).isComplete = decide (s.length ≤ c) := by
  simp [Session.isComplete]

/-- Moving to a session of which some samples are revealed passes the self-check. -/
theorem move_upTo (hs : s.Built tolerances nx) (hc : c ≤ s.length) (events : List (Event K))
    {α : Type} (a : α) :
    e.move (s.upTo c) events a = ⟨{ e with session := some (s.upTo c) }, events, .ok a⟩ := by
  simp [move, isConsistent, hs.isConsistent_upTo hc]

/-- A start moves to the opened session. -/
theorem start_opened {x h : SignalInput K} {nx' nh' : Option (GridInput K)}
    (hs : (Session.ofInputs e.tolerances x h nx' nh').outcome = .ok s) :
    e.start x h nx' nh' =
      ⟨{ e with session := some (s.upTo 0) },
        (Session.ofInputs e.tolerances x h nx' nh').events, .ok ()⟩ := by
  obtain ⟨nx, hb, h0⟩ := Session.built_of_ofInputs hs
  rw [← move_upTo hb (Nat.zero_le _), ← h0]
  simp only [start, hs]

/-- A start that fails leaves the engine as it is. -/
theorem start_refused {x h : SignalInput K} {nx' nh' : Option (GridInput K)} {f : Fault K}
    (hf : (Session.ofInputs e.tolerances x h nx' nh').outcome = .error f) :
    e.start x h nx' nh' =
      ⟨e, (Session.ofInputs e.tolerances x h nx' nh').events, .error f⟩ := by
  simp only [start, hf]

/-- With every sample revealed there is no step. -/
theorem step_complete (he : e.session = some (s.upTo c)) (hc : s.length ≤ c) :
    e.step = ⟨e, [], .ok none⟩ := by
  simp [step, requireSession, he, isComplete_upTo, hc, stay]

/-- A step reveals the sample at the cursor, unless what it shows cannot be computed. -/
theorem step_upTo (hs : s.Built tolerances nx) (he : e.session = some (s.upTo c))
    (hc : c < s.length) :
    e.step.outcome = (s.stepAt c).outcome.map some ∧
      e.step.engine =
        match (s.stepAt c).outcome with
        | .error _ => e
        | .ok _ => { e with session := some (s.upTo (c + 1)) } := by
  have hn : ¬ s.length ≤ c := Nat.not_le.2 hc
  simp only [step, requireSession, he, isComplete_upTo, hn, decide_false, Bool.false_eq_true,
    if_false, Session.reveal_upTo hc]
  cases (s.stepAt c).outcome with
  | error f => exact ⟨rfl, rfl⟩
  | ok step =>
    simp only [Except.map, move_upTo hs (Nat.succ_le_of_lt hc)]
    trivial

theorem stepAt_engine (e : Engine K) (index : IndexArgument) : (e.stepAt index).engine = e := by
  unfold stepAt
  cases e.requireSession with
  | error f => rfl
  | ok s =>
    dsimp only
    cases (index.resolve (s.length - 1) : Except (Fault K) Nat) <;> rfl

theorem lastStep_engine (e : Engine K) : e.lastStep.engine = e := by
  unfold lastStep
  cases e.requireSession with
  | error f => rfl
  | ok s => by_cases h : s.cursor = 0 <;> simp [h, stay]

/-- The step to an index within the range. -/
theorem stepAt_natCast (he : e.session = some s) {i : Nat} (hi : i < s.length) :
    e.stepAt (.integer i) = e.stay (s.stepAt i) := by
  have hr := IndexArgument.resolve_natCast (K := K) (by omega : (i : Int) ≤ (s.length : Int) - 1)
  simp [stepAt, requireSession, he, hr]

/-- A rewind forgets the samples from an index on. -/
theorem rewind_upTo (hs : s.Built tolerances nx) (he : e.session = some (s.upTo c))
    (hc : c ≤ s.length) {index : IndexArgument} {i : Nat}
    (hi : (index.resolve c : Except (Fault K) Nat) = .ok i) :
    e.rewind index = ⟨{ e with session := some (s.upTo i) }, [.rewound i], .ok ()⟩ := by
  have hic : i ≤ c := Int.ofNat_le.1 (IndexArgument.resolve_eq_ok hi).1
  have ho := overwriteFrom_take_append_replicate (K := K) hic hc
  have hm := move_upTo (e := e) hs (Nat.le_trans hic hc) [.rewound i] ()
  simp only [rewind, requireSession, he, Session.upTo_cursor, hi, Session.upTo_output]
  rw [← hm]
  simp only [Session.upTo, Session.length, ho]

theorem rewind_refused (he : e.session = some (s.upTo c)) {index : IndexArgument} {f : Fault K}
    (hi : index.resolve c = .error f) : e.rewind index = ⟨e, [], .error f⟩ := by
  simp [rewind, requireSession, he, hi, stay, Logged.fail]

theorem stepBack_start (he : e.session = some (s.upTo 0)) : e.stepBack = ⟨e, [], .ok none⟩ := by
  simp [stepBack, requireSession, he, stay]

/-- A step back forgets the last sample and shows the one before it. -/
theorem stepBack_upTo (hs : s.Built tolerances nx) (he : e.session = some (s.upTo (c + 1)))
    (hc : c + 1 ≤ s.length) :
    let back : Engine K := { e with session := some (s.upTo c) }
    e.stepBack = ⟨back, .rewound c :: back.lastStep.events, back.lastStep.outcome⟩ := by
  intro back
  have hr := IndexArgument.resolve_natCast (K := K) (by omega : (c : Int) ≤ ((c + 1 : Nat) : Int))
  have hz : ¬ (((c + 1 : Nat) : Int) = 0) := by omega
  have hp : ((c + 1 : Nat) : Int) - 1 = c := by omega
  simp only [stepBack, requireSession, he, Session.upTo_cursor, hz, if_false, hp,
    rewind_upTo hs he hc hr, lastStep_engine]
  rfl

end Engine

end SteppedConvolution
