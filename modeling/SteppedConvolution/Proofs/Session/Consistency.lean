import SteppedConvolution.Proofs.Convolution.Addends
import SteppedConvolution.Proofs.Session.History

/-! # Consistency

No part of an operation raises a fault about the state of an engine on its own; only
the self-check behind a move and the refusal of an operation do. Since an engine is
consistent after every history, the self-check never fails.
-/

namespace SteppedConvolution

variable {K : Type} [Scalar K] {α : Type}

namespace Stateless

omit [Scalar K] in
theorem mapError_grid (r : Except GridDefect α) :
    Stateless (r.mapError TimeGrid.fault : Except (Fault K) α) := by
  cases r with
  | error d => exact data _
  | ok a => exact ok a

theorem check (name : String) (xs : List K) : Stateless (Samples.check name xs) := by
  unfold Samples.check
  cases Samples.defect? xs with
  | none => exact ok xs
  | some d => exact data _

theorem samples_ofInput (name : String) (input : Input K) :
    Stateless (Samples.ofInput name input) := by
  unfold Samples.ofInput
  cases input.shaped with
  | error cause => exact data _
  | ok s =>
    dsimp only
    unfold Samples.ofShaped
    by_cases hr : 1 < s.rank
    · rw [if_pos hr]
      exact data _
    · rw [if_neg hr]
      exact check name s.entries

theorem grid_ofInput (atol : K) (g : GridInput K) : Stateless (TimeGrid.ofInput atol g) := by
  cases g with
  | grid g => exact ok g
  | positions input =>
    simp only [TimeGrid.ofInput, Samples.shapedInput]
    cases input.shaped with
    | error cause => exact plain _
    | ok s => exact mapError_grid _

theorem resolve (atol : K) (name : String) (signal : SignalInput K)
    (grid? : Option (GridInput K)) : Stateless (signal.resolve atol name grid?) := by
  cases grid? with
  | none =>
    cases signal with
    | signal s => exact ok _
    | samples input => exact (samples_ofInput name input).bind fun xs => ok _
  | some g =>
    have hgrid := grid_ofInput atol g
    cases signal with
    | signal s => exact hgrid.bind fun _ => ok _
    | samples input => exact (samples_ofInput name input).bind fun xs => hgrid.bind fun _ => ok _

theorem nearestPositions (g : TimeGrid K) (positions : List K) :
    Stateless (Canvas.nearestPositions g positions) := by
  refine mapM (fun p => ?_) positions
  cases Canvas.indexOf g.size g.start g.step p with
  | none => exact plain _
  | some i =>
    dsimp only
    cases g.values.toArray[i]? with
    | none => exact plain _
    | some v => exact ok _

theorem sampleAt (values : List K) (g : TimeGrid K) (positions : List K) :
    Stateless (Canvas.sampleAt values g positions) :=
  (nearestPositions g positions).bind fun _ => mapM (fun _ => (require _ _).map _) _

theorem place (threshold : K) (samples positions : List K) (target : TimeGrid K) :
    Stateless (Canvas.place threshold samples positions target).outcome := by
  unfold Canvas.place
  split
  · exact ok _
  · split
    · exact plain _
    · refine logged ?_ fun _ => ok _
      refine logged (nearestPositions _ _) fun found => ?_
      refine logged ?_ fun _ => ok _
      rw [Logged.noteIf_outcome]
      exact ok _

theorem sharedGrid (nx nh : TimeGrid K) (n : Int) : Stateless (Canvas.sharedGrid nx nh n) := by
  unfold Canvas.sharedGrid
  cases Canvas.sharedSize nx nh n with
  | error e => exact plain _
  | ok size =>
    refine bind ?_ fun vs => mapError_grid _
    unfold Range.positions
    split
    · exact plain _
    · exact ok _

theorem canvas (threshold : K) (x : List K) (nx : TimeGrid K) (h : List K) (nh : TimeGrid K) :
    Stateless (Canvas.ofSignals threshold x nx h nh).outcome :=
  logged (sharedGrid nx nh _) fun _ => logged (place ..) fun _ => logged (place ..) fun _ =>
    logged (ok ()) fun _ => ok _

theorem requireRoom (name : String) (xs : List K) (g : TimeGrid K) :
    Stateless (Session.requireRoom name xs g) := by
  unfold Session.requireRoom
  split
  · exact data _
  · exact ok _

theorem leading (atol : K) (g : TimeGrid K) (n : Nat) :
    Stateless (Session.leading atol g n).outcome := by
  unfold Session.leading
  split
  · exact ok _
  · exact logged (ok ()) fun _ => mapError_grid _

theorem support (nx nh : List K) (n : Nat) : Stateless (Support.output nx nh n) := by
  unfold Support.output
  by_cases hn : n = 0
  · simp only [if_pos hn]
    exact plain _
  · simp only [if_neg hn]
    refine (check "nx" nx).bind fun xs => (check "nh" nh).bind fun hs => ?_
    split
    · split
      · exact ok _
      · exact ok _
    · exact plain _

theorem ofSignals (tolerances : Tolerances K) (x : List K) (nx : TimeGrid K) (h : List K)
    (nh : TimeGrid K) : Stateless (Session.ofSignals tolerances x nx h nh).outcome := by
  unfold Session.ofSignals
  refine logged (requireRoom ..) fun _ => logged (requireRoom ..) fun _ => ?_
  refine logged (leading ..) fun _ => logged (leading ..) fun _ => ?_
  refine logged ((check "x" x).bind fun _ => (check "h" h).bind fun _ => ok _) fun _ => ?_
  refine logged (support ..) fun _ => logged (mapError_grid _) fun _ => ?_
  exact logged (canvas ..) fun _ => logged (ok ()) fun _ => ok _

theorem ofInputs (tolerances : Tolerances K) (x h : SignalInput K)
    (nx nh : Option (GridInput K)) :
    Stateless (Session.ofInputs tolerances x h nx nh).outcome := by
  refine logged (resolve _ "x" x nx) fun p => logged (resolve _ "h" h nh) fun q => ?_
  rcases p with ⟨xs, grid?⟩
  cases grid? with
  | none => exact data _
  | some g => exact ofSignals ..

theorem stepAt (s : Session K) (i : Int) : Stateless (s.stepAt i).outcome := by
  have hentry (xs : List K) : Stateless (Session.entry xs i) := by
    unfold Session.entry
    cases Indexing.entryAt? xs i with
    | none => exact plain _
    | some a => exact ok a
  refine logged (hentry _) fun p => logged (hentry _) fun y => logged (sampleAt ..) fun v => ?_
  refine logged ?_ fun _ => ok _
  exact logged (by rw [Logged.noteIf_outcome]; exact ok ()) fun _ => ok _

end Stateless

/-! ## After every history -/

/-- What a session keeps of the one that was opened, what its reference is made of, and what its
cursor and its output buffer say. -/
structure Session.Invariant (opened s : Session K) : Prop where
  x_eq : s.x = opened.x
  h_eq : s.h = opened.h
  reference_eq : s.reference = opened.reference
  convolution : s.reference = Convolution.full s.x s.h
  sample : ∀ (i : Nat) (hi : i < s.reference.length),
    IsSum (Convolution.addends s.x s.h i) s.reference[i]
  length_eq : s.reference.length = s.x.length + s.h.length - 1
  length_pos : 1 ≤ s.reference.length
  size_outputGrid : s.outputGrid.size = s.reference.length
  cursor_nonneg : 0 ≤ s.cursor
  cursor_le : s.cursor ≤ s.reference.length
  output : ∃ y, s.output = some y ∧ y.length = s.reference.length ∧
    (∀ i : Nat, i < s.cursor → y[i]? = s.reference[i]?) ∧
    ∀ i : Nat, s.cursor ≤ i → i < s.reference.length → y[i]? = some 0

theorem Session.Built.invariant {tolerances : Tolerances K} {nx : TimeGrid K} {s : Session K}
    (hs : s.Built tolerances nx) {c : Nat} (hc : c ≤ s.length) :
    Session.Invariant s (s.upTo c) where
  x_eq := rfl
  h_eq := rfl
  reference_eq := rfl
  convolution := hs.reference_eq
  sample i hi := by
    change i < s.reference.length at hi
    change IsSum (Convolution.addends s.x s.h i) s.reference[i]
    simp only [hs.reference_eq] at hi ⊢
    exact Convolution.isSum_full s.x s.h hi
  length_eq := hs.length_eq
  length_pos := hs.length_pos
  size_outputGrid := hs.size_outputGrid
  cursor_nonneg := Int.natCast_nonneg c
  cursor_le := Int.ofNat_le.2 hc
  output := by
    have hl : (s.reference.take c).length = c := by
      rw [List.length_take]
      exact Nat.min_eq_left hc
    refine ⟨_, Session.upTo_output s c, ?_, ?_, ?_⟩
    · rw [List.length_append, hl, List.length_replicate]
      exact Nat.add_sub_cancel' hc
    · intro i hi
      have hi : i < c := Int.ofNat_lt.1 hi
      rw [List.getElem?_append_left (by omega), List.getElem?_take_of_lt hi]
      rfl
    · intro i hi hn
      have hi : c ≤ i := Int.ofNat_le.1 hi
      have hn : i < s.length := hn
      rw [List.getElem?_append_right (by omega), List.getElem?_replicate, if_pos (by omega)]

namespace Engine

variable {e : Engine K} {last : Option (Session K)}

theorem start_ne_inconsistent (e : Engine K) (x h : SignalInput K)
    (nx nh : Option (GridInput K)) :
    (e.start x h nx nh).outcome ≠ .error (.state .inconsistent) := by
  cases ho : (Session.ofInputs e.tolerances x h nx nh).outcome with
  | ok s =>
    rw [start_opened ho]
    simp
  | error f =>
    rw [start_refused ho]
    intro hf
    apply (Stateless.ofInputs e.tolerances x h nx nh).ne_state .inconsistent
    rw [ho, Except.error.inj hf]

omit [Scalar K] in
theorem error_resolve_ne_inconsistent {index : IndexArgument} {upper : Int} {f : Fault K}
    (hf : index.resolve upper = .error f) :
    (.error f : Except (Fault K) α) ≠ .error (.state .inconsistent) := by
  rintro ⟨⟩
  cases index with
  | other type => simp [IndexArgument.resolve] at hf
  | integer i => by_cases hi : 0 ≤ i ∧ i ≤ upper <;> simp [IndexArgument.resolve, hi] at hf

theorem step_ne_inconsistent (he : e.Holds last) :
    e.step.outcome ≠ .error (.state .inconsistent) := by
  cases he with
  | none he => simp [step, requireSession, he, stay, Logged.fail]
  | @some nx s c hs hc he =>
    by_cases hl : s.length ≤ c
    · rw [step_complete he hl]
      simp
    · rw [(step_upTo hs he (Nat.lt_of_not_le hl)).1]
      exact ((Stateless.stepAt s c).map some).ne_state .inconsistent

theorem stepAt_ne_inconsistent (e : Engine K) (index : IndexArgument) :
    (e.stepAt index).outcome ≠ .error (.state .inconsistent) := by
  unfold stepAt requireSession
  cases e.session with
  | none => simp [stay, Logged.fail]
  | some s =>
    dsimp only
    cases hi : (index.resolve ((s.length : Int) - 1) : Except (Fault K) Nat) with
    | error f => exact error_resolve_ne_inconsistent hi
    | ok i => exact (Stateless.stepAt s i).ne_state .inconsistent

theorem rewind_ne_inconsistent (he : e.Holds last) (index : IndexArgument) :
    (e.rewind index).outcome ≠ .error (.state .inconsistent) := by
  cases he with
  | none he => simp [rewind, requireSession, he, stay, Logged.fail]
  | @some nx s c hs hc he =>
    cases hi : (index.resolve c : Except (Fault K) Nat) with
    | ok i => simp [rewind_upTo hs he hc hi]
    | error f =>
      rw [rewind_refused he hi]
      exact error_resolve_ne_inconsistent hi

theorem lastStep_ne_inconsistent (e : Engine K) :
    e.lastStep.outcome ≠ .error (.state .inconsistent) := by
  unfold lastStep requireSession
  cases e.session with
  | none => simp [stay, Logged.fail]
  | some s =>
    by_cases hz : s.cursor = 0
    · simp [hz, stay]
    · simp only [hz, if_false, stay, Logged.map_outcome]
      exact ((Stateless.stepAt s _).map _).ne_state .inconsistent

theorem stepBack_ne_inconsistent (he : e.Holds last) :
    e.stepBack.outcome ≠ .error (.state .inconsistent) := by
  cases he with
  | none he => simp [stepBack, requireSession, he, stay, Logged.fail]
  | @some nx s c hs hc he =>
    cases c with
    | zero => simp [stepBack_start he]
    | succ c =>
      rw [stepBack_upTo hs he hc]
      exact lastStep_ne_inconsistent _

theorem forget_ne_inconsistent {t : Transition K α}
    (ht : t.outcome ≠ .error (.state .inconsistent)) :
    t.forget.outcome ≠ .error (.state .inconsistent) := by
  rcases t with ⟨engine, events, outcome⟩
  cases outcome with
  | ok a => simp [Transition.forget, Except.map]
  | error f => simpa [Transition.forget, Except.map] using ht

/-- No operation on an engine that holds its session finds an inconsistent state. -/
theorem perform_ne_inconsistent (he : e.Holds last) (c : Command K) :
    (e.perform c).outcome ≠ .error (.state .inconsistent) := by
  cases c with
  | start x h nx nh => exact start_ne_inconsistent e x h nx nh
  | step => exact forget_ne_inconsistent (step_ne_inconsistent he)
  | stepAt index => exact forget_ne_inconsistent (stepAt_ne_inconsistent e index)
  | rewind index => exact rewind_ne_inconsistent he index
  | stepBack => exact forget_ne_inconsistent (stepBack_ne_inconsistent he)
  | reset => simp [perform, reset]
  | setSelfChecks on => simp [perform]

/-- After every list of operations an engine is idle, or it holds the session that the last
successful start has opened, revealed up to its cursor. So it is consistent, and no further
operation finds it otherwise. -/
theorem session_after_history (tolerances : Tolerances K) (commands : List (Command K)) :
    let e := (idle tolerances).after commands
    let last := (idle tolerances).lastOpened none commands
    (e.session = none ∧ last = none ∨
      ∃ s opened, e.session = some s ∧ last = some opened ∧ Session.Invariant opened s) ∧
    e.isConsistent = true ∧
    ∀ c : Command K, (e.perform c).outcome ≠ .error (.state .inconsistent) := by
  intro e last
  have he : e.Holds last := Holds.after (.none rfl) commands
  refine ⟨?_, he.isConsistent, perform_ne_inconsistent he⟩
  cases hl : last with
  | none =>
    rw [hl] at he
    cases he with
    | none he => exact .inl ⟨he, rfl⟩
  | some opened =>
    rw [hl] at he
    cases he with
    | some hs hc he => exact .inr ⟨_, opened, he, rfl, hs.invariant hc⟩

end Engine

end SteppedConvolution
