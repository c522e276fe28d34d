import SteppedConvolution.Journal.Logged

/-! # Outcomes of composed computations

A computation made of two parts succeeds when both do, and it fails with the fault
of one of them. The second half of the module follows the faults that are about the
state of an engine: a composition of parts that never raise one does not either.
-/

namespace SteppedConvolution

variable {K : Type} {α β : Type}

theorem bind_eq_ok {E : Type} {r : Except E α} {f : α → Except E β} {b : β} :
    (r >>= f) = .ok b ↔ ∃ a, r = .ok a ∧ f a = .ok b := by
  cases r with
  | error e => simp [bind, Except.bind]
  | ok a => simp [bind, Except.bind]

theorem bind_eq_error {E : Type} {r : Except E α} {f : α → Except E β} {e : E} :
    (r >>= f) = .error e ↔ r = .error e ∨ ∃ a, r = .ok a ∧ f a = .error e := by
  cases r with
  | error e => simp [bind, Except.bind]
  | ok a => simp [bind, Except.bind]

theorem mapError_eq_ok {E F : Type} {g : E → F} {r : Except E α} {a : α} :
    r.mapError g = .ok a ↔ r = .ok a := by
  cases r with
  | error e => constructor <;> intro h <;> cases h
  | ok b => constructor <;> intro h <;> cases h <;> rfl

theorem map_eq_ok {E : Type} {g : α → β} {r : Except E α} {b : β} :
    r.map g = .ok b ↔ ∃ a, r = .ok a ∧ g a = b := by
  cases r <;> simp [Except.map]

theorem map_eq_error {E : Type} {g : α → β} {r : Except E α} {e : E} :
    r.map g = .error e ↔ r = .error e := by
  cases r <;> simp [Except.map]

theorem functor_map_eq_ok {E : Type} {g : α → β} {r : Except E α} {b : β} :
    g <$> r = .ok b ↔ ∃ a, r = .ok a ∧ g a = b := map_eq_ok

theorem eq_ok_of_toOption {E : Type} {r : Except E α} {a : α} (h : r.toOption = some a) :
    r = .ok a := by
  cases r with
  | error e => cases h
  | ok b => exact congrArg Except.ok (Option.some.inj h)

/-- The error of an outcome that has one. -/
def errorOf? {E : Type} : Except E α → Option E
  | .ok _ => none
  | .error e => some e

theorem eq_error_of_errorOf? {E : Type} {r : Except E α} {e : E} (h : errorOf? r = some e) :
    r = .error e := by
  cases r with
  | ok a => cases h
  | error f => exact congrArg Except.error (Option.some.inj h)

/-- A computation that succeeds on every entry of a list succeeds on the list, and what holds of
each result holds of all of them. -/
theorem mapM_ok {E : Type} {P : β → Prop} {f : α → Except E β} {as : List α}
    (h : ∀ a ∈ as, ∃ b, f a = .ok b ∧ P b) : ∃ bs, as.mapM f = .ok bs ∧ ∀ b ∈ bs, P b := by
  induction as with
  | nil => exact ⟨[], rfl, fun b hb => absurd hb List.not_mem_nil⟩
  | cons a as ih =>
    obtain ⟨b, hb, hP⟩ := h a List.mem_cons_self
    obtain ⟨bs, hbs, hall⟩ := ih fun a' ha => h a' (List.mem_cons_of_mem a ha)
    refine ⟨b :: bs, ?_, List.forall_mem_cons.2 ⟨hP, hall⟩⟩
    rw [List.mapM_cons, hb, hbs]
    rfl

theorem length_of_mapM {E : Type} {f : α → Except E β} {as : List α} {bs : List β}
    (h : as.mapM f = .ok bs) : bs.length = as.length := by
  induction as generalizing bs with
  | nil =>
    cases h
    rfl
  | cons a as ih =>
    rw [List.mapM_cons] at h
    obtain ⟨b, -, h⟩ := bind_eq_ok.1 h
    obtain ⟨bs, hbs, h⟩ := bind_eq_ok.1 h
    cases h
    exact congrArg (· + 1) (ih hbs)

theorem length_of_mapM? {f : α → Option β} {as : List α} {bs : List β}
    (h : as.mapM f = some bs) : bs.length = as.length := by
  induction as generalizing bs with
  | nil =>
    cases h
    rfl
  | cons a as ih =>
    rw [List.mapM_cons] at h
    obtain ⟨b, -, h⟩ := Option.bind_eq_some_iff.1 h
    obtain ⟨bs, hbs, h⟩ := Option.bind_eq_some_iff.1 h
    cases h
    exact congrArg (· + 1) (ih hbs)

/-- A computation on a list fails only where it fails on an entry. -/
theorem mapM_error {E : Type} {f : α → Except E β} {as : List α} {e : E}
    (h : as.mapM f = .error e) : ∃ a ∈ as, f a = .error e := by
  induction as with
  | nil => cases h
  | cons a as ih =>
    rw [List.mapM_cons] at h
    rcases bind_eq_error.1 h with h | ⟨b, -, h⟩
    · exact ⟨a, List.mem_cons_self, h⟩
    · rcases bind_eq_error.1 h with h | ⟨bs, -, h⟩
      · obtain ⟨a', ha', h⟩ := ih h
        exact ⟨a', List.mem_cons_of_mem a ha', h⟩
      · cases h

theorem Fault.require_eq_ok {cause : PlainFault} {value? : Option α} {a : α} :
    (Fault.require cause value? : Except (Fault K) α) = .ok a ↔ value? = some a := by
  cases value? <;> simp [Fault.require]

namespace Logged

variable [Scalar K]

theorem bind_eq_ok {a : Logged K α} {f : α → Logged K β} {b : β} :
    (a >>= f).outcome = .ok b ↔ ∃ v, a.outcome = .ok v ∧ (f v).outcome = .ok b := by
  rcases a with ⟨events, outcome⟩
  cases outcome <;> simp

theorem outcome_bind_of_ok {a : Logged K α} {f : α → Logged K β} {v : α}
    (h : a.outcome = .ok v) : (a >>= f).outcome = (f v).outcome := by
  rcases a with ⟨events, outcome⟩
  obtain rfl : outcome = .ok v := h
  rw [bind_ok]

theorem outcome_bind_of_error {a : Logged K α} {f : α → Logged K β} {e : Fault K}
    (h : a.outcome = .error e) : (a >>= f).outcome = .error e := by
  rcases a with ⟨events, outcome⟩
  obtain rfl : outcome = .error e := h
  rw [bind_error]

theorem events_bind_of_ok {a : Logged K α} {f : α → Logged K β} {v : α}
    (h : a.outcome = .ok v) : (a >>= f).events = a.events ++ (f v).events := by
  rcases a with ⟨events, outcome⟩
  obtain rfl : outcome = .ok v := h
  rw [bind_ok]

theorem mem_events_bind {a : Logged K α} {f : α → Logged K β} {e : Event K} :
    e ∈ (a >>= f).events ↔ e ∈ a.events ∨ ∃ v, a.outcome = .ok v ∧ e ∈ (f v).events := by
  rcases a with ⟨events, outcome⟩
  cases outcome <;> simp

theorem ofExcept_outcome (r : Except (Fault K) α) : (ofExcept r).outcome = r := rfl

theorem noteIf_outcome (condition : Bool) (e : Event K) :
    (noteIf condition e).outcome = .ok () := by
  cases condition <;> rfl

theorem map_outcome (g : α → β) (a : Logged K α) :
    (g <$> a).outcome = a.outcome.map g := by
  rcases a with ⟨events, outcome⟩
  cases outcome <;> rfl

end Logged

/-! ## Computations side by side -/

section

variable {E α' β' : Type} {σ : α → α'} {τ : β → β'}

/-- Two computations whose parts correspond have corresponding results. -/
theorem bind_map {r : Except E α} {r' : Except E α'} {f : α → Except E β} {f' : α' → Except E β'}
    (hr : r' = r.map σ) (hf : ∀ a, f' (σ a) = (f a).map τ) : (r' >>= f') = (r >>= f).map τ := by
  subst hr
  cases r with
  | error e => rfl
  | ok a => exact hf a

theorem bind_map_right {r : Except E α} {f : α → Except E β} {f' : α → Except E β'}
    (hf : ∀ a, f' a = (f a).map τ) : (r >>= f') = (r >>= f).map τ :=
  bind_map (congrFun Except.map_id r).symm hf

theorem mapError_map {F : Type} {g : E → F} (r : Except E α) :
    (r.map σ).mapError g = (r.mapError g).map σ := by
  cases r <;> rfl

theorem mapM_map {f : α → Except E β} {f' : α' → Except E β'}
    (hf : ∀ a, f' (σ a) = (f a).map τ) (as : List α) :
    (as.map σ).mapM f' = (as.mapM f).map (List.map τ) := by
  induction as with
  | nil => rfl
  | cons a as ih =>
    rw [List.map_cons, List.mapM_cons, List.mapM_cons]
    exact bind_map (hf a) fun b => bind_map ih fun bs => rfl

theorem Logged.outcome_bind_map [Scalar K] {a : Logged K α} {a' : Logged K α'}
    {f : α → Logged K β} {f' : α' → Logged K β'} (ha : a'.outcome = a.outcome.map σ)
    (hf : ∀ v, (f' (σ v)).outcome = (f v).outcome.map τ) :
    (a' >>= f').outcome = (a >>= f).outcome.map τ := by
  rcases a with ⟨events, outcome⟩
  cases outcome with
  | error e =>
    rw [outcome_bind_of_error ha, bind_error]
    rfl
  | ok v =>
    rw [outcome_bind_of_ok ha, bind_ok]
    exact hf v

theorem Logged.outcome_bind_map_right [Scalar K] {a a' : Logged K α} {f : α → Logged K β}
    {f' : α → Logged K β'} (ha : a'.outcome = a.outcome)
    (hf : ∀ v, (f' v).outcome = (f v).outcome.map τ) :
    (a' >>= f').outcome = (a >>= f).outcome.map τ :=
  outcome_bind_map (ha.trans (congrFun Except.map_id a.outcome).symm) hf

end

/-! ## Faults about the state of an engine -/

/-- The outcome is no fault about the state of an engine. -/
structure Stateless (r : Except (Fault K) α) : Prop where
  ne_state : ∀ cause, r ≠ .error (.state cause)

namespace Stateless

theorem ok (a : α) : Stateless (.ok a : Except (Fault K) α) := by
  constructor
  intro cause h
  cases h

theorem data (cause : DataFault K) : Stateless (.error (.data cause) : Except (Fault K) α) := by
  constructor
  intro c h
  cases h

theorem plain (cause : PlainFault) : Stateless (.error (.plain cause) : Except (Fault K) α) := by
  constructor
  intro c h
  cases h

theorem bind {r : Except (Fault K) α} {f : α → Except (Fault K) β} (hr : Stateless r)
    (hf : ∀ a, Stateless (f a)) : Stateless (r >>= f) := by
  cases r with
  | ok a => exact hf a
  | error e =>
    constructor
    intro cause h
    apply hr.ne_state cause
    simpa [Bind.bind, Except.bind] using h

theorem map {r : Except (Fault K) α} (hr : Stateless r) (g : α → β) : Stateless (r.map g) := by
  cases r with
  | ok a => exact ok _
  | error e =>
    constructor
    intro cause h
    apply hr.ne_state cause
    simpa [Except.map] using h

theorem logged [Scalar K] {a : Logged K α} {f : α → Logged K β} (ha : Stateless a.outcome)
    (hf : ∀ v, Stateless (f v).outcome) : Stateless (a >>= f).outcome := by
  rcases a with ⟨events, outcome⟩
  cases outcome with
  | ok v => exact hf v
  | error e =>
    constructor
    intro cause h
    exact ha.ne_state cause (by simpa using h)

theorem require (cause : PlainFault) (value? : Option α) :
    Stateless (Fault.require cause value? : Except (Fault K) α) := by
  cases value? with
  | none => exact plain cause
  | some a => exact ok a

theorem mapM {r : α → Except (Fault K) β} (hr : ∀ a, Stateless (r a)) (as : List α) :
    Stateless (as.mapM r) := by
  induction as with
  | nil => exact ok []
  | cons a as ih =>
    rw [List.mapM_cons]
    exact (hr a).bind fun b => ih.bind fun bs => ok _

end Stateless

end SteppedConvolution
