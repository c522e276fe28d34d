import Mathlib.Data.List.Nodup
import SteppedConvolution.Journal.Logger
import SteppedConvolution.Proofs.Outcome

/-! # Histories of a registry

A registry after any list of calls. A call adds a logger under a new name, gives all loggers a
level, or gives them new handlers; one that fails changes nothing. So loggers are never removed,
exchanged or renamed, and the place of a logger in the registry is what makes it the same logger.
-/

namespace SteppedConvolution

/-- The logger with a level, which its handlers take over. -/
def Logger.withLevel (l : Logger) (level : Int) : Logger :=
  { l with level, handlers := l.handlers.map fun h => { h with level } }

/-- The logger with a single handler, both at a level. -/
def Logger.withHandler (l : Logger) (level : Int) (format : List FormatPiece) : Logger :=
  { l with level, handlers := [⟨level, format⟩] }

namespace Registry

/-- The calls that ask for a logger or change all of them. -/
inductive Call where
  | get (name : Option String)
  | setLevel (level : LevelArgument)
  | configure (level : LevelArgument) (format : Option String)

/-- What a call makes of a registry. -/
def perform (r : Registry) : Call → Except PlainFault Registry
  | .get name => .ok (r.get name).2
  | .setLevel level => r.setLevel level
  | .configure level format => r.configure level format

/-- The registry after a call, whether it fails or not. -/
def step (r : Registry) (c : Call) : Registry := (r.perform c).toOption.getD r

/-- The registry after a list of calls. -/
def after (r : Registry) : List Call → Registry
  | [] => r
  | c :: cs => (r.step c).after cs

/-! ## Where a call leads -/

/-- The format that handlers are to have, if it is one. -/
def pieces? (format : Option String) : Option (List FormatPiece) :=
  format.elim (some FormatPiece.standard) FormatPiece.ofText?

/-- The level that a call sets unless it fails. -/
def Call.level? : Call → Option Int
  | .get _ => none
  | .setLevel level => level.level.toOption
  | .configure level format => (pieces? format).bind fun _ => level.level.toOption

/-- What becomes of a registry by a call that sets a level, or none. -/
inductive Leads (r : Registry) : Option Int → Registry → Prop
  | stay : Leads r none r
  | add (name : String) (hnew : ∀ l ∈ r.loggers, l.name ≠ name) :
    Leads r none ⟨r.loggers ++ [freshLogger name r.defaultLevel FormatPiece.standard],
      r.defaultLevel⟩
  | level (level : Int) : Leads r (some level) ⟨r.loggers.map (·.withLevel level), level⟩
  | handler (level : Int) (format : List FormatPiece) :
    Leads r (some level) ⟨r.loggers.map (·.withHandler level format), level⟩

variable {r s : Registry}

theorem setLevel_eq (r : Registry) (level : LevelArgument) :
    r.setLevel level = level.level.map fun n => ⟨r.loggers.map (·.withLevel n), n⟩ := by
  unfold setLevel
  cases level.level <;> rfl

theorem configure_eq (r : Registry) (level : LevelArgument) (format : Option String) :
    r.configure level format =
      match pieces? format with
      | none => .error .invalidFormat
      | some pieces => level.level.map fun n => ⟨r.loggers.map (·.withHandler n pieces), n⟩ := by
  unfold configure pieces?
  cases format.elim (some FormatPiece.standard) FormatPiece.ofText? with
  | none => rfl
  | some pieces => cases level.level <;> rfl

/-- A name stands for the logger that has it, which is there after the call. -/
theorem get_cases (r : Registry) (name : Option String) :
    (∃ l ∈ r.loggers, l.name = fullName name ∧ r.get name = (l, r)) ∨
      (∀ l ∈ r.loggers, l.name ≠ fullName name) ∧
        r.get name = (freshLogger (fullName name) r.defaultLevel FormatPiece.standard,
          ⟨r.loggers ++ [freshLogger (fullName name) r.defaultLevel FormatPiece.standard],
            r.defaultLevel⟩) := by
  cases hf : r.find? (fullName name) with
  | some l =>
    have hname := List.find?_some hf
    refine .inl ⟨l, List.mem_of_find?_eq_some hf, by simpa using hname, ?_⟩
    simp only [get, hf]
  | none =>
    refine .inr ⟨fun l hl => ?_, ?_⟩
    · simpa using List.find?_eq_none.1 hf l hl
    · simp only [get, hf]

theorem leads_step (r : Registry) (c : Call) : Leads r c.level? (r.step c) := by
  cases c with
  | get name =>
    change Leads r none (r.get name).2
    rcases r.get_cases name with ⟨l, -, -, hget⟩ | ⟨hnew, hget⟩
    · rw [hget]
      exact .stay
    · rw [hget]
      exact .add _ hnew
  | setLevel level =>
    rw [step, perform, setLevel_eq]
    change Leads r level.level.toOption _
    cases level.level with
    | error f => exact .stay
    | ok n => exact .level n
  | configure level format =>
    rw [step, perform, configure_eq]
    change Leads r ((pieces? format).bind fun _ => level.level.toOption) _
    cases pieces? format with
    | none => exact .stay
    | some pieces =>
      cases level.level with
      | error f => exact .stay
      | ok n => exact .handler n pieces

/-! ## Places of loggers -/

/-- The names of the loggers, in the order in which they were made. -/
def names (r : Registry) : List String := r.loggers.map Logger.name

theorem names_map (r : Registry) {f : Logger → Logger} (hf : ∀ l, (f l).name = l.name)
    (level : Int) : names ⟨r.loggers.map f, level⟩ = r.names := by
  rw [names, names, List.map_map]
  exact List.map_congr_left fun l _ => hf l

/-- Names are only added, and only new ones. -/
theorem Leads.names {level : Option Int} (h : Leads r level s) :
    r.names <+: s.names ∧ (r.names.Nodup → s.names.Nodup) := by
  cases h with
  | stay => exact ⟨List.prefix_rfl, id⟩
  | add name hnew =>
    have hnames : Registry.names ⟨r.loggers ++
        [freshLogger name r.defaultLevel FormatPiece.standard], r.defaultLevel⟩ =
          r.names ++ [name] := List.map_append
    rw [hnames]
    refine ⟨List.prefix_append _ _, fun hn => hn.append (List.nodup_singleton _) ?_⟩
    rw [List.disjoint_singleton]
    intro hmem
    obtain ⟨l, hl, rfl⟩ := List.mem_map.1 hmem
    exact hnew l hl rfl
  | level n | handler n format =>
    rw [names_map]
    · exact ⟨List.prefix_rfl, id⟩
    · exact fun _ => rfl

theorem names_after (r : Registry) (calls : List Call) :
    r.names <+: (r.after calls).names ∧ (r.names.Nodup → (r.after calls).names.Nodup) := by
  induction calls generalizing r with
  | nil => exact ⟨List.prefix_rfl, id⟩
  | cons c cs ih =>
    obtain ⟨hkeeps, hnodup⟩ := (leads_step r c).names
    exact ⟨hkeeps.trans (ih _).1, (ih _).2 ∘ hnodup⟩

/-- A call for a name returns the logger at a place of the registry that it leaves. -/
def Serves (r : Registry) (name : Option String) (i : Nat) : Prop :=
  (r.get name).2.loggers[i]? = some (r.get name).1

theorem get_spec (r : Registry) (name : Option String) :
    (r.get name).1 ∈ (r.get name).2.loggers ∧ (r.get name).1.name = fullName name := by
  rcases r.get_cases name with ⟨l, hl, hname, hget⟩ | ⟨-, hget⟩
  · rw [hget]
    exact ⟨hl, hname⟩
  · rw [hget]
    exact ⟨List.mem_append_right _ (List.mem_singleton_self _), rfl⟩

theorem Serves.getElem?_names {name : Option String} {i : Nat} (h : r.Serves name i) :
    (r.get name).2.names[i]? = some (fullName name) := by
  rw [names, List.getElem?_map, show _ = _ from h, ← (r.get_spec name).2]
  rfl

/-- Two calls return the logger at one place exactly when they ask for one full name, whatever
happens between them. -/
theorem Serves.eq_iff {m n : Option String} {i j : Nat} (hn : r.names.Nodup) (hi : r.Serves m i)
    {calls : List Call} (hj : ((r.get m).2.after calls).Serves n j) :
    i = j ↔ fullName m = fullName n := by
  have hfirst := (leads_step r (.get m)).names.2 hn
  obtain ⟨hbetween, hmiddle⟩ := names_after (r.get m).2 calls
  obtain ⟨hlast, hnodup⟩ := (leads_step ((r.get m).2.after calls) (.get n)).names
  -- the first logger is still at its place when the second one is returned
  have hkept : (((r.get m).2.after calls).get n).2.names[i]? = some (fullName m) := by
    obtain ⟨hlt, hname⟩ := List.getElem?_eq_some_iff.1 hi.getElem?_names
    rw [← hname]
    exact List.prefix_iff_getElem?.1 (hbetween.trans hlast) i hlt
  have hsecond := hj.getElem?_names
  constructor
  · rintro rfl
    exact Option.some.inj (hkept.symm.trans hsecond)
  · intro hfull
    rw [← hfull] at hsecond
    have hlt := (List.getElem?_eq_some_iff.1 hkept).1
    exact (List.getElem?_inj hlt (hnodup (hmiddle hfirst))).1 (hkept.trans hsecond.symm)

end Registry

end SteppedConvolution
