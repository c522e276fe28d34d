import SteppedConvolution.Session.Basic

/-! # The engine

An engine owns at most one session and moves through it: forward by one sample,
back to an earlier cursor, or to any sample without moving. With self-checks on,
every move is followed by a consistency check, whose failure does not undo the
move.
-/

namespace SteppedConvolution

variable {K : Type} [Scalar K] {α β : Type}

/-- The convolution engine. -/
structure Engine (K : Type) [Scalar K] where
  tolerances : Tolerances K
  /-- Whether every move is followed by a consistency check. -/
  selfChecks : Bool
  session : Option (Session K)

/-- An engine after an operation, with what the operation noted and how it ended. -/
structure Transition (K : Type) [Scalar K] (α : Type) where
  engine : Engine K
  events : List (Event K)
  outcome : Except (Fault K) α

/-- An index as a caller gives it: an integer, or a value of another type. -/
inductive IndexArgument where
  | integer (value : Int)
  | other (type : String)
  deriving DecidableEq, Repr

/-- The integer of an index between 0 and a bound, both included. -/
def IndexArgument.resolve (upper : Int) : IndexArgument → Except (Fault K) Nat
  | other type => .error (.state (.notAnIndex type))
  | integer i =>
    if 0 ≤ i ∧ i ≤ upper then .ok i.toNat else .error (.state (.indexOutOfRange i upper))

namespace Engine

/-- An engine without a session. -/
def idle (tolerances : Tolerances K) : Engine K := ⟨tolerances, false, none⟩

/-- The parts of the session are consistent; without a session they are. -/
def isConsistent (e : Engine K) : Bool :=
  match e.session with
  | none => true
  | some s => s.isConsistent

/-- The session, for operations that need one. -/
def requireSession (e : Engine K) : Except (Fault K) (Session K) :=
  match e.session with
  | none => .error (.state .notInitialized)
  | some s => .ok s

/-- End an operation that leaves the engine as it is. -/
def stay (e : Engine K) (result : Logged K α) : Transition K α := ⟨e, result.events, result.outcome⟩

/-- End an operation that has moved to a session. -/
def move (e : Engine K) (s : Session K) (events : List (Event K)) (a : α) : Transition K α :=
  let moved := { e with session := some s }
  ⟨moved, events,
    if moved.selfChecks && !moved.isConsistent then .error (.state .inconsistent) else .ok a⟩

/-- Switch the self-checks on or off. -/
def setSelfChecks (e : Engine K) (on : Bool) : Engine K := { e with selfChecks := on }

/-- Start a session. Where that fails, the previous session stays. -/
def start (e : Engine K) (x h : SignalInput K) (nx nh : Option (GridInput K)) :
    Transition K Unit :=
  let started := Session.ofInputs e.tolerances x h nx nh
  match started.outcome with
  | .error f => ⟨e, started.events, .error f⟩
  | .ok s => e.move s started.events ()

/-- Drop the session. -/
def reset (e : Engine K) : Transition K Unit :=
  ⟨{ e with session := none }, [.dropped], .ok ()⟩

/-- The session after its next sample has been revealed, with what the step shows. -/
def reveal (s : Session K) : Logged K (Step K × Session K) := do
  let step ← s.stepAt s.cursor
  match s.output with
  | none => Logged.fail (.plain (.missingOutput .write))
  | some output =>
    match Indexing.replaceAt? output s.cursor step.sample with
    | none => Logged.fail (.plain .noSuchEntry)
    | some output => do
      let s := { s with cursor := s.cursor + 1, output := some output }
      Logged.note (.revealed s.cursor s.length step.position step.sample)
      Logged.noteIf s.isComplete .completed
      pure (step, s)

/-- Reveal the next sample. There is no step when every sample is revealed. -/
def step (e : Engine K) : Transition K (Option (Step K)) :=
  match e.requireSession with
  | .error f => e.stay (Logged.fail f)
  | .ok s =>
    if s.isComplete then e.stay (pure none)
    else
      let revealed := reveal s
      match revealed.outcome with
      | .error f => ⟨e, revealed.events, .error f⟩
      | .ok (step, s) => e.move s revealed.events (some step)

/-- What the step to an index shows, without moving. -/
def stepAt (e : Engine K) (index : IndexArgument) : Transition K (Step K) :=
  match e.requireSession with
  | .error f => e.stay (Logged.fail f)
  | .ok s =>
    match index.resolve (s.length - 1) with
    | .error f => e.stay (Logged.fail f)
    | .ok i => e.stay (s.stepAt i)

/-- Move the cursor back and clear the samples from there on. -/
def rewind (e : Engine K) (index : IndexArgument) : Transition K Unit :=
  match e.requireSession with
  | .error f => e.stay (Logged.fail f)
  | .ok s =>
    match index.resolve s.cursor with
    | .error f => e.stay (Logged.fail f)
    | .ok i =>
      let s := { s with cursor := i }
      match s.output with
      | none =>
        ⟨{ e with session := some s }, [], .error (.plain (.missingOutput .write))⟩
      | some output =>
        e.move { s with output := some (Indexing.overwriteFrom output i 0) } [.rewound i] ()

/-- What the last revealed sample's step shows. There is none when no sample is revealed. -/
def lastStep (e : Engine K) : Transition K (Option (Step K)) :=
  match e.requireSession with
  | .error f => e.stay (Logged.fail f)
  | .ok s =>
    if s.cursor = 0 then e.stay (pure none)
    else e.stay (some <$> s.stepAt (s.cursor - 1))

/-- Take the last step back, and show the step that is the last one then. -/
def stepBack (e : Engine K) : Transition K (Option (Step K)) :=
  match e.requireSession with
  | .error f => e.stay (Logged.fail f)
  | .ok s =>
    if s.cursor = 0 then e.stay (pure none)
    else
      let back := e.rewind (.integer (s.cursor - 1))
      match back.outcome with
      | .error f => ⟨back.engine, back.events, .error f⟩
      | .ok () =>
        let shown := back.engine.lastStep
        ⟨shown.engine, back.events ++ shown.events, shown.outcome⟩

/-- The share of revealed samples in percent. -/
def progress (e : Engine K) : K :=
  match e.session with
  | none => 0
  | some s => s.progress

/-- Every sample is revealed. -/
def isComplete (e : Engine K) : Bool :=
  match e.session with
  | none => false
  | some s => s.isComplete

/-- A step of a run with the progress made by it. -/
structure RunEntry (K : Type) where
  step : Step K
  progress : K

/-- Take at most `n` steps; a failing one ends the run. -/
def runFor : Nat → Engine K → Transition K (List (RunEntry K))
  | 0, e => e.stay (pure [])
  | n + 1, e =>
    let first := e.step
    match first.outcome with
    | .error f => ⟨first.engine, first.events, .error f⟩
    | .ok none => ⟨first.engine, first.events, .ok []⟩
    | .ok (some step) =>
      let rest := runFor n first.engine
      ⟨rest.engine, first.events ++ rest.events,
        rest.outcome.map (⟨step, first.engine.progress⟩ :: ·)⟩

/-- Step until every sample is revealed. -/
def run (e : Engine K) : Transition K (List (RunEntry K)) :=
  match e.requireSession with
  | .error f => e.stay (Logged.fail f)
  | .ok s => runFor (s.length - s.cursor).toNat e

end Engine

end SteppedConvolution
