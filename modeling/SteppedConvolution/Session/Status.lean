import SteppedConvolution.Compliance.Comparison
import SteppedConvolution.Compliance.Report
import SteppedConvolution.Session.Engine

/-! # The state of an engine

What an engine says about itself: its phase, a snapshot for displays, and how its
session stands against theory and against the reference.
-/

namespace SteppedConvolution

variable {K : Type} [Scalar K]

/-- The phases of an engine. -/
inductive Phase where
  | idle
  | ready
  | running
  | completed
  deriving DecidableEq, Repr

/-- What a snapshot shows only while there is a session. -/
structure SessionInfo (K : Type) where
  /-- The position of the last revealed sample. -/
  position : Option K
  canvasSize : Nat
  canvasStep : K
  start : K
  stop : K
  peakX : K
  peakH : K
  peakOutput : K
  comparison : Comparison K

/-- A snapshot of an engine. -/
structure EngineInfo (K : Type) where
  phase : Phase
  /-- The share of revealed samples in percent. -/
  progress : K
  isComplete : Bool
  outputLength : Nat
  cursor : Int
  session : Option (SessionInfo K)

namespace Session

/-- The revealed samples with the reference. A missing buffer matches no reference. -/
def comparison (tolerance : K) (s : Session K) : Comparison K :=
  match s.output with
  | none => Comparison.incomparable false
  | some output => Comparison.ofLists tolerance output s.reference

/-- The largest magnitude of a non-empty list. -/
def peakOf (xs : List K) : Except (Fault K) K :=
  if xs = [] then .error (.plain .noPeak) else .ok (Scalar.peak xs)

/-- The position of the last revealed sample, if one is revealed. -/
def currentPosition (s : Session K) : Except (Fault K) (Option K) :=
  if 0 < s.cursor ∧ s.cursor ≤ s.length then
    (entry s.outputGrid.values (s.cursor - 1)).map some
  else .ok none

/-- What a snapshot shows of a session, with the position of the last revealed sample. -/
def info (tolerance : K) (position : Option K) (s : Session K) :
    Except (Fault K) (SessionInfo K) := do
  let peakX ← peakOf s.x
  let peakH ← peakOf s.h
  let output ←
    match s.output with
    | none => throw (.plain (.missingOutput .measure))
    | some output => pure output
  let peakOutput ← peakOf output
  pure
    { position
      canvasSize := s.canvas.grid.size
      canvasStep := s.canvas.grid.step
      start := s.outputGrid.start
      stop := s.outputGrid.stop
      peakX, peakH, peakOutput
      comparison := s.comparison tolerance }

/-- The report on a session. -/
def report (tolerance : K) (s : Session K) : Except (Fault K) (Report K) :=
  match s.nx with
  | .unchecked _ => .error (.plain .uncheckedPositions)
  | .checked nx => do
    let evidence (output : List K) : Evidence K :=
      { x := s.x, h := s.h, nx := nx.values, nh := s.nh.values, reference := s.reference
        positions := s.outputGrid.values, output, revealed := s.cursor }
    match s.output with
    | some output => (evidence output).report tolerance
    | none => do
      let _ ← (evidence []).report tolerance
      throw (.plain (.missingOutput .slice))

end Session

namespace Engine

/-- The phase of an engine. -/
def phase (e : Engine K) : Phase :=
  match e.session with
  | none => .idle
  | some s =>
    if s.isComplete then .completed else if 0 < s.cursor then .running else .ready

/-- Stepping has started on the session. -/
def needsReset (e : Engine K) : Bool := e.phase = .running || e.phase = .completed

/-- The number of revealed samples. -/
def cursor (e : Engine K) : Int :=
  match e.session with
  | none => 0
  | some s => s.cursor

/-- The share of revealed samples for displays. -/
def shownProgress (e : Engine K) : Except (Fault K) K :=
  match e.session with
  | none => .ok 0
  | some s => s.shownProgress

/-- The number of output samples. -/
def outputLength (e : Engine K) : Nat :=
  match e.session with
  | none => 0
  | some s => s.length

/-- The revealed samples with zeros behind them. -/
def output (e : Engine K) : Except (Fault K) (List K) :=
  match e.session with
  | none => .ok []
  | some s =>
    match s.output with
    | none => .error (.plain (.missingOutput .copy))
    | some output => .ok output

/-- The full convolution. -/
def reference (e : Engine K) : Except (Fault K) (List K) := e.requireSession.map Session.reference

/-- The positions and samples of the full convolution. -/
def completeOutput (e : Engine K) : Except (Fault K) (TimeGrid K × List K) :=
  e.requireSession.map fun s => (s.outputGrid, s.reference)

/-- The shared grid of the session. -/
def sharedGrid (e : Engine K) : Except (Fault K) (TimeGrid K) :=
  e.requireSession.map fun s => s.canvas.grid

/-- The revealed samples compared with the reference. -/
def comparison (e : Engine K) : Except (Fault K) (Comparison K) :=
  e.requireSession.map (Session.comparison e.tolerances.compliance)

/-- The snapshot of an engine. -/
def info (e : Engine K) : Except (Fault K) (EngineInfo K) :=
  match e.session with
  | none =>
    .ok
      { phase := .idle
        progress := 0
        isComplete := false
        outputLength := 0
        cursor := 0
        session := none }
  | some s => do
    let position ← s.currentPosition
    let progress ← s.shownProgress
    let session ← s.info e.tolerances.compliance position
    pure
      { phase := e.phase
        progress
        isComplete := s.isComplete
        outputLength := s.length
        cursor := s.cursor
        session := some session }

/-- Check the session against theory. The verdict is noted. -/
def verify (e : Engine K) : Logged K (Report K) := do
  let s ← Logged.ofExcept e.requireSession
  let report ← Logged.ofExcept (s.report e.tolerances.compliance)
  Logged.note (if report.isValid then .compliant else .violated report.failures)
  pure report

end Engine

end SteppedConvolution
