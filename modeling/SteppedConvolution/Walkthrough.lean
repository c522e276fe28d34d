import SteppedConvolution.Compliance.Written
import SteppedConvolution.Expression.Machine
import SteppedConvolution.Session.Status
import SteppedConvolution.Signal.Sampling
import SteppedConvolution.TimeGrid.Reading

/-! # A walk through a convolution

Three worked examples in text: a decaying exponential convolved with a pulse step
by step, the theory report on the result, and the response to a unit impulse.
-/

namespace SteppedConvolution.Walkthrough

open Binary

/-- The standard tolerances over doubles. -/
def tolerances : Tolerances Float := ⟨ToleranceSettings.standard, by decide +kernel⟩

/-- A title between two rules. -/
def heading (title : String) : List String :=
  let rule := String.ofList (List.replicate 60 '=')
  [rule, title, rule]

/-- Spaces in front, up to a width. -/
def alignRight (width : Nat) (text : String) : String :=
  String.ofList (Decimal.alignRight width text.toList)

/-- One step of the first example. -/
def stepLine (entry : Engine.RunEntry Float) : String :=
  let overlap := entry.step.product.countP fun a => !(a == 0)
  "n = " ++ alignRight 5 (generalText entry.step.position) ++
    "   y[n] = " ++ alignRight 8 (fixedText 4 entry.step.sample) ++
    "   overlapping samples: " ++ toString overlap ++
    "   (" ++ alignRight 5 (fixedText 1 entry.progress) ++ "%)"

/-- Whole numbers between brackets, each with its point. -/
def wholeListText (vs : List Float) : String :=
  "[" ++ " ".intercalate (vs.map fun v => generalText v ++ ".") ++ "]"

/-- A grid and a signal on it, both from text. -/
def signal (grid expression : String) : Except (Fault Float) (Signal Float) := do
  let grid ← (TimeGrid.read (some grid)).outcome
  (Signal.ofText Parser.machineLevels .machine tolerances (some expression) (.grid grid)).outcome

/-- A decaying exponential convolved with a pulse, with the engine at the end. -/
def stepping : Except (Fault Float) (List String × Engine Float) := do
  let x ← signal "-2:6" "0.8^n*u[n]"
  let h ← signal "-2:6" "u[n]-u[n-3]"
  let started := (Engine.idle tolerances).start (.signal x) (.signal h) none none
  started.outcome
  let run := started.engine.run
  let entries ← run.outcome
  pure (heading "Example 1: Stepping through y[n] = x[n] * h[n]" ++ entries.map stepLine ++ [""],
    run.engine)

/-- The theory report on an engine. -/
def compliance (engine : Engine Float) : Except (Fault Float) (List String) := do
  let report ← engine.verify.outcome
  let comparison ← engine.comparison
  pure (heading "Example 2: Convolution theory report" ++ report.lines ++
    ["Comparison with reference: " ++ comparison.grade.text, ""])

/-- The unit impulse convolved with a shifted impulse. -/
def impulse : Except (Fault Float) (List String) := do
  let h ← signal "0:4" "delta[n-2]"
  let started := (Engine.idle tolerances).start (.samples (.ofList [1]))
    (.samples (.ofList h.samples)) (some (.grid h.grid)) (some (.grid h.grid))
  started.outcome
  let (grid, y) ← started.engine.completeOutput
  let report ← started.engine.verify.outcome
  pure (heading "Example 3: Impulse response" ++
    ["Output positions: " ++ wholeListText grid.values,
      "Output samples:   " ++ wholeListText y,
      "Impulse check: " ++ report.impulseResponse.text, ""])

/-- The lines of all examples. -/
def lines : Except (Fault Float) (List String) := do
  let (first, engine) ← stepping
  let second ← compliance engine
  let third ← impulse
  pure (first ++ second ++ third)

/-- The text of all examples. -/
def text : Except (Fault Float) String :=
  lines.map fun ls => String.join (ls.map (· ++ "\n"))

end SteppedConvolution.Walkthrough
