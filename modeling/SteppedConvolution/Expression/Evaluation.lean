import SteppedConvolution.Journal.Logged
import SteppedConvolution.Shaped.Lemmas

/-! # Evaluating expressions

The values of a tree at a list of positions. The transcendental functions and the
power are given by an interpretation; everything else is arithmetic. Every value
but the entry of a vector depends on its own position alone, so positions in an
array differ from those in a list only in where the entries of a vector lie.
-/

namespace SteppedConvolution

/-- Functions on scalars that arithmetic does not give. -/
structure Interpretation (K : Type) where
  sine : K → K
  cosine : K → K
  tangent : K → K
  exponential : K → K
  power : K → K → K

variable {K : Type} [Scalar K]

namespace Primitive

/-- The value of a primitive. The step is 1 from 0 on, the impulse 1 where the argument is
closer to 0 than the given width, the bell `exp (-a² / 2)`. -/
def value (interpretation : Interpretation K) (width : K) : Primitive → K → K
  | step, a => if 0 ≤ a then 1 else 0
  | impulse, a => if Scalar.magnitude a < width then 1 else 0
  | sine, a => interpretation.sine a
  | cosine, a => interpretation.cosine a
  | tangent, a => interpretation.tangent a
  | bell, a => interpretation.exponential (Scalar.half (-(a * a)))
  | magnitude, a => Scalar.magnitude a

end Primitive

namespace Named

/-- The values of a named primitive. -/
def primitiveValues (interpretation : Interpretation K) (width : K) (p : Named Primitive)
    (arguments : List K) : Except (Fault K) (List K) :=
  match p with
  | known p => .ok (arguments.map (p.value interpretation width))
  | unknown name => .error (.plain (.unsupportedPrimitive name))

/-- The values of a named operator. -/
def operatorValues (op : Named Operator) (left right : List K) : Except (Fault K) (List K) :=
  match op with
  | known op => .ok (List.zipWith op.apply left right)
  | unknown name => .error (.plain (.unsupportedOperator name))

end Named

namespace SignalExpr

/-- A vector on the leading positions, with zeros behind it. -/
def alignLeft (entries : List K) (n : Nat) : List K :=
  entries.take n ++ List.replicate (n - entries.length) 0

/-- A vector on a number of positions. One that is too long is cut, which is noted. -/
def onPositions (n : Nat) (entries : List K) : Logged K (List K) := do
  Logged.noteIf (decide (n < entries.length)) (.truncatedVector entries.length n)
  pure (alignLeft entries n)

/-- A vector on an array of positions. It fills as many leading rows as it has entries, each of
them with the whole vector. -/
def onArray (positions : Shaped K) (entries : List K) : Logged K (List K) := do
  let rows ← Logged.ofExcept (Fault.require .noLength positions.rowCount?)
  Logged.noteIf (decide (rows < entries.length)) (.truncatedVector entries.length rows)
  let kept := entries.take rows
  let filled ← Logged.ofExcept (Fault.require .incompatibleShapes
    ((Shaped.ofList kept).stretch? (kept.length :: positions.shape.tail)))
  pure (alignLeft filled.entries positions.entries.length)

/-- The values of a tree at positions, given where its vectors lie on them. Both operands are
evaluated before their operator is looked at. -/
def evaluateWith (interpretation : Interpretation K) (width : K)
    (lay : List K → Logged K (List K)) (positions : List K) : SignalExpr K → Logged K (List K)
  | .vector entries => lay entries
  | .time => pure positions
  | .constant c => pure (positions.map fun _ => c)
  | .power base => pure (positions.map (interpretation.power base))
  | .apply p a => do
    let arguments ← a.evaluateWith interpretation width lay positions
    Logged.ofExcept (p.primitiveValues interpretation width arguments)
  | .combine op a b => do
    let left ← a.evaluateWith interpretation width lay positions
    let right ← b.evaluateWith interpretation width lay positions
    Logged.ofExcept (op.operatorValues left right)
  | .foreign _ => Logged.fail (.plain .unsupportedNode)

/-- The values of a tree at positions. -/
def evaluate (interpretation : Interpretation K) (width : K) (positions : List K)
    (e : SignalExpr K) : Logged K (List K) :=
  e.evaluateWith interpretation width (onPositions positions.length) positions

/-- The values of a tree at an array of positions. -/
def evaluateArray (interpretation : Interpretation K) (width : K) (positions : Shaped K)
    (e : SignalExpr K) : Logged K (List K) :=
  e.evaluateWith interpretation width (onArray positions) positions.entries

theorem alignLeft_take (entries : List K) (n : Nat) :
    alignLeft (entries.take n) n = alignLeft entries n := by
  have hl : n - (entries.take n).length = n - entries.length := by
    rw [List.length_take]
    omega
  rw [alignLeft, alignLeft, hl, List.take_take, Nat.min_self]

/-- On an array of one dimension vectors lie as on a list. -/
theorem onArray_ofList (positions entries : List K) :
    onArray (.ofList positions) entries = onPositions positions.length entries := by
  have hs := Shaped.stretch?_ofList (entries.take positions.length)
  simp only [onArray, onPositions, Shaped.rowCount?, Shaped.ofList, List.head?_cons,
    List.tail_cons, Fault.require, Logged.ofExcept] at hs ⊢
  rw [Logged.bind_ok, hs]
  cases (Logged.noteIf (decide (positions.length < entries.length))
    (.truncatedVector entries.length positions.length) : Logged K Unit) with
  | mk events outcome => cases outcome <;> simp [alignLeft_take]

/-- On an array of one dimension a tree has the values that it has on a list. -/
theorem evaluateArray_ofList (interpretation : Interpretation K) (width : K) (positions : List K)
    (e : SignalExpr K) :
    e.evaluateArray interpretation width (.ofList positions) =
      e.evaluate interpretation width positions :=
  congrArg (fun lay => e.evaluateWith interpretation width lay positions)
    (funext (onArray_ofList positions))

end SignalExpr

end SteppedConvolution
