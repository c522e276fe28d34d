import SteppedConvolution.Expression.Evaluation
import SteppedConvolution.Scalar.Binary

/-! # The machine

The interpretation of expressions over doubles by the floating-point functions of
the machine, and the room on its stack.
-/

namespace SteppedConvolution

/-- The functions on doubles. -/
def Interpretation.machine : Interpretation Float where
  sine := Float.sin
  cosine := Float.cos
  tangent := Float.tan
  exponential := Float.exp
  power := Float.pow

/-- The levels of the parser on a stack of a thousand calls. A level takes three of them, and
some are open when the parser starts. -/
def Parser.machineLevels : Nat := 331

end SteppedConvolution
