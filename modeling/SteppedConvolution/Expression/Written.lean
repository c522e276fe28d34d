import SteppedConvolution.Expression.Basic

/-! # Written expressions

The text of a tree. No brackets group operands: a product of sums cannot be
written, and the trees that the parser builds are read back from their text.
-/

namespace SteppedConvolution

namespace Named

/-- The text of a name. -/
def text {α : Type} (write : α → String) : Named α → String
  | known a => write a
  | unknown name => name

end Named

namespace SignalExpr

variable {K : Type}

/-- The text of a tree, given the text of its numbers. -/
def text (write : K → String) : SignalExpr K → String
  | .vector entries => "[" ++ ", ".intercalate (entries.map write) ++ "]"
  | .time => "n"
  | .constant c => write c
  | .power base => write base ++ "^n"
  | .apply p a => p.text Primitive.name ++ "[" ++ a.text write ++ "]"
  | .combine op a b => a.text write ++ op.text Operator.sign ++ b.text write
  | .foreign content => content

/-- The text of a tree in which every name stands for something. -/
def text? (write : K → String) (e : SignalExpr K) : Option String :=
  if e.namesKnown then some (e.text write) else none

end SignalExpr

end SteppedConvolution
