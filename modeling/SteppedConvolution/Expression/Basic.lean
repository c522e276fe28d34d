import SteppedConvolution.Scalar.Basic

/-! # Signal expressions

Trees over the time variable: vectors, constants, powers `base ^ n`, applications
of the named primitives, and sums, differences and products. A tree that was not
parsed may name a primitive or an operator that does not exist, or hold a leaf
that is no expression at all.
-/

namespace SteppedConvolution

/-- The named signal primitives. -/
inductive Primitive where
  | step
  | impulse
  | sine
  | cosine
  | tangent
  | bell
  | magnitude
  deriving DecidableEq, Repr

namespace Primitive

/-- The name of a primitive in expressions. -/
def name : Primitive → String
  | step => "u"
  | impulse => "delta"
  | sine => "sin"
  | cosine => "cos"
  | tangent => "tan"
  | bell => "gauss"
  | magnitude => "abs"

/-- All primitives. -/
def all : List Primitive := [step, impulse, sine, cosine, tangent, bell, magnitude]

/-- The primitive with a name. -/
def ofName? (name : String) : Option Primitive := all.find? fun p => p.name = name

/-- A primitive is found by its name. -/
theorem ofName?_name (p : Primitive) : ofName? p.name = some p := by cases p <;> rfl

end Primitive

/-- The binary operators. -/
inductive Operator where
  | add
  | subtract
  | multiply
  deriving DecidableEq, Repr

namespace Operator

/-- The sign of an operator in expressions. -/
def sign : Operator → String
  | add => "+"
  | subtract => "-"
  | multiply => "*"

/-- All operators. -/
def all : List Operator := [add, subtract, multiply]

/-- The operator with a sign. -/
def ofSign? (sign : String) : Option Operator := all.find? fun op => op.sign = sign

/-- An operator is found by its sign. -/
theorem ofSign?_sign (op : Operator) : ofSign? op.sign = some op := by cases op <;> rfl

/-- The operator on scalars. -/
def apply {K : Type} [Scalar K] : Operator → K → K → K
  | add, a, b => a + b
  | subtract, a, b => a - b
  | multiply, a, b => a * b

end Operator

/-- A name that stands for something, or for nothing. -/
inductive Named (α : Type) where
  | known (meaning : α)
  | unknown (name : String)
  deriving DecidableEq, Repr

/-- A signal as an expression in the time variable. -/
inductive SignalExpr (K : Type) where
  | vector (entries : List K)
  | time
  | constant (value : K)
  | power (base : K)
  | apply (primitive : Named Primitive) (argument : SignalExpr K)
  | combine (operator : Named Operator) (left right : SignalExpr K)
  | foreign (content : String)
  deriving DecidableEq, Repr

namespace SignalExpr

variable {K : Type}

/-- Apply a primitive. -/
def call (p : Primitive) (argument : SignalExpr K) : SignalExpr K := .apply (.known p) argument

/-- The sum of two expressions. -/
def plus (a b : SignalExpr K) : SignalExpr K := .combine (.known .add) a b

/-- The difference of two expressions. -/
def minus (a b : SignalExpr K) : SignalExpr K := .combine (.known .subtract) a b

/-- The product of two expressions. -/
def times (a b : SignalExpr K) : SignalExpr K := .combine (.known .multiply) a b

/-- Every name in the tree stands for something. -/
def namesKnown : SignalExpr K → Bool
  | .apply (.known _) a => a.namesKnown
  | .apply (.unknown _) _ => false
  | .combine (.known _) a b => a.namesKnown && b.namesKnown
  | .combine (.unknown _) _ _ => false
  | _ => true

/-- Equality of trees, where numbers are compared as numbers. -/
def same [Scalar K] : SignalExpr K → SignalExpr K → Bool
  | .vector a, .vector b => a == b
  | .time, .time => true
  | .constant a, .constant b => a == b
  | .power a, .power b => a == b
  | .apply p a, .apply q b => p = q && a.same b
  | .combine p a c, .combine q b d => p = q && a.same b && c.same d
  | .foreign a, .foreign b => a = b
  | _, _ => false

end SignalExpr

/-- The primitive with a name, or the name alone. -/
def Primitive.named (name : String) : Named Primitive :=
  match ofName? name with
  | some p => .known p
  | none => .unknown name

/-- The operator with a sign, or the sign alone. -/
def Operator.named (sign : String) : Named Operator :=
  match ofSign? sign with
  | some op => .known op
  | none => .unknown sign

end SteppedConvolution
