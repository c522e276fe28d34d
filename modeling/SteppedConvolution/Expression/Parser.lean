import SteppedConvolution.Expression.Bracket
import SteppedConvolution.Fault.Basic
import SteppedConvolution.Indexing

/-! # Parsing expressions

Rules are tried in order and the first that matches wins. An expression is cut at
a `+` outside brackets, from the right; else at a `-`, from the right; else at a
`*`, from the left. A cut counts when both sides parse. What cannot be cut is a
call of a primitive or a simple term.

A leading sign rules out its own operator for the whole list, and an operator
directly behind a number is never a sum or a difference.

Lexemes are looked up by index, and a look-up beyond the list is a fault. Both sides
of a cut are parsed one level further down, and the stack has room for a number of
levels only.
-/

namespace SteppedConvolution.Parser

variable {K : Type}

/-- What a rule makes of a list of lexemes: a result, none where it does not match, or a fault. -/
abbrev Rule (K α : Type) := OptionT (Except (Fault K)) α

/-- The lexeme at an index, or a fault. -/
def entry (ls : List Lexeme) (i : Int) : Rule K Lexeme :=
  OptionT.lift (Fault.require .noSuchEntry (Indexing.entryAt? ls i))

/-- The first result of a rule on the members of a list. -/
def firstOf {α β : Type} (rule : α → Rule K β) : List α → Rule K β
  | [] => failure
  | a :: as => rule a <|> firstOf rule as

variable [Scalar K]

/-- The value of a number behind a sign. -/
def signedValue (sign : Lexeme) (n : Numeral) : K := if sign = .minus then -n.value else n.value

/-- The value of a number with or without a sign. -/
def signedNumber (ls : List Lexeme) : Rule K K :=
  (do
    guard (ls.length = 1)
    let .number n ← entry ls 0 | failure
    pure n.value) <|>
  (do
    guard (ls.length = 2)
    let sign ← entry ls 0
    guard (sign = .plus ∨ sign = .minus)
    let .number n ← entry ls 1 | failure
    pure (signedValue sign n))

/-- The constant `c`. -/
def constant (ls : List Lexeme) : Rule K (SignalExpr K) := do
  let c ← signedNumber ls
  pure (.constant c)

/-- The variable `n`. -/
def bareTime (ls : List Lexeme) : Rule K (SignalExpr K) := do
  guard (ls.length = 1)
  guard ((← entry ls 0) = .time)
  pure .time

/-- The argument `-n`. -/
def negatedTime (ls : List Lexeme) : Rule K (SignalExpr K) := do
  guard (ls.length = 2)
  guard ((← entry ls 0) = .minus)
  guard ((← entry ls 1) = .time)
  pure (.times (.constant (-1)) .time)

/-- The arguments `n+k` and `n-k`. -/
def shiftedTime (ls : List Lexeme) : Rule K (SignalExpr K) := do
  guard (ls.length = 3)
  guard ((← entry ls 0) = .time)
  let sign ← entry ls 1
  guard (sign = .plus ∨ sign = .minus)
  let .number k ← entry ls 2 | failure
  let join : SignalExpr K → SignalExpr K → SignalExpr K := if sign = .plus then .plus else .minus
  pure (join .time (.constant k.value))

/-- The argument `c*n`. -/
def scaledTime (ls : List Lexeme) : Rule K (SignalExpr K) := do
  guard (3 ≤ ls.length)
  guard ((← entry ls (-2)) = .star)
  guard ((← entry ls (-1)) = .time)
  let c ← signedNumber (ls.take (ls.length - 2))
  pure (.times (.constant c) .time)

/-- The argument of a primitive: `n`, `-n`, `n+k`, `n-k`, `c*n` or `c`. -/
def argument (ls : List Lexeme) : Rule K (SignalExpr K) :=
  bareTime ls <|> negatedTime ls <|> shiftedTime ls <|> scaledTime ls <|> constant ls

/-- A primitive and what stands in the brackets behind it, where they span the whole list. -/
def callParts (ls : List Lexeme) : Rule K (Primitive × List Lexeme) := do
  guard (3 ≤ ls.length)
  let head ← entry ls 0
  let bracket ← entry ls 1
  let .primitive p := head | failure
  guard (bracket = .opening)
  guard (Bracket.matching? ls 1 = some (ls.length - 1))
  pure (p, (ls.drop 2).dropLast)

/-- A call of a primitive on an argument, or on a call with an argument. -/
def call (ls : List Lexeme) : Rule K (SignalExpr K) := do
  let (outer, inner) ← callParts ls
  match ← optional (callParts inner) with
  | some (p, arg) =>
    let a ← argument arg
    pure (.call outer (.call p a))
  | none =>
    let a ← argument inner
    pure (.call outer a)

/-- The terms `c*n` and `c^n`. -/
def timeTerm (ls : List Lexeme) : Rule K (SignalExpr K) := do
  guard (3 ≤ ls.length)
  guard ((← entry ls (-1)) = .time)
  let c ← signedNumber (ls.take (ls.length - 2))
  match ← entry ls (-2) with
  | .star => pure (.times (.constant c) .time)
  | .caret => pure (.power c)
  | _ => failure

/-- A simple term: `n`, `c*n`, `c^n` or `c`. -/
def simple (ls : List Lexeme) : Rule K (SignalExpr K) :=
  bareTime ls <|> timeTerm ls <|> constant ls

/-- The places of an operator outside brackets, from the left. -/
def places (l : Lexeme) (ls : List Lexeme) : List Nat :=
  ((Bracket.depths ls).zip ls).zipIdx.filterMap fun e =>
    if e.1.2 = l ∧ e.1.1 = 0 then some e.2 else none

section

variable (node : List Lexeme → Rule K (SignalExpr K)) (ls : List Lexeme)

/-- The two sides of a place, joined by an operator. -/
def cutAt (op : Operator) (place : Nat) : Rule K (SignalExpr K) := do
  let a ← node (ls.take place)
  let b ← node (ls.drop (place + 1))
  pure (.combine (.known op) a b)

/-- A sum or a difference of two operands, cut at the last place where that is possible. -/
def additive (sign : Lexeme) (op : Operator) : Rule K (SignalExpr K) := do
  guard ((← entry ls 0) ≠ sign)
  firstOf (fun (place : Nat) => do
    guard (place ≠ 0)
    match ← entry ls ((place : Int) - 1) with
    | .number _ => failure
    | _ => cutAt node ls op place) (places sign ls).reverse

/-- A sum, a difference or a product. -/
def compound : Rule K (SignalExpr K) :=
  additive node ls .plus .add <|>
  additive node ls .minus .subtract <|>
  firstOf (cutAt node ls .multiply) (places .star ls)

end

/-- The tree of a list of lexemes. A list that is not empty takes one level of the stack. -/
def node : Nat → List Lexeme → Rule K (SignalExpr K)
  | _, [] => failure
  | 0, _ :: _ => OptionT.lift (.error (.plain .tooDeep))
  | levels + 1, l :: ls => compound (node levels) (l :: ls) <|> call (l :: ls) <|> simple (l :: ls)

end SteppedConvolution.Parser
