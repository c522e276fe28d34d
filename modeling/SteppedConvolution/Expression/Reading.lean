import SteppedConvolution.Expression.Lexer
import SteppedConvolution.Expression.Parser
import SteppedConvolution.Journal.Logged
import SteppedConvolution.TimeGrid.Bracketed

/-! # Reading expressions

A text in one pair of brackets is a vector, where blanks separate numbers. Any
other text is split into tokens, where blanks mean nothing, and parsed on a stack
that has room for a number of levels.
-/

namespace SteppedConvolution.SignalExpr

open Text

variable {K : Type} [Scalar K]

/-- A text in one pair of square brackets. -/
def isVectorText (text : List Char) : Bool :=
  text.head? = some '[' && text.getLast? = some ']' &&
    !(dropEnds text).any fun c => c = '[' || c = ']'

/-- The tree of a text that is neither blank nor a vector, and the text that a fault shows. -/
def parse (levels : Nat) (source stripped : List Char) : Except (Fault K) (SignalExpr K) :=
  match Lexer.tokenize stripped with
  | .error f => .error (.text f (some (String.ofList stripped)))
  | .ok tokens =>
    let lexemes := tokens.map Token.lexeme
    if !Bracket.isBalanced lexemes then
      .error (.text .unbalancedBrackets (some (String.ofList source)))
    else
      match (Parser.node levels lexemes).run with
      | .error f => .error f
      | .ok none => .error (.text .unparseable (some (String.ofList source)))
      | .ok (some e) => .ok e

/-- The tree of a text. -/
def read (levels : Nat) (text : Option String) : Logged K (SignalExpr K) :=
  match text with
  | none => Logged.fail (.text .emptyExpression none)
  | some s =>
    if isBlankText s.toList then Logged.fail (.text .emptyExpression (some s))
    else
      let stripped := strip s.toList
      if isVectorText stripped then
        match Bracketed.values stripped with
        | .error f => Logged.fail (.text f (some (String.ofList stripped)))
        | .ok entries => pure (.vector entries)
      else do
        let e ← Logged.ofExcept (parse levels s.toList stripped)
        Logged.note (.parsedExpression s e)
        pure e

end SteppedConvolution.SignalExpr
