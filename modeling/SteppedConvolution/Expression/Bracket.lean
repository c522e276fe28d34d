import SteppedConvolution.Expression.Token

/-! # Brackets

How brackets nest in a list of lexemes. The depth of a lexeme is the number of
brackets open in front of it, and a closing bracket has the depth of its
opening one.
-/

namespace SteppedConvolution.Bracket

/-- The depths of lexemes that start at a given depth. -/
def depthsFrom (depth : Int) : List Lexeme → List Int
  | [] => []
  | .closing :: ls => (depth - 1) :: depthsFrom (depth - 1) ls
  | .opening :: ls => depth :: depthsFrom (depth + 1) ls
  | _ :: ls => depth :: depthsFrom depth ls

/-- The depth of every lexeme. -/
def depths (ls : List Lexeme) : List Int := depthsFrom 0 ls

/-- Every bracket that is closed was open, and in the end none is open. -/
def isBalancedFrom (depth : Nat) : List Lexeme → Bool
  | [] => depth = 0
  | .opening :: ls => isBalancedFrom (depth + 1) ls
  | .closing :: ls =>
    match depth with
    | 0 => false
    | d + 1 => isBalancedFrom d ls
  | _ :: ls => isBalancedFrom depth ls

/-- Brackets come in nested pairs. -/
def isBalanced (ls : List Lexeme) : Bool := isBalancedFrom 0 ls

/-- The place of the closing bracket at which the depth comes back to zero. -/
def closingFrom (depth : Int) (place : Nat) : List Lexeme → Option Nat
  | [] => none
  | .opening :: ls => closingFrom (depth + 1) (place + 1) ls
  | .closing :: ls =>
    if depth - 1 = 0 then some place else closingFrom (depth - 1) (place + 1) ls
  | _ :: ls => closingFrom depth (place + 1) ls

/-- The place of the bracket that closes the one at a place. -/
def matching? (ls : List Lexeme) (place : Nat) : Option Nat := closingFrom 0 place (ls.drop place)

end SteppedConvolution.Bracket
