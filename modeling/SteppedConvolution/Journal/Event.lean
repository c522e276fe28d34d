import SteppedConvolution.Compliance.Check
import SteppedConvolution.Expression.Basic
import SteppedConvolution.TimeGrid.Basic

/-! # Events

What operations note while they run. An event keeps the values it reports; its
severity and the part of the library it comes from follow from its kind.
-/

namespace SteppedConvolution

/-- How much an event matters. -/
inductive Severity where
  | debug
  | info
  | warning
  | error
  | critical
  deriving DecidableEq, Repr

/-- The level of a severity. -/
def Severity.level : Severity → Int
  | debug => 10
  | info => 20
  | warning => 30
  | error => 40
  | critical => 50

/-- The part of the library that an event comes from. -/
inductive Source where
  | timeGrid
  | expression
  | evaluation
  | sampling
  | canvas
  | engine
  deriving DecidableEq, Repr

/-- Something that an operation notes. -/
inductive Event (K : Type) [Scalar K] where
  | readingGrid (text : String)
  | sortedGrid (text : String)
  | removedDuplicates (text : String)
  | readGrid (text : String) (grid : TimeGrid K)
  | parsedExpression (text : String) (expression : SignalExpr K)
  | truncatedVector (entries positions : Nat)
  | readingSignal (text : Option String) (grid : TimeGrid K)
  | replacedNonFinite (text : String) (count : Nat)
  | misaligned (count : Nat)
  | unified (grid : TimeGrid K)
  | usedLeading (count total : Nat)
  | started (samplesX samplesH samplesY : Nat) (start stop : K)
  | revealed (cursor : Int) (total : Nat) (position sample : K)
  | completed
  | rewound (index : Nat)
  | dropped
  | clampedProducts (position : K) (count : Nat)
  | compliant
  | violated (failed : List (Check K))

namespace Event

variable {K : Type} [Scalar K]

/-- How much an event matters. -/
def severity : Event K → Severity
  | readingGrid _ | readGrid .. | parsedExpression .. | readingSignal .. | unified _
  | usedLeading .. | revealed .. | rewound _ | dropped | compliant => .debug
  | started .. | completed => .info
  | sortedGrid _ | removedDuplicates _ | truncatedVector .. | replacedNonFinite ..
  | misaligned _ | clampedProducts .. | violated _ => .warning

/-- Where an event comes from. -/
def source : Event K → Source
  | readingGrid _ | sortedGrid _ | removedDuplicates _ | readGrid .. => .timeGrid
  | parsedExpression .. => .expression
  | truncatedVector .. => .evaluation
  | readingSignal .. | replacedNonFinite .. => .sampling
  | misaligned _ | unified _ => .canvas
  | usedLeading .. | started .. | revealed .. | completed | rewound _ | dropped
  | clampedProducts .. | compliant | violated _ => .engine

end Event

end SteppedConvolution
