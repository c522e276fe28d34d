import SteppedConvolution.Tolerances
import SteppedConvolution.TimeGrid.Basic

/-! # Faults

Everything that can make an operation fail, by cause. A fault keeps the values
that its message shows. Faults of a text keep the text that was read, faults of
data name the array concerned, and faults of a session say how it was misused.
-/

namespace SteppedConvolution

/-- Why a text is no time grid, no list of numbers or no expression. -/
inductive TextFault (K : Type) where
  | emptyGrid
  | emptyExpression
  | emptyBrackets
  | nestedBrackets
  | malformedEntries
  | unreadableNumber (part : String)
  | tooManyColons
  | nonFiniteGrid
  | zeroStep
  | rangeNotRising (start stop : K)
  | risingRangeNotRising (start stop : K)
  | fallingRangeNotFalling (start stop : K)
  | stillNotIncreasing
  | invalidGrid (defect : GridDefect)
  | division
  | complexLiteral
  | unknownIdentifier (name : String)
  | unexpectedCharacter (char : Char) (position : Nat)
  | unbalancedBrackets
  | unparseable
  | wrongLength (samples positions : Nat)
  deriving DecidableEq, Repr

/-- The kinds under which faults of a text are reported. -/
inductive TextFault.Kind where
  | emptyInput
  | invalidNumber
  | nonIncreasingAfterDedup
  | zeroStep
  | directionMismatch
  | tooManyColons
  | nonUniformGrid
  | nonFiniteValues
  | lengthMismatch
  | unparseableExpression
  | divisionNotSupported
  | nestedBrackets
  | complexLiteral
  | unknownIdentifier
  | unexpectedCharacter
  deriving DecidableEq, Repr

/-- The kind of a fault of a text. -/
def TextFault.kind {K : Type} : TextFault K → TextFault.Kind
  | emptyGrid | emptyExpression | emptyBrackets => .emptyInput
  | nestedBrackets => .nestedBrackets
  | malformedEntries | unreadableNumber _ => .invalidNumber
  | tooManyColons => .tooManyColons
  | nonFiniteGrid => .nonFiniteValues
  | zeroStep => .zeroStep
  | rangeNotRising .. | risingRangeNotRising .. | fallingRangeNotFalling .. => .directionMismatch
  | stillNotIncreasing => .nonIncreasingAfterDedup
  | invalidGrid _ => .nonUniformGrid
  | division => .divisionNotSupported
  | complexLiteral => .complexLiteral
  | unknownIdentifier _ => .unknownIdentifier
  | unexpectedCharacter .. => .unexpectedCharacter
  | unbalancedBrackets | unparseable => .unparseableExpression
  | wrongLength .. => .lengthMismatch

/-- What keeps an array from being a signal. -/
inductive SampleDefect where
  | notNumeric
  | notOneDimensional (rank : Nat)
  | empty
  | undefinedValues
  | infiniteValues
  deriving DecidableEq, Repr

/-- Why numeric data is refused. -/
inductive DataFault (K : Type) where
  | grid (name : String) (defect : GridDefect)
  | samples (name : String) (defect : SampleDefect)
  | emptyRange (start stop step : K)
  | signalLength (samples positions : Nat)
  | missingGrid
  | shortGrid (name : String) (samples positions : Nat)
  | negativeTolerance (name : ToleranceName) (value : K)
  deriving DecidableEq, Repr

/-- The kinds under which faults of data are reported. -/
inductive DataFault.Kind where
  | empty
  | notOneDimensional
  | nonFinite
  | nonIncreasing
  | nonUniform
  | lengthMismatch
  | invalidConfig
  deriving DecidableEq, Repr

/-- The kind of a defect of positions. -/
def GridDefect.kind : GridDefect → DataFault.Kind
  | notOneDimensional _ => .notOneDimensional
  | empty => .empty
  | nonFinite => .nonFinite
  | notIncreasing => .nonIncreasing
  | notUniform => .nonUniform

/-- The kind of a defect of samples. -/
def SampleDefect.kind : SampleDefect → DataFault.Kind
  | notNumeric | undefinedValues | infiniteValues => .nonFinite
  | notOneDimensional _ => .notOneDimensional
  | empty => .empty

/-- The kind of a fault of data. -/
def DataFault.kind {K : Type} : DataFault K → DataFault.Kind
  | grid _ d => d.kind
  | samples _ d => d.kind
  | emptyRange .. | missingGrid => .empty
  | signalLength .. | shortGrid .. => .lengthMismatch
  | negativeTolerance .. => .invalidConfig

/-- How an engine is misused. -/
inductive StateFault where
  | notInitialized
  | notAnIndex (type : String)
  | indexOutOfRange (index upper : Int)
  | inconsistent
  deriving DecidableEq, Repr

/-- What an output buffer is needed for. -/
inductive OutputUse where
  | write
  | measure
  | copy
  | slice
  deriving DecidableEq, Repr

/-- Failures that are not about a text, about data or about the state of an engine. -/
inductive PlainFault where
  | zeroStep
  | emptyOutput (length : Int)
  | unsupportedPrimitive (name : String)
  | unsupportedOperator (name : String)
  | unsupportedNode
  | unknownName
  | invalidFormat
  | notNumeric (cause : NotNumeric)
  | notWhole (cause : NotWhole)
  | noSuchEntry
  | noLength
  | incompatibleShapes
  | ambiguousCondition
  | arrayForNumber
  | tooLarge
  | tooDeep
  | tooManyPositions
  | unknownLevel
  | notALevel
  | noPeak
  | missingOutput (use : OutputUse)
  | uncheckedPositions
  deriving DecidableEq, Repr

/-- Why an operation failed. A fault of a text carries the text that was read. -/
inductive Fault (K : Type) where
  | text (cause : TextFault K) (source : Option String)
  | data (cause : DataFault K)
  | state (cause : StateFault)
  | plain (cause : PlainFault)
  deriving DecidableEq, Repr

/-- The value that is there, or a fault where there is none. -/
def Fault.require {K α : Type} (cause : PlainFault) (value? : Option α) : Except (Fault K) α :=
  match value? with
  | some a => .ok a
  | none => .error (.plain cause)

/-- The fault of a negative tolerance. -/
def Tolerances.fault {K : Type} (negative : ToleranceName × K) : Fault K :=
  .data (.negativeTolerance negative.1 negative.2)

/-- The fault of positions that are no time grid. -/
def TimeGrid.fault {K : Type} (d : GridDefect) : Fault K := .data (.grid "Time grid" d)

end SteppedConvolution
