import SteppedConvolution.Fault.Basic
import SteppedConvolution.Scalar.Text
import SteppedConvolution.Text.Blank
import SteppedConvolution.Text.Quoted

/-! # Messages of faults

The wording of every fault. Failures of the surroundings, such as a missing entry
of a list, have no wording of their own.
-/

namespace SteppedConvolution

open Binary Text

/-- The wording of a defect of named positions. -/
def GridDefect.message (name : String) : GridDefect → String
  | notOneDimensional rank => name ++ " must be one-dimensional, got " ++ toString rank ++ "D"
  | empty => name ++ " is empty"
  | nonFinite => name ++ " contains non-finite values"
  | notIncreasing => name ++ " must have strictly increasing values"
  | notUniform => name ++ " must be uniformly spaced"

/-- The wording of a defect of named samples. -/
def SampleDefect.message (name : String) : SampleDefect → String
  | notNumeric => name ++ " must be numeric: "
  | notOneDimensional rank =>
    "Expected 1D array for " ++ name ++ ", got " ++ toString rank ++ "D array"
  | empty => name ++ " is empty"
  | undefinedValues => name ++ " contains NaN values"
  | infiniteValues => name ++ " contains Inf values"

/-- The name of a tolerance in settings. -/
def ToleranceName.label : ToleranceName → String
  | gridUniformity => "grid_uniformity"
  | deltaWidth => "delta_width"
  | compliance => "compliance"
  | nonzero => "nonzero"

/-- The wording of a fault of a text. -/
def TextFault.message (source : Option String) : TextFault Float → String
  | emptyGrid => "Time grid string is empty"
  | emptyExpression => "Input string is empty"
  | emptyBrackets => "Empty brackets not allowed"
  | nestedBrackets => "Nested brackets are not supported: " ++ quote? source
  | malformedEntries => "Invalid numbers in bracket notation " ++ quote? source
  | unreadableNumber part =>
    "Cannot parse " ++ quote part ++ " as a number in time grid " ++ quote? source
  | tooManyColons => "Invalid colon notation " ++ quote? source ++ ": too many colons"
  | nonFiniteGrid => "Time grid " ++ quote? source ++ " contains non-finite values"
  | zeroStep => "Step size cannot be zero"
  | rangeNotRising start stop =>
    "Start value (" ++ generalText start ++ ") must be less than end value (" ++
      generalText stop ++ ")"
  | risingRangeNotRising start stop =>
    "For positive step, start (" ++ generalText start ++ ") must be less than end (" ++
      generalText stop ++ ")"
  | fallingRangeNotFalling start stop =>
    "For negative step, start (" ++ generalText start ++ ") must be greater than end (" ++
      generalText stop ++ ")"
  | stillNotIncreasing => "Time grid " ++ quote? source ++ " cannot be made strictly increasing"
  | invalidGrid defect =>
    "Time grid " ++ quote? source ++ " is not uniformly spaced: " ++ defect.message "Time grid"
  | division => "Division is not supported: " ++ quote? source
  | complexLiteral => "Complex literals are not supported: " ++ quote? source
  | unknownIdentifier name => "Unknown identifier " ++ quote name ++ " in " ++ quote? source
  | unexpectedCharacter c position =>
    "Unexpected character " ++ quote (String.singleton c) ++ " at position " ++
      toString position ++ " in " ++ quote? source
  | unbalancedBrackets => "Unbalanced brackets in " ++ quote? source
  | unparseable =>
    "Unable to parse expression " ++
      quote? (source.map fun s => String.ofList (compact s.toList))
  | wrongLength count total =>
    "Output signal length (" ++ toString count ++ ") does not match time grid length (" ++
      toString total ++ ")"

/-- The wording of a fault of data. -/
def DataFault.message : DataFault Float → String
  | grid name d => d.message name
  | samples name d => d.message name
  | emptyRange start stop step =>
    "Range " ++ exactText start ++ ":" ++ exactText step ++ ":" ++ exactText stop ++ " is empty"
  | signalLength count total =>
    "Signal has " ++ toString count ++ " samples but its grid has " ++ toString total ++
      " positions"
  | missingGrid => "A time grid for x is required"
  | shortGrid name count total =>
    "Signal " ++ name ++ " has " ++ toString count ++ " samples but its grid has only " ++
      toString total ++ " positions"
  | negativeTolerance name value =>
    "Tolerance '" ++ name.label ++ "' must be non-negative, got " ++ exactText value

/-- The wording of a misuse of the engine. -/
def StateFault.message : StateFault → String
  | notInitialized => "Engine not initialized; call initialize() first"
  | notAnIndex type => "Index must be an integer, got " ++ type
  | indexOutOfRange index upper =>
    "Index " ++ toString index ++ " out of range [0, " ++ toString upper ++ "]"
  | inconsistent => "Engine state is inconsistent"

/-- The wording of other failures, where they have one. -/
def PlainFault.message : PlainFault → String
  | zeroStep => "Step size cannot be zero"
  | emptyOutput length => "Output length must be positive, got " ++ toString length
  | unsupportedPrimitive name => "Unsupported primitive: " ++ quote name
  | unsupportedOperator name => "Unsupported operator: " ++ quote name
  | unsupportedNode => "Unsupported expression node: str"
  | unknownName | invalidFormat | notNumeric _ | notWhole _ | noSuchEntry | noLength
  | incompatibleShapes | ambiguousCondition | arrayForNumber | tooLarge | tooDeep
  | tooManyPositions | unknownLevel | notALevel | noPeak | missingOutput _ | uncheckedPositions => ""

/-- The wording of a fault. -/
def Fault.message : Fault Float → String
  | text cause source => cause.message source
  | data cause => cause.message
  | state cause => cause.message
  | plain cause => cause.message

end SteppedConvolution
