import SteppedConvolution.Text.Blank

/-! # The self-check switch

Whether engines check themselves after every move. The switch is set for good or
within a scope, and leaving a scope restores the value it had before.
-/

namespace SteppedConvolution

/-- The switch with the values to restore, innermost scope first. -/
structure Switch where
  on : Bool
  saved : List Bool
  deriving DecidableEq, Repr

namespace Switch

/-- The switch in its initial position, outside of every scope. -/
def initial : Switch := ⟨false, []⟩

/-- Set the switch, returning its previous value. -/
def set (s : Switch) (on : Bool) : Bool × Switch := (s.on, { s with on })

/-- Enter a scope in which the switch has a value. -/
def enter (s : Switch) (on : Bool) : Switch := ⟨on, s.on :: s.saved⟩

/-- Leave the innermost scope. -/
def leave (s : Switch) : Switch :=
  match s.saved with
  | [] => s
  | previous :: rest => ⟨previous, rest⟩

/-- The words that turn the switch on, apart from case and blanks around them. -/
def words : List String := ["1", "true", "yes", "on"]

/-- Whether a setting from the environment turns the switch on; an absent one does not. -/
def ofSetting (setting : Option String) : Bool :=
  let cs := (setting.getD "").toList
  words.contains (String.ofList ((Text.strip cs).map Char.toLower))

end Switch

end SteppedConvolution
