import SteppedConvolution.Fault.Basic
import SteppedConvolution.Journal.Format
import SteppedConvolution.Journal.Written
import SteppedConvolution.Text.Split

/-! # Loggers

Loggers by name, each with its handlers. Setting a level reaches every logger that
exists and is the default for those to come; configuring them also replaces
their handlers. Loggers that come later write in the default format.
-/

namespace SteppedConvolution

/-- A handler writes the records that reach its level. -/
structure Handler where
  level : Int
  format : List FormatPiece
  deriving DecidableEq, Repr

/-- A logger passes the records that reach its level to its handlers. -/
structure Logger where
  name : String
  level : Int
  handlers : List Handler
  propagates : Bool
  deriving DecidableEq, Repr

/-- A level as a caller gives it. -/
inductive LevelArgument where
  | number (level : Int)
  | name (name : String)
  | other
  deriving DecidableEq, Repr

namespace LevelArgument

/-- Characters other than ASCII letters whose upper case consists of ASCII letters. -/
def capitals : List (Nat × String) :=
  [(0xdf, "SS"), (0x131, "I"), (0x17f, "S"), (0xfb00, "FF"), (0xfb01, "FI"), (0xfb02, "FL"),
    (0xfb03, "FFI"), (0xfb04, "FFL"), (0xfb05, "ST"), (0xfb06, "ST")]

/-- The upper case of a character, as far as it is in ASCII. -/
def upper (c : Char) : List Char :=
  match capitals.lookup c.toNat with
  | some s => s.toList
  | none => [c.toUpper]

/-- The levels by name. -/
def names : List (String × Int) :=
  [("DEBUG", 10), ("INFO", 20), ("WARNING", 30), ("WARN", 30), ("ERROR", 40), ("CRITICAL", 50),
    ("FATAL", 50), ("NOTSET", 0)]

/-- The names that are taken by something other than a level. -/
def reserved : List (String × PlainFault) :=
  [("BASIC_FORMAT", .unknownLevel), ("_STYLES", .notALevel)]

/-- The level of an argument; a name that is not known means a warning. -/
def level : LevelArgument → Except PlainFault Int
  | number n => .ok n
  | name s =>
    let key := String.ofList (s.toList.flatMap upper)
    match reserved.lookup key with
    | some f => .error f
    | none => .ok ((names.lookup key).getD Severity.warning.level)
  | other => .error .notALevel

end LevelArgument

/-- The name of a level in lines. -/
def levelName (level : Int) : String :=
  match [Severity.debug, .info, .warning, .error, .critical].find? (·.level = level) with
  | some s => s.label
  | none => "Level " ++ toString level

/-- The loggers that exist and the level of those to come. -/
structure Registry where
  loggers : List Logger
  defaultLevel : Int
  deriving DecidableEq, Repr

namespace Registry

/-- The name of the package's own logger. -/
def root : String := "sigconv"

/-- The full name of a logger. Names outside of the package are put below it. -/
def fullName (name : Option String) : String :=
  match name with
  | none => root
  | some name =>
    if name = root ∨ (root ++ ".").toList.isPrefixOf name.toList then name
    else root ++ "." ++ name

/-- A logger with a level and one handler of the same level. -/
def freshLogger (name : String) (level : Int) (format : List FormatPiece) : Logger :=
  ⟨name, level, [⟨level, format⟩], false⟩

/-- The loggers of the parts of the library, and no others. -/
def initial : Registry :=
  ⟨[Source.timeGrid, .expression, .evaluation, .sampling, .canvas, .engine].map fun s =>
    freshLogger s.label Severity.warning.level FormatPiece.standard, Severity.warning.level⟩

/-- The logger with a full name. -/
def find? (r : Registry) (name : String) : Option Logger := r.loggers.find? (·.name = name)

/-- The logger of a name, made if it does not exist. -/
def get (r : Registry) (name : Option String) : Logger × Registry :=
  let full := fullName name
  match r.find? full with
  | some l => (l, r)
  | none =>
    let l := freshLogger full r.defaultLevel FormatPiece.standard
    (l, { r with loggers := r.loggers ++ [l] })

/-- Set the level of every logger and handler, and of those to come. -/
def setLevel (r : Registry) (level : LevelArgument) : Except PlainFault Registry := do
  let level ← level.level
  let set (l : Logger) : Logger :=
    { l with level, handlers := l.handlers.map fun h => { h with level } }
  pure ⟨r.loggers.map set, level⟩

/-- Replace the handlers of every logger by one with a level and a format. -/
def configure (r : Registry) (level : LevelArgument) (format : Option String) :
    Except PlainFault Registry :=
  match format.elim (some FormatPiece.standard) FormatPiece.ofText? with
  | none => .error .invalidFormat
  | some pieces => do
    let level ← level.level
    let set (l : Logger) : Logger := { l with level, handlers := [⟨level, pieces⟩] }
    pure ⟨r.loggers.map set, level⟩

/-- The names of a logger and of those above it, from their parts in reverse. -/
def ancestry : List (List Char) → List String
  | [] => []
  | part :: parts =>
    String.ofList (['.'].intercalate (parts.reverse ++ [part])) :: ancestry parts

/-- The level that decides for a logger: its own unless that is 0, else that of the closest
logger above it, else that of a warning. -/
def effectiveLevel (r : Registry) (name : String) : Int :=
  let levels := (ancestry (Text.splitAt '.' name.toList).reverse).filterMap fun n =>
    (r.find? n).map Logger.level
  (levels.find? (· ≠ 0)).getD Severity.warning.level

section

-- what the other conversions of a format make of a record, where they are possible
variable (shown : Conversion → Option String)

/-- A record in a format, unless a piece of it cannot be shown. -/
def render (format : List FormatPiece) (name : String) (level : Int) (message : String) :
    Option String :=
  String.join <$> format.mapM fun
    | .literal c => some (String.singleton c)
    | .severity => some (levelName level)
    | .name => some name
    | .message => some message
    | .other v => shown v
    | .stray => none

/-- Log a message, with the text that the handlers write. A handler writes no record that cannot
be shown in its format. -/
def log (r : Registry) (name : Option String) (level : Int) (message : String) :
    String × Registry :=
  let (logger, r) := r.get name
  if 0 < level ∧ r.effectiveLevel logger.name ≤ level then
    let lines := (logger.handlers.filter fun h => decide (h.level ≤ level)).filterMap fun h =>
      render shown h.format logger.name level message
    (String.join (lines.map (· ++ "\n")), r)
  else ("", r)

end

end Registry

end SteppedConvolution
