import SteppedConvolution.Proofs.Journal.History
import SteppedConvolution.Proofs.Journal.LineFormats

/-! # One level for all loggers

Whatever the calls, every logger has a single handler, both at the level of the last call that set
one, and so will the loggers that come later. Records go no further than that handler.
-/

namespace SteppedConvolution

/-- The levels that callers are told of: a positive number, and one by its name in any case. -/
inductive LevelArgument.StandsFor : LevelArgument → Int → Prop
  | number (n : Int) (hn : 0 < n) : StandsFor (.number n) n
  | name (s : String) (n : Int) (h : (String.ofList (s.toList.flatMap upper), n) ∈ names) :
    StandsFor (.name s) n

/-- A logger with a single handler at its own level, beyond which no record goes. -/
structure Logger.Follows (l : Logger) (level : Int) : Prop where
  own : l.level = level
  handlers : ∃ format, l.handlers = [⟨level, format⟩]
  propagates : l.propagates = false

namespace Registry

variable {r s : Registry} {level : Option Int}

theorem Leads.defaultLevel (h : Leads r level s) : s.defaultLevel = level.getD r.defaultLevel := by
  cases h <;> rfl

end Registry

end SteppedConvolution
