import Mathlib.Data.List.DropRight
import SteppedConvolution.Proofs.Journal.History

/-! # Formats of loggers

The format of a logger stands in its handlers alone. A call that configures loggers gives its format
to those that exist, and no call keeps it for later ones: those write in the standard format until
they are configured themselves.
-/

namespace SteppedConvolution

/-- The formats in which the handlers of a logger write. -/
def Logger.formats (l : Logger) : List (List FormatPiece) := l.handlers.map Handler.format

namespace Registry

/-- The formats of all loggers, in the order in which they were made. -/
def formats (r : Registry) : List (List (List FormatPiece)) := r.loggers.map Logger.formats

/-- The format that a call gives to the loggers that exist, unless it fails. -/
def Call.format? : Call → Option (List FormatPiece)
  | .configure level format =>
    (pieces? format).bind fun pieces => level.level.toOption.map fun _ => pieces
  | _ => none

/-- The format of the last of some calls that gave one, or the standard format. -/
def lastFormat (calls : List Call) : List FormatPiece :=
  (calls.filterMap Call.format?).getLast?.getD FormatPiece.standard

/-- The calls up to the last one that gave a format. -/
def configured (calls : List Call) : List Call := calls.rdropWhile fun c => c.format?.isNone

theorem after_concat (r : Registry) (calls : List Call) (c : Call) :
    r.after (calls ++ [c]) = (r.after calls).step c := by
  induction calls generalizing r with
  | nil => rfl
  | cons d ds ih => exact ih (r.step d)

theorem length_formats (r : Registry) : r.formats.length = r.loggers.length := List.length_map _

/-! ## One call -/

/-- A call that gives a format gives it to every logger. -/
theorem formats_step_of_some {c : Call} {pieces : List FormatPiece} (h : c.format? = some pieces)
    (r : Registry) : (r.step c).formats = List.replicate r.loggers.length [pieces] := by
  cases c with
  | get name => cases h
  | setLevel level => cases h
  | configure level format =>
    obtain ⟨given, hgiven, hlevel⟩ := Option.bind_eq_some_iff.1 h
    obtain ⟨n, hn, rfl⟩ := Option.map_eq_some_iff.1 hlevel
    rw [step, perform, configure_eq, hgiven, eq_ok_of_toOption hn]
    change (r.loggers.map (·.withHandler n given)).map Logger.formats = _
    rw [List.map_map]
    exact List.map_const'

/-- Any other call leaves the formats as they are, and a logger that it makes has the standard
one. -/
theorem formats_step_of_none {c : Call} (h : c.format? = none) (r : Registry) :
    ∃ made, (r.step c).formats = r.formats ++ List.replicate made [FormatPiece.standard] := by
  have hstay : ∃ made, r.formats = r.formats ++ List.replicate made [FormatPiece.standard] :=
    ⟨0, (List.append_nil _).symm⟩
  cases c with
  | get name =>
    change ∃ made, (r.get name).2.formats = _
    rcases r.get_cases name with ⟨l, -, -, hget⟩ | ⟨-, hget⟩
    · rwa [hget]
    · rw [hget]
      exact ⟨1, List.map_append⟩
  | setLevel level =>
    rw [step, perform, setLevel_eq]
    cases level.level with
    | error f => exact hstay
    | ok n =>
      -- levels are set in place, and the handlers keep their formats
      have hsame : Logger.formats ∘ (·.withLevel n) = Logger.formats :=
        funext fun l => List.map_map
      change ∃ made, (r.loggers.map (·.withLevel n)).map Logger.formats = _
      rwa [List.map_map, hsame]
  | configure level format =>
    rw [step, perform, configure_eq]
    rw [Call.format?] at h
    cases hpieces : pieces? format with
    | none => exact hstay
    | some pieces =>
      cases hlevel : level.level with
      | error f => exact hstay
      | ok n =>
        rw [hpieces, hlevel] at h
        cases h

/-! ## Any calls -/

/-- If all loggers write in the standard format at first, those that exist at the last call that
gives a format write in that one, and those that come later in the standard one. -/
theorem formats_after {r : Registry}
    (hr : r.formats = List.replicate r.loggers.length [FormatPiece.standard]) (calls : List Call) :
    ∃ made, (r.after calls).formats =
      List.replicate (r.after (configured calls)).loggers.length [lastFormat calls] ++
        List.replicate made [FormatPiece.standard] := by
  induction calls using List.reverseRecOn with
  | nil => exact ⟨0, by rw [List.replicate_zero, List.append_nil]; exact hr⟩
  | append_singleton calls c ih =>
    obtain ⟨made, hformats⟩ := ih
    rw [after_concat, configured, lastFormat, List.filterMap_append]
    cases hc : c.format? with
    | none =>
      obtain ⟨more, hstep⟩ := formats_step_of_none hc (r.after calls)
      rw [List.rdropWhile_concat_pos _ _ _ (by rw [hc]; rfl), List.filterMap_cons_none hc,
        List.filterMap_nil, List.append_nil, hstep, hformats, List.append_assoc,
        List.replicate_append_replicate]
      exact ⟨made + more, rfl⟩
    | some pieces =>
      rw [List.rdropWhile_concat_neg _ _ _ (by rw [hc]; exact Bool.false_ne_true),
        List.filterMap_cons_some hc, List.filterMap_nil, List.getLast?_concat, Option.getD_some,
        after_concat]
      have hstep := formats_step_of_some hc (r.after calls)
      have hlength := congrArg List.length hstep
      rw [length_formats, List.length_replicate] at hlength
      exact ⟨0, by rw [hstep, hlength, List.replicate_zero, List.append_nil]⟩

/-- After any calls from the start, the loggers that were there at the last call that gave a format
write in that one, and those made since in the standard format. So all loggers write in the format
that was given last exactly when none was made since, or when that one is the standard format. -/
theorem formats_after_calls (calls : List Call) :
    let r := initial.after calls
    let reached := (initial.after (configured calls)).loggers.length
    ∃ made, r.loggers.length = reached + made ∧
      r.formats = List.replicate reached [lastFormat calls] ++
        List.replicate made [FormatPiece.standard] ∧
      ((∀ l ∈ r.loggers, l.formats = [lastFormat calls]) ↔
        made = 0 ∨ lastFormat calls = FormatPiece.standard) := by
  intro r reached
  obtain ⟨made, hformats⟩ := formats_after (r := initial) rfl calls
  have hlength := congrArg List.length hformats
  rw [length_formats, List.length_append, List.length_replicate, List.length_replicate] at hlength
  refine ⟨made, hlength, hformats, ?_⟩
  have hall : (∀ l ∈ r.loggers, l.formats = [lastFormat calls]) ↔
      ∀ f ∈ r.formats, f = [lastFormat calls] := by rw [formats, List.forall_mem_map]
  rw [hall, hformats]
  constructor
  · intro hlast
    by_contra hne
    obtain ⟨hmade, hformat⟩ := not_or.1 hne
    have hlater := hlast [FormatPiece.standard]
      (List.mem_append_right _ (List.mem_replicate.2 ⟨hmade, rfl⟩))
    exact hformat (List.singleton_inj.1 hlater).symm
  · rintro hcase f hf
    rcases List.mem_append.1 hf with hf | hf
    · exact (List.mem_replicate.1 hf).2
    · obtain ⟨hmade, rfl⟩ := List.mem_replicate.1 hf
      exact List.singleton_inj.2 (hcase.resolve_left hmade).symm

/-- A logger that comes after a format was given does not write in it. -/
theorem formats_of_later_logger :
    let calls := [.configure (.name "INFO") (some "%(message)s!"), .get (some "tests")]
    let r := initial.after calls
    lastFormat calls = [.message, .literal '!'] ∧
      (r.find? "sigconv.engine.core").map Logger.formats = some [lastFormat calls] ∧
        (r.find? "sigconv.tests").map Logger.formats = some [FormatPiece.standard] ∧
          ¬ ∀ l ∈ r.loggers, l.formats = [lastFormat calls] := by
  decide +kernel

end Registry

end SteppedConvolution
