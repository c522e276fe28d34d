import SteppedConvolution.Proofs.Binary.Comparison
import SteppedConvolution.Proofs.TimeGrid.Reading
import SteppedConvolution.Scalar.Rational

/-! # Ranges of doubles

The start, the step and the end of a range are finite doubles, but the number of steps between them
need not be one: the ends may be too far apart, or the step too small. Then the positions cannot
be counted, however few there are. This, and too many positions for an array, are the only failures
of reading a grid that are no faults of its text.
-/

namespace SteppedConvolution

open Binary

/-- The number that is rounded down to count the positions of a range. -/
def Range.stretch (start step stop : Float) : Float := (stop - start) / step + Range.slack

namespace TimeGrid

open Text

variable {text : List Char} {start stop : Float} {step? : Option Float}

/-! ## Counting the positions of a range -/

theorem HoldsRange.units_step (h : HoldsRange text start step? stop) :
    ∃ y, units (step?.getD 1) = some y ∧ y ≠ 0 := by
  have hfinite := (readParts_eq_ok h.parts).2
  have hruns := h.runs
  cases step? with
  | none => exact ⟨unity, units_one, Int.natCast_ne_zero.2 unity_pos.ne'⟩
  | some step =>
    obtain ⟨y, hy⟩ := (isFinite_iff step).1 (hfinite step (by simp))
    refine ⟨y, hy, ne_zero_of_beq hy ?_⟩
    unfold checkRange at hruns
    dsimp only at hruns
    split_ifs at hruns with hzero
    exact Bool.eq_false_iff.2 hzero

/-- The number of steps in a range is no undefined quotient. -/
theorem HoldsRange.stretch_ne_notANumber (h : HoldsRange text start step? stop) :
    Binary.parts (Range.stretch start (step?.getD 1) stop) ≠ .notANumber := by
  have hfinite := (readParts_eq_ok h.parts).2
  obtain ⟨a, ha⟩ := (isFinite_iff start).1 (hfinite start (by simp))
  obtain ⟨b, hb⟩ := (isFinite_iff stop).1 (hfinite stop (by simp))
  obtain ⟨y, hy, hne⟩ := h.units_step
  obtain ⟨z, hz⟩ := (isFinite_iff Range.slack).1 (by decide +kernel)
  have hspan := parts_sub_ne_notANumber (parts_ne_notANumber hb) ha
  exact parts_add_ne_notANumber (parts_div_ne_notANumber hspan hy hne) hz

/-- A range of doubles cannot be counted if its number of steps is beyond all doubles. -/
theorem HoldsRange.count_eq_error_iff (h : HoldsRange text start step? stop) {e : NotWhole} :
    Range.count start (step?.getD 1) stop = .error e ↔
      e = .unbounded ∧ Scalar.isFinite (Range.stretch start (step?.getD 1) stop) = false :=
  map_eq_error.trans (floor_eq_error_iff h.stretch_ne_notANumber)

theorem HoldsRange.fails_iff (h : HoldsRange text start step? stop) {cause : PlainFault} :
    Range.Fails start (step?.getD 1) stop cause ↔
      (cause = .notWhole .unbounded ∧
        Scalar.isFinite (Range.stretch start (step?.getD 1) stop) = false) ∨
      (cause = .tooManyPositions ∧ ∃ n, Range.count start (step?.getD 1) stop = .ok n ∧
        Range.sizeLimit ≤ n.toNat) := by
  constructor
  · intro hfails
    cases hfails with
    | uncounted hcount =>
      obtain ⟨rfl, hstretch⟩ := h.count_eq_error_iff.1 hcount
      exact .inl ⟨rfl, hstretch⟩
    | long hcount hn => exact .inr ⟨rfl, _, hcount, hn⟩
  · rintro (⟨rfl, hstretch⟩ | ⟨rfl, n, hcount, hn⟩)
    · exact .uncounted (h.count_eq_error_iff.2 ⟨rfl, hstretch⟩)
    · exact .long hcount hn

/-! ## How reading ends -/

/-- The text holds a range of finite doubles that runs towards its end, with the property. -/
def HasRange (text : Option String) (P : Float → Float → Float → Prop) : Prop :=
  ∃ (s : String) (start : Float) (step? : Option Float) (stop : Float), text = some s ∧
    HoldsRange (strip s.toList) start step? stop ∧ P start (step?.getD 1) stop

/-- How reading a text as a grid of doubles ends. -/
structure ReadsOrRefuses (text : Option String) : Prop where
  ends : (∃ g : TimeGrid Float, (read text).outcome = .ok g) ∨
    (∃ (cause : TextFault Float) (shown : Option String),
      (read text).outcome = .error (.text cause shown)) ∨
    (read text : Logged Float _).outcome = .error (.plain .tooManyPositions) ∨
    (read text : Logged Float _).outcome = .error (.plain (.notWhole .unbounded))
  /-- Only ranges with too many positions for an array are refused for their number. -/
  long : (read text : Logged Float _).outcome = .error (.plain .tooManyPositions) ↔
    HasRange text fun start step stop =>
      ∃ n, Range.count start step stop = .ok n ∧ Range.sizeLimit ≤ n.toNat
  /-- Only ranges with a number of steps beyond all doubles cannot be counted. -/
  uncounted : (read text : Logged Float _).outcome = .error (.plain (.notWhole .unbounded)) ↔
    HasRange text fun start step stop => Scalar.isFinite (Range.stretch start step stop) = false

/-- Reading a text gives a grid of doubles or a fault of the text, unless the positions of its range
are too many or cannot be counted. -/
theorem read_ends (text : Option String) : ReadsOrRefuses text := by
  refine ⟨?_, ?_, ?_⟩
  · rcases read_cases (K := Float) text with hg | htext | ⟨s, _, _, _, cause, rfl, hrange, hfails⟩
    · exact .inl hg
    · exact .inr (.inl htext)
    · have hread := read_of_holdsRange hrange hfails
      rcases hrange.fails_iff.1 hfails with ⟨rfl, -⟩ | ⟨rfl, -⟩
      · exact .inr (.inr (.inr hread))
      · exact .inr (.inr (.inl hread))
  · refine read_eq_plain_iff.trans (exists₄_congr fun s start step? stop => ?_)
    refine and_congr_right fun _ => and_congr_right fun hrange => ?_
    simp [hrange.fails_iff]
  · refine read_eq_plain_iff.trans (exists₄_congr fun s start step? stop => ?_)
    refine and_congr_right fun _ => and_congr_right fun hrange => ?_
    simp [hrange.fails_iff]

/-- A range that cannot be counted over doubles, because its ends are too far apart. It has three
positions. -/
theorem read_range_uncounted :
    (¬ ∃ g : TimeGrid Float, (read (some "-1e308:1e308:1e308")).outcome = .ok g) ∧
    (¬ ∃ (cause : TextFault Float) (shown : Option String),
      (read (some "-1e308:1e308:1e308")).outcome = .error (.text cause shown)) ∧
    ∃ g : TimeGrid Rat, (read (some "-1e308:1e308:1e308")).outcome = .ok g ∧
      g.values = [-10 ^ 308, 0, 10 ^ 308] := by
  have hfault : (read (some "-1e308:1e308:1e308") : Logged Float _).outcome =
      .error (.plain (.notWhole .unbounded)) := eq_error_of_errorOf? (by decide +kernel)
  have hexact : (read (some "-1e308:1e308:1e308") : Logged Rat _).outcome.toOption.map
      TimeGrid.values = some [-10 ^ 308, 0, 10 ^ 308] := by decide +kernel
  obtain ⟨g, hg, hvalues⟩ := Option.map_eq_some_iff.1 hexact
  refine ⟨?_, ?_, g, eq_ok_of_toOption hg, hvalues⟩
  · rintro ⟨g, hg⟩
    rw [hfault] at hg
    cases hg
  · rintro ⟨cause, shown, hcause⟩
    rw [hfault] at hcause
    cases hcause

end TimeGrid

end SteppedConvolution
