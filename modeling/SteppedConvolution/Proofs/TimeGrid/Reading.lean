import Mathlib.Tactic.SplitIfs
import SteppedConvolution.Proofs.Numeral.Listed
import SteppedConvolution.Proofs.Text.Strip
import SteppedConvolution.TimeGrid.Reading

/-! # What reading a time grid comes down to

A text gives positions, or it is refused with a fault of its own. Only a range can fail in another
way, after its numbers have been read and found to run towards the end: when its positions
cannot be counted, or when there are too many of them. Positions, once there, make a grid or are
refused with a fault of the text.
-/

namespace SteppedConvolution

/-- The kinds under which the positions of a text are refused, before they are put in order. -/
def TextFault.Kind.isOfPositions : TextFault.Kind → Bool
  | emptyInput | invalidNumber | nestedBrackets | tooManyColons | nonFiniteValues | zeroStep
  | directionMismatch => true
  | _ => false

/-- What keeps the positions of a range from being listed. -/
inductive Range.Fails {K : Type} [Scalar K] (start step stop : K) : PlainFault → Prop
  | uncounted {e : NotWhole} (h : Range.count start step stop = .error e) :
    Fails start step stop (.notWhole e)
  | long {n : Int} (h : Range.count start step stop = .ok n) (hn : Range.sizeLimit ≤ n.toNat) :
    Fails start step stop .tooManyPositions

namespace TimeGrid

open Text

variable {K : Type} [Scalar K] {text : List Char} {start stop : K} {step? : Option K}
  {cause : TextFault K} {f : Fault K} {values vs : List K} {parts : List (List Char)}

/-! ## Numbers between colons -/

theorem isFinite_of_mapM {readings : List Reading}
    (h : readings.mapM Reading.finiteValue? = some values) :
    ∀ v ∈ values, Scalar.isFinite v = true := by
  induction readings generalizing values with
  | nil =>
    cases h
    exact fun v hv => absurd hv List.not_mem_nil
  | cons r readings ih =>
    rw [List.mapM_cons] at h
    obtain ⟨v, hv, h⟩ := Option.bind_eq_some_iff.1 h
    obtain ⟨values, hvalues, h⟩ := Option.bind_eq_some_iff.1 h
    cases h
    exact List.forall_mem_cons.2 ⟨(Option.filter_eq_some_iff.1 hv).2, ih hvalues⟩

/-- Numbers that are read are finite, and there is one for each part. -/
theorem readParts_eq_ok (h : readParts parts = .ok values) :
    values.length = parts.length ∧ ∀ v ∈ values, Scalar.isFinite v = true := by
  obtain ⟨readings, hreadings, h⟩ := bind_eq_ok.1 h
  split at h
  · rename_i hvalues
    cases h
    exact ⟨(length_of_mapM? hvalues).trans (length_of_mapM hreadings), isFinite_of_mapM hvalues⟩
  · cases h

theorem kind_of_readParts (h : (readParts parts : Except (TextFault K) (List K)) = .error cause) :
    cause.kind.isOfPositions = true := by
  rcases bind_eq_error.1 h with h | ⟨readings, -, h⟩
  · obtain ⟨part, -, h⟩ := mapM_error h
    unfold readPart at h
    split at h <;> cases h
    rfl
  · split at h <;> cases h
    rfl

theorem kind_of_checkRange (h : checkRange start step? stop = .error cause) :
    cause.kind.isOfPositions = true := by
  unfold checkRange at h
  split at h <;> split_ifs at h <;> cases h <;> rfl

/-- A text of two or three finite numbers with colons between them, as a range that runs from its
start towards its end. -/
structure HoldsRange (text : List Char) (start : K) (step? : Option K) (stop : K) : Prop where
  colon : ':' ∈ text
  parts : readParts (splitAt ':' text) = .ok (start :: (step?.toList ++ [stop]))
  runs : checkRange start step? stop = .ok ()

theorem rangePositions_eq_error (h : rangePositions start step? stop = .error cause) :
    checkRange start step? stop = .error cause := by
  rcases bind_eq_error.1 h with h | ⟨-, -, h⟩
  · exact h
  · dsimp only at h
    split at h <;> cases h

theorem rangePositions_eq_fault_iff : rangePositions start step? stop = .ok (.error f) ↔
    checkRange start step? stop = .ok () ∧
      ∃ cause, f = .plain cause ∧ Range.Fails start (step?.getD 1) stop cause := by
  refine bind_eq_ok.trans ⟨fun ⟨_, hruns, h⟩ => ⟨hruns, ?_⟩, fun ⟨hruns, h⟩ => ⟨(), hruns, ?_⟩⟩
  · dsimp only at h
    split at h
    · rename_i hcount
      cases h
      exact ⟨_, rfl, .uncounted hcount⟩
    · rename_i n hcount
      unfold Range.positions at h
      split_ifs at h with hn <;> cases h
      exact ⟨_, rfl, .long hcount hn⟩
  · obtain ⟨cause, rfl, hfails⟩ := h
    cases hfails with
    | uncounted hcount => simp only [hcount, pure, Except.pure]
    | long hcount hn => simp only [hcount, Range.positions, if_pos hn, pure, Except.pure]

theorem readRange_of_parts
    (hparts : readParts (splitAt ':' text) = .ok (start :: (step?.toList ++ [stop]))) :
    readRange text = rangePositions start step? stop := by
  have hlength := (readParts_eq_ok hparts).1
  have hle : ¬ 3 < (splitAt ':' text).length := by
    rw [← hlength]
    cases step? <;> simp
  unfold readRange
  dsimp only
  rw [if_neg hle, hparts]
  cases step? <;> rfl

/-- The texts with colons that are read at all are ranges. -/
theorem readRange_cases (hcolon : ':' ∈ text) :
    (∃ cause : TextFault K, readRange text = .error cause ∧ cause.kind.isOfPositions = true) ∨
      ∃ (start : K) (step? : Option K) (stop : K),
        readParts (splitAt ':' text) = .ok (start :: (step?.toList ++ [stop])) := by
  by_cases hmany : 3 < (splitAt ':' text).length
  · refine .inl ⟨.tooManyColons, ?_, rfl⟩
    unfold readRange
    exact if_pos hmany
  · cases hparts : (readParts (splitAt ':' text) : Except (TextFault K) (List K)) with
    | error cause =>
      refine .inl ⟨cause, ?_, kind_of_readParts hparts⟩
      unfold readRange
      dsimp only
      rw [if_neg hmany, hparts]
      rfl
    | ok values =>
      have hlength := (readParts_eq_ok hparts).1
      have hcount := length_splitAt ':' text
      have hpos := List.count_pos_iff.2 hcolon
      -- a colon makes two parts at least
      obtain htwo | hthree : values.length = 2 ∨ values.length = 3 := by omega
      · obtain ⟨start, stop, rfl⟩ := List.length_eq_two.1 htwo
        exact .inr ⟨start, none, stop, rfl⟩
      · obtain ⟨start, step, stop, rfl⟩ := List.length_eq_three.1 hthree
        exact .inr ⟨start, some step, stop, rfl⟩

theorem kind_of_values
    (h : (Bracketed.values text : Except (TextFault K) (List K)) = .error cause) :
    cause.kind.isOfPositions = true := by
  rcases Bracketed.cause_of_values h with rfl | rfl | rfl <;> rfl

theorem readPositions_of_holdsRange (h : HoldsRange text start step? stop) :
    readPositions text = rangePositions start step? stop := by
  rw [readPositions, if_pos (List.contains_iff_mem.2 h.colon), readRange_of_parts h.parts]

/-- How reading the positions of a text ends. -/
inductive EndsIn (text : List Char) : Except (TextFault K) (Except (Fault K) (List K)) → Prop
  | refused {cause : TextFault K} (h : cause.kind.isOfPositions = true) :
    EndsIn text (.error cause)
  | positions (vs : List K) : EndsIn text (.ok (.ok vs))
  | failed {start stop : K} {step? : Option K} {cause : PlainFault}
    (hrange : HoldsRange text start step? stop)
    (hfails : Range.Fails start (step?.getD 1) stop cause) :
    EndsIn text (.ok (.error (.plain cause)))

theorem endsIn_map {r : Except (TextFault K) (List K)}
    (h : ∀ cause, r = .error cause → cause.kind.isOfPositions = true) :
    EndsIn text (r.map .ok) := by
  cases r with
  | error cause => exact .refused (h cause rfl)
  | ok vs => exact .positions vs

theorem endsIn_rangePositions (hcolon : ':' ∈ text)
    (hparts : readParts (splitAt ':' text) = .ok (start :: (step?.toList ++ [stop]))) :
    EndsIn text (rangePositions start step? stop) := by
  cases hresult : rangePositions start step? stop with
  | error cause => exact .refused (kind_of_checkRange (rangePositions_eq_error hresult))
  | ok r =>
    cases r with
    | ok vs => exact .positions vs
    | error f =>
      obtain ⟨hruns, cause, rfl, hfails⟩ := rangePositions_eq_fault_iff.1 hresult
      exact .failed ⟨hcolon, hparts, hruns⟩ hfails

theorem readPositions_endsIn (text : List Char) :
    EndsIn text (readPositions text : Except (TextFault K) _) := by
  unfold readPositions
  by_cases hcolon : ':' ∈ text
  · rw [if_pos (List.contains_iff_mem.2 hcolon)]
    rcases readRange_cases (K := K) hcolon with ⟨cause, hcause, hkind⟩ | ⟨_, _, _, hparts⟩
    · exact hcause ▸ .refused hkind
    · exact readRange_of_parts hparts ▸ endsIn_rangePositions hcolon hparts
  · rw [if_neg fun h => hcolon (List.contains_iff_mem.1 h)]
    split
    · exact endsIn_map fun cause => kind_of_values
    · exact endsIn_map fun cause => kind_of_readParts

/-! ## Positions and grids -/

theorem outcome_readStripped_of_cause (hp : readPositions text = .error cause) :
    (readStripped text).outcome = .error (.text cause (some (String.ofList text))) := by
  unfold readStripped
  simp only [hp]
  rfl

theorem outcome_readStripped_of_error (hp : readPositions text = .ok (.error f)) :
    (readStripped text).outcome = .error f := by
  unfold readStripped
  simp only [hp]
  rfl

theorem exists_repair (shown : String) (vs : List K) :
    ∃ ws, (repair shown vs : Logged K (List K)).outcome = .ok ws := by
  unfold repair
  split_ifs
  · dsimp only
    split_ifs <;> exact ⟨_, rfl⟩
  · exact ⟨vs, rfl⟩

/-- Positions make a grid, or they are refused with a fault of the text. -/
theorem outcome_readStripped_of_positions (hp : readPositions text = .ok (.ok vs)) :
    (∃ g : TimeGrid K, (readStripped text).outcome = .ok g) ∨ ∃ cause : TextFault K,
      (readStripped text).outcome = .error (.text cause (some (String.ofList text))) := by
  unfold readStripped
  simp only [hp]
  rw [Logged.outcome_bind_of_ok rfl, Logged.outcome_bind_of_ok rfl, Logged.outcome_bind_of_ok rfl]
  split_ifs
  · exact .inr ⟨.nonFiniteGrid, rfl⟩
  · obtain ⟨ws, hws⟩ := exists_repair (String.ofList text) vs
    rw [Logged.outcome_bind_of_ok hws]
    split_ifs
    · exact .inr ⟨.stillNotIncreasing, rfl⟩
    · split
      · exact .inr ⟨.invalidGrid _, rfl⟩
      · exact .inl ⟨_, rfl⟩

theorem outcome_read {s : String} (h : strip s.toList ≠ []) :
    (read (some s) : Logged K _).outcome =
      (readStripped (strip s.toList) : Logged K _).outcome := by
  simp [read, Bool.eq_false_iff.2 (strip_eq_nil_iff.not.1 h)]

theorem read_of_holdsRange {s : String} {cause : PlainFault}
    (h : HoldsRange (strip s.toList) start step? stop)
    (hfails : Range.Fails start (step?.getD 1) stop cause) :
    (read (some s) : Logged K _).outcome = .error (.plain cause) := by
  have hpositions := (readPositions_of_holdsRange h).trans
    (rangePositions_eq_fault_iff.2 ⟨h.runs, cause, rfl, hfails⟩)
  rw [outcome_read (List.ne_nil_of_mem h.colon), outcome_readStripped_of_error hpositions]

/-- Nothing is read where there is no text, or nothing but blanks. -/
theorem read_empty_or (text : Option String) :
    (∃ shown, (read text : Logged K _).outcome = .error (.text .emptyGrid shown)) ∨
      ∃ s, text = some s ∧ (read text : Logged K _).outcome =
        (readStripped (strip s.toList) : Logged K _).outcome := by
  cases text with
  | none => exact .inl ⟨none, rfl⟩
  | some s =>
    by_cases hblank : strip s.toList = []
    · refine .inl ⟨some s, ?_⟩
      rw [read, if_pos (strip_eq_nil_iff.1 hblank)]
      rfl
    · exact .inr ⟨s, rfl, outcome_read hblank⟩

/-- A text makes a grid or is refused with a fault of its own, unless it holds a range whose
positions cannot be listed. -/
theorem read_cases (text : Option String) :
    (∃ g, (read text : Logged K _).outcome = .ok g) ∨
    (∃ cause shown, (read text : Logged K _).outcome = .error (.text cause shown)) ∨
    ∃ (s : String) (start : K) (step? : Option K) (stop : K) (cause : PlainFault), text = some s ∧
      HoldsRange (strip s.toList) start step? stop ∧
        Range.Fails start (step?.getD 1) stop cause := by
  rcases read_empty_or (K := K) text with ⟨shown, hempty⟩ | ⟨s, rfl, hread⟩
  · exact .inr (.inl ⟨_, shown, hempty⟩)
  · rw [hread]
    generalize hresult : (readPositions (strip s.toList) : Except (TextFault K) _) = r
    have hends := readPositions_endsIn (K := K) (strip s.toList)
    rw [hresult] at hends
    cases hends with
    | refused => exact .inr (.inl ⟨_, _, outcome_readStripped_of_cause hresult⟩)
    | positions vs =>
      rcases outcome_readStripped_of_positions hresult with hg | ⟨cause, hcause⟩
      · exact .inl hg
      · exact .inr (.inl ⟨cause, _, hcause⟩)
    | failed hrange hfails => exact .inr (.inr ⟨s, _, _, _, _, rfl, hrange, hfails⟩)

theorem read_eq_plain_iff {text : Option String} {cause : PlainFault} :
    (read text : Logged K _).outcome = .error (.plain cause) ↔
      ∃ (s : String) (start : K) (step? : Option K) (stop : K), text = some s ∧
        HoldsRange (strip s.toList) start step? stop ∧
          Range.Fails start (step?.getD 1) stop cause := by
  constructor
  · intro h
    rcases read_cases (K := K) text with ⟨g, hg⟩ | ⟨cause', shown, hcause⟩ |
      ⟨s, start, step?, stop, cause', rfl, hrange, hfails⟩
    · rw [hg] at h
      cases h
    · rw [hcause] at h
      cases h
    · rw [read_of_holdsRange hrange hfails] at h
      cases h
      exact ⟨s, start, step?, stop, rfl, hrange, hfails⟩
  · rintro ⟨s, start, step?, stop, rfl, hrange, hfails⟩
    exact read_of_holdsRange hrange hfails

end TimeGrid

end SteppedConvolution
