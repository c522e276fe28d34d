import SteppedConvolution.Proofs.Numeral.Scanning
import SteppedConvolution.Proofs.TimeGrid.Repair

/-! # Ranges as texts

A range is written `start:stop` or `start:step:stop`. Reading it gives the same grid as building
it from the numbers, and the positions that the range reaches, whichever way it runs. A range
that does not run towards its end is refused.
-/

namespace SteppedConvolution

open Text

/-! ## Numbers in parts of a text -/

theorem Reading.mem_of_ungroup? {before : Option Char} {cs ds : List Char}
    (h : Reading.ungroup? before cs = some ds) : ∀ c ∈ cs, c = '_' ∨ c ∈ ds := by
  fun_induction Reading.ungroup? before cs generalizing ds with
  | case1 => simp
  | case2 before next cs hdigits ih =>
    rw [List.forall_mem_cons]
    exact ⟨.inl rfl, ih h⟩
  | case3 => cases h
  | case4 => cases h
  | case5 before c cs _ _ ih =>
    obtain ⟨later, hlater, rfl⟩ := Option.map_eq_some_iff.1 h
    rw [List.forall_mem_cons]
    exact ⟨.inr List.mem_cons_self, fun d hd => (ih hlater d hd).imp id (List.mem_cons_of_mem c)⟩

/-- A text that is read as a finite number is one, up to underscores between its digits. -/
theorem Reading.exists_digits_of_ofText? {cs : List Char} {negative : Bool} {n : Numeral}
    (h : Reading.ofText? cs = some (.finite negative n)) : ∃ digits,
      Reading.ungroup? none (Numeral.spanSign (stripBy Reading.isMargin cs)).2 = some digits ∧
        Numeral.scan? .mayTrail digits = some (n, []) := by
  unfold Reading.ofText? at h
  dsimp only at h
  split at h
  · rename_i hname
    unfold Reading.ofName? at hname
    dsimp only at hname
    split_ifs at hname <;> cases hname <;> cases h
  · split at h
    · cases h
    · rename_i digits hdigits
      split at h
      · rename_i hscan
        cases h
        exact ⟨digits, hdigits, hscan⟩
      · cases h

/-- The characters of a text that is read as a finite number. -/
theorem Reading.chars_of_ofText? {cs : List Char} {negative : Bool} {n : Numeral}
    (h : Reading.ofText? cs = some (.finite negative n)) :
    ∀ c ∈ cs, Reading.isMargin c = true ∨ c = '_' ∨ Numeral.isNumeric c = true := by
  obtain ⟨digits, hdigits, hscan⟩ := exists_digits_of_ofText? h
  obtain ⟨before, after, hs⟩ := exists_stripsTo Reading.isMargin cs
  generalize stripBy Reading.isMargin cs = kept at hdigits hs
  have hsign : ∀ c ∈ (Numeral.spanSign kept).1.toList, Numeral.isNumeric c = true := by
    rcases Numeral.spanSign_sign kept with hsign | hsign | hsign <;> rw [hsign] <;>
      exact List.all_eq_true.1 (by decide)
  have hbody : ∀ c ∈ (Numeral.spanSign kept).2, c = '_' ∨ Numeral.isNumeric c = true := by
    intro c hc
    refine (Reading.mem_of_ungroup? hdigits c hc).imp id fun hmem => ?_
    rw [← Numeral.scan?_append hscan, List.append_nil] at hmem
    exact (Numeral.wellFormed_of_scan? hscan).isNumeric_of_mem c hmem
  have hkept : ∀ c ∈ kept, c = '_' ∨ Numeral.isNumeric c = true := by
    rw [← Numeral.spanSign_append kept, List.forall_mem_append]
    exact ⟨fun c hc => .inr (hsign c hc), hbody⟩
  rw [← hs.append, List.forall_mem_append, List.forall_mem_append]
  exact ⟨⟨fun c hc => .inl (hs.before c hc), fun c hc => .inr (hkept c hc)⟩,
    fun c hc => .inl (hs.after c hc)⟩

namespace TimeGrid

/-- A part of a text that stands for a finite number. -/
def StandsFor (part : List Char) (a : Rat) : Prop :=
  ∃ r, Reading.ofText? (strip part) = some r ∧ r.finiteValue? = some a

/-- A text of a range. The step may be left out. -/
inductive IsRangeText : List Char → Rat → Option Rat → Rat → Prop
  | unit {first last : List Char} {start stop : Rat} (hf : StandsFor first start)
    (hl : StandsFor last stop) : IsRangeText (first ++ ':' :: last) start none stop
  | stepped {first middle last : List Char} {start step stop : Rat} (hf : StandsFor first start)
    (hm : StandsFor middle step) (hl : StandsFor last stop) :
    IsRangeText (first ++ ':' :: (middle ++ ':' :: last)) start (some step) stop

variable {part text : List Char} {a start stop : Rat} {step? : Option Rat}

theorem StandsFor.exists_finite (h : StandsFor part a) :
    ∃ negative n, Reading.ofText? (strip part) = some (.finite negative n) := by
  obtain ⟨r, hr, hvalue⟩ := h
  cases r with
  | finite negative n => exact ⟨negative, n, hr⟩
  | infinite negative => cases hvalue
  | undefined => cases hvalue

theorem StandsFor.strip_ne_nil (h : StandsFor part a) : strip part ≠ [] := by
  obtain ⟨r, hr, -⟩ := h
  intro hnil
  have hnone : Reading.ofText? [] = none := by decide
  rw [hnil, hnone] at hr
  cases hr

theorem StandsFor.colon_notMem (h : StandsFor part a) : ':' ∉ part := by
  obtain ⟨negative, n, hr⟩ := h.exists_finite
  obtain ⟨before, after, hs⟩ := exists_stripsTo isBlank part
  rw [← hs.append, List.mem_append, List.mem_append]
  rintro ((hc | hc) | hc)
  · exact absurd (hs.before _ hc) (by decide)
  · rcases Reading.chars_of_ofText? hr _ hc with h | h | h
    all_goals exact absurd h (by decide)
  · exact absurd (hs.after _ hc) (by decide)

theorem StandsFor.of_strip {part' : List Char} (h : StandsFor part a)
    (hs : strip part' = strip part) : StandsFor part' a := by
  rwa [StandsFor, hs]

theorem IsRangeText.colon_mem (h : IsRangeText text start step? stop) : ':' ∈ text := by
  cases h <;> simp

/-- Blanks around a range text make no difference. -/
theorem IsRangeText.strip (h : IsRangeText text start step? stop) :
    IsRangeText (strip text) start step? stop := by
  cases h with
  | @unit first last start stop hf hl =>
    obtain ⟨first', last', heq, hfirst, hlast⟩ :=
      exists_strip_append hf.strip_ne_nil hl.strip_ne_nil [':']
    have htext : first ++ ':' :: last = first ++ [':'] ++ last := by simp
    rw [htext, heq, List.append_assoc]
    exact .unit (hf.of_strip hfirst) (hl.of_strip hlast)
  | @stepped first middle last start step stop hf hm hl =>
    obtain ⟨first', last', heq, hfirst, hlast⟩ :=
      exists_strip_append hf.strip_ne_nil hl.strip_ne_nil (':' :: (middle ++ [':']))
    have htext (first last : List Char) : first ++ ':' :: (middle ++ ':' :: last) =
        first ++ (':' :: (middle ++ [':'])) ++ last := by simp
    rw [htext, heq, ← htext]
    exact .stepped (hf.of_strip hfirst) hm (hl.of_strip hlast)

/-! ## Reading the parts -/

theorem splitAt_append {first : List Char} (h : ':' ∉ first) (rest : List Char) :
    splitAt ':' (first ++ ':' :: rest) = first :: splitAt ':' rest := by
  induction first with
  | nil => simp [splitAt]
  | cons c first ih =>
    rw [List.mem_cons, not_or] at h
    rw [List.cons_append, splitAt, if_neg (Ne.symm h.1), ih h.2]

theorem splitAt_eq_singleton (h : ':' ∉ part) : splitAt ':' part = [part] := by
  induction part with
  | nil => rfl
  | cons c part ih =>
    rw [List.mem_cons, not_or] at h
    rw [splitAt, if_neg (Ne.symm h.1), ih h.2]

theorem readParts_of_standsFor {parts : List (List Char)} {values : List Rat}
    (h : List.Forall₂ StandsFor parts values) : readParts parts = .ok values := by
  have hread : ∃ readings, parts.mapM readPart = (.ok readings : Except (TextFault Rat) _) ∧
      readings.mapM Reading.finiteValue? = some values := by
    induction h with
    | nil => exact ⟨[], rfl, rfl⟩
    | cons hpart _ ih =>
      obtain ⟨r, hr, hvalue⟩ := hpart
      obtain ⟨readings, hreadings, hvalues⟩ := ih
      refine ⟨r :: readings, ?_, ?_⟩
      · rw [List.mapM_cons, readPart, hr, hreadings]
        rfl
      · rw [List.mapM_cons, hvalue, hvalues]
        rfl
  obtain ⟨readings, hreadings, hvalues⟩ := hread
  rw [readParts, hreadings]
  simp [hvalues, bind, Except.bind]

theorem readParts_of_isRangeText (h : IsRangeText text start step? stop) :
    readParts (splitAt ':' text) = .ok (start :: (step?.toList ++ [stop])) := by
  cases h with
  | unit hf hl =>
    rw [splitAt_append hf.colon_notMem, splitAt_eq_singleton hl.colon_notMem]
    exact readParts_of_standsFor (.cons hf (.cons hl .nil))
  | stepped hf hm hl =>
    rw [splitAt_append hf.colon_notMem, splitAt_append hm.colon_notMem,
      splitAt_eq_singleton hl.colon_notMem]
    exact readParts_of_standsFor (.cons hf (.cons hm (.cons hl .nil)))

/-! ## Checking and counting -/

theorem checkRange_of_runs (h : Range.Runs start (step?.getD 1) stop) :
    checkRange start step? stop = .ok () := by
  obtain ⟨hs, hpos⟩ := h
  rw [div_pos_iff, sub_pos, sub_neg] at hpos
  cases step? with
  | none =>
    have hlt : start < stop := by
      rcases hpos with h | h
      · exact h.1
      · exact absurd h.2 (by norm_num)
    exact if_neg (not_le.2 hlt)
  | some step =>
    rw [Option.getD_some] at hs hpos
    have hzero : (step == 0) = false := by simpa using hs
    rw [checkRange, hzero, if_neg Bool.false_ne_true]
    rcases hpos with ⟨hlt, hs⟩ | ⟨hlt, hs⟩
    · rw [if_neg fun h => not_le.2 hlt h.2, if_neg fun h => lt_asymm hs h.1]
    · rw [if_neg fun h => lt_asymm hs h.1, if_neg fun h => not_le.2 hlt h.2]

theorem checkRange_of_not_runs (h : ¬ Range.Runs start (step?.getD 1) stop) :
    ∃ cause : TextFault Rat, checkRange start step? stop = .error cause ∧
      cause.kind = if step?.getD 1 = 0 then .zeroStep else .directionMismatch := by
  rw [Range.Runs, div_pos_iff, sub_pos, sub_neg] at h
  cases step? with
  | none =>
    have hle : stop ≤ start := by
      by_contra hlt
      exact h ⟨one_ne_zero, .inl ⟨not_le.1 hlt, one_pos⟩⟩
    refine ⟨_, if_pos hle, ?_⟩
    rw [Option.getD_none, if_neg one_ne_zero]
    rfl
  | some step =>
    rw [Option.getD_some] at h ⊢
    by_cases hs : step = 0
    · subst hs
      exact ⟨.zeroStep, by simp [checkRange], by simp [TextFault.kind]⟩
    · have hzero : (step == 0) = false := by simpa using hs
      rw [checkRange, hzero, if_neg Bool.false_ne_true, if_neg hs]
      rcases lt_or_gt_of_ne hs with hneg | hpos
      · have hle : start ≤ stop := by
          by_contra hlt
          exact h ⟨hs, .inr ⟨not_le.1 hlt, hneg⟩⟩
        rw [if_neg fun h => lt_asymm hneg h.1, if_pos ⟨hneg, hle⟩]
        exact ⟨_, rfl, rfl⟩
      · have hle : stop ≤ start := by
          by_contra hlt
          exact h ⟨hs, .inl ⟨not_le.1 hlt, hpos⟩⟩
        rw [if_pos ⟨hpos, hle⟩]
        exact ⟨_, rfl, rfl⟩

theorem rangePositions_of_runs (h : Range.Runs start (step?.getD 1) stop) :
    rangePositions start step? stop = .ok (Range.positions start (step?.getD 1)
      (⌊Range.reach start (step?.getD 1) stop⌋ + 1)) := by
  simp only [rangePositions, checkRange_of_runs h, Range.count_eq]
  rfl

theorem readPositions_of_isRangeText (h : IsRangeText text start step? stop) :
    readPositions text = rangePositions start step? stop := by
  rw [readPositions, if_pos (List.contains_iff_mem.2 h.colon_mem),
    readRange_of_parts (readParts_of_isRangeText h)]

theorem outcome_readStripped_of_ofValues {vs : List Rat} {g : TimeGrid Rat}
    (hp : readPositions text = .ok (.ok vs))
    (hg : ofValues defaultTolerance (Range.sorted vs) = .ok g) :
    (readStripped text).outcome = .ok g := by
  have hlt : (Range.sorted vs).Pairwise (· < ·) := values_of_ofValues hg ▸ g.pairwise_lt
  rw [outcome_readStripped hp,
    Positions.distinct_eq_of_pairwise hlt fun p => Range.mem_sorted_iff, hg]
  rfl

theorem IsRangeText.outcome_read {s : String} (h : IsRangeText s.toList start step? stop) :
    (read (some s) : Logged Rat _).outcome =
      (readStripped (Text.strip s.toList) : Logged Rat _).outcome :=
  TimeGrid.outcome_read (List.ne_nil_of_mem h.strip.colon_mem)

/-! ## Reading a range -/

variable {s : String}

theorem read_of_fits (h : IsRangeText s.toList start step? stop)
    (hruns : Range.Runs start (step?.getD 1) stop) (hfits : Range.Fits start (step?.getD 1) stop) :
    ∃ g, (read (some s)).outcome = .ok g ∧ ofRange start (step?.getD 1) stop = .ok g ∧
      OfRange start (step?.getD 1) stop g := by
  have hlimit := Range.sizeLimit_le_iff.not.2 (not_not.2 hfits)
  have hpositions := readPositions_of_isRangeText h.strip
  rw [rangePositions_of_runs hruns, positions_eq, if_neg hlimit] at hpositions
  obtain ⟨g, hg, hrange⟩ := exists_ofValues_sorted hruns
  refine ⟨g, h.outcome_read.trans (outcome_readStripped_of_ofValues hpositions hg), ?_, hrange⟩
  rw [ofRange_eq hruns, positions_eq, if_neg hlimit]
  exact mapError_eq_ok.2 hg

theorem read_of_not_fits (h : IsRangeText s.toList start step? stop)
    (hruns : Range.Runs start (step?.getD 1) stop)
    (hfits : ¬ Range.Fits start (step?.getD 1) stop) :
    (read (some s) : Logged Rat _).outcome = .error (.plain .tooManyPositions) ∧
      ofRange start (step?.getD 1) stop = .error (.plain .tooManyPositions) := by
  have hlimit := Range.sizeLimit_le_iff.2 hfits
  have hpositions := readPositions_of_isRangeText h.strip
  rw [rangePositions_of_runs hruns, positions_eq, if_pos hlimit] at hpositions
  refine ⟨h.outcome_read.trans (outcome_readStripped_of_error hpositions), ?_⟩
  rw [ofRange_eq hruns, positions_eq, if_pos hlimit]
  rfl

theorem read_of_not_runs (h : IsRangeText s.toList start step? stop)
    (hruns : ¬ Range.Runs start (step?.getD 1) stop) :
    ∃ (cause : TextFault Rat) (shown : Option String),
      (read (some s)).outcome = .error (.text cause shown) ∧
        cause.kind = if step?.getD 1 = 0 then .zeroStep else .directionMismatch := by
  obtain ⟨cause, hcause, hkind⟩ := checkRange_of_not_runs hruns
  have herror : rangePositions start step? stop = .error cause := by
    rw [rangePositions, hcause]
    rfl
  have hpositions := (readPositions_of_isRangeText h.strip).trans herror
  exact ⟨cause, _, h.outcome_read.trans (outcome_readStripped_of_cause hpositions), hkind⟩

/-- What reading the text of a range gives, compared with building the range. -/
structure ReadAsRange (outcome : Except (Fault Rat) (TimeGrid Rat)) (start step stop : Rat) :
    Prop where
  /-- A range that runs towards its end is read as its positions. -/
  grid : Range.Runs start step stop → Range.Fits start step stop →
    ∃ g, outcome = .ok g ∧ ofRange start step stop = .ok g ∧ OfRange start step stop g
  /-- A range with too many positions for an array is refused, when it is built as well. -/
  long : Range.Runs start step stop → ¬ Range.Fits start step stop →
    outcome = .error (.plain .tooManyPositions) ∧
      ofRange start step stop = .error (.plain .tooManyPositions)
  /-- Any other range is refused for its step or its direction. -/
  refused : ¬ Range.Runs start step stop → ∃ cause shown, outcome = .error (.text cause shown) ∧
    cause.kind = if step = 0 then .zeroStep else .directionMismatch

/-- The text of a range is read as the positions that the range reaches, and a range that does not
run towards its end is refused. -/
theorem read_range (h : IsRangeText s.toList start step? stop) :
    ReadAsRange (read (some s)).outcome start (step?.getD 1) stop :=
  ⟨read_of_fits h, read_of_not_fits h, read_of_not_runs h⟩

theorem isRangeText_falling : IsRangeText " 4 : -1.5:0".toList 4 (some (-3 / 2)) 0 := by
  have hfirst : StandsFor " 4 ".toList 4 :=
    ⟨.finite false ⟨['4'], none, none⟩, by decide, by decide +kernel⟩
  have hmiddle : StandsFor " -1.5".toList (-3 / 2) :=
    ⟨.finite true ⟨['1'], some ['5'], none⟩, by decide, by decide +kernel⟩
  have hlast : StandsFor "0".toList 0 :=
    ⟨.finite false ⟨['0'], none, none⟩, by decide, by decide +kernel⟩
  exact .stepped hfirst hmiddle hlast

/-- A range that walks down in steps that do not divide its length. -/
theorem read_range_falling : IsRangeText " 4 : -1.5:0".toList 4 (some (-3 / 2)) 0 ∧
    Range.Runs 4 (-3 / 2) 0 ∧ Range.Fits 4 (-3 / 2) 0 ∧
    ReadAsRange (read (some " 4 : -1.5:0")).outcome 4 (-3 / 2) 0 := by
  refine ⟨isRangeText_falling, ⟨by norm_num, by norm_num⟩, ?_, read_range isRangeText_falling⟩
  rw [Range.Fits, Range.reach]
  norm_num

/-- A range that runs towards its end, but has too many positions. -/
theorem read_range_long : IsRangeText "0:1e30".toList 0 none (10 ^ 30) ∧
    Range.Runs 0 1 (10 ^ 30) ∧
    (read (some "0:1e30") : Logged Rat _).outcome = .error (.plain .tooManyPositions) := by
  have hfirst : StandsFor "0".toList 0 :=
    ⟨.finite false ⟨['0'], none, none⟩, by decide, by decide +kernel⟩
  have hlast : StandsFor "1e30".toList (10 ^ 30) :=
    ⟨.finite false ⟨['1'], none, some ⟨'e', none, ['3', '0']⟩⟩, by decide, by decide +kernel⟩
  have htext : IsRangeText "0:1e30".toList 0 none (10 ^ 30) := .unit hfirst hlast
  have hruns : Range.Runs 0 1 (10 ^ 30) := ⟨by norm_num, by norm_num⟩
  have hlong : ¬ Range.Fits 0 1 (10 ^ 30) := by
    rw [Range.Fits, Range.reach]
    norm_num
  exact ⟨htext, hruns, (read_of_not_fits htext hruns hlong).1⟩

end TimeGrid

end SteppedConvolution
