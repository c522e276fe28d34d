import SteppedConvolution.Proofs.TimeGrid.Bracketed
import SteppedConvolution.Proofs.TimeGrid.Repair

/-! # Numbers in brackets as grids

Numbers in brackets stand for the set of them. The text is read as the grid of the distinct numbers
in increasing order if their steps are nearly equal, and refused as not uniform if not. So numbers
in another order, or with repeats, are read alike.
-/

namespace SteppedConvolution

namespace TimeGrid

open Positions (distinct)
open Text

variable {s t : String} {vs ws : List Rat}

/-- A text of numbers in brackets, with blanks around it or not. -/
structure IsBracketText (s : String) (vs : List Rat) : Prop where
  bracketed : isBracketed (strip s.toList) = true
  values : Bracketed.values (strip s.toList) = .ok vs

/-- All steps are close to the first one. -/
def HasEvenSteps (vs : List Rat) : Prop :=
  ∀ t ∈ Positions.steps vs, ∀ first ∈ (Positions.steps vs).head?, |t - first| ≤ 1 / 10 ^ 9

/-! ## Numbers in brackets -/

theorem exists_content {text : List Char} (h : isBracketed text = true) :
    ∃ content, text = Bracketed.around content := by
  simp only [isBracketed, Bool.and_eq_true, decide_eq_true_eq] at h
  obtain ⟨hfirst, hlast⟩ := h
  cases text with
  | nil => cases hfirst
  | cons c rest =>
    cases hfirst
    cases rest with
    | nil => cases hlast
    | cons d rest =>
      rw [List.getLast?_cons_cons] at hlast
      exact ⟨_, congrArg ('[' :: ·) (List.dropLast_append_getLast? _ hlast).symm⟩

/-- There are no colons between numbers in brackets. -/
theorem IsBracketText.colon_notMem (h : IsBracketText s vs) : ':' ∉ strip s.toList := by
  obtain ⟨content, hcontent⟩ := exists_content h.bracketed
  obtain ⟨ss, hss, -⟩ := map_eq_ok.1 h.values
  have hentries := (Bracketed.entries?_of_numerals hss).2
  rw [hcontent, Bracketed.around, Bracketed.strip_brackets, Bracketed.dropEnds_brackets,
    SignedNumeral.entries?_strip] at hentries
  have hchars := SignedNumeral.chars_of_entries? hentries
  rw [hcontent, Bracketed.around, List.mem_cons, List.mem_append, List.mem_singleton]
  rintro (hc | hc | hc)
  · exact absurd hc (by decide)
  · rcases hchars _ hc with hc | hc <;> exact absurd hc (by decide)
  · exact absurd hc (by decide)

theorem IsBracketText.readPositions_eq (h : IsBracketText s vs) :
    readPositions (strip s.toList) = .ok (.ok vs) := by
  rw [readPositions, if_neg fun hc => h.colon_notMem (List.contains_iff_mem.1 hc),
    if_pos h.bracketed, h.values]
  rfl

theorem IsBracketText.ne_nil (h : IsBracketText s vs) : strip s.toList ≠ [] := by
  obtain ⟨content, hcontent⟩ := exists_content h.bracketed
  rw [hcontent]
  exact List.cons_ne_nil _ _

/-- Numbers in brackets are read as the grid of the distinct ones, if they make one. -/
theorem IsBracketText.outcome_read (h : IsBracketText s vs) :
    (read (some s)).outcome = (ofValues defaultTolerance (distinct vs)).mapError
      fun d => .text (.invalidGrid d) (some (String.ofList (strip s.toList))) := by
  rw [TimeGrid.outcome_read h.ne_nil, outcome_readStripped h.readPositions_eq]

/-! ## Grids of distinct numbers -/

theorem defaultTolerance_eq : (defaultTolerance : Rat) = 1 / 10 ^ 9 := by
  change Rational.ofDecimal 1 (-9) = 1 / 10 ^ 9
  decide +kernel

theorem isUniform_iff_hasEvenSteps :
    Positions.isUniform defaultTolerance vs = true ↔ HasEvenSteps vs := by
  rw [Positions.isUniform_iff defaultTolerance_nonneg, defaultTolerance_eq, HasEvenSteps]

/-- Distinct numbers in order fail to be a grid for their steps alone. -/
theorem defect?_distinct (hn : vs ≠ []) : Positions.defect? defaultTolerance (distinct vs) =
    if Positions.isUniform defaultTolerance (distinct vs) then none else some .notUniform := by
  have hfinite : (distinct vs).all Scalar.isFinite = true := by simp [Scalar.isFinite_rat]
  have hd := Positions.hasDescent_eq_false_iff_pairwise.2 (Positions.pairwise_distinct vs)
  rw [Positions.defect?, if_neg (Positions.distinct_ne_nil hn), hfinite, hd]
  cases Positions.isUniform defaultTolerance (distinct vs) <;> rfl

theorem ofValues_of_evenSteps (hn : vs ≠ []) (h : HasEvenSteps (distinct vs)) :
    ∃ g, ofValues defaultTolerance (distinct vs) = .ok g ∧ g.values = distinct vs := by
  have hdefect := defect?_distinct hn
  rw [if_pos (isUniform_iff_hasEvenSteps.2 h)] at hdefect
  exact ⟨_, ofValues_eq_ok hdefect, rfl⟩

theorem ofValues_of_not_evenSteps (hn : vs ≠ []) (h : ¬ HasEvenSteps (distinct vs)) :
    ofValues defaultTolerance (distinct vs) = .error .notUniform := by
  have hdefect := defect?_distinct hn
  rw [if_neg (isUniform_iff_hasEvenSteps.not.2 h)] at hdefect
  cases hg : ofValues defaultTolerance (distinct vs) with
  | ok g =>
    have hnone := defect?_of_ofValues hg
    rw [values_of_ofValues hg, hdefect] at hnone
    cases hnone
  | error d =>
    rw [defect?_of_ofValues_error hg] at hdefect
    rw [Option.some.inj hdefect]

/-! ## Reading a set -/

/-- Two texts give the same grid, or are refused for the same cause. -/
def ReadAlike (s t : String) : Prop :=
  (∃ g : TimeGrid Rat, (read (some s)).outcome = .ok g ∧ (read (some t)).outcome = .ok g) ∨
  ∃ (cause : TextFault Rat) (shown shown' : Option String),
    (read (some s)).outcome = .error (.text cause shown) ∧
      (read (some t)).outcome = .error (.text cause shown')

theorem readAlike (h : IsBracketText s vs) (h' : IsBracketText t ws) (hmem : ∀ v, v ∈ vs ↔ v ∈ ws) :
    ReadAlike s t := by
  rw [ReadAlike, h.outcome_read, h'.outcome_read, ← Positions.distinct_congr hmem]
  cases ofValues defaultTolerance (distinct vs) with
  | ok g => exact .inl ⟨g, rfl, rfl⟩
  | error d => exact .inr ⟨_, _, _, rfl, rfl⟩

/-- The numbers of a text in brackets, read as a set. -/
structure ReadAsSet (s : String) (vs : List Rat) : Prop where
  /-- Numbers in nearly equal steps are read as the grid of the distinct ones. -/
  grid : HasEvenSteps (distinct vs) →
    ∃ g : TimeGrid Rat, (read (some s)).outcome = .ok g ∧ g.values = distinct vs
  refused : ¬ HasEvenSteps (distinct vs) → (read (some s) : Logged Rat _).outcome =
    .error (.text (.invalidGrid .notUniform) (some (String.ofList (strip s.toList))))
  /-- Texts with the same numbers, up to order and repetition, are read alike. -/
  same : ∀ t ws, IsBracketText t ws → (∀ v, v ∈ vs ↔ v ∈ ws) → ReadAlike s t

/-- Numbers in brackets are read as the set of them, and no text at all is refused because its
positions could not be put in order. -/
theorem read_bracketed (h : IsBracketText s vs) : ReadAsSet s vs ∧
    ∀ (text : Option String) (cause : TextFault Rat) (shown : Option String),
      (read text).outcome = .error (.text cause shown) → cause.kind ≠ .nonIncreasingAfterDedup := by
  have hn := Bracketed.ne_nil_of_values h.values
  refine ⟨⟨fun heven => ?_, fun hodd => ?_, fun t ws h' hmem => readAlike h h' hmem⟩,
    fun text cause shown hread hkind => ?_⟩
  · obtain ⟨g, hg, hvalues⟩ := ofValues_of_evenSteps hn heven
    exact ⟨g, by rw [h.outcome_read, hg]; rfl, hvalues⟩
  · rw [h.outcome_read, ofValues_of_not_evenSteps hn hodd]
    rfl
  · rcases kind_of_read hread with hpositions | huniform
    · rw [hkind] at hpositions
      cases hpositions
    · rw [hkind] at huniform
      cases huniform

/-- Numbers out of order, one of them twice. -/
theorem read_bracketed_unordered : IsBracketText " [2, 0 1,1] " [2, 0, 1, 1] ∧
    ReadAsSet " [2, 0 1,1] " [2, 0, 1, 1] ∧
      ∃ g : TimeGrid Rat, (read (some " [2, 0 1,1] ")).outcome = .ok g ∧ g.values = [0, 1, 2] := by
  have htext : IsBracketText " [2, 0 1,1] " [2, 0, 1, 1] :=
    ⟨by decide, eq_ok_of_toOption (by decide +kernel)⟩
  have hset := (read_bracketed htext).1
  have hdistinct : distinct [2, 0, 1, 1] = [0, 1, 2] := by
    refine Positions.distinct_eq_of_pairwise (by decide +kernel) fun p => ?_
    simp only [List.mem_cons, List.not_mem_nil, or_false]
    tauto
  have heven : HasEvenSteps [0, 1, 2] := isUniform_iff_hasEvenSteps.1 (by decide +kernel)
  have hgrid := hset.grid
  rw [hdistinct] at hgrid
  exact ⟨htext, hset, hgrid heven⟩

end TimeGrid

end SteppedConvolution
