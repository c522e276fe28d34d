import Mathlib.Data.Finset.Sort
import SteppedConvolution.Proofs.TimeGrid.Ranges
import SteppedConvolution.Proofs.TimeGrid.Reading

/-! # Repaired positions

The positions of a text are left alone where they increase, sorted where they do not, and freed from
repeats where sorting is not enough. Whichever of these happens, what comes out are the distinct
positions in increasing order. So the order of the positions makes no difference, nor
do repeats.
-/

namespace SteppedConvolution

namespace Positions

variable {vs ws : List Rat} {p : Rat}

/-- The distinct positions in increasing order. -/
def distinct (vs : List Rat) : List Rat := vs.toFinset.sort

theorem mem_distinct_iff : p ∈ distinct vs ↔ p ∈ vs := by
  rw [distinct, Finset.mem_sort, List.mem_toFinset]

theorem distinct_ne_nil (h : vs ≠ []) : distinct vs ≠ [] := by
  obtain ⟨v, hv⟩ := List.exists_mem_of_ne_nil vs h
  exact List.ne_nil_of_mem (mem_distinct_iff.2 hv)

theorem pairwise_distinct (vs : List Rat) : (distinct vs).Pairwise (· < ·) :=
  (Finset.sortedLT_sort vs.toFinset).pairwise

theorem distinct_congr (h : ∀ p, p ∈ vs ↔ p ∈ ws) : distinct vs = distinct ws := by
  rw [distinct, distinct, List.toFinset.ext h]

theorem distinct_eq_self (h : vs.Pairwise (· < ·)) : distinct vs = vs :=
  (List.toFinset_sort _ (h.imp ne_of_lt)).2 (h.imp le_of_lt)

/-- An increasing list with the same members is the list of distinct positions. -/
theorem distinct_eq_of_pairwise (h : ws.Pairwise (· < ·)) (hmem : ∀ p, p ∈ ws ↔ p ∈ vs) :
    distinct vs = ws := by
  rw [← distinct_congr hmem, distinct_eq_self h]

theorem hasDescent_eq_false_iff_pairwise : hasDescent vs = false ↔ vs.Pairwise (· < ·) := by
  rw [hasDescent_eq_false_iff]
  constructor
  · intro h
    exact (pairwise_of_steps (P := (0 < ·)) add_pos h).imp sub_pos.1
  · intro h t ht
    obtain ⟨k, hk, rfl⟩ := mem_steps_iff.1 ht
    exact sub_pos.2 (List.pairwise_iff_getElem.1 h k (k + 1) (by omega) hk (Nat.lt_succ_self k))

end Positions

namespace TimeGrid

open Positions (distinct)

variable {text : List Char} {vs : List Rat} {p : Rat}

/-! ## Dropping repeats -/

theorem mem_dropRepeats_iff : p ∈ dropRepeats vs ↔ p ∈ vs := by
  fun_induction dropRepeats vs with
  | case1 a b rest heq ih =>
    rw [beq_iff_eq] at heq
    subst heq
    rw [ih]
    simp
  | case2 a b rest hne ih => rw [List.mem_cons, ih, List.mem_cons (l := b :: rest)]
  | case3 => rfl

/-- Without repeats an ordered list increases. -/
theorem pairwise_dropRepeats (h : vs.Pairwise (· ≤ ·)) : (dropRepeats vs).Pairwise (· < ·) := by
  fun_induction dropRepeats vs with
  | case1 a b rest heq ih =>
    rw [beq_iff_eq] at heq
    subst heq
    exact ih (List.pairwise_cons.1 h).2
  | case2 a b rest hne ih =>
    obtain ⟨hfirst, hrest⟩ := List.pairwise_cons.1 h
    have hlt : a < b := lt_of_le_of_ne (hfirst b List.mem_cons_self) (by simpa using hne)
    refine List.pairwise_cons.2 ⟨fun q hq => ?_, ih hrest⟩
    rcases List.mem_cons.1 (mem_dropRepeats_iff.1 hq) with rfl | hq
    · exact hlt
    · exact hlt.trans_le ((List.pairwise_cons.1 hrest).1 q hq)
  | case3 ws hshort =>
    match ws, hshort with
    | [], _ => exact .nil
    | [_], _ => exact List.pairwise_singleton _ _
    | a :: b :: rest, hshort => exact absurd rfl (hshort a b rest)

/-! ## Putting positions in order -/

/-- Repaired positions are the distinct ones in increasing order. -/
theorem outcome_repair (shown : String) (vs : List Rat) :
    (repair shown vs).outcome = .ok (distinct vs) := by
  unfold repair
  by_cases hd : Positions.hasDescent vs = true
  · rw [if_pos hd]
    by_cases hs : Positions.hasDescent (Range.sorted vs) = true
    · have hdistinct : distinct vs = dropRepeats (Range.sorted vs) :=
        Positions.distinct_eq_of_pairwise (pairwise_dropRepeats (Range.pairwise_sorted vs))
          fun p => mem_dropRepeats_iff.trans Range.mem_sorted_iff
      simp only [hs, hdistinct]
      rfl
    · have hlt := Positions.hasDescent_eq_false_iff_pairwise.1 (Bool.eq_false_iff.2 hs)
      have hdistinct : distinct vs = Range.sorted vs :=
        Positions.distinct_eq_of_pairwise hlt fun p => Range.mem_sorted_iff
      simp only [if_neg hs, hdistinct]
      rfl
  · have hlt := Positions.hasDescent_eq_false_iff_pairwise.1 (Bool.eq_false_iff.2 hd)
    rw [if_neg hd, Positions.distinct_eq_self hlt]
    rfl

/-- Positions are read as the grid of the distinct ones, if they make one. -/
theorem outcome_readStripped (hp : readPositions text = .ok (.ok vs)) :
    (readStripped text).outcome = (ofValues defaultTolerance (distinct vs)).mapError
      fun d => .text (.invalidGrid d) (some (String.ofList text)) := by
  have hd := Positions.hasDescent_eq_false_iff_pairwise.2 (Positions.pairwise_distinct vs)
  unfold readStripped
  simp only [hp]
  rw [Logged.outcome_bind_of_ok rfl, Logged.outcome_bind_of_ok rfl, Logged.outcome_bind_of_ok rfl,
    if_neg (by simp [Scalar.isFinite_rat]), Logged.outcome_bind_of_ok (outcome_repair _ vs), hd]
  cases ofValues defaultTolerance (distinct vs) <;> rfl

/-- Texts are refused before their positions are put in order, or for the steps between them. -/
theorem kind_of_read {text : Option String} {cause : TextFault Rat} {shown : Option String}
    (h : (read text).outcome = .error (.text cause shown)) :
    cause.kind.isOfPositions = true ∨ cause.kind = .nonUniformGrid := by
  rcases read_empty_or (K := Rat) text with ⟨shown', hempty⟩ | ⟨s, rfl, hread⟩
  · rw [hempty] at h
    cases h
    exact .inl rfl
  · rw [hread] at h
    generalize hresult : (readPositions (Text.strip s.toList) : Except (TextFault Rat) _) = r
    have hends := readPositions_endsIn (K := Rat) (Text.strip s.toList)
    rw [hresult] at hends
    cases hends with
    | refused hkind =>
      rw [outcome_readStripped_of_cause hresult] at h
      cases h
      exact .inl hkind
    | positions vs =>
      rw [outcome_readStripped hresult] at h
      cases hg : ofValues defaultTolerance (distinct vs) with
      | ok g =>
        rw [hg] at h
        cases h
      | error d =>
        rw [hg] at h
        cases h
        exact .inr rfl
    | failed =>
      rw [outcome_readStripped_of_error hresult] at h
      cases h

end TimeGrid

end SteppedConvolution
