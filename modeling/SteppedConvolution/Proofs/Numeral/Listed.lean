import Mathlib.Data.List.Basic
import SteppedConvolution.Proofs.Numeral.Scanning
import SteppedConvolution.Proofs.Outcome
import SteppedConvolution.TimeGrid.Bracketed

/-! # Lists of numbers written out

The texts of numbers, with a comma and a blank between them, are read back as the same
numbers. In brackets they make up a vector.
-/

namespace SteppedConvolution

namespace SignedNumeral

open Text

/-- The texts of numbers with a comma and a blank between them. -/
def listed (ss : List SignedNumeral) : List Char := [',', ' '].intercalate (ss.map text)

theorem listed_cons_cons (s r : SignedNumeral) (ss : List SignedNumeral) :
    listed (s :: r :: ss) = s.text ++ (',' :: ' ' :: listed (r :: ss)) := by
  simp [listed]

theorem listed_singleton (s : SignedNumeral) : listed [s] = s.text := by
  simp [listed]

/-! ## Entries -/

/-- What is scanned is a number that is read back from its text. -/
theorem wellFormed_of_scan? {cs rest : List Char} {s : SignedNumeral}
    (h : scan? cs = some (s, rest)) : s.WellFormed := by
  unfold scan? at h
  obtain ⟨⟨n, after⟩, hn, he⟩ := Option.map_eq_some_iff.1 h
  cases he
  exact ⟨Numeral.spanSign_sign cs, Numeral.wellFormed_of_scan? hn⟩

theorem wellFormed_of_entries? {cs : List Char} {ss : List SignedNumeral}
    (h : entries? cs = some ss) : ∀ s ∈ ss, s.WellFormed := by
  fun_induction entries? cs generalizing ss with
  | case1 cs s rest hscan _ ih =>
    obtain ⟨later, hlater, rfl⟩ := Option.map_eq_some_iff.1 h
    exact List.forall_mem_cons.2 ⟨wellFormed_of_scan? hscan, ih hlater⟩
  | case2 =>
    cases h
    exact fun s hs => absurd hs List.not_mem_nil
  | case3 c rest hseparator hscan ih => exact ih h
  | case4 => cases h

/-- A list of numbers holds nothing but their characters and separators. -/
theorem chars_of_entries? {cs : List Char} {ss : List SignedNumeral} (h : entries? cs = some ss) :
    ∀ c ∈ cs, Numeral.isNumeric c = true ∨ isSeparator c = true := by
  fun_induction entries? cs generalizing ss with
  | case1 cs s rest hscan _ ih =>
    obtain ⟨later, hlater, rfl⟩ := Option.map_eq_some_iff.1 h
    rw [← scan?_append hscan, List.forall_mem_append]
    exact ⟨fun c hc => .inl ((wellFormed_of_scan? hscan).isNumeric_of_mem c hc), ih hlater⟩
  | case2 => exact fun c hc => absurd hc List.not_mem_nil
  | case3 c rest hscan hseparator ih => exact List.forall_mem_cons.2 ⟨.inr hseparator, ih h⟩
  | case4 => cases h

theorem entries?_of_scan? {cs rest : List Char} {s : SignedNumeral}
    (h : scan? cs = some (s, rest)) : entries? cs = (entries? rest).map (s :: ·) := by
  rw [entries?]
  split
  · rename_i heq
    rw [h] at heq
    cases heq
    rfl
  · rename_i heq
    rw [h] at heq
    cases heq

/-- Where no number stands only a separator is passed over. -/
theorem entries?_of_scan?_eq_none {c : Char} {cs : List Char} (h : scan? (c :: cs) = none) :
    entries? (c :: cs) = if isSeparator c then entries? cs else none := by
  rw [entries?]
  split
  · rename_i heq
    rw [h] at heq
    cases heq
  · rfl

theorem entries?_of_separator {c : Char} {cs : List Char} (h : scan? (c :: cs) = none)
    (hc : isSeparator c = true) : entries? (c :: cs) = entries? cs := by
  rw [entries?_of_scan?_eq_none h, if_pos hc]

theorem entries?_nil : entries? [] = some [] := by
  rw [entries?]
  split
  · rename_i heq
    cases heq
  · rfl

theorem scan?_eq_none {c : Char} {cs : List Char} (h : isDigit c = false ∧ c ≠ '.')
    (hsign : c ≠ '+' ∧ c ≠ '-') : scan? (c :: cs) = none := by
  have hspan : Numeral.spanSign (c :: cs) = (none, c :: cs) := by
    unfold Numeral.spanSign
    split
    · rename_i heq
      exact absurd (List.cons.inj heq).1 hsign.1
    · rename_i heq
      exact absurd (List.cons.inj heq).1 hsign.2
    · rfl
  simp [scan?, hspan, Numeral.scan?_eq_none h]

/-- A comma and a blank between numbers are skipped. -/
theorem entries?_listed {ss : List SignedNumeral} (h : ∀ s ∈ ss, s.WellFormed) :
    entries? (listed ss) = some ss := by
  induction ss with
  | nil => exact entries?_nil
  | cons s ss ih =>
    have hs := h s List.mem_cons_self
    have hss := ih fun r hr => h r (List.mem_cons_of_mem s hr)
    cases ss with
    | nil =>
      have hscan := hs.scan?_text Numeral.ends_nil
      rw [List.append_nil] at hscan
      rw [listed_singleton, entries?_of_scan? hscan, entries?_nil]
      rfl
    | cons r ss =>
      have hends : Numeral.Ends (',' :: ' ' :: listed (r :: ss)) := by
        rintro c ⟨⟩
        decide
      have hcomma : entries? (',' :: ' ' :: listed (r :: ss)) =
          entries? (' ' :: listed (r :: ss)) :=
        entries?_of_separator (scan?_eq_none (by decide) (by decide)) (by decide)
      have hblank : entries? (' ' :: listed (r :: ss)) = entries? (listed (r :: ss)) :=
        entries?_of_separator (scan?_eq_none (by decide) (by decide)) (by decide)
      rw [listed_cons_cons, entries?_of_scan? (hs.scan?_text hends), hcomma, hblank, hss]
      rfl

/-! ## Characters -/

theorem WellFormed.text_ne_nil {s : SignedNumeral} (h : s.WellFormed) : s.text ≠ [] := by
  obtain ⟨c, cs, htext, -⟩ := h.numeral.exists_head
  exact List.append_ne_nil_of_right_ne_nil _ (by simp [htext])

theorem listed_ne_nil {s : SignedNumeral} (h : s.WellFormed) (ss : List SignedNumeral) :
    listed (s :: ss) ≠ [] := by
  cases ss with
  | nil => exact listed_singleton s ▸ h.text_ne_nil
  | cons r ss =>
    rw [listed_cons_cons]
    exact List.append_ne_nil_of_right_ne_nil _ (List.cons_ne_nil _ _)

theorem listed_chars {ss : List SignedNumeral} (h : ∀ s ∈ ss, s.WellFormed) :
    ∀ c ∈ listed ss, Numeral.isNumeric c = true ∨ c = ',' ∨ c = ' ' := by
  intro c hc
  induction ss with
  | nil => cases hc
  | cons s ss ih =>
    have hs := h s List.mem_cons_self
    have hss := ih fun r hr => h r (List.mem_cons_of_mem s hr)
    cases ss with
    | nil =>
      rw [listed_singleton] at hc
      exact .inl (hs.isNumeric_of_mem c hc)
    | cons r ss =>
      rw [listed_cons_cons, List.mem_append, List.mem_cons, List.mem_cons] at hc
      rcases hc with hc | hc | hc | hc
      · exact .inl (hs.isNumeric_of_mem c hc)
      · exact .inr (.inl hc)
      · exact .inr (.inr hc)
      · exact hss hc

/-- There are no blanks around the numbers. -/
theorem strip_listed {ss : List SignedNumeral} (h : ∀ s ∈ ss, s.WellFormed) :
    strip (listed ss) = listed ss := by
  have hblank {s : SignedNumeral} (hs : s.WellFormed) {c : Char} (hc : c ∈ s.text) :
      isBlank c = false :=
    Numeral.isBlank_of_isNumeric (hs.isNumeric_of_mem c hc)
  refine stripBy_eq_self ?_ ?_
  · intro c hc
    cases ss with
    | nil => cases hc
    | cons s ss =>
      have hs := h s List.mem_cons_self
      have hhead : (listed (s :: ss)).head? = s.text.head? := by
        cases ss with
        | nil => rw [listed_singleton]
        | cons r ss => rw [listed_cons_cons, List.head?_append_of_ne_nil _ hs.text_ne_nil]
      exact hblank hs (List.mem_of_head? (hhead ▸ hc))
  · intro c hc
    induction ss with
    | nil => cases hc
    | cons s ss ih =>
      have hs := h s List.mem_cons_self
      cases ss with
      | nil => exact hblank hs (List.mem_of_getLast? (listed_singleton s ▸ hc))
      | cons r ss =>
        have hr := h r (List.mem_cons_of_mem s List.mem_cons_self)
        have hlast : (listed (s :: r :: ss)).getLast? = (listed (r :: ss)).getLast? := by
          rw [listed_cons_cons, List.getLast?_append_of_ne_nil _ (List.cons_ne_nil _ _),
            List.getLast?_cons_cons, List.getLast?_cons_of_ne_nil (listed_ne_nil hr ss)]
        exact ih (fun q hq => h q (List.mem_cons_of_mem s hq)) (hlast ▸ hc)

end SignedNumeral

/-- A text in square brackets with numbers in it. -/
def Bracketed.listed (ss : List SignedNumeral) : List Char :=
  '[' :: (SignedNumeral.listed ss ++ [']'])

namespace Bracketed

open Text

/-- Reading numerals in brackets, by what stands between the brackets. -/
theorem numerals_cases {K : Type} (text : List Char) :
    (∃ s rest, SignedNumeral.entries? (strip (dropEnds (strip text))) = some (s :: rest) ∧
      (numerals text : Except (TextFault K) _) = .ok (s :: rest)) ∨
    ∃ cause : TextFault K,
      (cause = .emptyBrackets ∨ cause = .nestedBrackets ∨ cause = .malformedEntries) ∧
        numerals text = .error cause := by
  unfold numerals
  dsimp only
  split
  · exact .inr ⟨_, .inl rfl, rfl⟩
  · split
    · exact .inr ⟨_, .inr (.inl rfl), rfl⟩
    · split
      · rename_i s rest hentries
        exact .inl ⟨s, rest, hentries, rfl⟩
      · exact .inr ⟨_, .inr (.inr rfl), rfl⟩

theorem entries?_of_numerals {K : Type} {text : List Char} {ss : List SignedNumeral}
    (h : (numerals text : Except (TextFault K) _) = .ok ss) :
    ss ≠ [] ∧ SignedNumeral.entries? (strip (dropEnds (strip text))) = some ss := by
  rcases numerals_cases (K := K) text with ⟨s, rest, hentries, hok⟩ | ⟨cause, -, herror⟩
  · rw [hok] at h
    cases h
    exact ⟨List.cons_ne_nil s rest, hentries⟩
  · rw [herror] at h
    cases h

/-- There is a number in the brackets. -/
theorem ne_nil_of_values {K : Type} [Scalar K] {text : List Char} {entries : List K}
    (h : values text = .ok entries) : entries ≠ [] := by
  obtain ⟨ss, hss, rfl⟩ := map_eq_ok.1 h
  exact List.map_eq_nil_iff.not.2 (entries?_of_numerals hss).1

/-- The numbers in brackets are read back from their texts. -/
theorem wellFormed_of_numerals {K : Type} {text : List Char} {ss : List SignedNumeral}
    (h : (numerals text : Except (TextFault K) _) = .ok ss) : ∀ s ∈ ss, s.WellFormed :=
  SignedNumeral.wellFormed_of_entries? (entries?_of_numerals h).2

theorem cause_of_values {K : Type} [Scalar K] {text : List Char} {cause : TextFault K}
    (h : (values text : Except (TextFault K) (List K)) = .error cause) :
    cause = .emptyBrackets ∨ cause = .nestedBrackets ∨ cause = .malformedEntries := by
  have herror : (numerals text : Except (TextFault K) _) = .error cause := map_eq_error.1 h
  rcases numerals_cases (K := K) text with ⟨s, rest, -, hok⟩ | ⟨cause', hcause, herror'⟩
  · rw [hok] at herror
    cases herror
  · rw [herror'] at herror
    cases herror
    exact hcause

theorem dropEnds_brackets (content : List Char) :
    dropEnds ('[' :: (content ++ [']'])) = content := by
  rw [dropEnds, List.tail_cons, List.dropLast_concat]

theorem getLast?_brackets (content : List Char) :
    ('[' :: (content ++ [']'])).getLast? = some ']' := by
  rw [← List.cons_append, List.getLast?_concat]

theorem strip_brackets (content : List Char) :
    strip ('[' :: (content ++ [']'])) = '[' :: (content ++ [']']) := by
  refine stripBy_eq_self (fun c hc => ?_) (fun c hc => ?_)
  · cases hc
    decide
  · rw [getLast?_brackets] at hc
    cases hc
    decide

theorem dropEnds_listed (ss : List SignedNumeral) :
    dropEnds (listed ss) = SignedNumeral.listed ss := dropEnds_brackets _

theorem getLast?_listed (ss : List SignedNumeral) : (listed ss).getLast? = some ']' :=
  getLast?_brackets _

theorem strip_listed (ss : List SignedNumeral) : strip (listed ss) = listed ss :=
  strip_brackets _

theorem ne_bracket {ss : List SignedNumeral} (h : ∀ s ∈ ss, s.WellFormed) :
    ∀ c ∈ SignedNumeral.listed ss, c ≠ '[' ∧ c ≠ ']' := by
  intro c hc
  rcases SignedNumeral.listed_chars h c hc with hc | rfl | rfl
  · constructor <;> rintro rfl <;> exact absurd hc (by decide)
  · decide
  · decide

/-- Numbers in brackets are read as they are. -/
theorem values_listed {K : Type} [Scalar K] {ss : List SignedNumeral} (hne : ss ≠ [])
    (h : ∀ s ∈ ss, s.WellFormed) :
    values (listed ss) = .ok (ss.map (SignedNumeral.value (K := K))) := by
  obtain ⟨s, rest, rfl⟩ := List.exists_cons_of_ne_nil hne
  have hbracket := ne_bracket h
  have hopening : (SignedNumeral.listed (s :: rest)).contains '[' = false := by
    rw [List.contains_eq_mem, decide_eq_false_iff_not]
    exact fun hc => (hbracket '[' hc).1 rfl
  have hclosing : (SignedNumeral.listed (s :: rest)).contains ']' = false := by
    rw [List.contains_eq_mem, decide_eq_false_iff_not]
    exact fun hc => (hbracket ']' hc).2 rfl
  have hnil := SignedNumeral.listed_ne_nil (h s List.mem_cons_self) rest
  have hnumerals : numerals (K := K) (listed (s :: rest)) = .ok (s :: rest) := by
    unfold numerals
    rw [strip_listed, dropEnds_listed, SignedNumeral.strip_listed h]
    dsimp only
    rw [if_neg hnil, hopening, hclosing, Bool.or_false, if_neg Bool.false_ne_true,
      SignedNumeral.entries?_listed h]
  rw [values, hnumerals]
  rfl

end Bracketed

end SteppedConvolution
