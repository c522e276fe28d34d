import SteppedConvolution.Proofs.Numeral.Entries
import SteppedConvolution.Scalar.Rational

/-! # Numbers in brackets, entry by entry

What a text in brackets is read as, stated about its entries. Reading succeeds with one value
for each entry exactly when every entry is a number in full, with digits behind its point if
there is one. Nothing else is asked of the entries than to be rows of such numbers.
-/

namespace SteppedConvolution.Bracketed

open SignedNumeral Text

/-- A text in brackets. -/
def around (content : List Char) : List Char := '[' :: (content ++ [']'])

/-- What an entry is read as when it stands alone. -/
def valueOf? {K : Type} [Scalar K] (w : List Char) : Option K :=
  (Reading.ofText? w).bind Reading.value?

/-- An entry that is read as one number if it is one, and not at all otherwise. It does not end its
digits with the point, and it is no row of several numbers. -/
structure ReadsWhole (w : List Char) : Prop where
  point : IsEntry .mayTrail w → IsEntry .needsDigits w
  single : ∀ row, CutInto (IsEntry .needsDigits) w row → row.length ≤ 1

variable {K : Type} {content : List Char} {ss : List SignedNumeral}

/-- Reading a text in brackets comes down to the numbers of what stands between them. -/
theorem numerals_around (hb : '[' ∉ content ∧ ']' ∉ content) :
    (numerals (around content) : Except (TextFault K) _) =
      if isBlankText content then .error .emptyBrackets
      else
        match entries? content with
        | some (s :: rest) => .ok (s :: rest)
        | _ => .error .malformedEntries := by
  have hbracket : ((strip content).contains '[' || (strip content).contains ']') = false := by
    obtain ⟨before, after, h⟩ := exists_stripsTo isBlank content
    have hmem {c : Char} (hc : c ∉ content) : c ∉ strip content := by
      rw [← h.append] at hc
      exact fun hs => hc (List.mem_append_left _ (List.mem_append_right _ hs))
    simp [hmem hb.1, hmem hb.2]
  rw [numerals, around, strip_brackets, dropEnds_brackets]
  simp only [hbracket, entries?_strip, Bool.false_eq_true, if_false]
  exact if_congr strip_eq_nil_iff rfl rfl

theorem numerals_around_eq_ok_iff (hb : '[' ∉ content ∧ ']' ∉ content) :
    (numerals (around content) : Except (TextFault K) _) = .ok ss ↔
      ss ≠ [] ∧ entries? content = some ss := by
  rw [numerals_around hb]
  split_ifs with hblank
  · have hnone : entries? content = some [] := by
      rw [← entries?_strip, strip_eq_nil_iff.2 hblank, entries?_nil]
    simp [hnone, eq_comm]
  · split
    · rename_i s rest hentries
      constructor
      · rintro ⟨⟩
        exact ⟨List.cons_ne_nil s rest, hentries⟩
      · rintro ⟨-, heq⟩
        rw [hentries] at heq
        cases heq
        rfl
    · rename_i hentries
      constructor
      · rintro ⟨⟩
      · rintro ⟨hne, heq⟩
        obtain ⟨s, rest, rfl⟩ := List.exists_cons_of_ne_nil hne
        exact absurd heq (hentries s rest)

variable [Scalar K] {vs : List K}

theorem map_valueOf? (h : ∀ s ∈ ss, s.WellFormed) :
    (ss.map SignedNumeral.text).map (valueOf? (K := K)) =
      (ss.map SignedNumeral.value).map some := by
  rw [List.map_map, List.map_map]
  exact List.map_congr_left fun s hs => (h s hs).value?_ofText?

theorem exists_texts {ws : List (List Char)} (h : ∀ w ∈ ws, IsEntry .needsDigits w) :
    ∃ ss : List SignedNumeral, (∀ s ∈ ss, s.WellFormed) ∧ ws = ss.map SignedNumeral.text := by
  induction ws with
  | nil => exact ⟨[], nofun, rfl⟩
  | cons w ws ih =>
    rw [List.forall_mem_cons] at h
    obtain ⟨s, hs, rfl⟩ := isEntry_iff.1 h.1
    obtain ⟨ss, hss, rfl⟩ := ih h.2
    exact ⟨s :: ss, List.forall_mem_cons.2 ⟨hs, hss⟩, rfl⟩

/-- The values are those of the numbers in the rows of all entries. -/
theorem values_around_eq_ok_iff (hb : '[' ∉ content ∧ ']' ∉ content) :
    (values (around content) : Except (TextFault K) _) = .ok vs ↔ runs content ≠ [] ∧
      ∃ rows, AreRows content rows ∧ rows.flatten.map valueOf? = vs.map some := by
  rw [values, map_eq_ok]
  simp only [numerals_around_eq_ok_iff hb, entries?_iff]
  constructor
  · rintro ⟨ss, ⟨hne, hs, rows, hrows, htext⟩, rfl⟩
    refine ⟨fun hnil => hne ?_, rows, hrows, ?_⟩
    · rw [AreRows, hnil, List.forall₂_nil_left_iff] at hrows
      rw [hrows, eq_comm] at htext
      exact List.map_eq_nil_iff.1 htext
    · rw [htext, map_valueOf? hs]
  · rintro ⟨hne, rows, hrows, hvalues⟩
    obtain ⟨ss, hs, htext⟩ := exists_texts (isEntry_of_mem_rows hrows)
    have hle := (length_rows_iff hrows fun w => ne_nil_of_mem_runs).1
    rw [htext, List.length_map] at hle
    -- there are no fewer numbers than entries, so there is one
    have hpos := List.length_pos_iff.2 hne
    refine ⟨ss, ⟨List.length_pos_iff.1 (hpos.trans_le hle), hs, rows, hrows, htext⟩, ?_⟩
    rw [htext, map_valueOf? hs] at hvalues
    exact List.map_injective_iff.2 (fun _ _ => Option.some.inj) hvalues

theorem cause_of_values_around {cause : TextFault K} (hb : '[' ∉ content ∧ ']' ∉ content)
    (h : (values (around content) : Except (TextFault K) (List K)) = .error cause) :
    cause = if isBlankText content then .emptyBrackets else .malformedEntries := by
  rw [values, numerals_around hb] at h
  split_ifs at h ⊢
  · cases h
    rfl
  · split at h <;> cases h
    rfl

theorem length_values_around_iff (hb : '[' ∉ content ∧ ']' ∉ content)
    (h : (values (around content) : Except (TextFault K) _) = .ok vs) :
    vs.length = (runs content).length ↔ ∀ w ∈ runs content, IsEntry .needsDigits w := by
  obtain ⟨-, rows, hrows, hvalues⟩ := (values_around_eq_ok_iff hb).1 h
  have hlength := congrArg List.length hvalues
  rw [List.length_map, List.length_map] at hlength
  rw [← hlength]
  exact (length_rows_iff hrows fun w => ne_nil_of_mem_runs).2

/-- Entries that are numbers in full are read one by one. -/
theorem values_around_of_forall (hb : '[' ∉ content ∧ ']' ∉ content)
    (h : ∀ w ∈ runs content, IsEntry .needsDigits w) (hne : runs content ≠ []) :
    ∃ vs : List K, (values (around content) : Except (TextFault K) _) = .ok vs ∧
      (runs content).map valueOf? = vs.map some := by
  obtain ⟨ss, hs, htext⟩ := exists_texts h
  have hrows := areRows_singletons h
  have hflatten : ((runs content).map fun w => [w]).flatten = runs content := by
    rw [← List.flatMap_def, List.flatMap_singleton']
  have hvalues : (runs content).map (valueOf? (K := K)) =
      (ss.map SignedNumeral.value).map some := by
    rw [htext, map_valueOf? hs]
  exact ⟨_, (values_around_eq_ok_iff hb).2 ⟨hne, _, hrows, by rw [hflatten, hvalues]⟩, hvalues⟩

theorem length_rows_le {ws : List (List Char)} {rows : List (List (List Char))}
    (h : List.Forall₂ (CutInto (IsEntry .needsDigits)) ws rows) (hw : ∀ w ∈ ws, ReadsWhole w) :
    rows.flatten.length ≤ ws.length := by
  induction h with
  | nil => simp
  | @cons w row ws rows hcut _ ih =>
    rw [List.forall_mem_cons] at hw
    have hrow := hw.1.single row hcut
    have hrows := ih hw.2
    rw [List.flatten_cons, List.length_append, List.length_cons]
    omega

theorem isEntry_of_values_around (hb : '[' ∉ content ∧ ']' ∉ content)
    (hw : ∀ w ∈ runs content, ReadsWhole w)
    (h : (values (around content) : Except (TextFault K) _) = .ok vs) :
    ∀ w ∈ runs content, IsEntry .needsDigits w := by
  obtain ⟨-, rows, hrows, -⟩ := (values_around_eq_ok_iff (K := K) hb).1 h
  obtain ⟨hle, hiff⟩ := length_rows_iff hrows fun w => ne_nil_of_mem_runs
  exact hiff.1 (Nat.le_antisymm (length_rows_le hrows hw) hle)

/-- What the numbers in brackets have to do with the entries. -/
structure ReadByEntry (K : Type) [Scalar K] (content : List Char) : Prop where
  /-- Every entry is a row of numbers, and their values come in order. -/
  rows : ∀ vs : List K, (values (around content) : Except (TextFault K) _) = .ok vs ↔
    runs content ≠ [] ∧ ∃ rows, AreRows content rows ∧ rows.flatten.map valueOf? = vs.map some
  /-- There is one value for each entry only if each entry is one number in full. -/
  length : ∀ vs : List K, (values (around content) : Except (TextFault K) _) = .ok vs →
    (vs.length = (runs content).length ↔ ∀ w ∈ runs content, IsEntry .needsDigits w)
  /-- Entries that are numbers in full are read one by one. -/
  numbers : (∀ w ∈ runs content, IsEntry .needsDigits w) → runs content ≠ [] →
    ∃ vs : List K, (values (around content) : Except (TextFault K) _) = .ok vs ∧
      (runs content).map valueOf? = vs.map some
  /-- Where entries are read as one number or not at all, the numbers are those of expressions. -/
  whole : (∀ w ∈ runs content, ReadsWhole w) →
    ((∃ vs : List K, (values (around content) : Except (TextFault K) _) = .ok vs) ↔
      runs content ≠ [] ∧ ∀ w ∈ runs content, IsEntry .mayTrail w) ∧
    ∀ vs : List K, (values (around content) : Except (TextFault K) _) = .ok vs →
      (runs content).map valueOf? = vs.map some
  cause : ∀ cause, (values (around content) : Except (TextFault K) (List K)) = .error cause →
    cause = if isBlankText content then .emptyBrackets else .malformedEntries

/-- A text in brackets without further brackets inside is read entry by entry. -/
theorem values_around (hb : '[' ∉ content ∧ ']' ∉ content) : ReadByEntry K content where
  rows _ := values_around_eq_ok_iff hb
  length _ := length_values_around_iff hb
  numbers := values_around_of_forall hb
  whole hw := by
    refine ⟨⟨fun ⟨vs, hvs⟩ => ?_, fun ⟨hne, hentries⟩ => ?_⟩, fun vs hvs => ?_⟩
    · exact ⟨((values_around_eq_ok_iff (K := K) hb).1 hvs).1,
        fun w hmem => (isEntry_of_values_around hb hw hvs w hmem).mayTrail⟩
    · have hentries : ∀ w ∈ runs content, IsEntry .needsDigits w :=
        fun w hmem => (hw w hmem).point (hentries w hmem)
      obtain ⟨vs, hvs, -⟩ := values_around_of_forall (K := K) hb hentries hne
      exact ⟨vs, hvs⟩
    · have hne := ((values_around_eq_ok_iff (K := K) hb).1 hvs).1
      have hentries := isEntry_of_values_around hb hw hvs
      obtain ⟨vs', hvs', hvalues⟩ := values_around_of_forall (K := K) hb hentries hne
      rw [hvs] at hvs'
      cases hvs'
      exact hvalues
  cause _ := cause_of_values_around hb

/-- An instance with numbers of several forms, separated by commas and blanks. -/
theorem values_around_several :
    ('[' ∉ "1, -.5 3e1".toList ∧ ']' ∉ "1, -.5 3e1".toList) ∧ ReadByEntry Rat "1, -.5 3e1".toList :=
  ⟨by decide, values_around (by decide)⟩

/-- A number whose point has no digits behind it is refused, though expressions admit it, and two
numbers without a separator between them are read as two values of one entry. -/
theorem values_around_point :
    (runs "1., 2.".toList ≠ [] ∧ (∀ w ∈ runs "1., 2.".toList, IsEntry .mayTrail w) ∧
      (values (around "1., 2.".toList) : Except (TextFault Rat) (List Rat)) =
        .error .malformedEntries) ∧
    runs "1-2".toList = ["1-2".toList] ∧
      (values (around "1-2".toList) : Except (TextFault Rat) (List Rat)) = .ok [1, -2] := by
  have hpoint : entries? "1., 2.".toList = none := by
    have hfirst : scan? "1., 2.".toList = some (⟨none, ⟨['1'], none, none⟩⟩, "., 2.".toList) := rfl
    have hstop : entries? "., 2.".toList = none := entries?_stop rfl rfl
    rw [entries?_of_scan? hfirst, hstop]
    rfl
  have hrow : entries? "1-2".toList =
      some [⟨none, ⟨['1'], none, none⟩⟩, ⟨some '-', ⟨['2'], none, none⟩⟩] := by
    have hfirst : scan? "1-2".toList = some (⟨none, ⟨['1'], none, none⟩⟩, "-2".toList) := rfl
    have hsecond : scan? "-2".toList = some (⟨some '-', ⟨['2'], none, none⟩⟩, []) := rfl
    rw [entries?_of_scan? hfirst, entries?_of_scan? hsecond, entries?_nil]
    rfl
  refine ⟨⟨by decide, ?_, ?_⟩, by decide, ?_⟩
  · have hruns : runs "1., 2.".toList = ["1.".toList, "2.".toList] := by decide
    have hnumber {d : Char} (hd : Text.isDigit d = true) : IsEntry .mayTrail [d, '.'] := by
      have hdigits : Numeral.IsDigits [d] := ⟨by simp, by simpa using hd⟩
      exact .mk (.inl rfl) (.plain (.trailing rfl hdigits))
    rw [hruns, List.forall_mem_cons, List.forall_mem_singleton]
    exact ⟨hnumber (by decide), hnumber (by decide)⟩
  · rw [values, numerals_around (by decide), hpoint]
    rfl
  · rw [values, numerals_around (by decide), hrow]
    decide

end SteppedConvolution.Bracketed
