import Mathlib.Data.List.Forall2
import SteppedConvolution.Proofs.Numeral.Grammar
import SteppedConvolution.Proofs.Numeral.Listed
import SteppedConvolution.Proofs.Text.Strip

/-! # Entries in brackets

The entries of a text are the runs of characters between its separators. A text is a list of
numbers when every entry is a row of signed numbers, one or more, the longest taken each time.
So an entry that is one number in full gives one value. A point without digits behind it ends
no number here, and nothing asks for a separator between two numbers.
-/

namespace SteppedConvolution

namespace SignedNumeral

open Numeral Text

/-! ## Signed numbers as texts -/

/-- A number with or without a sign in front. -/
inductive IsEntry (rule : PointRule) : List Char → Prop
  | mk {sign body : List Char} (hs : IsSign sign) (hb : IsNumber rule body) :
    IsEntry rule (sign ++ body)

/-- The entries of a text: what stands between its separators. -/
def runs (cs : List Char) : List (List Char) := (cs.splitOnP isSeparator).filter (· ≠ [])

variable {c : Char} {cs rest v w : List Char} {s t : SignedNumeral} {ss : List SignedNumeral}

theorem isEntry_iff : IsEntry .needsDigits w ↔ ∃ s : SignedNumeral, s.WellFormed ∧ s.text = w := by
  constructor
  · rintro ⟨hs, hb⟩
    obtain ⟨sign, rfl⟩ := hs.exists_toList
    obtain ⟨n, hn, rfl⟩ := isNumber_iff.1 hb
    exact ⟨⟨sign, n⟩, ⟨isSign_toList_iff.1 hs, hn⟩, rfl⟩
  · rintro ⟨s, hs, rfl⟩
    exact .mk (isSign_toList_iff.2 hs.sign) (isNumber_iff.2 ⟨s.numeral, hs.numeral, rfl⟩)

theorem IsEntry.isNumeric (h : IsEntry .needsDigits w) : ∀ c ∈ w, isNumeric c = true := by
  obtain ⟨s, hs, rfl⟩ := isEntry_iff.1 h
  exact hs.isNumeric_of_mem

/-- A signed number is known by its text. -/
theorem WellFormed.eq_of_text (hs : s.WellFormed) (ht : t.WellFormed) (h : s.text = t.text) :
    s = t := by
  have hscan := hs.scan?_text ends_nil
  rw [h, ht.scan?_text ends_nil] at hscan
  exact (Prod.mk.inj (Option.some.inj hscan)).1.symm

/-- A scan takes the longest signed number at the front of a text. -/
theorem isLongest_of_scan? (h : scan? cs = some (s, rest)) :
    IsLongest (IsEntry .needsDigits) s.text cs := by
  refine ⟨isEntry_iff.2 ⟨s, wellFormed_of_scan? h, rfl⟩, ⟨rest, scan?_append h⟩, ?_⟩
  rintro v hv ⟨after, rfl⟩
  obtain ⟨t, ht, rfl⟩ := isEntry_iff.1 hv
  unfold scan? at h
  dsimp only at h
  rw [ht.spanSign_text] at h
  obtain ⟨⟨n, later⟩, hn, he⟩ := Option.map_eq_some_iff.1 h
  cases he
  have hbody := (Numeral.isLongest_of_scan? hn).longest t.numeral.text
    (isNumber_iff.2 ⟨_, ht.numeral, rfl⟩) ⟨after, rfl⟩
  simpa only [text, List.length_append, Nat.add_le_add_iff_left] using hbody

/-- Where a scan finds nothing there is no signed number. -/
theorem not_isEntry_of_scan? (h : scan? cs = none) (hv : v <+: cs) :
    ¬ IsEntry .needsDigits v := by
  intro hentry
  obtain ⟨after, rfl⟩ := hv
  obtain ⟨t, ht, rfl⟩ := isEntry_iff.1 hentry
  unfold scan? at h
  dsimp only at h
  rw [ht.spanSign_text, Option.map_eq_none_iff] at h
  exact Numeral.not_isNumber_of_scan? h ⟨after, rfl⟩ (isNumber_iff.2 ⟨_, ht.numeral, rfl⟩)

theorem scan?_of_isLongest (hs : s.WellFormed) (h : IsLongest (IsEntry .needsDigits) s.text cs)
    (happ : s.text ++ rest = cs) : scan? cs = some (s, rest) := by
  cases hscan : scan? cs with
  | none => exact absurd h.word (not_isEntry_of_scan? hscan h.front)
  | some found =>
    obtain ⟨t, after⟩ := found
    have htext := (isLongest_of_scan? hscan).unique h
    obtain rfl := (wellFormed_of_scan? hscan).eq_of_text hs htext
    rw [List.append_cancel_left ((scan?_append hscan).trans happ.symm)]

/-! ## One entry -/

theorem isNumeric_of_isSeparator (h : isSeparator c = true) : isNumeric c = false := by
  by_contra hn
  rw [Bool.not_eq_false] at hn
  simp only [isSeparator, isBlank_of_isNumeric hn, Bool.or_false, decide_eq_true_eq] at h
  rw [h] at hn
  revert hn
  decide

/-- An entry is a row of signed numbers. -/
theorem entries?_run (hw : ∀ c ∈ w, isSeparator c = false) : entries? w = some ss ↔
    (∀ s ∈ ss, s.WellFormed) ∧ CutInto (IsEntry .needsDigits) w (ss.map text) := by
  constructor
  · intro h
    refine ⟨wellFormed_of_entries? h, ?_⟩
    fun_induction entries? w generalizing ss with
    | case1 cs s rest hscan _ ih =>
      obtain ⟨later, hlater, rfl⟩ := Option.map_eq_some_iff.1 h
      have happ := scan?_append hscan
      have hrest : ∀ c ∈ rest, isSeparator c = false :=
        fun c hc => hw c (happ ▸ List.mem_append_right _ hc)
      exact .cons happ (wellFormed_of_scan? hscan).text_ne_nil (isLongest_of_scan? hscan)
        (ih hrest hlater)
    | case2 =>
      cases h
      exact .nil
    | case3 c rest hscan hseparator =>
      rw [hw c List.mem_cons_self] at hseparator
      cases hseparator
    | case4 => cases h
  · rintro ⟨hs, hcut⟩
    clear hw
    induction ss generalizing w with
    | nil =>
      cases hcut
      exact entries?_nil
    | cons s ss ih =>
      cases hcut with
      | cons happ hne hlongest hcut =>
        rw [List.forall_mem_cons] at hs
        rw [entries?_of_scan? (scan?_of_isLongest hs.1 hlongest happ), ih hs.2 hcut]
        rfl

/-! ## Entries between separators -/

/-- A separator ends the number in front of it. -/
theorem scan?_append_separator (hc : isSeparator c = true) (cs rest : List Char) :
    scan? (cs ++ c :: rest) = (scan? cs).map fun found => (found.1, found.2 ++ c :: rest) := by
  have hlongest {v : List Char} : IsLongest (IsEntry .needsDigits) v (cs ++ c :: rest) ↔
      IsLongest (IsEntry .needsDigits) v cs := by
    refine isLongest_append_iff (fun v hv => hv.isNumeric) ?_
    rintro d ⟨⟩
    exact isNumeric_of_isSeparator hc
  cases hscan : scan? cs with
  | none =>
    cases hwhole : scan? (cs ++ c :: rest) with
    | none => rfl
    | some found =>
      have h := hlongest.1 (isLongest_of_scan? hwhole)
      exact absurd h.word (not_isEntry_of_scan? hscan h.front)
  | some found =>
    have h := hlongest.2 (isLongest_of_scan? hscan)
    refine scan?_of_isLongest (wellFormed_of_scan? hscan) h ?_
    rw [← List.append_assoc, scan?_append hscan]

theorem entries?_stop (h : scan? (c :: cs) = none) (hc : isSeparator c = false) :
    entries? (c :: cs) = none := by
  rw [entries?_of_scan?_eq_none h, if_neg (by simp [hc])]

theorem entries?_append_separator (hc : isSeparator c = true) (cs rest : List Char) :
    entries? (cs ++ c :: rest) =
      (entries? cs).bind fun ss => (entries? rest).map (ss ++ ·) := by
  fun_induction entries? cs with
  | case1 cs s after hscan _ ih =>
    have hwhole := scan?_append_separator hc cs rest
    rw [hscan] at hwhole
    rw [entries?_of_scan? hwhole, ih]
    cases entries? after <;> simp [Function.comp_def]
  | case2 =>
    have hnone := scan?_append_separator hc [] rest
    rw [List.nil_append, entries?_of_separator hnone hc]
    simp
  | case3 d cs hscan hd ih =>
    have hwhole := scan?_append_separator hc (d :: cs) rest
    rw [hscan] at hwhole
    exact (entries?_of_separator hwhole hd).trans ih
  | case4 d cs hscan hd =>
    have hwhole := scan?_append_separator hc (d :: cs) rest
    rw [hscan] at hwhole
    exact entries?_stop hwhole (by simpa using hd)

theorem runs_append_separator (hc : isSeparator c = true) (cs rest : List Char) :
    runs (cs ++ c :: rest) = runs cs ++ runs rest := by
  rw [runs, List.splitOnP_append_cons _ _ hc, List.filter_append]
  rfl

theorem runs_of_forall (hw : ∀ c ∈ w, isSeparator c = false) :
    runs w = if w = [] then [] else [w] := by
  rw [runs, List.splitOnP_eq_singleton hw]
  split_ifs with h <;> simp [h]

/-- A text is cut at its first separator. -/
theorem separator_cases (cs : List Char) : (∀ c ∈ cs, isSeparator c = false) ∨
    ∃ before c after, isSeparator c = true ∧ cs = before ++ c :: after := by
  by_cases h : ∃ c ∈ cs, isSeparator c = true
  · obtain ⟨c, hc, hseparator⟩ := h
    obtain ⟨before, after, rfl⟩ := List.append_of_mem hc
    exact .inr ⟨before, c, after, hseparator, rfl⟩
  · exact .inl fun c hc => by simpa using fun hseparator => h ⟨c, hc, hseparator⟩

/-- Rows of signed numbers, one for each entry of a text. -/
def AreRows (cs : List Char) (rows : List (List (List Char))) : Prop :=
  List.Forall₂ (CutInto (IsEntry .needsDigits)) (runs cs) rows

theorem forall₂_append_left_iff {α β : Type} {R : α → β → Prop} {as bs : List α} {cs : List β} :
    List.Forall₂ R (as ++ bs) cs ↔
      ∃ cs₁ cs₂, List.Forall₂ R as cs₁ ∧ List.Forall₂ R bs cs₂ ∧ cs = cs₁ ++ cs₂ := by
  induction as generalizing cs with
  | nil => simp
  | cons a as ih =>
    simp only [List.cons_append, List.forall₂_cons_left_iff, ih]
    constructor
    · rintro ⟨c, _, hc, ⟨cs₁, cs₂, h₁, h₂, rfl⟩, rfl⟩
      exact ⟨c :: cs₁, cs₂, ⟨c, cs₁, hc, h₁, rfl⟩, h₂, rfl⟩
    · rintro ⟨_, cs₂, ⟨c, cs₁, hc, h₁, rfl⟩, h₂, rfl⟩
      exact ⟨c, cs₁ ++ cs₂, hc, ⟨cs₁, cs₂, h₁, h₂, rfl⟩, rfl⟩

theorem areRows_append_separator_iff (hc : isSeparator c = true)
    {rows : List (List (List Char))} : AreRows (cs ++ c :: rest) rows ↔
      ∃ rows₁ rows₂, AreRows cs rows₁ ∧ AreRows rest rows₂ ∧ rows = rows₁ ++ rows₂ := by
  rw [AreRows, runs_append_separator hc, forall₂_append_left_iff]
  rfl

/-- The rows of a text without separators are a single one, if there is anything to read. -/
theorem exists_areRows_iff (hw : ∀ c ∈ w, isSeparator c = false) {texts : List (List Char)} :
    (∃ rows, AreRows w rows ∧ rows.flatten = texts) ↔ CutInto (IsEntry .needsDigits) w texts := by
  simp only [AreRows, runs_of_forall hw]
  split_ifs with hnil
  · subst hnil
    simp only [List.forall₂_nil_left_iff, exists_eq_left, List.flatten_nil]
    constructor
    · rintro rfl
      exact .nil
    · intro h
      exact (CutInto.nil).unique h
  · simp only [List.forall₂_cons_left_iff, List.forall₂_nil_left_iff]
    constructor
    · rintro ⟨_, ⟨row, _, hrow, rfl, rfl⟩, rfl⟩
      simpa using hrow
    · intro h
      exact ⟨[texts], ⟨texts, [], h, rfl, rfl⟩, by simp⟩

/-- The numbers of a text are those of its entries, in a row. -/
theorem entries?_iff : entries? cs = some ss ↔
    (∀ s ∈ ss, s.WellFormed) ∧ ∃ rows, AreRows cs rows ∧ rows.flatten = ss.map text := by
  -- on the length: a separator cuts the text into two shorter ones, read apart from each other
  induction hl : cs.length using Nat.strong_induction_on generalizing cs ss with
  | _ n ih =>
    rcases separator_cases cs with hcs | ⟨before, c, after, hc, rfl⟩
    · rw [entries?_run hcs, exists_areRows_iff hcs]
    · rw [List.length_append, List.length_cons] at hl
      have hbefore (ss : List SignedNumeral) := @ih before.length (by omega) before ss rfl
      have hafter (ss : List SignedNumeral) := @ih after.length (by omega) after ss rfl
      simp only [entries?_append_separator hc, areRows_append_separator_iff hc,
        Option.bind_eq_some_iff, Option.map_eq_some_iff, hbefore, hafter]
      constructor
      · rintro ⟨ss₁, ⟨hs₁, rows₁, hrows₁, htext₁⟩, ss₂, ⟨hs₂, rows₂, hrows₂, htext₂⟩, rfl⟩
        refine ⟨List.forall_mem_append.2 ⟨hs₁, hs₂⟩, rows₁ ++ rows₂,
          ⟨rows₁, rows₂, hrows₁, hrows₂, rfl⟩, ?_⟩
        rw [List.flatten_append, htext₁, htext₂, List.map_append]
      · rintro ⟨hs, _, ⟨rows₁, rows₂, hrows₁, hrows₂, rfl⟩, htext⟩
        rw [List.flatten_append, eq_comm, List.map_eq_append_iff] at htext
        obtain ⟨ss₁, ss₂, rfl, htext₁, htext₂⟩ := htext
        rw [List.forall_mem_append] at hs
        exact ⟨ss₁, ⟨hs.1, rows₁, hrows₁, htext₁.symm⟩, ss₂, ⟨hs.2, rows₂, hrows₂, htext₂.symm⟩,
          rfl⟩

/-! ## Separators at the ends -/

theorem runs_of_separators (h : ∀ c ∈ cs, isSeparator c = true) : runs cs = [] := by
  induction cs with
  | nil => exact runs_of_forall nofun
  | cons c cs ih =>
    rw [List.forall_mem_cons] at h
    exact (runs_append_separator h.1 [] cs).trans (ih h.2)

theorem runs_append_left (h : ∀ c ∈ cs, isSeparator c = true) (rest : List Char) :
    runs (cs ++ rest) = runs rest := by
  induction cs with
  | nil => rfl
  | cons c cs ih =>
    rw [List.forall_mem_cons] at h
    exact (runs_append_separator h.1 [] (cs ++ rest)).trans (ih h.2)

theorem runs_append_right (h : ∀ c ∈ rest, isSeparator c = true) (cs : List Char) :
    runs (cs ++ rest) = runs cs := by
  cases rest with
  | nil => rw [List.append_nil]
  | cons c rest =>
    rw [List.forall_mem_cons] at h
    rw [runs_append_separator h.1, runs_of_separators h.2, List.append_nil]

theorem runs_strip (cs : List Char) : runs (strip cs) = runs cs := by
  obtain ⟨before, after, h⟩ := exists_stripsTo isBlank cs
  have hseparator {c : Char} (hc : isBlank c = true) : isSeparator c = true := by
    simp [isSeparator, hc]
  conv_rhs => rw [← h.append, runs_append_right fun c hc => hseparator (h.after c hc),
    runs_append_left fun c hc => hseparator (h.before c hc)]
  rfl

theorem entries?_strip (cs : List Char) : entries? (strip cs) = entries? cs := by
  ext ss
  simp only [entries?_iff, AreRows, runs_strip]

/-! ## One number for each entry -/

theorem ne_nil_of_mem_runs (h : w ∈ runs cs) : w ≠ [] := by
  simpa using (List.mem_filter.1 h).2

theorem IsEntry.mayTrail (h : IsEntry .needsDigits w) : IsEntry .mayTrail w := by
  obtain ⟨hs, hb⟩ := h
  obtain ⟨n, hn, rfl⟩ := isNumber_iff.1 hb
  exact .mk hs (isNumber_iff.2 ⟨n, hn.mayTrail, rfl⟩)

theorem isEntry_of_mem_rows {ws : List (List Char)} {rows : List (List (List Char))}
    (h : List.Forall₂ (CutInto (IsEntry .needsDigits)) ws rows) :
    ∀ w ∈ rows.flatten, IsEntry .needsDigits w := by
  induction h with
  | nil => simp
  | cons hcut _ ih =>
    rw [List.flatten_cons, List.forall_mem_append]
    refine ⟨fun w hw => ?_, ih⟩
    obtain ⟨before, after, rfl⟩ := List.append_of_mem hw
    exact hcut.isLongest.2.word

/-- There are at least as many numbers as entries, and as many only if each entry is a number. -/
theorem length_rows_iff {ws : List (List Char)} {rows : List (List (List Char))}
    (h : List.Forall₂ (CutInto (IsEntry .needsDigits)) ws rows) (hn : ∀ w ∈ ws, w ≠ []) :
    ws.length ≤ rows.flatten.length ∧
      (rows.flatten.length = ws.length ↔ ∀ w ∈ ws, IsEntry .needsDigits w) := by
  induction h with
  | nil => simp
  | @cons w row ws rows hcut h ih =>
    rw [List.forall_mem_cons] at hn
    obtain ⟨hle, hiff⟩ := ih hn.2
    obtain ⟨hpos, hone⟩ := hcut.length_eq_one_iff hn.1
    rw [List.forall_mem_cons, ← hone, ← hiff, List.flatten_cons, List.length_append,
      List.length_cons]
    omega

theorem areRows_singletons (h : ∀ w ∈ runs cs, IsEntry .needsDigits w) :
    AreRows cs ((runs cs).map fun w => [w]) := by
  rw [AreRows, List.forall₂_map_right_iff, List.forall₂_same]
  exact fun w hw => .single (h w hw) (ne_nil_of_mem_runs hw)

end SignedNumeral

end SteppedConvolution
