import Mathlib.Tactic.SplitIfs
import SteppedConvolution.Numeral.Entries
import SteppedConvolution.Numeral.Reading
import SteppedConvolution.Proofs.Text.Characters

/-! # Texts of numbers

A scan gives a numeral whose parts are in order, and such a numeral is scanned off the front
of every text that starts with its characters, as long as what follows cannot be a part of
it. Alone its text is read as the numeral, with or without a minus sign in front.
-/

namespace SteppedConvolution

namespace Numeral

open Text

/-- A power of ten with a mark, and digits behind its sign. -/
structure Power.WellFormed (p : Power) : Prop where
  mark : p.mark = 'e' ∨ p.mark = 'E'
  sign : p.sign = none ∨ p.sign = some '+' ∨ p.sign = some '-'
  digits : ∀ c ∈ p.digits, isDigit c = true
  ne_nil : p.digits ≠ []

/-- There are digits before the point or behind it, and behind it where they are needed. -/
structure WellFormed (rule : PointRule) (n : Numeral) : Prop where
  whole : ∀ c ∈ n.whole, isDigit c = true
  fraction : ∀ c ∈ n.places, isDigit c = true
  trailing : n.fraction = some [] → rule = .mayTrail
  ne_nil : n.whole ++ n.places ≠ []
  power : ∀ p ∈ n.power, p.WellFormed

/-- A character with which a number may go on. -/
def mayContinue (c : Char) : Bool := isDigit c || c = '.' || c = 'e' || c = 'E'

/-- No number goes on in a text. -/
def Ends (rest : List Char) : Prop := ∀ c ∈ rest.head?, mayContinue c = false

variable {rule : PointRule} {cs rest : List Char} {n : Numeral}

theorem WellFormed.mayTrail (h : n.WellFormed rule) : n.WellFormed .mayTrail :=
  { h with trailing := fun _ => rfl }

/-! ## What a scan gives -/

theorem isDigit_of_mem_spanDigits {c : Char} (h : c ∈ (spanDigits cs).1) : isDigit c = true :=
  List.all_eq_true.1 List.all_takeWhile c h

theorem spanSign_sign (cs : List Char) :
    (spanSign cs).1 = none ∨ (spanSign cs).1 = some '+' ∨ (spanSign cs).1 = some '-' := by
  unfold spanSign
  split
  · exact .inr (.inl rfl)
  · exact .inr (.inr rfl)
  · exact .inl rfl

theorem scanPower?_cons (mark : Char) (cs : List Char) : scanPower? (mark :: cs) =
    if mark = 'e' ∨ mark = 'E' then
      if (spanDigits (spanSign cs).2).1 = [] then none
      else some (⟨mark, (spanSign cs).1, (spanDigits (spanSign cs).2).1⟩,
        (spanDigits (spanSign cs).2).2)
    else none := rfl

theorem wellFormed_of_scanPower? {p : Power} (h : scanPower? cs = some (p, rest)) :
    p.WellFormed := by
  cases cs with
  | nil => cases h
  | cons mark cs =>
    rw [scanPower?_cons] at h
    split_ifs at h with hmark hdigits
    cases h
    exact ⟨hmark, spanSign_sign cs, fun c hc => isDigit_of_mem_spanDigits hc, hdigits⟩

/-- The digits of a scan and the point among them. -/
theorem digits_of_scanDigits? {whole : List Char} {fraction : Option (List Char)}
    (h : scanDigits? rule cs = some ((whole, fraction), rest)) :
    WellFormed rule ⟨whole, fraction, none⟩ := by
  have hwhole : ∀ c ∈ (spanDigits cs).1, isDigit c = true :=
    fun c hc => isDigit_of_mem_spanDigits hc
  have hplain (h : (if (spanDigits cs).1 = [] then none
      else some (((spanDigits cs).1, none), (spanDigits cs).2)) =
        some ((whole, fraction), rest)) : WellFormed rule ⟨whole, fraction, none⟩ := by
    split_ifs at h with hne
    cases h
    exact ⟨hwhole, by simp [places], nofun, by simpa [places] using hne, by simp⟩
  unfold scanDigits? at h
  dsimp only at h
  split at h
  · rename_i tail htail
    split_ifs at h with hpoint hne
    · cases h
      refine ⟨hwhole, fun c hc => isDigit_of_mem_spanDigits hc, ?_, ?_, by simp⟩
      · intro hnil
        rw [Option.some.inj hnil] at hpoint
        exact (hpoint.resolve_left (· rfl)).1
      · rcases hpoint with hpoint | ⟨-, hpoint⟩
        · exact List.append_ne_nil_of_right_ne_nil _ hpoint
        · exact List.append_ne_nil_of_left_ne_nil hpoint _
    · exact hplain (by rw [if_neg hne]; exact h)
  · exact hplain h

/-- What is scanned is a well-formed numeral. -/
theorem wellFormed_of_scan? (h : scan? rule cs = some (n, rest)) : n.WellFormed rule := by
  unfold scan? at h
  split at h
  · cases h
  · rename_i hd
    have hdigits := digits_of_scanDigits? hd
    split at h
    · rename_i hp
      cases h
      exact { hdigits with power := fun p hp' => by cases hp'; exact wellFormed_of_scanPower? hp }
    · cases h
      exact hdigits

/-! ## Scanning well-formed numerals -/

theorem spanDigits_of_isDigit {ds : List Char} (hd : ∀ c ∈ ds, isDigit c = true)
    (hr : ∀ c ∈ rest.head?, isDigit c = false) : spanDigits (ds ++ rest) = (ds, rest) := by
  obtain ⟨htake, hdrop⟩ := span_append hd hr
  rw [spanDigits, htake, hdrop]

theorem Ends.isDigit_eq_false (h : Ends rest) : ∀ c ∈ rest.head?, isDigit c = false := by
  intro c hc
  have := h c hc
  simp only [mayContinue, Bool.or_eq_false_iff] at this
  exact this.1.1.1

theorem scanPower?_of_ends (h : Ends rest) : scanPower? rest = none := by
  cases rest with
  | nil => rfl
  | cons c rest =>
    have hc := h c rfl
    simp [mayContinue] at hc
    simp [scanPower?, hc]

theorem spanSign_of_isDigit {ds : List Char} (hd : ∀ c ∈ ds, isDigit c = true) (hne : ds ≠ [])
    (rest : List Char) : spanSign (ds ++ rest) = (none, ds ++ rest) := by
  cases ds with
  | nil => exact absurd rfl hne
  | cons c ds =>
    have hc := hd c List.mem_cons_self
    rw [List.cons_append]
    unfold spanSign
    split
    · rename_i h
      cases h
      exact absurd hc (by decide)
    · rename_i h
      cases h
      exact absurd hc (by decide)
    · rfl

theorem scanPower?_text {p : Power} (hp : p.WellFormed) (h : Ends rest) :
    scanPower? (p.text ++ rest) = some (p, rest) := by
  obtain ⟨mark, sign, digits⟩ := p
  obtain ⟨hmark, hsign, hdigits, hne⟩ := hp
  have hspan := spanDigits_of_isDigit hdigits h.isDigit_eq_false
  have hs : spanSign (sign.toList ++ digits ++ rest) = (sign, digits ++ rest) := by
    rcases hsign with rfl | rfl | rfl
    · exact spanSign_of_isDigit hdigits hne rest
    · rfl
    · rfl
  change scanPower? (mark :: (sign.toList ++ digits ++ rest)) = _
  rw [scanPower?_cons, if_pos hmark, hs, hspan, if_neg hne]

/-- Digits with their point are scanned up to what is neither a digit nor a point. -/
theorem scanDigits?_text (hn : n.WellFormed rule)
    (hr : ∀ c ∈ rest.head?, isDigit c = false ∧ c ≠ '.') :
    scanDigits? rule (n.whole ++ fractionText n.fraction ++ rest) =
      some ((n.whole, n.fraction), rest) := by
  obtain ⟨whole, fraction, power⟩ := n
  obtain ⟨hwhole, hfraction, htrailing, hne, -⟩ := hn
  dsimp only [places] at *
  unfold scanDigits?
  cases fraction with
  | none =>
    have hne : whole ≠ [] := by simpa using hne
    have hspan := spanDigits_of_isDigit hwhole fun c hc => (hr c hc).1
    simp only [fractionText, List.append_nil, hspan]
    split
    · exact absurd rfl (hr '.' rfl).2
    · rw [if_neg hne]
  | some ds =>
    have hpoint : ∀ c ∈ ('.' :: (ds ++ rest)).head?, isDigit c = false := by
      rintro c ⟨⟩
      decide
    have hspan := spanDigits_of_isDigit hwhole hpoint
    have hds : spanDigits (ds ++ rest) = (ds, rest) :=
      spanDigits_of_isDigit hfraction fun c hc => (hr c hc).1
    have happ : whole ++ fractionText (some ds) ++ rest = whole ++ '.' :: (ds ++ rest) := by
      simp [fractionText]
    have hcond : ds ≠ [] ∨ rule = .mayTrail ∧ whole ≠ [] := by
      by_cases hnil : ds = []
      · subst hnil
        exact .inr ⟨htrailing rfl, by simpa using hne⟩
      · exact .inl hnil
    simp only [happ, hspan, hds, if_pos hcond]

/-- A well-formed numeral is scanned as far as its text goes. -/
theorem scan?_text (hn : n.WellFormed rule) (h : Ends rest) :
    scan? rule (n.text ++ rest) = some (n, rest) := by
  have hends {c : Char} (hc : mayContinue c = false) : isDigit c = false ∧ c ≠ '.' := by
    simp [mayContinue] at hc
    exact ⟨hc.1.1.1, hc.1.1.2⟩
  unfold scan?
  cases hp : n.power with
  | none =>
    have htext : n.text ++ rest = n.whole ++ fractionText n.fraction ++ rest := by
      simp [text, hp]
    rw [htext, scanDigits?_text hn fun c hc => hends (h c hc)]
    simp only [scanPower?_of_ends h, ← hp]
  | some p =>
    have htext : n.text ++ rest = n.whole ++ fractionText n.fraction ++ (p.text ++ rest) := by
      simp [text, hp]
    have hpower := hn.power p hp
    have hmark : ∀ c ∈ (p.text ++ rest).head?, isDigit c = false ∧ c ≠ '.' := by
      rintro c ⟨⟩
      rcases hpower.mark with hm | hm <;> rw [hm] <;> decide
    rw [htext, scanDigits?_text hn hmark]
    simp only [scanPower?_text hpower h, ← hp]

theorem ends_nil : Ends [] := nofun

theorem scan?_text_self (hn : n.WellFormed rule) : scan? rule n.text = some (n, []) := by
  have h := scan?_text hn ends_nil
  rwa [List.append_nil] at h

/-- No number starts with a character that is neither a digit nor a point. -/
theorem scan?_eq_none {c : Char} (h : isDigit c = false ∧ c ≠ '.') :
    scan? rule (c :: cs) = none := by
  have hspan : spanDigits (c :: cs) = ([], c :: cs) := by
    simp [spanDigits, h.1]
  have hdigits : scanDigits? rule (c :: cs) = none := by
    unfold scanDigits?
    simp only [hspan]
    split
    · rename_i heq
      exact absurd (List.cons.inj heq).1 h.2
    · rfl
  rw [scan?, hdigits]

/-! ## Characters of numerals -/

/-- A character of a number, which is a digit, a point, a mark of a power or a sign. -/
def isNumeric (c : Char) : Bool := mayContinue c || c = '+' || c = '-'

theorem mayContinue_of_isDigit {c : Char} (h : isDigit c = true) : mayContinue c = true := by
  simp [mayContinue, h]

theorem isNumeric_of_mayContinue {c : Char} (h : mayContinue c = true) : isNumeric c = true := by
  simp [isNumeric, h]

theorem WellFormed.isNumeric_of_mem (hn : n.WellFormed rule) :
    ∀ c ∈ n.text, isNumeric c = true := by
  have hdigit {c : Char} (h : isDigit c = true) : isNumeric c = true :=
    isNumeric_of_mayContinue (mayContinue_of_isDigit h)
  intro c hc
  simp only [text, List.mem_append] at hc
  rcases hc with (hc | hc) | hc
  · exact hdigit (hn.whole c hc)
  · cases hf : n.fraction with
    | none =>
      rw [hf] at hc
      cases hc
    | some ds =>
      rw [hf, fractionText, List.mem_cons] at hc
      rcases hc with rfl | hc
      · rfl
      · exact hdigit (hn.fraction c (by simpa [places, hf] using hc))
  · cases hp : n.power with
    | none =>
      rw [hp] at hc
      cases hc
    | some p =>
      obtain ⟨hmark, hsign, hdigits, -⟩ := hn.power p hp
      simp only [hp, Option.map_some, Option.getD_some, Power.text, List.mem_cons,
        List.mem_append] at hc
      rcases hc with rfl | hc | hc
      · rcases hmark with hmark | hmark <;> rw [hmark] <;> rfl
      · rcases hsign with hsign | hsign | hsign <;> rw [hsign] at hc
        · cases hc
        · obtain rfl := List.mem_singleton.1 hc
          rfl
        · obtain rfl := List.mem_singleton.1 hc
          rfl
      · exact hdigit (hdigits c hc)

theorem isBlank_of_isNumeric {c : Char} (h : isNumeric c = true) : isBlank c = false := by
  simp only [isNumeric, mayContinue, Bool.or_eq_true, decide_eq_true_eq] at h
  rcases h with ((((h | rfl) | rfl) | rfl) | rfl) | rfl
  · exact isBlank_of_isDigit h
  all_goals rfl

/-- A number starts with a digit or a point. -/
theorem WellFormed.exists_head (hn : n.WellFormed rule) :
    ∃ c cs, n.text = c :: cs ∧ (isDigit c = true ∨ c = '.') := by
  obtain ⟨whole, fraction, power⟩ := n
  cases whole with
  | cons c cs => exact ⟨c, _, rfl, .inl (hn.whole c List.mem_cons_self)⟩
  | nil =>
    cases fraction with
    | none => exact absurd rfl hn.ne_nil
    | some ds => exact ⟨'.', _, rfl, .inr rfl⟩

theorem WellFormed.spanSign_text (hn : n.WellFormed rule) (rest : List Char) :
    spanSign (n.text ++ rest) = (none, n.text ++ rest) := by
  obtain ⟨c, cs, htext, hc⟩ := hn.exists_head
  have hplus : c ≠ '+' := by
    rintro rfl
    revert hc
    decide
  have hminus : c ≠ '-' := by
    rintro rfl
    revert hc
    decide
  rw [htext, List.cons_append]
  unfold spanSign
  split
  · rename_i h
    exact absurd (List.cons.inj h).1 hplus
  · rename_i h
    exact absurd (List.cons.inj h).1 hminus
  · rfl

/-- A text that is a number for expressions and for vectors is the text of a numeral that needs no
point at its end. -/
theorem wellFormed_of_scans (h : scan? .mayTrail cs = some (n, [])) {s : SignedNumeral}
    (hs : SignedNumeral.scan? cs = some (s, [])) : n.WellFormed .needsDigits ∧ n.text = cs := by
  have hn := wellFormed_of_scan? h
  have htext : n.text = cs := (List.append_nil _).symm.trans (scan?_append h)
  have hspan := hn.spanSign_text []
  rw [List.append_nil, htext] at hspan
  unfold SignedNumeral.scan? at hs
  dsimp only at hs
  rw [hspan] at hs
  obtain ⟨⟨m, rest⟩, hm, hrest⟩ := Option.map_eq_some_iff.1 hs
  obtain ⟨-, rfl⟩ := Prod.mk.inj hrest
  have hmn : m = n := by
    have hself := scan?_text_self (wellFormed_of_scan? hm).mayTrail
    rw [(List.append_nil _).symm.trans (scan?_append hm), h] at hself
    exact (Prod.mk.inj (Option.some.inj hself)).1.symm
  exact ⟨hmn ▸ wellFormed_of_scan? hm, htext⟩

/-! ## Reading a whole text -/

theorem ungroup?_eq_self {before : Option Char} (h : ∀ c ∈ cs, isNumeric c = true) :
    Reading.ungroup? before cs = some cs := by
  induction cs generalizing before with
  | nil => rfl
  | cons c cs ih =>
    have hc : c ≠ '_' := by
      rintro rfl
      exact absurd (h '_' List.mem_cons_self) (by decide)
    have hcs : Reading.ungroup? (some c) cs = some cs :=
      ih fun d hd => h d (List.mem_cons_of_mem c hd)
    unfold Reading.ungroup?
    split
    · rename_i heq
      cases heq
    · rename_i heq
      exact absurd (List.cons.inj heq).1 hc
    · rename_i heq
      exact absurd (List.cons.inj heq).1 hc
    · rename_i heq
      obtain ⟨rfl, rfl⟩ := List.cons.inj heq
      rw [hcs]
      rfl

theorem ofName?_text (hn : n.WellFormed rule) (negative : Bool) :
    Reading.ofName? negative n.text = none := by
  obtain ⟨c, cs, htext, hc⟩ := hn.exists_head
  have hlower : c.toLower ≠ 'i' ∧ c.toLower ≠ 'n' := by
    rcases hc with hc | rfl
    · exact forall_of_isDigit (P := fun c => c.toLower ≠ 'i' ∧ c.toLower ≠ 'n')
        (by decide +kernel) hc
    · decide
  have hname {first : Char} {rest : List Char} (hne : c.toLower ≠ first) :
      String.ofList (n.text.map Char.toLower) ≠ String.ofList (first :: rest) := by
    intro h
    have h := congrArg String.toList h
    rw [String.toList_ofList, String.toList_ofList, htext, List.map_cons] at h
    exact hne (List.cons.inj h).1
  have hinf : ¬ (String.ofList (n.text.map Char.toLower) = "inf" ∨
      String.ofList (n.text.map Char.toLower) = "infinity") :=
    not_or.2 ⟨hname hlower.1, hname hlower.1⟩
  unfold Reading.ofName?
  dsimp only
  rw [if_neg hinf, if_neg (hname hlower.2)]

/-- The text of a numeral with or without a sign in front is read as that number. -/
theorem ofText?_text (hn : n.WellFormed rule) {sign : Option Char}
    (hsign : sign = none ∨ sign = some '+' ∨ sign = some '-') :
    Reading.ofText? (sign.toList ++ n.text) = some (.finite (decide (sign = some '-')) n) := by
  have hnumeric : ∀ c ∈ sign.toList ++ n.text, isNumeric c = true := by
    intro c hc
    rcases List.mem_append.1 hc with hc | hc
    · rcases hsign with rfl | rfl | rfl
      · cases hc
      · obtain rfl := List.mem_singleton.1 hc
        rfl
      · obtain rfl := List.mem_singleton.1 hc
        rfl
    · exact hn.isNumeric_of_mem c hc
  have hmargin {c : Char} (hc : c ∈ sign.toList ++ n.text) : Reading.isMargin c = false := by
    simp [Reading.isMargin, isBlank_of_isNumeric (hnumeric c hc)]
  have hstrip : stripBy Reading.isMargin (sign.toList ++ n.text) = sign.toList ++ n.text :=
    stripBy_eq_self (fun c hc => hmargin (List.mem_of_head? hc))
      (fun c hc => hmargin (List.mem_of_getLast? hc))
  have hspan : spanSign (sign.toList ++ n.text) = (sign, n.text) := by
    rcases hsign with rfl | rfl | rfl
    · simpa using hn.spanSign_text []
    · rfl
    · rfl
  unfold Reading.ofText?
  rw [hstrip, hspan]
  dsimp only
  rw [ofName?_text hn, ungroup?_eq_self hn.isNumeric_of_mem]
  dsimp only
  rw [scan?_text_self hn.mayTrail]

end Numeral

/-! ## Numbers with a sign -/

/-- A numeral that vectors admit, with or without a sign. -/
structure SignedNumeral.WellFormed (s : SignedNumeral) : Prop where
  sign : s.sign = none ∨ s.sign = some '+' ∨ s.sign = some '-'
  numeral : s.numeral.WellFormed .needsDigits

namespace SignedNumeral.WellFormed

open Text

variable {s : SignedNumeral}

theorem isNumeric_of_mem (h : s.WellFormed) : ∀ c ∈ s.text, Numeral.isNumeric c = true := by
  intro c hc
  rcases List.mem_append.1 hc with hc | hc
  · rcases h.sign with hs | hs | hs <;> rw [hs] at hc
    · cases hc
    · obtain rfl := List.mem_singleton.1 hc
      rfl
    · obtain rfl := List.mem_singleton.1 hc
      rfl
  · exact h.numeral.isNumeric_of_mem c hc

theorem spanSign_text (h : s.WellFormed) (rest : List Char) :
    Numeral.spanSign (s.text ++ rest) = (s.sign, s.numeral.text ++ rest) := by
  rw [text]
  rcases h.sign with hs | hs | hs <;> rw [hs]
  · exact h.numeral.spanSign_text rest
  · rfl
  · rfl

/-- A number in brackets is scanned as far as its text goes. -/
theorem scan?_text (h : s.WellFormed) {rest : List Char} (hr : Numeral.Ends rest) :
    scan? (s.text ++ rest) = some (s, rest) := by
  unfold scan?
  dsimp only
  rw [h.spanSign_text, Numeral.scan?_text h.numeral hr]
  rfl

/-- The text of a number is read as its value. -/
theorem value?_ofText? {K : Type} [Scalar K] (h : s.WellFormed) :
    ((Reading.ofText? s.text).bind Reading.value? : Option K) = some s.value := by
  rw [text, Numeral.ofText?_text h.numeral h.sign]
  simp [Reading.value?, value]

end SignedNumeral.WellFormed

end SteppedConvolution
