import SteppedConvolution.Proofs.Numeral.Scanning
import SteppedConvolution.Proofs.Text.Longest

/-! # The grammar of numbers

A number is written with digits, at most one point and an optional power of ten. Such texts are
the texts of well-formed numerals. A scan takes the longest of them at the front of a text,
whatever stands behind it, and finds nothing only where there is none.
-/

namespace SteppedConvolution

namespace Numeral

open Text

/-! ## Numbers as texts -/

/-- One or more digits. -/
def IsDigits (ds : List Char) : Prop := ds ≠ [] ∧ ∀ c ∈ ds, isDigit c = true

/-- Digits, with a point among them or in front of them. Where the rule admits it, the point may
also stand behind them. -/
inductive IsMantissa (rule : PointRule) : List Char → Prop
  | whole {ds : List Char} (hd : IsDigits ds) : IsMantissa rule ds
  | pointed {ds fs : List Char} (hd : IsDigits ds) (hf : IsDigits fs) :
    IsMantissa rule (ds ++ '.' :: fs)
  | leading {fs : List Char} (hf : IsDigits fs) : IsMantissa rule ('.' :: fs)
  | trailing {ds : List Char} (hr : rule = .mayTrail) (hd : IsDigits ds) :
    IsMantissa rule (ds ++ ['.'])

/-- Nothing, or one sign. -/
def IsSign (sign : List Char) : Prop := sign = [] ∨ sign = ['+'] ∨ sign = ['-']

/-- A power of ten: a mark, an optional sign and digits. -/
inductive IsPower : List Char → Prop
  | mk {mark : Char} {sign ds : List Char} (hm : mark = 'e' ∨ mark = 'E') (hs : IsSign sign)
    (hd : IsDigits ds) : IsPower (mark :: (sign ++ ds))

/-- An unsigned number. -/
inductive IsNumber (rule : PointRule) : List Char → Prop
  | plain {m : List Char} (hm : IsMantissa rule m) : IsNumber rule m
  | scaled {m p : List Char} (hm : IsMantissa rule m) (hp : IsPower p) : IsNumber rule (m ++ p)

variable {rule : PointRule} {cs rest : List Char} {n : Numeral}

theorem isSign_toList_iff {sign : Option Char} :
    IsSign sign.toList ↔ sign = none ∨ sign = some '+' ∨ sign = some '-' := by
  cases sign <;> simp [IsSign]

theorem IsSign.exists_toList {sign : List Char} (h : IsSign sign) :
    ∃ s : Option Char, s.toList = sign := by
  rcases h with rfl | rfl | rfl
  · exact ⟨none, rfl⟩
  · exact ⟨some '+', rfl⟩
  · exact ⟨some '-', rfl⟩

theorem isMantissa_iff : IsMantissa rule cs ↔ ∃ whole fraction,
    WellFormed rule ⟨whole, fraction, none⟩ ∧ whole ++ fractionText fraction = cs := by
  constructor
  · intro h
    cases h with
    | whole hd => exact ⟨cs, none, ⟨hd.2, by simp [places], nofun, by simpa [places] using hd.1,
        by simp⟩, List.append_nil cs⟩
    | @pointed ds fs hd hf =>
      exact ⟨ds, some fs, ⟨hd.2, hf.2, fun h => absurd (Option.some.inj h) hf.1,
        by simp [places, hd.1], by simp⟩, rfl⟩
    | @leading fs hf =>
      exact ⟨[], some fs, ⟨by simp, hf.2, fun h => absurd (Option.some.inj h) hf.1, hf.1,
        by simp⟩, rfl⟩
    | @trailing ds hr hd =>
      exact ⟨ds, some [], ⟨hd.2, by simp [places], fun _ => hr, by simpa [places] using hd.1,
        by simp⟩, rfl⟩
  · rintro ⟨whole, fraction, ⟨hwhole, hfraction, htrailing, hne, -⟩, rfl⟩
    dsimp only [places] at *
    cases fraction with
    | none =>
      rw [fractionText, List.append_nil]
      exact .whole ⟨by simpa using hne, hwhole⟩
    | some fs =>
      by_cases hf : fs = []
      · subst hf
        exact .trailing (htrailing rfl) ⟨by simpa using hne, hwhole⟩
      · by_cases hw : whole = []
        · subst hw
          exact .leading ⟨hf, hfraction⟩
        · exact .pointed ⟨hw, hwhole⟩ ⟨hf, hfraction⟩

theorem isPower_iff : IsPower cs ↔ ∃ p : Power, p.WellFormed ∧ p.text = cs := by
  constructor
  · rintro ⟨hm, hs, hd⟩
    obtain ⟨sign, rfl⟩ := hs.exists_toList
    exact ⟨⟨_, sign, _⟩, ⟨hm, isSign_toList_iff.1 hs, hd.2, hd.1⟩, rfl⟩
  · rintro ⟨p, hp, rfl⟩
    exact ⟨hp.mark, isSign_toList_iff.2 hp.sign, hp.ne_nil, hp.digits⟩

/-- Numbers are the texts of well-formed numerals. -/
theorem isNumber_iff : IsNumber rule cs ↔ ∃ n : Numeral, n.WellFormed rule ∧ n.text = cs := by
  constructor
  · intro h
    cases h with
    | plain hm =>
      obtain ⟨whole, fraction, hd, rfl⟩ := isMantissa_iff.1 hm
      exact ⟨_, hd, List.append_nil _⟩
    | scaled hm hp =>
      obtain ⟨whole, fraction, hd, rfl⟩ := isMantissa_iff.1 hm
      obtain ⟨q, hq, rfl⟩ := isPower_iff.1 hp
      exact ⟨⟨whole, fraction, some q⟩, { hd with power := by rintro _ ⟨⟩; exact hq }, rfl⟩
  · rintro ⟨⟨whole, fraction, power⟩, hn, rfl⟩
    have hm : IsMantissa rule (whole ++ fractionText fraction) :=
      isMantissa_iff.2 ⟨whole, fraction, { hn with power := by simp }, rfl⟩
    cases power with
    | none =>
      rw [text, Option.map_none, Option.getD_none, List.append_nil]
      exact .plain hm
    | some p => exact .scaled hm (isPower_iff.2 ⟨p, hn.power p rfl, rfl⟩)

/-! ## The longest number -/

theorem length_spanDigits (cs : List Char) : (spanDigits cs).2.length ≤ cs.length :=
  (List.dropWhile_sublist isDigit).length_le

/-- Digits are scanned together with all that follow them. -/
theorem spanDigits_of_forall {ds : List Char} (hd : ∀ c ∈ ds, isDigit c = true)
    (rest : List Char) :
    spanDigits (ds ++ rest) = (ds ++ (spanDigits rest).1, (spanDigits rest).2) := by
  rw [spanDigits, List.takeWhile_append_of_pos hd, List.dropWhile_append_of_pos hd]
  rfl

/-- A scan of the digits of a number does not stop inside them. -/
theorem scanDigits?_reaches {whole : List Char} {fraction : Option (List Char)}
    (h : WellFormed rule ⟨whole, fraction, none⟩) (rest : List Char) :
    ∃ d after, scanDigits? rule (whole ++ fractionText fraction ++ rest) = some (d, after) ∧
      after.length ≤ rest.length := by
  obtain ⟨hwhole, hfraction, htrailing, hne, -⟩ := h
  dsimp only [places] at *
  unfold scanDigits?
  cases fraction with
  | none =>
    have hl := length_spanDigits rest
    have hne : whole ++ (spanDigits rest).1 ≠ [] := by simp_all
    simp only [fractionText, List.append_nil, spanDigits_of_forall hwhole]
    split
    · rename_i tail htail
      rw [htail, List.length_cons] at hl
      have htl := length_spanDigits tail
      split
      · exact ⟨_, _, rfl, by omega⟩
      · exact ⟨_, _, rfl, by rw [htail, List.length_cons]; omega⟩
    · rw [if_neg hne]
      exact ⟨_, _, rfl, hl⟩
  | some fs =>
    have hfraction : ∀ c ∈ fs, isDigit c = true := hfraction
    have hpoint : spanDigits (whole ++ '.' :: (fs ++ rest)) = (whole, '.' :: (fs ++ rest)) :=
      spanDigits_of_isDigit hwhole (by rintro c ⟨⟩; decide)
    have happ : whole ++ fractionText (some fs) ++ rest = whole ++ '.' :: (fs ++ rest) := by
      simp [fractionText]
    have hcond : fs ++ (spanDigits rest).1 ≠ [] ∨ rule = .mayTrail ∧ whole ≠ [] := by
      by_cases hf : fs = []
      · subst hf
        exact .inr ⟨htrailing rfl, by simpa using hne⟩
      · exact .inl (List.append_ne_nil_of_left_ne_nil hf _)
    simp only [happ, hpoint, spanDigits_of_forall hfraction, if_pos hcond]
    exact ⟨_, _, rfl, length_spanDigits rest⟩

theorem scanPower?_reaches {p : Power} (hp : p.WellFormed) (rest : List Char) :
    ∃ q after, scanPower? (p.text ++ rest) = some (q, after) ∧ after.length ≤ rest.length := by
  obtain ⟨mark, sign, digits⟩ := p
  obtain ⟨hmark, hsign, hdigits, hne⟩ := hp
  have hs : spanSign (sign.toList ++ digits ++ rest) = (sign, digits ++ rest) := by
    rcases hsign with rfl | rfl | rfl
    · exact spanSign_of_isDigit hdigits hne rest
    · rfl
    · rfl
  have hne : digits ++ (spanDigits rest).1 ≠ [] := List.append_ne_nil_of_left_ne_nil hne _
  refine ⟨⟨mark, sign, digits ++ (spanDigits rest).1⟩, (spanDigits rest).2, ?_,
    length_spanDigits rest⟩
  change scanPower? (mark :: (sign.toList ++ digits ++ rest)) = _
  rw [scanPower?_cons, if_pos hmark, hs, spanDigits_of_forall hdigits, if_neg hne]

/-- A scan does not stop inside a number. -/
theorem scan?_reaches (hn : n.WellFormed rule) (rest : List Char) :
    ∃ m after, scan? rule (n.text ++ rest) = some (m, after) ∧ after.length ≤ rest.length := by
  obtain ⟨whole, fraction, power⟩ := n
  have hd : WellFormed rule ⟨whole, fraction, none⟩ := { hn with power := by simp }
  unfold scan?
  cases power with
  | none =>
    have htext : (⟨whole, fraction, none⟩ : Numeral).text ++ rest =
        whole ++ fractionText fraction ++ rest := by simp [text]
    obtain ⟨d, after, hscan, hl⟩ := scanDigits?_reaches hd rest
    rw [htext, hscan]
    dsimp only
    split
    · rename_i p later hp
      have := congrArg List.length (scanPower?_append hp)
      rw [List.length_append] at this
      exact ⟨_, _, rfl, by omega⟩
    · exact ⟨_, _, rfl, hl⟩
  | some p =>
    have hp := hn.power p rfl
    have htext : (⟨whole, fraction, some p⟩ : Numeral).text ++ rest =
        whole ++ fractionText fraction ++ (p.text ++ rest) := by simp [text]
    -- the mark of the power ends the digits, so they are scanned as they are written
    have hmark : ∀ c ∈ (p.text ++ rest).head?, isDigit c = false ∧ c ≠ '.' := by
      rintro c ⟨⟩
      rcases hp.mark with hm | hm <;> rw [hm] <;> decide
    obtain ⟨q, after, hscan, hl⟩ := scanPower?_reaches hp rest
    rw [htext, scanDigits?_text hn hmark]
    dsimp only
    rw [hscan]
    exact ⟨_, _, rfl, hl⟩

/-- A scan takes the longest number at the front of a text. -/
theorem isLongest_of_scan? (h : scan? rule cs = some (n, rest)) :
    IsLongest (IsNumber rule) n.text cs := by
  have happ := scan?_append h
  refine ⟨isNumber_iff.2 ⟨n, wellFormed_of_scan? h, rfl⟩, ⟨rest, happ⟩, ?_⟩
  rintro v hv ⟨after, rfl⟩
  obtain ⟨m, hm, rfl⟩ := isNumber_iff.1 hv
  obtain ⟨k, later, hscan, hl⟩ := scan?_reaches hm after
  rw [h] at hscan
  cases hscan
  have := congrArg List.length happ
  simp only [List.length_append] at this
  omega

/-- Where a scan finds nothing there is no number. -/
theorem not_isNumber_of_scan? (h : scan? rule cs = none) {v : List Char} (hv : v <+: cs) :
    ¬ IsNumber rule v := by
  intro hnumber
  obtain ⟨rest, rfl⟩ := hv
  obtain ⟨m, hm, rfl⟩ := isNumber_iff.1 hnumber
  obtain ⟨k, later, hscan, -⟩ := scan?_reaches hm rest
  rw [h] at hscan
  cases hscan

end Numeral

end SteppedConvolution
