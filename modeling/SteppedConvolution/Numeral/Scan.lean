import SteppedConvolution.Numeral.Basic

/-! # Scanning numbers

The longest number at the front of a text. Expressions admit a point without
digits behind it, entries in brackets do not. A scan loses no character and
takes at least one.
-/

namespace SteppedConvolution.Numeral

open Text

/-- Whether a number may end with its point. -/
inductive PointRule where
  | mayTrail
  | needsDigits
  deriving DecidableEq, Repr

/-- The digits at the front of a text and what follows them. -/
def spanDigits (cs : List Char) : List Char × List Char :=
  (cs.takeWhile isDigit, cs.dropWhile isDigit)

/-- A sign at the front of a text and what follows it. -/
def spanSign : List Char → Option Char × List Char
  | '+' :: cs => (some '+', cs)
  | '-' :: cs => (some '-', cs)
  | cs => (none, cs)

/-- The digits of a number with its point. -/
def scanDigits? (rule : PointRule) (cs : List Char) :
    Option ((List Char × Option (List Char)) × List Char) :=
  let (whole, rest) := spanDigits cs
  let plain := if whole = [] then none else some ((whole, none), rest)
  match rest with
  | '.' :: tail =>
    let (fraction, after) := spanDigits tail
    if fraction ≠ [] ∨ (rule = .mayTrail ∧ whole ≠ []) then some ((whole, some fraction), after)
    else plain
  | _ => plain

/-- A power of ten, which needs at least one digit. -/
def scanPower? : List Char → Option (Power × List Char)
  | mark :: cs =>
    if mark = 'e' ∨ mark = 'E' then
      let (sign, rest) := spanSign cs
      let (digits, after) := spanDigits rest
      if digits = [] then none else some (⟨mark, sign, digits⟩, after)
    else none
  | [] => none

/-- The longest number at the front of a text and what follows it. -/
def scan? (rule : PointRule) (cs : List Char) : Option (Numeral × List Char) :=
  match scanDigits? rule cs with
  | none => none
  | some ((whole, fraction), rest) =>
    match scanPower? rest with
    | some (power, after) => some (⟨whole, fraction, some power⟩, after)
    | none => some (⟨whole, fraction, none⟩, rest)

theorem spanDigits_append (cs : List Char) : (spanDigits cs).1 ++ (spanDigits cs).2 = cs :=
  List.takeWhile_append_dropWhile

theorem spanSign_append (cs : List Char) :
    (spanSign cs).1.toList ++ (spanSign cs).2 = cs := by
  unfold spanSign
  split <;> rfl

theorem scanDigits?_append {rule : PointRule} {cs whole rest : List Char}
    {fraction : Option (List Char)}
    (h : scanDigits? rule cs = some ((whole, fraction), rest)) :
    whole ++ fractionText fraction ++ rest = cs := by
  have hs := spanDigits_append cs
  unfold scanDigits? at h
  grind [spanDigits_append, fractionText]

theorem scanDigits?_length {rule : PointRule} {cs whole rest : List Char}
    {fraction : Option (List Char)}
    (h : scanDigits? rule cs = some ((whole, fraction), rest)) : rest.length < cs.length := by
  have hs := congrArg List.length (spanDigits_append cs)
  unfold scanDigits? at h
  grind [spanDigits_append, List.length_pos_iff]

theorem scanPower?_append {cs rest : List Char} {p : Power}
    (h : scanPower? cs = some (p, rest)) : p.text ++ rest = cs := by
  unfold scanPower? at h
  grind [Power.text, spanDigits_append, spanSign_append]

/-- A scan splits the text in front of it. -/
theorem scan?_append {rule : PointRule} {cs rest : List Char} {n : Numeral}
    (h : scan? rule cs = some (n, rest)) : n.text ++ rest = cs := by
  unfold scan? at h
  split at h
  · cases h
  · rename_i hd
    rw [← scanDigits?_append hd]
    split at h
    · rename_i hp
      cases h
      rw [← scanPower?_append hp]
      simp [text]
    · cases h
      simp [text]

/-- A scan takes at least one character. -/
theorem scan?_length {rule : PointRule} {cs rest : List Char} {n : Numeral}
    (h : scan? rule cs = some (n, rest)) : rest.length < cs.length := by
  unfold scan? at h
  split at h
  · cases h
  · rename_i hd
    have hl := scanDigits?_length hd
    split at h
    · rename_i hp
      have := congrArg List.length (scanPower?_append hp)
      grind
    · grind

end SteppedConvolution.Numeral
