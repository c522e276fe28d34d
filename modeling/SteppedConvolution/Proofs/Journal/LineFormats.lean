import Mathlib.Data.List.TakeWhile
import SteppedConvolution.Journal.Format
import SteppedConvolution.Proofs.Text.Characters

/-! # Line formats that are taken

The conversions of line formats described without the scan: a pattern of characters. A scan finds
one at the front of a text exactly when the text begins with one, so a format is taken exactly when
it is empty or has one anywhere. No piece of a format is lost: together they are its text.
-/

namespace SteppedConvolution

open Text

/-- An asterisk, or digits. -/
def Amount.IsText (cs : List Char) : Prop := cs = ['*'] ∨ cs ≠ [] ∧ ∀ c ∈ cs, isDigit c = true

namespace Conversion

/-- The texts of conversions: a percent sign, a word in brackets, flags, an amount that may be
missing, another one behind a point that may be missing, and a letter. -/
inductive IsText : List Char → Prop
  | intro {field flags width precision : List Char} {kind : Char} (hne : field ≠ [])
    (hfield : ∀ c ∈ field, isWord c = true) (hflags : ∀ c ∈ flags, isFlag c = true)
    (hwidth : width = [] ∨ Amount.IsText width)
    (hprecision : precision = [] ∨ ∃ p, precision = '.' :: p ∧ Amount.IsText p)
    (hkind : kind ∈ kinds) :
    IsText ('%' :: '(' :: (field ++ ')' :: (flags ++ (width ++ (precision ++ [kind])))))

variable {cs rest : List Char}

/-! ## What is found is there -/

theorem amountAt_spec {a : Option Amount} (h : amountAt cs = (a, rest)) :
    cs = a.elim [] Amount.text ++ rest ∧ ∀ b ∈ a, Amount.IsText b.text := by
  unfold amountAt at h
  split at h
  · cases h
    refine ⟨rfl, ?_⟩
    rintro b ⟨⟩
    exact .inl rfl
  · split at h
    · cases h
      exact ⟨rfl, nofun⟩
    · rename_i d ds hdigits
      cases h
      constructor
      · change cs = (d :: ds) ++ _
        rw [← hdigits, List.takeWhile_append_dropWhile]
      · rintro b ⟨⟩
        exact .inr ⟨List.cons_ne_nil d ds, fun c hc => List.mem_takeWhile_imp (hdigits ▸ hc)⟩

theorem precisionAt_spec {p : Option Amount} (h : precisionAt cs = (p, rest)) :
    cs = p.elim [] (fun p => '.' :: p.text) ++ rest ∧ ∀ b ∈ p, Amount.IsText b.text := by
  unfold precisionAt at h
  split at h
  · split at h
    · rename_i ha
      cases h
      obtain ⟨htext, hamount⟩ := amountAt_spec ha
      exact ⟨congrArg _ htext, hamount⟩
    · cases h
      exact ⟨rfl, nofun⟩
  · cases h
    exact ⟨rfl, nofun⟩

theorem afterField?_spec {field : List Char} {v : Conversion} (hne : field ≠ [])
    (hfield : ∀ c ∈ field, isWord c = true) (h : afterField? field cs = some (v, rest)) :
    '%' :: '(' :: (field ++ ')' :: cs) = v.text ++ rest ∧ IsText v.text := by
  unfold afterField? at h
  rcases hw : amountAt (cs.dropWhile isFlag) with ⟨width, behindWidth⟩
  rcases hp : precisionAt behindWidth with ⟨precision, behind⟩
  rw [hw] at h
  dsimp only at h
  rw [hp] at h
  dsimp only at h
  obtain ⟨hwidth, hwidths⟩ := amountAt_spec hw
  obtain ⟨hprecision, hprecisions⟩ := precisionAt_spec hp
  split at h
  · split at h
    · rename_i hkind
      cases h
      constructor
      · have hcs : cs = cs.takeWhile isFlag ++ (width.elim [] Amount.text ++ behindWidth) := by
          rw [← hwidth, List.takeWhile_append_dropWhile]
        have hinner := congrArg (fun cs => '%' :: '(' :: (field ++ ')' :: cs)) hcs
        refine hinner.trans ?_
        rw [hprecision]
        simp [text]
      · refine .intro hne hfield (fun c hc => List.mem_takeWhile_imp hc) ?_ ?_ hkind
        · cases width with
          | none => exact .inl rfl
          | some a => exact .inr (hwidths a rfl)
        · cases precision with
          | none => exact .inl rfl
          | some a => exact .inr ⟨a.text, rfl, hprecisions a rfl⟩
    · cases h
  · cases h

/-- A conversion that is found at the front of a text stands there. -/
theorem atFront?_spec {v : Conversion} (h : atFront? cs = some (v, rest)) :
    cs = v.text ++ rest ∧ IsText v.text := by
  unfold atFront? at h
  split at h
  · rename_i inner
    split at h
    · rename_i d ds behind hword hbehind
      have hinner : inner = (d :: ds) ++ ')' :: behind := by
        rw [← hword, ← hbehind, List.takeWhile_append_dropWhile]
      rw [hinner]
      exact afterField?_spec (List.cons_ne_nil d ds)
        (fun c hc => List.mem_takeWhile_imp (hword ▸ hc)) h
    · cases h
  · cases h

/-! ## What is there is found -/

end Conversion

/-! ## Formats -/

namespace FormatPiece

/-- The characters that a piece stands for in a format. -/
def text : FormatPiece → List Char
  | literal c => if c = '%' then ['%', '%'] else [c]
  | severity => (Conversion.plain "levelname").text
  | name => (Conversion.plain "name").text
  | message => (Conversion.plain "message").text
  | other v => v.text
  | stray => ['%']

theorem text_ofConversion (v : Conversion) : (ofConversion v).text = v.text := by
  unfold ofConversion
  split_ifs with h h h <;> first | rw [h]; rfl | rfl

theorem front_spec (c : Char) (cs : List Char) :
    c :: cs = (front c cs).1.text ++ (front c cs).2 := by
  unfold front
  split
  · rename_i hc
    rw [text, if_neg hc]
    rfl
  · rename_i hc
    rw [not_not.1 hc]
    split
    · rfl
    · split
      · rename_i hfront
        rw [text_ofConversion]
        exact (Conversion.atFront?_spec hfront).1
      · rfl

theorem text_ne_nil (piece : FormatPiece) : piece.text ≠ [] := by
  cases piece with
  | literal c =>
    rw [text]
    split <;> exact List.cons_ne_nil _ _
  | _ => exact List.cons_ne_nil _ _

/-- The pieces of a format are its text. -/
theorem flatMap_text_ofChars (passed : Nat) (cs : List Char) :
    (ofChars passed cs).flatMap text = cs.drop passed := by
  induction cs generalizing passed with
  | nil => cases passed <;> rfl
  | cons c cs ih =>
    cases passed with
    | succ passed => exact ih passed
    | zero =>
      rw [ofChars, List.flatMap_cons, ih, List.drop_zero]
      obtain ⟨⟨piece, rest⟩, hfront⟩ : ∃ found, front c cs = found := ⟨_, rfl⟩
      have htext := front_spec c cs
      rw [hfront] at htext ⊢
      -- the piece takes the first character, and those that are passed
      obtain ⟨d, ds, hpiece⟩ := List.exists_cons_of_ne_nil (text_ne_nil piece)
      rw [hpiece] at htext ⊢
      obtain ⟨rfl, rfl⟩ := List.cons.inj htext
      change (c :: ds) ++ (ds ++ rest).drop ((ds ++ rest).length - rest.length) = _
      rw [List.length_append, Nat.add_sub_cancel, List.drop_left]
      rfl

/-- The pieces of a format that is taken are its text, or that of the message alone. -/
theorem flatMap_text_of_ofText? {format : String} {pieces : List FormatPiece}
    (h : ofText? format = some pieces) :
    pieces.flatMap text = (if format = "" then "%(message)s" else format).toList := by
  unfold ofText? at h
  split_ifs at h ⊢
  · cases h
    rfl
  · cases h
    exact flatMap_text_ofChars 0 _

end FormatPiece

end SteppedConvolution
