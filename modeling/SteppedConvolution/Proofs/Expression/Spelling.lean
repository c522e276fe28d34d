import SteppedConvolution.Expression.Written
import SteppedConvolution.Proofs.Expression.Lexing
import SteppedConvolution.Proofs.Expression.Respelled

/-! # The text of a parsed tree

The text of a parsed tree spells the tokens from which the tree was parsed, with its numbers
written in a given format, `-n` in brackets as a product and no `+` in front of numbers there. A
`+` in front of a number outside brackets would be missing in the text, and its place decides
where sums are cut.
-/

namespace SteppedConvolution

open Grammar

/-- The signs of addition, subtraction and multiplication. -/
def Lexeme.isOperator : Lexeme → Bool
  | plus | minus | star => true
  | _ => false

/-- Outside brackets, a `+` stands at the start or directly behind an operator. -/
def Parser.HasPlusSign (ls : List Lexeme) : Prop :=
  ∃ p ∈ splits .plus ls, ∀ l ∈ p.1.getLast?, l.isOperator = true

instance (ls : List Lexeme) : Decidable (Parser.HasPlusSign ls) :=
  inferInstanceAs (Decidable
    (∃ p ∈ Parser.splits .plus ls, ∀ l ∈ p.1.getLast?, l.isOperator = true))

namespace Parser.HasPlusSign

theorem plus_cons (ls : List Lexeme) : HasPlusSign (.plus :: ls) := by
  refine ⟨([], ls), ?_, nofun⟩
  rw [splits_cons rfl, if_pos rfl]
  exact List.mem_cons_self

theorem of_sign {f : Factor} (h : f.sign = some .plus) : HasPlusSign f.lexemes := by
  cases f with
  | number sign k | power sign k =>
    cases (show sign = some .plus from h)
    exact plus_cons _
  | _ => cases h

theorem append_right {xs : List Lexeme} (hx : IsEven xs) (h : HasPlusSign xs)
    (ys : List Lexeme) : HasPlusSign (xs ++ ys) := by
  obtain ⟨p, hp, hlast⟩ := h
  refine ⟨(p.1, p.2 ++ ys), ?_, hlast⟩
  rw [splits_append hx]
  exact List.mem_append_left _ (List.mem_map_of_mem hp)

/-- A sign behind an operator stays one behind the operator and what is in front of it. -/
theorem append_cons {xs ys : List Lexeme} (hx : IsEven xs) (op : Operator) (h : HasPlusSign ys) :
    HasPlusSign (xs ++ op.lexeme :: ys) := by
  obtain ⟨p, hp, hlast⟩ := h
  refine ⟨(xs ++ op.lexeme :: p.1, p.2), ?_, fun l hl => ?_⟩
  · have hcons : (op.lexeme :: p.1, p.2) ∈ splits .plus (op.lexeme :: ys) := by
      rw [splits_cons (by cases op <;> rfl)]
      exact List.mem_append_right _ (List.mem_map_of_mem hp)
    rw [splits_append hx]
    exact List.mem_append_right _ (List.mem_map_of_mem hcons)
  · rcases List.eq_nil_or_concat p.1 with hnil | ⟨init, x, hx⟩
    · rw [hnil, List.getLast?_concat] at hl
      cases hl
      cases op <;> rfl
    · rw [hx, List.concat_eq_append, ← List.cons_append, ← List.append_assoc,
        List.getLast?_concat] at hl
      exact hlast l (by rwa [hx, List.concat_eq_append, List.getLast?_concat])

end Parser.HasPlusSign

/-! ## Numbers and characters of trees -/

namespace SignalExpr

variable {K : Type}

/-- The numbers of a tree, from the left to the right. -/
def numbers : SignalExpr K → List K
  | .vector entries => entries
  | .constant c => [c]
  | .power base => [base]
  | .apply _ a => a.numbers
  | .combine _ a b => a.numbers ++ b.numbers
  | .time | .foreign _ => []

variable (write : K → String)

theorem toList_text_time : ((time : SignalExpr K).text write).toList = ['n'] := by
  rw [text]
  rfl

theorem toList_text_combine (op : Operator) (a b : SignalExpr K) :
    ((combine (.known op) a b).text write).toList =
      (a.text write).toList ++ (op.sign.toList ++ (b.text write).toList) := by
  rw [text, String.toList_append, String.toList_append, List.append_assoc]
  rfl

theorem toList_text_call (p : Primitive) (a : SignalExpr K) :
    ((call p a).text write).toList = p.name.toList ++ '[' :: ((a.text write).toList ++ [']']) := by
  rw [call, text, String.toList_append, String.toList_append, String.toList_append,
    List.append_assoc, List.append_assoc]
  rfl

theorem toList_text_power (base : K) :
    ((power base).text write).toList = (write base).toList ++ ['^', 'n'] := by
  rw [text, String.toList_append]
  rfl

end SignalExpr

/-! ## Lexemes with given characters -/

namespace Lexer

/-- The lexemes have the characters, and their numbers are scanned as they are. -/
structure Writes (ls : List Lexeme) (cs : List Char) : Prop where
  text : joined ls = cs
  number : ∀ n, .number n ∈ ls → n.WellFormed .mayTrail

namespace Writes

theorem append {ls ms : List Lexeme} {cs ds : List Char} (hl : Writes ls cs) (hm : Writes ms ds) :
    Writes (ls ++ ms) (cs ++ ds) := by
  refine ⟨?_, fun n hn => ?_⟩
  · rw [joined, List.flatMap_append, ← hl.text, ← hm.text]
    rfl
  · exact (List.mem_append.1 hn).elim (hl.number n) (hm.number n)

theorem lexeme {l : Lexeme} (h : ∀ n, l ≠ .number n) : Writes [l] l.text :=
  ⟨List.flatMap_singleton _ _, fun n hn => absurd (List.mem_singleton.1 hn).symm (h n)⟩

theorem operator (op : Operator) : Writes [op.lexeme] op.sign.toList := by
  cases op with
  | add => exact lexeme (l := .plus) nofun
  | subtract => exact lexeme (l := .minus) nofun
  | multiply => exact lexeme (l := .star) nofun

variable {K : Type} {write : K → String} {ls ms : List Lexeme} {a b : SignalExpr K}

theorem time : Writes [.time] ((SignalExpr.time : SignalExpr K).text write).toList := by
  rw [SignalExpr.toList_text_time]
  exact lexeme (l := .time) nofun

theorem combine (op : Operator) (ha : Writes ls (a.text write).toList)
    (hb : Writes ms (b.text write).toList) :
    Writes (ls ++ op.lexeme :: ms) ((SignalExpr.combine (.known op) a b).text write).toList := by
  rw [SignalExpr.toList_text_combine]
  exact ha.append ((operator op).append hb)

theorem bracketed (f : Primitive) (h : Writes ls (a.text write).toList) :
    Writes (bracketed f ls) ((SignalExpr.call f a).text write).toList := by
  have hopening : Writes [.opening] ['['] := lexeme (l := .opening) nofun
  have hclosing : Writes [.closing] [']'] := lexeme (l := .closing) nofun
  have hcall := (lexeme (l := .primitive f) nofun).append (hopening.append (h.append hclosing))
  rw [SignalExpr.toList_text_call]
  exact hcall

end Writes

end Lexer

variable {K : Type} [Scalar K] {write : K → String}

/-- Lexemes that come in pieces, which with other numbers have the characters. -/
def Piece.Spells (spell : K → Numeral) (ls : List Lexeme) (cs : List Char) : Prop :=
  ∃ us, flat us = ls ∧ Lexer.Writes (flat (us.map (respelled spell))) cs

namespace Piece.Spells

variable {spell : K → Numeral} {ls ms : List Lexeme} {cs ds : List Char}

theorem append (hl : Spells spell ls cs) (hm : Spells spell ms ds) :
    Spells spell (ls ++ ms) (cs ++ ds) := by
  obtain ⟨us, rfl, hus⟩ := hl
  obtain ⟨vs, rfl, hvs⟩ := hm
  refine ⟨us ++ vs, flat_append us vs, ?_⟩
  rw [List.map_append, flat_append]
  exact hus.append hvs

theorem piece (u : Piece) (h : Lexer.Writes (u.respelled spell).lexemes cs) :
    Spells spell u.lexemes cs :=
  ⟨[u], List.append_nil _, by simpa [flat] using h⟩

theorem combine (op : Operator) {a b : SignalExpr K} (ha : Spells spell ls (a.text write).toList)
    (hb : Spells spell ms (b.text write).toList) :
    Spells spell (ls ++ op.lexeme :: ms)
      ((SignalExpr.combine (.known op) a b).text write).toList := by
  rw [SignalExpr.toList_text_combine]
  exact ha.append ((piece (.operator op) (.operator op)).append hb)

end Piece.Spells

variable [SignedDecimals K]

namespace IsNumberFormat

/-! ## Numbers and arguments -/

theorem writes_value (hw : IsNumberFormat write) {k : Numeral}
    (hf : Scalar.isFinite (k.value : K) = true) :
    Lexer.Writes [.number (numeralOf write k.value)] (write k.value).toList := by
  obtain ⟨hwell, htext⟩ := hw.wellFormed_numeralOf hf (SignedDecimals.isNegative_value k)
  refine ⟨?_, fun n hn => ?_⟩
  · rw [← htext]
    exact List.flatMap_singleton _ _
  · cases List.mem_singleton.1 hn
    exact hwell.mayTrail

theorem toList_neg_value (hw : IsNumberFormat write) {k : Numeral}
    (hf : Scalar.isFinite (-k.value : K) = true) :
    Scalar.isFinite (k.value : K) = true ∧
      (write (-k.value)).toList = ['-'] ++ (write k.value).toList := by
  have hmagnitude := SignedDecimals.isFinite_magnitude (-k.value : K)
  rw [SignedDecimals.magnitude_neg_value] at hmagnitude
  refine ⟨hmagnitude.trans hf, ?_⟩
  rw [hw.negative _ hf (SignedDecimals.isNegative_neg_value k), SignedDecimals.magnitude_neg_value,
    String.toList_append]
  rfl

/-- The number behind a sign is written with a minus sign, or without any. -/
theorem writes_signed (hw : IsNumberFormat write) (sign : Option Sign) {k : Numeral}
    (hf : Scalar.isFinite (Sign.value sign k : K) = true) :
    Lexer.Writes (Sign.lexemes (Sign.dropPlus sign) ++ [.number (numeralOf write k.value)])
      (write (Sign.value sign k)).toList := by
  rcases sign with _ | _ | _
  · exact hw.writes_value hf
  · exact hw.writes_value hf
  · obtain ⟨hfinite, htext⟩ := hw.toList_neg_value hf
    have hminus : Lexer.Writes [.minus] ['-'] := .lexeme (l := .minus) nofun
    exact htext ▸ hminus.append (hw.writes_value hfinite)

theorem writes_argument (hw : IsNumberFormat write) (a : Argument)
    (hf : ∀ v ∈ (a.tree : SignalExpr K).numbers, Scalar.isFinite v = true) :
    Lexer.Writes (a.respelled (numeralOf write)).lexemes
      ((a.tree : SignalExpr K).text write).toList := by
  have hscaled (sign : Option Sign) (c : Numeral)
      (hf : Scalar.isFinite (Sign.value sign c : K) = true) :
      Lexer.Writes (Argument.scaled (Sign.dropPlus sign) (numeralOf write c.value)).lexemes
        ((SignalExpr.times (.constant (Sign.value sign c)) .time).text write).toList := by
    have hnumber : Lexer.Writes _ ((SignalExpr.constant (Sign.value sign c)).text write).toList :=
      hw.writes_signed sign hf
    have hproduct := hnumber.combine .multiply .time
    rwa [List.append_assoc] at hproduct
  cases a with
  | time => exact .time
  | negated =>
    obtain ⟨k, hk⟩ := SignedDecimals.exists_value_eq_one (K := K)
    have hone : Sign.value (some .minus) k = (-1 : K) := congrArg (- ·) hk
    have hproduct := hscaled (some .minus) k
    rw [hone, hk] at hproduct
    exact hproduct (hf _ List.mem_cons_self)
  | shifted sign k =>
    cases sign with
    | plus =>
      have hk := hw.writes_value (hf k.value List.mem_cons_self)
      exact Lexer.Writes.time.combine .add (b := .constant k.value) hk
    | minus =>
      have hk := hw.writes_value (hf k.value List.mem_cons_self)
      exact Lexer.Writes.time.combine .subtract (b := .constant k.value) hk
  | scaled sign c => exact hscaled sign c (hf _ List.mem_cons_self)
  | number sign c => exact hw.writes_signed sign (hf _ (List.mem_singleton_self _))

/-! ## Parsed trees -/

theorem spells_signed (hw : IsNumberFormat write) {sign : Option Sign} (hsign : sign ≠ some .plus)
    {k : Numeral} (hf : Scalar.isFinite (Sign.value sign k : K) = true) :
    Piece.Spells (numeralOf write) (Sign.lexemes sign ++ [.number k])
      (write (Sign.value sign k)).toList := by
  rcases sign with _ | _ | _
  · exact .piece (.number k) (hw.writes_value hf)
  · exact absurd rfl hsign
  · obtain ⟨hfinite, htext⟩ := hw.toList_neg_value hf
    have hminus : Piece.Spells (numeralOf write) [.minus] ['-'] :=
      .piece (.operator .subtract) (.operator .subtract)
    exact htext ▸ hminus.append (.piece (.number k) (hw.writes_value hfinite))

theorem spells_factor (hw : IsNumberFormat write) {f : Factor} (hsign : f.sign ≠ some .plus)
    (hf : ∀ v ∈ (f.tree : SignalExpr K).numbers, Scalar.isFinite v = true) :
    Piece.Spells (numeralOf write) f.lexemes ((f.tree : SignalExpr K).text write).toList := by
  cases f with
  | time => exact .piece .time .time
  | number sign k => exact hw.spells_signed hsign (hf _ List.mem_cons_self)
  | power sign k =>
    have hbase := hw.spells_signed hsign (hf (Sign.value sign k) List.mem_cons_self)
    have hcaret : Piece.Spells (numeralOf write) [.caret] ['^'] :=
      .piece .caret (.lexeme (l := .caret) nofun)
    have htime : Piece.Spells (numeralOf write) [.time] ['n'] :=
      .piece .time (.lexeme (l := .time) nofun)
    have hpower := hbase.append (hcaret.append htime)
    rw [List.append_assoc] at hpower
    exact (SignalExpr.toList_text_power write (Sign.value sign k)).symm ▸ hpower
  | call f a => exact .piece (.call f a) ((hw.writes_argument a hf).bracketed f)
  | nested f g a =>
    exact .piece (.nested f g a) (((hw.writes_argument a hf).bracketed g).bracketed f)

/-- The text of a parsed tree spells its lexemes. -/
theorem spells_of_node? (hw : IsNumberFormat write) {ls : List Lexeme} {t : SignalExpr K}
    (h : Parser.node? ls = some t) (hplus : ¬ Parser.HasPlusSign ls)
    (hf : ∀ v ∈ t.numbers, Scalar.isFinite v = true) :
    Piece.Spells (numeralOf write) ls (t.text write).toList := by
  refine Parser.node?_induction (motive := fun ls t => ¬ Parser.HasPlusSign ls →
    (∀ v ∈ t.numbers, Scalar.isFinite v = true) →
      Piece.Spells (numeralOf write) ls (t.text write).toList) ?_ ?_ ?_ h hplus hf
  · intro f hplus hf
    exact hw.spells_factor (mt Parser.HasPlusSign.of_sign hplus) hf
  · intro sign c hplus hf
    have hsign : sign ≠ some .plus := by
      rintro rfl
      exact hplus (.plus_cons _)
    have hnumber : Piece.Spells (numeralOf write) _
        ((SignalExpr.constant (Sign.value sign c)).text write).toList :=
      hw.spells_signed hsign (hf _ List.mem_cons_self)
    have hproduct := hnumber.combine .multiply (b := .time) (.piece .time .time)
    rwa [List.append_assoc] at hproduct
  · intro op xs ys a b ha hb hleft hright hplus hf
    obtain ⟨s, hs, -, -⟩ := Parser.exists_sum_of_node? ha
    have heven : Parser.IsEven xs := hs ▸ s.isEven
    have hxs := hleft (fun hx => hplus (hx.append_right heven _))
      fun v hv => hf v (List.mem_append_left _ hv)
    have hys := hright (fun hy => hplus (hy.append_cons heven op))
      fun v hv => hf v (List.mem_append_right _ hv)
    exact hxs.combine op hys

end IsNumberFormat

end SteppedConvolution
