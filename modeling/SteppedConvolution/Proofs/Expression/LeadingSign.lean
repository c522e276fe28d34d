import SteppedConvolution.Expression.Machine
import SteppedConvolution.Expression.Reading
import SteppedConvolution.Proofs.Expression.Conventional
import SteppedConvolution.Proofs.Expression.Value

/-! # Expressions with a leading sign

A text whose first token is a sign has one conventional reading, in which the sign belongs
to the number behind it. Since a leading sign rules out its own operator for the whole
list, the text has its conventional value only as long as no operator is ruled out.
-/

namespace SteppedConvolution

open Grammar

namespace Lexer

variable {K : Type} {text : List Char} {tokens : List Token}

theorem head?_of_tokensFrom {position : Nat} {cs : List Char}
    (h : tokensFrom position cs = .ok tokens) {l : Lexeme}
    (hl : (tokens.map Token.lexeme).head? = some l) : ∃ rest, l.text ++ rest = cs := by
  cases cs with
  | nil =>
    rw [tokensFrom] at h
    cases h
    cases hl
  | cons c cs =>
    rw [tokensFrom] at h
    split at h
    · cases h
    · rename_i first rest hnext
      obtain ⟨later, -, rfl⟩ := map_eq_ok.1 h
      cases hl
      exact ⟨rest, next_append hnext⟩

theorem head?_of_tokenize (h : (tokenize text : Except (TextFault K) _) = .ok tokens)
    {l : Lexeme} (hl : (tokens.map Token.lexeme).head? = some l) :
    ∃ rest, l.text ++ rest = Text.compact text := by
  unfold tokenize at h
  dsimp only at h
  split at h
  · cases h
  · split at h
    · cases h
    · exact head?_of_tokensFrom (mapError_eq_ok.1 h) hl

end Lexer

namespace SignalExpr

variable {K : Type} [Scalar K] {levels : Nat} {tokens : List Token}

omit [Scalar K] in
/-- A text whose first token is a sign is no vector. -/
theorem isVectorText_of_sign {text : List Char}
    (h : (Lexer.tokenize text : Except (TextFault K) _) = .ok tokens) {sign : Sign}
    (hsign : (tokens.map Token.lexeme).head? = some sign.lexeme) : isVectorText text = false := by
  obtain ⟨rest, hrest⟩ := Lexer.head?_of_tokenize h hsign
  cases text with
  | nil => rfl
  | cons c cs =>
    by_cases hc : c = '['
    · subst hc
      have hcompact : Text.compact ('[' :: cs) = '[' :: Text.compact cs :=
        List.filter_cons_of_pos (by decide)
      rw [hcompact] at hrest
      cases sign with
      | plus => cases hrest
      | minus => cases hrest
    · simp [isVectorText, hc]

/-- A text that is read, but not as a vector, is parsed. -/
theorem parse_of_read {text : String} {t : SignalExpr K}
    (hv : isVectorText (Text.strip text.toList) = false)
    (hread : (SignalExpr.read levels (some text)).outcome = .ok t) :
    parse levels text.toList (Text.strip text.toList) = .ok t := by
  unfold read at hread
  dsimp only at hread
  split at hread
  · cases hread
  · rw [if_neg (by simp [hv]), Logged.bind_eq_ok] at hread
    obtain ⟨e, he, hread⟩ := hread
    cases hread
    exact he

/-- What the tokens of a text without vectors are parsed to. -/
theorem node_of_read {text : String} {t : SignalExpr K}
    (h : (Lexer.tokenize (Text.strip text.toList) : Except (TextFault K) _) = .ok tokens)
    (hv : isVectorText (Text.strip text.toList) = false)
    (hread : (SignalExpr.read levels (some text)).outcome = .ok t) :
    Parser.node levels (tokens.map Token.lexeme) = .of (some t) := by
  have hparse := parse_of_read hv hread
  simp only [parse, h] at hparse
  split at hparse
  · cases hparse
  · split at hparse
    · cases hparse
    · cases hparse
    · rename_i hnode
      cases hparse
      exact hnode

/-- A text that is read, but not as a vector, is split into tokens, which are parsed. -/
theorem exists_tokens_of_read {text : String} {t : SignalExpr K}
    (hv : isVectorText (Text.strip text.toList) = false)
    (hread : (SignalExpr.read levels (some text)).outcome = .ok t) :
    ∃ tokens, (Lexer.tokenize (Text.strip text.toList) : Except (TextFault K) _) = .ok tokens ∧
      Parser.node levels (tokens.map Token.lexeme) = .of (some t) := by
  cases htokens : (Lexer.tokenize (Text.strip text.toList) : Except (TextFault K) _) with
  | ok tokens => exact ⟨tokens, rfl, node_of_read htokens hv hread⟩
  | error f =>
    have hparse := parse_of_read hv hread
    rw [parse, htokens] at hparse
    cases hparse

/-- A text whose first token is a sign has one conventional reading. It is parsed to the tree of
that reading exactly when neither its first sign nor that of one of its groups is also an operator
behind it, and then has the value of the reading at every time, for all meanings of the primitives
and of powers. -/
theorem valueAt_of_read {text : String} {t : SignalExpr Rat}
    (htokens : (Lexer.tokenize (Text.strip text.toList) : Except (TextFault Rat) _) = .ok tokens)
    {sign : Sign} (hsign : (tokens.map Token.lexeme).head? = some sign.lexeme)
    (hread : (SignalExpr.read levels (some text)).outcome = .ok t) :
    ∃ s : Sum, (∀ r : Sum, r.lexemes = tokens.map Token.lexeme ↔ r = s) ∧
      (t = s.tree ↔ s.IsRegular) ∧
      (s.IsRegular → ∀ prim pow n, t.valueAt prim pow n = some (s.value prim pow n)) ∧
      (s.IsRegular → ∀ interpretation width positions,
        (t.evaluate interpretation width positions).outcome = .ok (positions.map
          (s.value (Primitive.value interpretation width) interpretation.power))) := by
  have hnode := Parser.node?_of_node
    (node_of_read htokens (isVectorText_of_sign htokens hsign) hread)
  obtain ⟨s, hs, hn, -⟩ := Parser.exists_sum_of_node? hnode
  have hunique (r : Sum) : r.lexemes = tokens.map Token.lexeme ↔ r = s := by
    rw [← hs]
    exact Sum.lexemes_injective.eq_iff
  rw [← hs] at hnode
  have htree : t = s.tree ↔ s.IsRegular := by
    constructor
    · rintro rfl
      exact Sum.isRegular_of_node? hnode
    · intro hr
      rw [Parser.node?_sum s hr hn] at hnode
      exact (Option.some.inj hnode).symm
  have hvalue (hr : s.IsRegular) (prim : Primitive → Rat → Rat) (pow : Rat → Rat → Rat) (n : Rat) :
      t.valueAt prim pow n = some (s.value prim pow n) := by
    rw [htree.2 hr]
    exact Sum.valueAt_tree prim pow n s
  refine ⟨s, hunique, htree, hvalue, ?_⟩
  intro hr interpretation width positions
  exact evaluate_of_valueAt (hvalue hr _ _) positions

/-- In `-2*n+u[n]` only the number is negated. -/
theorem valueAt_scaled_plus_step : ∃ t : SignalExpr Rat,
    (SignalExpr.read Parser.machineLevels (some "-2*n+u[n]")).outcome = .ok t ∧
      ∀ prim pow n, t.valueAt prim pow n = some (-2 * n + prim .step n) := by
  have htokens : (Lexer.tokenize (Text.strip "-2*n+u[n]".toList) : Except (TextFault Rat) _) =
      .ok [⟨.minus, 0⟩, ⟨.number ⟨['2'], none, none⟩, 1⟩, ⟨.star, 2⟩, ⟨.time, 3⟩, ⟨.plus, 4⟩,
        ⟨.primitive .step, 5⟩, ⟨.opening, 6⟩, ⟨.time, 7⟩, ⟨.closing, 8⟩] :=
    eq_ok_of_toOption (by decide +kernel)
  have hread : (SignalExpr.read Parser.machineLevels (some "-2*n+u[n]")).outcome =
      .ok (.plus (.times (.constant (-2 : Rat)) .time) (.call .step .time)) :=
    eq_ok_of_toOption (by decide +kernel)
  have hsign : some Lexeme.minus = some Sign.minus.lexeme := rfl
  obtain ⟨s, hs, -, hvalue, -⟩ := valueAt_of_read htokens hsign hread
  have hsum : Chain.mk ⟨⟨.number (some .minus) ⟨['2'], none, none⟩, [.time]⟩, []⟩
      [⟨⟨.call .step .time, []⟩, []⟩] = s := (hs _).1 rfl
  subst hsum
  refine ⟨_, hread, fun prim pow n => (hvalue ⟨?_, ?_⟩ prim pow n).trans ?_⟩
  · decide
  · decide
  · have htwo : (Numeral.value ⟨['2'], none, none⟩ : Rat) = 2 := by decide +kernel
    simp [Sum.value, Group.valueFrom, Product.value, Chain.parts, Factor.value, Argument.value,
      Sign.value, htwo]

/-- In `-2*n-u[n]` the number multiplies the difference behind it. -/
theorem valueAt_scaled_minus_step : ¬ ∀ (text : String) (tokens : List Token) (sign : Sign)
    (t : SignalExpr Rat) (s : Sum),
    (Lexer.tokenize (Text.strip text.toList) : Except (TextFault Rat) _) = .ok tokens →
    (tokens.map Token.lexeme).head? = some sign.lexeme →
    (SignalExpr.read Parser.machineLevels (some text)).outcome = .ok t →
    s.lexemes = tokens.map Token.lexeme →
    ∀ prim pow n, t.valueAt prim pow n = some (s.value prim pow n) := by
  intro h
  have htokens : (Lexer.tokenize (Text.strip "-2*n-u[n]".toList) : Except (TextFault Rat) _) =
      .ok [⟨.minus, 0⟩, ⟨.number ⟨['2'], none, none⟩, 1⟩, ⟨.star, 2⟩, ⟨.time, 3⟩, ⟨.minus, 4⟩,
        ⟨.primitive .step, 5⟩, ⟨.opening, 6⟩, ⟨.time, 7⟩, ⟨.closing, 8⟩] :=
    eq_ok_of_toOption (by decide +kernel)
  have hread : (SignalExpr.read Parser.machineLevels (some "-2*n-u[n]")).outcome =
      .ok (.times (.constant (-2 : Rat)) (.minus .time (.call .step .time))) :=
    eq_ok_of_toOption (by decide +kernel)
  let s : Sum := ⟨⟨⟨.number (some .minus) ⟨['2'], none, none⟩, [.time]⟩,
    [⟨.call .step .time, []⟩]⟩, []⟩
  have hvalue := h _ _ .minus _ s htokens rfl hread rfl (fun _ _ => 1) (fun base _ => base) 0
  revert hvalue
  decide +kernel

end SignalExpr

end SteppedConvolution
