import SteppedConvolution.Expression.Token
import SteppedConvolution.Fault.Basic
import SteppedConvolution.Numeral.Scan
import SteppedConvolution.Text.Blank
import SteppedConvolution.Text.Word

/-! # Splitting expressions into tokens

Blanks are dropped first. From the left, the longest number or name is taken, or
a sign of one character. The lexemes joined again give the text without blanks.
-/

namespace SteppedConvolution.Lexer

open Text

/-- Why no lexeme stands at the front of a text. -/
inductive Failure where
  | complexLiteral
  | unknownIdentifier (name : List Char)
  | unexpectedCharacter (c : Char)
  deriving DecidableEq, Repr

/-- The lexeme of a name. The imaginary units are refused under a cause of their own. -/
def lexemeOfName (name : List Char) : Except Failure Lexeme :=
  if name = ['i'] ∨ name = ['j'] then .error .complexLiteral
  else
    match Lexeme.ofName? name with
    | some l => .ok l
    | none => .error (.unknownIdentifier name)

/-- The lexeme at the front of a text and what follows it. -/
def next (c : Char) (cs : List Char) : Except Failure (Lexeme × List Char) :=
  match Numeral.scan? .mayTrail (c :: cs) with
  | some (n, rest) => .ok (.number n, rest)
  | none =>
    if startsName c then
      (lexemeOfName (c :: cs.takeWhile isWord)).map fun l => (l, cs.dropWhile isWord)
    else
      match Lexeme.ofSign? c with
      | some l => .ok (l, cs)
      | none => .error (.unexpectedCharacter c)

theorem text_of_lexemeOfName {name : List Char} {l : Lexeme} (h : lexemeOfName name = .ok l) :
    l.text = name := by
  unfold lexemeOfName at h
  grind [Lexeme.text_of_ofName?]

/-- A lexeme splits the text in front of it. -/
theorem next_append {c : Char} {cs rest : List Char} {l : Lexeme}
    (h : next c cs = .ok (l, rest)) : l.text ++ rest = c :: cs := by
  unfold next at h
  split at h
  · rename_i hn
    cases h
    exact Numeral.scan?_append hn
  · split at h
    · cases hl : lexemeOfName (c :: cs.takeWhile isWord) with
      | error e => simp [hl, Except.map] at h
      | ok m =>
        simp only [hl, Except.map, Except.ok.injEq, Prod.mk.injEq] at h
        obtain ⟨rfl, rfl⟩ := h
        rw [text_of_lexemeOfName hl]
        simp [List.takeWhile_append_dropWhile]
    · split at h
      · rename_i hs
        cases h
        simp [Lexeme.text_of_ofSign? hs]
      · cases h

/-- A lexeme takes at least one character. -/
theorem next_length {c : Char} {cs rest : List Char} {l : Lexeme}
    (h : next c cs = .ok (l, rest)) : rest.length < (c :: cs).length := by
  unfold next at h
  split at h
  · rename_i hn
    cases h
    exact Numeral.scan?_length hn
  · split at h
    · cases hl : lexemeOfName (c :: cs.takeWhile isWord) with
      | error e => simp [hl, Except.map] at h
      | ok m =>
        simp only [hl, Except.map, Except.ok.injEq, Prod.mk.injEq] at h
        obtain ⟨-, rfl⟩ := h
        have := (List.dropWhile_sublist isWord (l := cs)).length_le
        simp only [List.length_cons]
        omega
    · split at h
      · cases h
        simp
      · cases h

/-- The tokens of a text without blanks that starts at a position, or the position of the
first failure. -/
def tokensFrom (position : Nat) (cs : List Char) : Except (Failure × Nat) (List Token) :=
  match cs with
  | [] => .ok []
  | c :: cs =>
    match h : next c cs with
    | .error e => .error (e, position)
    | .ok (l, rest) =>
      have := next_length h
      (tokensFrom (position + l.text.length) rest).map (⟨l, position⟩ :: ·)
termination_by cs.length
decreasing_by assumption

/-- A text with two opening brackets in a row. -/
def hasDoubleOpening : List Char → Bool
  | '[' :: '[' :: _ => true
  | _ :: cs => hasDoubleOpening cs
  | [] => false

/-- The fault that a failure is reported as. -/
def Failure.fault {K : Type} (position : Nat) : Failure → TextFault K
  | complexLiteral => .complexLiteral
  | unknownIdentifier name => .unknownIdentifier (String.ofList name)
  | unexpectedCharacter c => .unexpectedCharacter c position

/-- The tokens of a text. Divisions and doubled brackets are refused before anything else. -/
def tokenize {K : Type} (text : List Char) : Except (TextFault K) (List Token) :=
  let source := compact text
  if source.contains '/' then .error .division
  else if hasDoubleOpening source then .error .nestedBrackets
  else (tokensFrom 0 source).mapError fun (failure, position) => failure.fault position

end SteppedConvolution.Lexer
