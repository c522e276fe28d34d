import SteppedConvolution.Proofs.Expression.Induction
import SteppedConvolution.Proofs.Expression.Outline

/-! # Lists of lexemes in pieces

A call with all that stands in its brackets is one piece, and outside of calls every lexeme
is one. The parser cuts lists between pieces only, at the operators that are pieces of their
own.
-/

namespace SteppedConvolution

open Grammar

/-- A call with its brackets, or a lexeme that stands outside of calls. -/
inductive Piece where
  | number (k : Numeral)
  | time
  | caret
  | operator (op : Operator)
  | call (f : Primitive) (a : Argument)
  | nested (f g : Primitive) (a : Argument)
  deriving DecidableEq, Repr

namespace Piece

/-- The lexemes of a piece. -/
def lexemes : Piece → List Lexeme
  | number k => [.number k]
  | time => [.time]
  | caret => [.caret]
  | operator op => [op.lexeme]
  | call f a => bracketed f a.lexemes
  | nested f g a => bracketed f (bracketed g a.lexemes)

/-- The lexemes of pieces in a row. -/
def flat (us : List Piece) : List Lexeme := us.flatMap lexemes

theorem flat_cons (u : Piece) (us : List Piece) : flat (u :: us) = u.lexemes ++ flat us :=
  List.flatMap_cons

theorem flat_append (us vs : List Piece) : flat (us ++ vs) = flat us ++ flat vs :=
  List.flatMap_append

theorem lexemes_ne_nil (u : Piece) : u.lexemes ≠ [] := by
  cases u <;> exact List.cons_ne_nil _ _

theorem flat_eq_nil {us : List Piece} : flat us = [] ↔ us = [] := by
  cases us with
  | nil => exact ⟨fun _ => rfl, fun _ => rfl⟩
  | cons u us => simp [flat_cons, lexemes_ne_nil]

theorem length_le_flat (us : List Piece) : us.length ≤ (flat us).length := by
  induction us with
  | nil => exact le_refl 0
  | cons u us ih =>
    have := List.length_pos_iff.2 u.lexemes_ne_nil
    rw [flat_cons, List.length_append, List.length_cons]
    omega

/-! ## Cuts between pieces -/

theorem isEven (u : Piece) : Parser.IsEven u.lexemes := by
  cases u with
  | call f a => exact (Parser.isEven_of_isBracket a.isBracket).bracketed f
  | nested f g a => exact ((Parser.isEven_of_isBracket a.isBracket).bracketed g).bracketed f
  | operator op => exact Parser.isEven_of_isBracket (by cases op <;> decide)
  | _ => exact Parser.isEven_of_isBracket (by simp [lexemes, Lexeme.isBracket])

/-- Only an operator outside of calls is one to cut at. -/
theorem splits_lexemes (op : Operator) (u : Piece) :
    Parser.splits op.lexeme u.lexemes = if u = operator op then [([], [])] else [] := by
  have hop : op.lexeme = .plus ∨ op.lexeme = .minus ∨ op.lexeme = .star := by
    cases op <;> simp [Operator.lexeme]
  cases u with
  | call f a =>
    exact Parser.splitsFrom_bracketed hop
      (Parser.splitsFrom_of_isBracket (by decide) _ a.isBracket) f
  | nested f g a =>
    exact Parser.splitsFrom_bracketed hop (Parser.splitsFrom_bracketed hop
      (Parser.splitsFrom_of_isBracket (by decide) _ a.isBracket) g) f
  | operator p => cases op <;> cases p <;> rfl
  | _ => cases op <;> rfl

/-- The ways to cut pieces at an operator, from the left. -/
def cuts (op : Operator) : List Piece → List (List Piece × List Piece)
  | [] => []
  | u :: us =>
    (if u = operator op then [([], us)] else []) ++ (cuts op us).map fun p => (u :: p.1, p.2)

/-- The lexemes of both sides of a cut. -/
def flatSides (p : List Piece × List Piece) : List Lexeme × List Lexeme := (flat p.1, flat p.2)

theorem splits_flat (op : Operator) (us : List Piece) :
    Parser.splits op.lexeme (flat us) = (cuts op us).map flatSides := by
  induction us with
  | nil => rfl
  | cons u us ih =>
    rw [flat_cons, Parser.splits_append u.isEven, splits_lexemes, ih, cuts, List.map_append,
      List.map_map, List.map_map]
    have hsides : ((fun p => (u.lexemes ++ p.1, p.2)) ∘ flatSides) =
        flatSides ∘ fun p => (u :: p.1, p.2) := by
      funext p
      simp [flatSides, flat_cons]
    rw [hsides]
    split <;> rfl

/-- Whether pieces end in a number. -/
def endsInNumber (us : List Piece) : Bool :=
  match us.getLast? with
  | some (number _) => true
  | _ => false

theorem endsInNumber_flat (us : List Piece) : Parser.endsInNumber (flat us) = endsInNumber us := by
  rcases List.eq_nil_or_concat us with rfl | ⟨vs, u, rfl⟩
  · rfl
  · have hlast : endsInNumber (vs.concat u) = endsInNumber [u] := by
      rw [List.concat_eq_append, endsInNumber, List.getLast?_concat]
      rfl
    rw [hlast, List.concat_eq_append, flat_append, Grammar.endsInNumber_append, flat_cons]
    · cases u with
      | operator op => cases op <;> rfl
      | call f a => simp [flat, lexemes, endsInNumber, Parser.endsInNumber, getLast?_bracketed]
      | nested f g a => simp [flat, lexemes, endsInNumber, Parser.endsInNumber, getLast?_bracketed]
      | _ => rfl
    · exact mt flat_eq_nil.1 (List.cons_ne_nil u [])

theorem head?_flat (op : Operator) (us : List Piece) :
    (flat us).head? = some op.lexeme ↔ us.head? = some (operator op) := by
  cases us with
  | nil => exact ⟨nofun, nofun⟩
  | cons u us =>
    rw [flat_cons, List.head?_append_of_ne_nil _ u.lexemes_ne_nil, List.head?_cons]
    cases u with
    | operator p => cases op <;> cases p <;> simp [lexemes, Operator.lexeme]
    | _ => cases op <;> simp [lexemes, Operator.lexeme, bracketed]

/-- The ways to cut pieces at an operator that joins two operands, from the right. -/
def additiveCuts (op : Operator) (us : List Piece) : List (List Piece × List Piece) :=
  if us.head? = some (operator op) then []
  else (cuts op us).reverse.filter fun p => p.1 ≠ [] && !endsInNumber p.1

theorem additiveSplits_flat (op : Operator) (us : List Piece) :
    Parser.additiveSplits op.lexeme (flat us) = (additiveCuts op us).map flatSides := by
  have hfilter : ((fun p : List Lexeme × List Lexeme =>
      p.1 ≠ [] && !Parser.endsInNumber p.1) ∘ flatSides) =
        fun p => p.1 ≠ [] && !endsInNumber p.1 := by
    funext p
    simp [flatSides, flat_eq_nil, endsInNumber_flat]
  unfold Parser.additiveSplits additiveCuts
  simp only [head?_flat]
  split
  · rfl
  · rw [splits_flat, ← List.map_reverse, List.filter_map, hfilter]

end Piece

end SteppedConvolution
