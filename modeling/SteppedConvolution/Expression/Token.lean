import SteppedConvolution.Expression.Basic
import SteppedConvolution.Numeral.Basic

/-! # Tokens

The lexemes of the expression language: unsigned numbers, the time variable, the
names of the primitives and eight signs. A token is a lexeme with its place in
the text without blanks.
-/

namespace SteppedConvolution

/-- A lexeme of the expression language. -/
inductive Lexeme where
  | number (numeral : Numeral)
  | time
  | primitive (p : Primitive)
  | opening
  | closing
  | comma
  | plus
  | minus
  | star
  | caret
  deriving DecidableEq, Repr

/-- The categories of lexemes. -/
inductive Lexeme.Kind where
  | number
  | name
  | opening
  | closing
  | comma
  | plus
  | minus
  | star
  | caret
  deriving DecidableEq, Repr

namespace Lexeme

/-- The category of a lexeme. -/
def kind : Lexeme → Kind
  | number _ => .number
  | time | primitive _ => .name
  | opening => .opening
  | closing => .closing
  | comma => .comma
  | plus => .plus
  | minus => .minus
  | star => .star
  | caret => .caret

/-- The signs with their characters. -/
def signs : List (Char × Lexeme) :=
  [('[', opening), (']', closing), (',', comma), ('+', plus), ('-', minus), ('*', star),
    ('^', caret)]

/-- The lexeme of a sign. -/
def ofSign? (c : Char) : Option Lexeme := (signs.find? fun p => p.1 = c).map Prod.snd

/-- The lexeme of a name in the vocabulary. -/
def ofName? (name : List Char) : Option Lexeme :=
  if name = ['n'] then some time else (Primitive.ofName? (String.ofList name)).map primitive

/-- The characters of a lexeme. -/
def text : Lexeme → List Char
  | number n => n.text
  | time => ['n']
  | primitive p => p.name.toList
  | opening => ['[']
  | closing => [']']
  | comma => [',']
  | plus => ['+']
  | minus => ['-']
  | star => ['*']
  | caret => ['^']

theorem text_of_ofSign? {c : Char} {l : Lexeme} (h : ofSign? c = some l) : l.text = [c] := by
  obtain ⟨p, hp, rfl⟩ := Option.map_eq_some_iff.1 h
  have hc := List.find?_some hp
  have hm := List.mem_of_find?_eq_some hp
  simp only [decide_eq_true_eq] at hc
  simp only [signs, List.mem_cons, List.not_mem_nil, or_false] at hm
  rcases hm with rfl | rfl | rfl | rfl | rfl | rfl | rfl <;> exact congrArg (fun a => [a]) hc

theorem text_of_ofName? {name : List Char} {l : Lexeme} (h : ofName? name = some l) :
    l.text = name := by
  unfold ofName? at h
  split at h
  · cases h
    simp_all [text]
  · obtain ⟨p, hp, rfl⟩ := Option.map_eq_some_iff.1 h
    have hn := List.find?_some hp
    simp only [decide_eq_true_eq] at hn
    simp [text, hn]

end Lexeme

/-- The name of a category in listings of tokens. -/
def Lexeme.Kind.label : Lexeme.Kind → String
  | number => "number"
  | name => "ident"
  | opening => "["
  | closing => "]"
  | comma => ","
  | plus => "+"
  | minus => "-"
  | star => "*"
  | caret => "^"

/-- A lexeme and the number of characters in front of it. -/
structure Token where
  lexeme : Lexeme
  position : Nat
  deriving DecidableEq, Repr

end SteppedConvolution
