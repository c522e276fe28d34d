import Mathlib.Algebra.Order.Field.Rat
import Mathlib.Data.List.Basic
import SteppedConvolution.Proofs.Expression.Splits

/-! # The grammar of expressions

A sum of products: groups joined by `+`, in each group products joined by `-`, in each
product factors joined by `*`. A factor is the time variable, a number, a power of a
number, or a call of one or two primitives. Numbers may carry a sign. Every reading has
its lexemes and its conventional tree.
-/

namespace SteppedConvolution.Grammar

variable {K : Type} [Scalar K]

/-- A sign in front of a number, or between two products. -/
inductive Sign where
  | plus
  | minus
  deriving DecidableEq, Repr

namespace Sign

/-- The lexeme of a sign. -/
def lexeme : Sign → Lexeme
  | plus => .plus
  | minus => .minus

/-- The lexemes of a sign that may be missing. -/
def lexemes (sign : Option Sign) : List Lexeme := (sign.map lexeme).toList

/-- The value of a number behind a sign that may be missing. -/
def value (sign : Option Sign) (k : Numeral) : K :=
  match sign with
  | some minus => -k.value
  | _ => k.value

end Sign

/-- The argument of a primitive. -/
inductive Argument where
  | time
  | negated
  | shifted (sign : Sign) (k : Numeral)
  | scaled (sign : Option Sign) (c : Numeral)
  | number (sign : Option Sign) (c : Numeral)
  deriving DecidableEq, Repr

namespace Argument

def lexemes : Argument → List Lexeme
  | time => [.time]
  | negated => [.minus, .time]
  | shifted sign k => [.time, sign.lexeme, .number k]
  | scaled sign c => Sign.lexemes sign ++ [.number c, .star, .time]
  | number sign c => Sign.lexemes sign ++ [.number c]

def tree : Argument → SignalExpr K
  | time => .time
  | negated => .times (.constant (-1)) .time
  | shifted .plus k => .plus .time (.constant k.value)
  | shifted .minus k => .minus .time (.constant k.value)
  | scaled sign c => .times (.constant (Sign.value sign c)) .time
  | number sign c => .constant (Sign.value sign c)

end Argument

/-- The lexemes of a call with given lexemes in its brackets. -/
def bracketed (f : Primitive) (inner : List Lexeme) : List Lexeme :=
  .primitive f :: .opening :: (inner ++ [.closing])

/-- What products are made of. -/
inductive Factor where
  | time
  | number (sign : Option Sign) (k : Numeral)
  | power (sign : Option Sign) (k : Numeral)
  | call (f : Primitive) (a : Argument)
  | nested (f g : Primitive) (a : Argument)
  deriving DecidableEq, Repr

namespace Factor

/-- The sign in front of a factor. -/
def sign : Factor → Option Sign
  | number sign _ | power sign _ => sign
  | _ => none

def lexemes : Factor → List Lexeme
  | time => [.time]
  | number sign k => Sign.lexemes sign ++ [.number k]
  | power sign k => Sign.lexemes sign ++ [.number k, .caret, .time]
  | call f a => bracketed f a.lexemes
  | nested f g a => bracketed f (bracketed g a.lexemes)

def tree : Factor → SignalExpr K
  | time => .time
  | number sign k => .constant (Sign.value sign k)
  | power sign k => .power (Sign.value sign k)
  | call f a => .call f a.tree
  | nested f g a => .call f (.call g a.tree)

end Factor

/-- Parts joined by an operator, at least one. -/
structure Chain (α : Type) where
  first : α
  rest : List α
  deriving DecidableEq, Repr

namespace Chain

variable {α : Type} {sep l : Lexeme} {f : α → List Lexeme}

/-- The parts of a chain. -/
def parts (c : Chain α) : List α := c.first :: c.rest

theorem parts_ne_nil (c : Chain α) : c.parts ≠ [] := List.cons_ne_nil _ _

/-- A chain has a last part. -/
theorem exists_parts_eq_concat (c : Chain α) : ∃ as a, c.parts = as ++ [a] := by
  obtain ⟨as, a, h⟩ := (List.eq_nil_or_concat c.parts).resolve_left c.parts_ne_nil
  exact ⟨as, a, h.trans List.concat_eq_append⟩

/-- The lexemes of a chain, given those of its parts. -/
def text (sep : Lexeme) (f : α → List Lexeme) (c : Chain α) : List Lexeme :=
  f c.first ++ c.rest.flatMap fun a => sep :: f a

/-- Two chains in a row. -/
def append (c d : Chain α) : Chain α := ⟨c.first, c.rest ++ d.parts⟩

theorem parts_append (c d : Chain α) : (c.append d).parts = c.parts ++ d.parts := rfl

theorem text_append (c d : Chain α) :
    (c.append d).text sep f = c.text sep f ++ sep :: d.text sep f := by
  simp [text, append, parts]

theorem text_cons (a b : α) (bs : List α) :
    text sep f ⟨a, b :: bs⟩ = f a ++ sep :: text sep f ⟨b, bs⟩ := by
  simp [text]

theorem text_concat (a : α) (bs : List α) (b : α) :
    text sep f ⟨a, bs ++ [b]⟩ = text sep f ⟨a, bs⟩ ++ sep :: f b := by
  simp [text]

/-- A chain behind a list of parts, where the last of them is merged with its first part. -/
def mergeFrom (m : α → α → α) (d : Chain α) (a : α) : List α → Chain α
  | [] => ⟨m a d.first, d.rest⟩
  | b :: bs => ⟨a, (mergeFrom m d b bs).parts⟩

/-- Two chains in a row, where the parts that meet are merged. -/
def merge (m : α → α → α) (c d : Chain α) : Chain α := mergeFrom m d c.first c.rest

theorem text_merge {m : α → α → α} (hm : ∀ a b, f (m a b) = f a ++ l :: f b) (c d : Chain α) :
    (c.merge m d).text sep f = c.text sep f ++ l :: d.text sep f := by
  rcases c with ⟨a, bs⟩
  change (mergeFrom m d a bs).text sep f = text sep f ⟨a, bs⟩ ++ l :: d.text sep f
  induction bs generalizing a with
  | nil => simp [mergeFrom, text, hm]
  | cons b bs ih =>
    rw [text_cons, List.append_assoc, List.cons_append, ← ih, mergeFrom, parts, text_cons]

/-- The parts that do not meet stay as they are. -/
theorem parts_merge (m : α → α → α) (c d : Chain α) :
    ∃ as a, c.parts = as ++ [a] ∧ (c.merge m d).parts = as ++ m a d.first :: d.rest := by
  rcases c with ⟨a, bs⟩
  change ∃ as a', a :: bs = as ++ [a'] ∧ (mergeFrom m d a bs).parts = as ++ m a' d.first :: d.rest
  induction bs generalizing a with
  | nil => exact ⟨[], a, rfl, rfl⟩
  | cons b bs ih =>
    obtain ⟨as, a', hp, hm⟩ := ih b
    exact ⟨a :: as, a', by rw [hp]; rfl, by rw [mergeFrom, parts, hm]; rfl⟩

end Chain

/-- Factors joined by `*`. -/
abbrev Product := Chain Factor

/-- Products joined by `-`. -/
abbrev Group := Chain Product

/-- Groups joined by `+`. -/
abbrev Sum := Chain Group

namespace Product

def lexemes (p : Product) : List Lexeme := p.text .star Factor.lexemes

/-- The tree of factors in a row, which are multiplied from the right. -/
def treeFrom (a : Factor) : List Factor → SignalExpr K
  | [] => a.tree
  | b :: bs => .times a.tree (treeFrom b bs)

def tree (p : Product) : SignalExpr K := treeFrom p.first p.rest

/-- Two products joined by `*`. -/
def times (p q : Product) : Product := Chain.append p q

theorem lexemes_times (p q : Product) :
    (p.times q).lexemes = p.lexemes ++ .star :: q.lexemes :=
  Chain.text_append p q

end Product

namespace Group

def lexemes (g : Group) : List Lexeme := g.text .minus Product.lexemes

/-- Products are subtracted from the left. -/
def tree (g : Group) : SignalExpr K := g.rest.foldl (fun t p => .minus t p.tree) g.first.tree

theorem tree_concat (p : Product) (qs : List Product) (q : Product) :
    (tree ⟨p, qs ++ [q]⟩ : SignalExpr K) = .minus (tree ⟨p, qs⟩) q.tree :=
  List.foldl_concat _ _ _ _

/-- Two groups joined by `-`. -/
def minus (g h : Group) : Group := Chain.append g h

/-- Two groups joined by `*`, which joins the products that meet. -/
def times (g h : Group) : Group := Chain.merge Product.times g h

theorem lexemes_minus (g h : Group) :
    (g.minus h).lexemes = g.lexemes ++ .minus :: h.lexemes :=
  Chain.text_append g h

theorem lexemes_times (g h : Group) : (g.times h).lexemes = g.lexemes ++ .star :: h.lexemes :=
  Chain.text_merge Product.lexemes_times g h

end Group

namespace Sum

def lexemes (s : Sum) : List Lexeme := s.text .plus Group.lexemes

/-- Groups are added from the left. -/
def tree (s : Sum) : SignalExpr K := s.rest.foldl (fun t g => .plus t g.tree) s.first.tree

theorem tree_concat (g : Group) (hs : List Group) (h : Group) :
    (tree ⟨g, hs ++ [h]⟩ : SignalExpr K) = .plus (tree ⟨g, hs⟩) h.tree :=
  List.foldl_concat _ _ _ _

/-- Two sums joined by `+`. -/
def plus (s t : Sum) : Sum := Chain.append s t

/-- Two sums joined by `-`, which joins the groups that meet. -/
def minus (s t : Sum) : Sum := Chain.merge Group.minus s t

/-- Two sums joined by `*`, which joins the products that meet. -/
def times (s t : Sum) : Sum := Chain.merge Group.times s t

theorem lexemes_plus (s t : Sum) : (s.plus t).lexemes = s.lexemes ++ .plus :: t.lexemes :=
  Chain.text_append s t

theorem lexemes_minus (s t : Sum) : (s.minus t).lexemes = s.lexemes ++ .minus :: t.lexemes :=
  Chain.text_merge Group.lexemes_minus s t

theorem lexemes_times (s t : Sum) : (s.times t).lexemes = s.lexemes ++ .star :: t.lexemes :=
  Chain.text_merge Group.lexemes_times s t

/-- The products of all groups. -/
def products (s : Sum) : List Product := s.parts.flatMap Chain.parts

/-- The number of factors. -/
def size (s : Sum) : Nat := (s.products.map fun p => p.parts.length).sum

/-- No number carries a sign. -/
def IsUnsigned (s : Sum) : Prop := ∀ p ∈ s.products, ∀ f ∈ p.parts, f.sign = none

/-- No product ends in a number, except for the last one. -/
def NumbersLast (s : Sum) : Prop :=
  ∀ p ∈ s.products.dropLast, Parser.endsInNumber p.lexemes = false

instance (s : Sum) : Decidable s.IsUnsigned :=
  inferInstanceAs (Decidable (∀ p ∈ s.products, ∀ f ∈ p.parts, f.sign = none))

instance (s : Sum) : Decidable s.NumbersLast :=
  inferInstanceAs (Decidable (∀ p ∈ s.products.dropLast, Parser.endsInNumber p.lexemes = false))

end Sum

end SteppedConvolution.Grammar
