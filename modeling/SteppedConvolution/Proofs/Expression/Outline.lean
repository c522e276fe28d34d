import SteppedConvolution.Proofs.Expression.Accepted

/-! # The outline of a sum

Where the operators of a sum stand. Its parts close their own brackets, the operators
outside brackets are those between the parts and the signs of numbers, and behind a part
no operand is missing.
-/

namespace SteppedConvolution

open Grammar

namespace Parser

/-! ## Brackets -/

theorem isEven_of_isBracket {ls : List Lexeme} (h : ∀ x ∈ ls, x.isBracket = false) : IsEven ls := by
  induction ls with
  | nil => exact isEven_nil
  | cons x xs ih =>
    exact (ih fun y hy => h y (List.mem_cons_of_mem x hy)).cons (h x List.mem_cons_self)

theorem IsEven.bracketed {inner : List Lexeme} (h : IsEven inner) (f : Primitive) :
    IsEven (bracketed f inner) := by
  intro depth
  have hd : Bracket.depthAfter depth (Grammar.bracketed f inner) =
      Bracket.depthAfter (Bracket.depthAfter (depth + 1) inner) [.closing] := List.foldl_append
  rw [hd, h]
  exact Int.add_sub_cancel depth 1

/-- Inside brackets there is nothing to split. -/
theorem splitsFrom_of_isBracket {depth : Int} (hd : depth ≠ 0) (l : Lexeme) {ls : List Lexeme}
    (h : ∀ x ∈ ls, x.isBracket = false) : splitsFrom depth l ls = [] := by
  induction ls with
  | nil => rfl
  | cons x xs ih =>
    have hx := h x List.mem_cons_self
    rw [splitsFrom, Bracket.depthOf_of_isBracket hx, Bracket.depthBehind_of_isBracket hx,
      ih fun y hy => h y (List.mem_cons_of_mem x hy)]
    simp [hd]

theorem splitsFrom_bracketed {depth : Int} {l : Lexeme} (hl : l = .plus ∨ l = .minus ∨ l = .star)
    {inner : List Lexeme} (hi : splitsFrom (depth + 1) l inner = [])
    (f : Primitive) : splitsFrom depth l (bracketed f inner) = [] := by
  have hf : (Lexeme.primitive f = l) = False := by rcases hl with rfl | rfl | rfl <;> simp
  have ho : (Lexeme.opening = l) = False := by rcases hl with rfl | rfl | rfl <;> simp
  have hc : (Lexeme.closing = l) = False := by rcases hl with rfl | rfl | rfl <;> simp
  have hdf : Bracket.depthBehind depth (.primitive f) = depth := rfl
  have hdo : Bracket.depthBehind depth .opening = depth + 1 := rfl
  simp [bracketed, splitsFrom, splitsFrom_append, hf, ho, hc, hdf, hdo, hi]

end Parser

namespace Grammar

open SteppedConvolution.Parser

theorem Argument.isBracket (a : Argument) : ∀ x ∈ a.lexemes, x.isBracket = false := by
  cases a with
  | time => decide
  | negated => decide
  | shifted sign k => cases sign <;> simp [lexemes, Sign.lexeme, Lexeme.isBracket]
  | scaled sign c =>
    rcases sign with _ | _ | _ <;> simp [lexemes, Sign.lexemes, Sign.lexeme, Lexeme.isBracket]
  | number sign c =>
    rcases sign with _ | _ | _ <;> simp [lexemes, Sign.lexemes, Sign.lexeme, Lexeme.isBracket]

theorem Factor.isEven (f : Factor) : IsEven f.lexemes := by
  cases f with
  | time => exact isEven_of_isBracket (by decide)
  | number sign k =>
    apply isEven_of_isBracket
    rcases sign with _ | _ | _ <;> simp [lexemes, Sign.lexemes, Sign.lexeme, Lexeme.isBracket]
  | power sign k =>
    apply isEven_of_isBracket
    rcases sign with _ | _ | _ <;> simp [lexemes, Sign.lexemes, Sign.lexeme, Lexeme.isBracket]
  | call f a => exact (isEven_of_isBracket a.isBracket).bracketed f
  | nested f g a => exact ((isEven_of_isBracket a.isBracket).bracketed g).bracketed f

/-- The only operator of a factor outside brackets is its sign. -/
theorem Factor.splits_lexemes {l : Lexeme} (hl : l = .plus ∨ l = .minus ∨ l = .star) (f : Factor) :
    splits l f.lexemes =
      if f.sign.map Sign.lexeme = some l then [([], f.lexemes.tail)] else [] := by
  cases f with
  | time => rcases hl with rfl | rfl | rfl <;> rfl
  | number sign k =>
    rcases hl with rfl | rfl | rfl <;> rcases sign with _ | _ | _ <;>
      simp [lexemes, Sign.lexemes, Sign.lexeme, Factor.sign, splits, splitsFrom,
        Bracket.depthOf, Bracket.depthBehind]
  | power sign k =>
    rcases hl with rfl | rfl | rfl <;> rcases sign with _ | _ | _ <;>
      simp [lexemes, Sign.lexemes, Sign.lexeme, Factor.sign, splits, splitsFrom,
        Bracket.depthOf, Bracket.depthBehind]
  | call f a =>
    have ha : splitsFrom 1 l a.lexemes = [] := splitsFrom_of_isBracket (by decide) l a.isBracket
    exact splitsFrom_bracketed hl ha f
  | nested f g a =>
    have ha : splitsFrom 2 l a.lexemes = [] := splitsFrom_of_isBracket (by decide) l a.isBracket
    exact splitsFrom_bracketed hl (splitsFrom_bracketed hl ha g) f

/-- Factors are not joined inside. -/
theorem Factor.splits_star (f : Factor) : splits .star f.lexemes = [] := by
  rw [f.splits_lexemes (.inr (.inr rfl)), if_neg]
  rcases f.sign with _ | _ | _ <;> simp [Sign.lexeme]

theorem Factor.openSplits {l : Lexeme} (hl : l = .plus ∨ l = .minus ∨ l = .star) (f : Factor) :
    OpenSplits l f.lexemes := by
  intro p hp
  rw [f.splits_lexemes hl] at hp
  split at hp
  · rw [List.mem_singleton.1 hp]
    exact isOpen_nil
  · cases hp

/-! ## Chains -/

section

variable {α : Type} {sep l : Lexeme} {f : α → List Lexeme}

theorem Chain.isEven (hs : sep.isBracket = false) (hf : ∀ a, IsEven (f a)) (c : Chain α) :
    IsEven (c.text sep f) := by
  rcases c with ⟨a, bs⟩
  induction bs generalizing a with
  | nil => simpa [text] using hf a
  | cons b bs ih =>
    rw [text_cons]
    exact (hf a).append ((ih b).cons hs)

theorem Chain.openSplits (hs : sep.isBracket = false) (ho : sep.endsOperand = false)
    (hl : sep ≠ l) (he : ∀ a, IsEven (f a)) (hf : ∀ a, OpenSplits l (f a)) (c : Chain α) :
    OpenSplits l (c.text sep f) := by
  rcases c with ⟨a, bs⟩
  induction bs generalizing a with
  | nil => simpa [text] using hf a
  | cons b bs ih =>
    rw [text_cons]
    exact OpenSplits.append_cons (he a) hs ho hl (hf a) (ih b)

theorem Chain.getLast?_text (hf : ∀ a, ∃ x, (f a).getLast? = some x ∧ x.endsOperand = true)
    (c : Chain α) : ∃ x, (c.text sep f).getLast? = some x ∧ x.endsOperand = true := by
  obtain ⟨as, a, hc⟩ := c.exists_parts_eq_concat
  obtain ⟨front, h⟩ := Chain.text_of_parts sep f hc
  obtain ⟨x, hx, he⟩ := hf a
  exact ⟨x, by rw [h, List.getLast?_append, hx, Option.some_or], he⟩

theorem Chain.head?_text (hf : ∀ a, f a ≠ []) (c : Chain α) :
    (c.text sep f).head? = (f c.first).head? := by
  rw [text, List.head?_append, List.head?_eq_some_head (hf c.first), Option.some_or]

end

theorem getLast?_bracketed (f : Primitive) (inner : List Lexeme) :
    (bracketed f inner).getLast? = some .closing := by
  change (Lexeme.primitive f :: .opening :: inner ++ [Lexeme.closing]).getLast? = _
  rw [List.getLast?_concat]

theorem Factor.getLast?_lexemes (f : Factor) :
    ∃ x, f.lexemes.getLast? = some x ∧ x.endsOperand = true := by
  cases f with
  | time => exact ⟨_, rfl, rfl⟩
  | number sign k => exact ⟨.number k, by simp [lexemes], rfl⟩
  | power sign k => exact ⟨.time, by simp [lexemes], rfl⟩
  | call f a => exact ⟨.closing, getLast?_bracketed f a.lexemes, rfl⟩
  | nested f g a => exact ⟨.closing, getLast?_bracketed f (bracketed g a.lexemes), rfl⟩

theorem Product.isEven (p : Product) : IsEven p.lexemes := Chain.isEven rfl Factor.isEven p

theorem Group.isEven (g : Group) : IsEven g.lexemes := Chain.isEven rfl Product.isEven g

theorem Sum.isEven (s : Sum) : IsEven s.lexemes := Chain.isEven rfl Group.isEven s

theorem Product.openSplits {l : Lexeme} (hl : l = .plus ∨ l = .minus) (p : Product) :
    OpenSplits l p.lexemes := by
  have hs : Lexeme.star ≠ l := by rcases hl with rfl | rfl <;> simp
  exact Chain.openSplits rfl rfl hs Factor.isEven
    (Factor.openSplits (hl.imp_right .inl)) p

theorem Group.openSplits (g : Group) : OpenSplits .plus g.lexemes :=
  Chain.openSplits rfl rfl (by decide) Product.isEven (Product.openSplits (.inl rfl)) g

theorem Sum.getLast?_lexemes (s : Sum) :
    ∃ x, s.lexemes.getLast? = some x ∧ x.endsOperand = true :=
  Chain.getLast?_text (Chain.getLast?_text (Chain.getLast?_text Factor.getLast?_lexemes)) s

end Grammar

end SteppedConvolution
