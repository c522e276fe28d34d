import Mathlib.Data.List.Induction
import SteppedConvolution.Proofs.Expression.Outline

/-! # Sums that are parsed as they are written

A sum is parsed to its own tree unless a sign at its start, or at the start of one of its
groups, is also an operator of what follows. The proof goes from factors to sums, and in
products, groups and sums along the operator at which the parser cuts.
-/

namespace SteppedConvolution

open Grammar

namespace Bracket

/-- The search for a closing bracket passes over the list when a bracket is open. -/
def Passes (ls : List Lexeme) : Prop := ∀ (depth : Int) (place : Nat) (rest : List Lexeme),
  0 < depth → closingFrom depth place (ls ++ rest) = closingFrom depth (place + ls.length) rest

theorem passes_of_isBracket {ls : List Lexeme} (h : ∀ x ∈ ls, x.isBracket = false) :
    Passes ls := by
  induction ls with
  | nil => exact fun _ _ _ _ => rfl
  | cons x xs ih =>
    intro depth place rest hd
    have hx := h x List.mem_cons_self
    have hstep : closingFrom depth place (x :: (xs ++ rest)) =
        closingFrom depth (place + 1) (xs ++ rest) := by
      cases x <;> first | rfl | cases hx
    have hxs := ih (fun y hy => h y (List.mem_cons_of_mem x hy)) depth (place + 1) rest hd
    rw [List.cons_append, hstep, hxs, List.length_cons]
    congr 1
    omega

theorem Passes.bracketed {inner : List Lexeme} (h : Passes inner) (f : Primitive) :
    Passes (bracketed f inner) := by
  intro depth place rest hd
  have hi := h (depth + 1) (place + 1 + 1) ([.closing] ++ rest) (by omega)
  have hc : closingFrom (depth + 1) (place + 1 + 1 + inner.length) ([.closing] ++ rest) =
      closingFrom depth (place + 1 + 1 + inner.length + 1) rest := by
    have hne : ¬ depth + 1 - 1 = 0 := by omega
    change (if depth + 1 - 1 = 0 then _ else _) = _
    rw [if_neg hne, Int.add_sub_cancel]
    rfl
  have hl : place + (Grammar.bracketed f inner).length = place + 1 + 1 + inner.length + 1 := by
    simp only [Grammar.bracketed, List.length_cons, List.length_append, List.length_nil]
    omega
  rw [hl, ← hc, ← hi, ← List.append_assoc]
  rfl

end Bracket

namespace Parser

variable {K : Type} [Scalar K]

theorem callParts?_bracketed {inner : List Lexeme} (h : Bracket.Passes inner) (f : Primitive) :
    callParts? (bracketed f inner) = some (f, inner) := by
  have hm : Bracket.matching? (bracketed f inner) 1 =
      some ((inner ++ [Lexeme.closing]).length + 1) := by
    have hi := h 1 2 [.closing] (by decide)
    have hc : Bracket.closingFrom 1 (2 + inner.length) [.closing] = some (2 + inner.length) := rfl
    change Bracket.closingFrom 1 2 (inner ++ [.closing]) = _
    rw [hi, hc, List.length_append, List.length_singleton]
    congr 1
    omega
  change (if Bracket.matching? (bracketed f inner) 1 =
      some ((inner ++ [Lexeme.closing]).length + 1) then
    some (f, (inner ++ [Lexeme.closing]).dropLast) else none) = _
  rw [if_pos hm, List.dropLast_concat]

theorem callParts?_argument (a : Argument) : callParts? a.lexemes = none := by
  cases a with
  | time => rfl
  | negated => rfl
  | shifted sign k => rfl
  | scaled sign c => rcases sign with _ | _ | _ <;> rfl
  | number sign c => rcases sign with _ | _ | _ <;> rfl

/-- A factor is a call or a simple term. -/
theorem call?_orElse_simple? (f : Factor) :
    (call? f.lexemes <|> simple? f.lexemes) = some (f.tree : SignalExpr K) := by
  cases f with
  | time => rfl
  | number sign k => rcases sign with _ | _ | _ <;> rfl
  | power sign k => rcases sign with _ | _ | _ <;> rfl
  | call f a =>
    have hc : call? (bracketed f a.lexemes) = some (.call f a.tree : SignalExpr K) := by
      simp [call?, callParts?_bracketed (Bracket.passes_of_isBracket a.isBracket),
        callParts?_argument, argument?_lexemes]
    rw [Factor.lexemes, hc]
    rfl
  | nested f g a =>
    have ha := Bracket.passes_of_isBracket a.isBracket
    have hc : call? (bracketed f (bracketed g a.lexemes)) =
        some (.call f (.call g a.tree) : SignalExpr K) := by
      simp [call?, callParts?_bracketed (ha.bracketed g), callParts?_bracketed ha,
        argument?_lexemes]
    rw [Factor.lexemes, hc]
    rfl

/-- Nothing is parsed behind which an operand is missing. -/
theorem node?_of_isOpen {ls : List Lexeme} (h : IsOpen ls) :
    (node? ls : Option (SignalExpr K)) = none := by
  cases hn : (node? ls : Option (SignalExpr K)) with
  | none => rfl
  | some t =>
    obtain ⟨s, rfl, -, -⟩ := exists_sum_of_node? hn
    obtain ⟨x, hx, he⟩ := s.getLast?_lexemes
    rw [h x hx] at he
    cases he

theorem joined_of_isOpen {op : Operator} {p : List Lexeme × List Lexeme} (h : IsOpen p.1) :
    (joined op p : Option (SignalExpr K)) = none := by
  rw [joined, node?_of_isOpen h]
  rfl

/-- No cut at an operator counts that has no operand on its left. -/
theorem findSome?_of_openSplits {l : Lexeme} {op : Operator} {ls : List Lexeme}
    (h : OpenSplits l ls) :
    ((additiveSplits l ls).findSome? (joined op) : Option (SignalExpr K)) = none := by
  rw [List.findSome?_eq_none_iff]
  intro p hp
  exact joined_of_isOpen (h p (mem_additiveSplits hp).1)

/-- The last cut at an operator that has an operand on its left is taken if its sides are
parsed. -/
theorem findSome?_append_cons {l : Lexeme} {op : Operator} {xs ys : List Lexeme}
    {t : SignalExpr K} (hl : l = .plus ∨ l = .minus) (he : IsEven xs) (hys : OpenSplits l ys)
    (hhead : (xs ++ l :: ys).head? ≠ some l) (hxs : xs ≠ []) (hend : endsInNumber xs = false)
    (hj : joined op (xs, ys) = some t) :
    (additiveSplits l (xs ++ l :: ys)).findSome? (joined op) = some t := by
  have hb : l.isBracket = false := by rcases hl with rfl | rfl <;> rfl
  have ho : l.endsOperand = false := by rcases hl with rfl | rfl <;> rfl
  -- the search goes from the right, so the cuts in `ys` come first; none of them counts
  have hlater : (((splits l ys).map fun p => (xs ++ l :: p.1, p.2)).reverse.filter
      fun p => p.1 ≠ [] && !endsInNumber p.1).findSome? (joined (K := K) op) = none := by
    rw [List.findSome?_eq_none_iff]
    intro p hp
    rw [List.mem_filter, List.mem_reverse, List.mem_map] at hp
    obtain ⟨⟨q, hq, rfl⟩, -⟩ := hp
    exact joined_of_isOpen (IsOpen.append_cons ho (hys q hq) xs)
  have hsplits : splits l (xs ++ l :: ys) = (splits l xs).map (fun p => (p.1, p.2 ++ l :: ys)) ++
      (xs, ys) :: (splits l ys).map fun p => (xs ++ l :: p.1, p.2) := by
    rw [splits_append he, splits_cons hb, if_pos rfl]
    simp [Function.comp_def]
  have hkeep : ([(xs, ys)].filter fun p => p.1 ≠ [] && !endsInNumber p.1) = [(xs, ys)] := by
    simp [hxs, hend]
  rw [additiveSplits, if_neg hhead, hsplits, List.reverse_append, List.reverse_cons,
    List.append_assoc, List.filter_append, List.filter_append, List.findSome?_append, hlater,
    List.findSome?_append, hkeep]
  simp [hj]

end Parser

namespace Grammar

/-- The sign at the start of a product. -/
def Product.sign (p : Product) : Option Sign := p.first.sign

/-- The sign at the start of a group. -/
def Group.sign (g : Group) : Option Sign := g.first.sign

/-- The sign at the start of a sum. -/
def Sum.sign (s : Sum) : Option Sign := s.first.sign

/-- No sign at the start of the sum, or of one of its groups, is also an operator of it. -/
structure Sum.IsRegular (s : Sum) : Prop where
  plus : s.sign = some .plus → s.rest = []
  minus : ∀ g ∈ s.parts, g.sign = some .minus → g.rest = []

theorem Factor.sign_of_head? {f : Factor} {sign : Sign}
    (h : f.lexemes.head? = some sign.lexeme) : f.sign = some sign := by
  cases f with
  | time => cases sign <;> cases h
  | number s k =>
    rcases s with _ | _ | _ <;> cases sign <;> first | rfl | cases h
  | power s k =>
    rcases s with _ | _ | _ <;> cases sign <;> first | rfl | cases h
  | call f a => cases sign <;> cases h
  | nested f g a => cases sign <;> cases h

theorem Group.head?_lexemes (g : Group) : g.lexemes.head? = g.first.first.lexemes.head? := by
  rw [lexemes, Chain.head?_text Product.lexemes_ne_nil, Product.lexemes,
    Chain.head?_text Factor.lexemes_ne_nil]

theorem Sum.head?_lexemes (s : Sum) : s.lexemes.head? = s.first.first.first.lexemes.head? := by
  rw [lexemes, Chain.head?_text Group.lexemes_ne_nil, Group.head?_lexemes]

end Grammar

namespace Parser

variable {K : Type} [Scalar K]

theorem node?_factor (f : Factor) : node? f.lexemes = some (f.tree : SignalExpr K) := by
  rw [node?_eq, findSome?_of_openSplits (f.openSplits (.inl rfl)),
    findSome?_of_openSplits (f.openSplits (.inr (.inl rfl))), f.splits_star,
    call?_orElse_simple?]
  rfl

/-- A product is cut at its first `*`. -/
theorem node?_product (p : Product) : node? p.lexemes = some (p.tree : SignalExpr K) := by
  rcases p with ⟨a, bs⟩
  induction bs generalizing a with
  | nil => simpa [Product.lexemes, Product.tree, Product.treeFrom, Chain.text] using node?_factor a
  | cons b bs ih =>
    have hl : Product.lexemes ⟨a, b :: bs⟩ = a.lexemes ++ .star :: Product.lexemes ⟨b, bs⟩ :=
      Chain.text_cons a b bs
    have hj : joined .multiply (a.lexemes, Product.lexemes ⟨b, bs⟩) =
        some (Product.tree ⟨a, b :: bs⟩ : SignalExpr K) :=
      joined_eq_some.2 ⟨_, _, node?_factor a, ih b, rfl⟩
    rw [node?_eq, findSome?_of_openSplits (Product.openSplits (.inl rfl) _),
      findSome?_of_openSplits (Product.openSplits (.inr rfl) _), hl, splits_append a.isEven,
      a.splits_star, splits_cons rfl, if_pos rfl]
    simp [hj]

/-- A group is cut at its last `-`. -/
theorem node?_group (g : Group) (hsign : g.sign = some .minus → g.rest = [])
    (hn : ∀ p ∈ g.parts.dropLast, endsInNumber p.lexemes = false) :
    node? g.lexemes = some (g.tree : SignalExpr K) := by
  rcases g with ⟨p, qs⟩
  induction qs using List.reverseRecOn with
  | nil => simpa [Group.lexemes, Group.tree, Chain.text] using node?_product p
  | append_singleton rs q ih =>
    have hparts : (Chain.parts ⟨p, rs ++ [q]⟩).dropLast = Chain.parts ⟨p, rs⟩ := by
      change (Chain.parts ⟨p, rs⟩ ++ [q]).dropLast = _
      exact List.dropLast_concat
    rw [hparts] at hn
    -- a second product is there, so the first one has no sign that would rule out the cut
    have hfirst : p.sign ≠ some .minus := fun h => by simpa using hsign h
    have hleft : node? (Group.lexemes ⟨p, rs⟩) = some (Group.tree ⟨p, rs⟩ : SignalExpr K) := by
      apply ih
      · exact fun h => absurd h hfirst
      · exact fun r hr => hn r (List.dropLast_subset _ hr)
    have hl : Group.lexemes ⟨p, rs ++ [q]⟩ = Group.lexemes ⟨p, rs⟩ ++ .minus :: q.lexemes :=
      Chain.text_concat p rs q
    have hhead : (Group.lexemes ⟨p, rs⟩ ++ .minus :: q.lexemes).head? ≠ some .minus := by
      rw [← hl, Group.head?_lexemes]
      exact fun h => hfirst (Factor.sign_of_head? h)
    have hend : endsInNumber (Group.lexemes ⟨p, rs⟩) = false := by
      obtain ⟨as, a, ha⟩ := Chain.exists_parts_eq_concat ⟨p, rs⟩
      obtain ⟨front, hf⟩ := Chain.text_of_parts .minus Product.lexemes ha
      rw [Group.lexemes, hf, endsInNumber_append _ a.lexemes_ne_nil]
      exact hn a (by simp [ha])
    have hj : joined .subtract (Group.lexemes ⟨p, rs⟩, q.lexemes) =
        some (Group.tree ⟨p, rs ++ [q]⟩ : SignalExpr K) := by
      exact joined_eq_some.2 ⟨_, _, hleft, node?_product q, (Group.tree_concat p rs q).symm⟩
    rw [node?_eq, findSome?_of_openSplits (Group.openSplits _), hl,
      findSome?_append_cons (.inr rfl) (Group.isEven _) (Product.openSplits (.inr rfl) q) hhead
        (Group.lexemes_ne_nil _) hend hj]
    simp

/-- A sum is cut at its last `+`. -/
theorem node?_sum (s : Sum) (hs : s.IsRegular) (hn : s.NumbersLast) :
    node? s.lexemes = some (s.tree : SignalExpr K) := by
  rcases s with ⟨g, gs⟩
  induction gs using List.reverseRecOn with
  | nil =>
    have hg := node?_group (K := K) g (hs.minus g (by simp [Chain.parts]))
      (by simpa [Sum.NumbersLast, Sum.products, Chain.parts] using hn)
    simpa [Sum.lexemes, Sum.tree, Chain.text] using hg
  | append_singleton ks h ih =>
    have hproducts : Sum.products ⟨g, ks ++ [h]⟩ = Sum.products ⟨g, ks⟩ ++ h.parts := by
      simp [Sum.products, Chain.parts]
    have hfirst : g.sign ≠ some .plus := fun hp => by simpa using hs.plus hp
    have hbefore : ∀ p ∈ Sum.products ⟨g, ks⟩, endsInNumber p.lexemes = false := by
      intro p hp
      apply hn
      rw [hproducts, List.dropLast_append_of_ne_nil h.parts_ne_nil]
      exact List.mem_append_left _ hp
    have hlast : ∀ p ∈ h.parts.dropLast, endsInNumber p.lexemes = false := by
      intro p hp
      apply hn
      rw [hproducts, List.dropLast_append_of_ne_nil h.parts_ne_nil]
      exact List.mem_append_right _ hp
    have hleft : node? (Sum.lexemes ⟨g, ks⟩) = some (Sum.tree ⟨g, ks⟩ : SignalExpr K) := by
      apply ih
      · refine ⟨fun hp => absurd hp hfirst, fun k hk => hs.minus k ?_⟩
        exact List.mem_append_left [h] hk
      · exact fun p hp => hbefore p (List.dropLast_subset _ hp)
    have hright := node?_group (K := K) h (hs.minus h (by simp [Chain.parts])) hlast
    have hl : Sum.lexemes ⟨g, ks ++ [h]⟩ = Sum.lexemes ⟨g, ks⟩ ++ .plus :: h.lexemes :=
      Chain.text_concat g ks h
    have hhead : (Sum.lexemes ⟨g, ks⟩ ++ .plus :: h.lexemes).head? ≠ some .plus := by
      rw [← hl, Sum.head?_lexemes]
      exact fun h => hfirst (Factor.sign_of_head? h)
    have hend : endsInNumber (Sum.lexemes ⟨g, ks⟩) = false := by
      obtain ⟨ps, p, hp⟩ := Sum.exists_last ⟨g, ks⟩
      rw [Sum.endsInNumber hp]
      exact hbefore p (by simp [hp])
    have hj : joined .add (Sum.lexemes ⟨g, ks⟩, h.lexemes) =
        some (Sum.tree ⟨g, ks ++ [h]⟩ : SignalExpr K) := by
      exact joined_eq_some.2 ⟨_, _, hleft, hright, (Sum.tree_concat g ks h).symm⟩
    rw [node?_eq, hl, findSome?_append_cons (.inl rfl) (Sum.isEven _) (Group.openSplits h) hhead
      (Sum.lexemes_ne_nil _) hend hj]
    simp

end Parser

end SteppedConvolution
