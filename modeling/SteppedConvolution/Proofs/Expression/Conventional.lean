import SteppedConvolution.Proofs.Expression.Regular
import SteppedConvolution.Proofs.Expression.Unambiguous

/-! # Conventional trees

A sum is parsed to its conventional tree only if no sign at its start, or at the start of
one of its groups, is also an operator behind it. A tree with `+` at its root comes from a
cut at a `+`, and the number of operands tells which one.
-/

namespace SteppedConvolution

open Grammar

namespace SignalExpr

/-- The operator at the root of a tree. -/
def root {K : Type} : SignalExpr K → Option Operator
  | .combine (.known op) _ _ => some op
  | _ => none

end SignalExpr

namespace Parser

variable {K : Type} [Scalar K] {ls : List Lexeme} {t a b : SignalExpr K}

theorem root_of_call? (h : call? ls = some t) : t.root = none := by
  unfold call? at h
  split at h
  · cases h
  · split at h
    · obtain ⟨_, -, rfl⟩ := Option.map_eq_some_iff.1 h
      rfl
    · obtain ⟨_, -, rfl⟩ := Option.map_eq_some_iff.1 h
      rfl

theorem root_of_simple? (h : simple? ls = some t) :
    t.root ≠ some .add ∧ t.root ≠ some .subtract := by
  rcases cases_of_simple? h with ⟨-, rfl⟩ | ⟨sign, c, ⟨-, rfl⟩ | ⟨-, rfl⟩ | ⟨-, rfl⟩⟩ <;>
    exact ⟨by simp [SignalExpr.root, SignalExpr.times], by simp [SignalExpr.root, SignalExpr.times]⟩

/-- A sum comes from a cut at a `+`. -/
theorem exists_split_of_plus (h : node? ls = some (.plus a b)) :
    ∃ p ∈ additiveSplits .plus ls, node? p.1 = some a ∧ node? p.2 = some b := by
  rcases cases_of_node? h with ⟨p, hp, hj⟩ | ⟨p, -, hj⟩ | ⟨p, -, hj⟩ | h | h
  · obtain ⟨c, d, hc, hd, he⟩ := joined_eq_some.1 hj
    cases he
    exact ⟨p, hp, hc, hd⟩
  · obtain ⟨c, d, -, -, he⟩ := joined_eq_some.1 hj
    cases he
  · obtain ⟨c, d, -, -, he⟩ := joined_eq_some.1 hj
    cases he
  · cases root_of_call? h
  · exact absurd rfl (root_of_simple? h).1

/-- A difference comes from a cut at a `-`. -/
theorem exists_split_of_minus (h : node? ls = some (.minus a b)) :
    ∃ p, p ∈ additiveSplits .minus ls := by
  rcases cases_of_node? h with ⟨p, -, hj⟩ | ⟨p, hp, -⟩ | ⟨p, -, hj⟩ | h | h
  · obtain ⟨c, d, -, -, he⟩ := joined_eq_some.1 hj
    cases he
  · exact ⟨p, hp⟩
  · obtain ⟨c, d, -, -, he⟩ := joined_eq_some.1 hj
    cases he
  · cases root_of_call? h
  · exact absurd rfl (root_of_simple? h).2

theorem head?_ne_of_mem_additiveSplits {l : Lexeme} {p : List Lexeme × List Lexeme}
    (h : p ∈ additiveSplits l ls) : ls.head? ≠ some l := by
  intro hl
  rw [additiveSplits, if_pos hl] at h
  cases h

end Parser

namespace Grammar

variable {K : Type} [Scalar K]

theorem Factor.head?_of_sign {f : Factor} {sign : Sign} (h : f.sign = some sign) :
    f.lexemes.head? = some sign.lexeme := by
  cases f with
  | number s k => cases h; rfl
  | power s k => cases h; rfl
  | _ => cases h

/-! ## Operands of conventional trees -/

theorem Product.operands_tree (p : Product) :
    (Product.tree p : SignalExpr K).operands = p.parts.length := by
  have hfactor (f : Factor) : (f.tree : SignalExpr K).operands = 1 := by cases f <;> rfl
  rcases p with ⟨a, bs⟩
  induction bs generalizing a with
  | nil => exact hfactor a
  | cons b bs ih =>
    change (a.tree : SignalExpr K).operands + (Product.tree ⟨b, bs⟩).operands = _
    rw [hfactor, ih, Nat.add_comm]
    rfl

theorem Group.operands_tree (g : Group) :
    (Group.tree g : SignalExpr K).operands = (g.parts.map fun p => p.parts.length).sum := by
  have hfold (ps : List Product) (t : SignalExpr K) :
      (ps.foldl (fun t p => .minus t (Product.tree p)) t).operands =
        t.operands + (ps.map fun p => p.parts.length).sum := by
    induction ps generalizing t with
    | nil => rfl
    | cons p ps ih =>
      have ht : (t.minus (Product.tree p)).operands = t.operands + p.parts.length := by
        rw [← Product.operands_tree (K := K) p]
        rfl
      rw [List.foldl_cons, ih, ht, List.map_cons, List.sum_cons, Nat.add_assoc]
  rw [tree, hfold, Product.operands_tree]
  rfl

theorem Sum.operands_tree (s : Sum) : (Sum.tree s : SignalExpr K).operands = s.size := by
  have hfold (gs : List Group) (t : SignalExpr K) :
      (gs.foldl (fun t g => .plus t (Group.tree g)) t).operands =
        t.operands + ((gs.flatMap Chain.parts).map fun p => p.parts.length).sum := by
    induction gs generalizing t with
    | nil => rfl
    | cons g gs ih =>
      have ht : (t.plus (Group.tree g)).operands =
          t.operands + (g.parts.map fun p => p.parts.length).sum := by
        rw [← Group.operands_tree (K := K) g]
        rfl
      rw [List.foldl_cons, ih, ht, List.flatMap_cons, List.map_append, List.sum_append,
        Nat.add_assoc]
  have hparts : s.parts = s.first :: s.rest := rfl
  rw [tree, hfold, Group.operands_tree, size, products, hparts, List.flatMap_cons,
    List.map_append, List.sum_append]

/-- Groups without any factor are no groups. -/
theorem eq_nil_of_size {gs : List Group}
    (h : ((gs.flatMap Chain.parts).map fun p => p.parts.length).sum = 0) : gs = [] := by
  cases gs with
  | nil => rfl
  | cons g gs => simp [Chain.parts] at h

/-! ## What a conventional tree tells -/

theorem Group.rest_of_node? {g : Group} (h : Parser.node? g.lexemes = some (g.tree : SignalExpr K))
    (hs : g.sign = some .minus) : g.rest = [] := by
  rcases g with ⟨p, qs⟩
  rcases List.eq_nil_or_concat qs with rfl | ⟨rs, q, rfl⟩
  · rfl
  · rw [List.concat_eq_append, tree_concat] at h
    obtain ⟨r, hr⟩ := Parser.exists_split_of_minus h
    apply absurd _ (Parser.head?_ne_of_mem_additiveSplits hr)
    rw [Group.head?_lexemes]
    exact Factor.head?_of_sign hs

/-- Two sums in a row of which the second has as many factors as the last group. -/
theorem Sum.sides_of_plus {g h : Group} {ks : List Group} {r s : Sum}
    (heq : Sum.plus r s = ⟨g, ks ++ [h]⟩) (hsize : r.size = Sum.size ⟨g, ks⟩) :
    r = ⟨g, ks⟩ ∧ s = ⟨h, []⟩ := by
  have hparts : r.parts ++ s.parts = (g :: ks) ++ [h] := congrArg Chain.parts heq
  obtain ⟨gs, k, hs⟩ := s.exists_parts_eq_concat
  rw [hs, ← List.append_assoc] at hparts
  obtain ⟨hfront, hlast⟩ := List.append_inj' hparts rfl
  -- `gs` are the groups that the cut gives to the right side besides the last one
  have hcount := congrArg (fun gs => ((gs.flatMap Chain.parts).map fun p => p.parts.length).sum)
    hfront
  simp only [List.flatMap_append, List.map_append, List.sum_append] at hcount
  have hgs : gs = [] := by
    apply eq_nil_of_size
    exact Nat.add_left_cancel (hcount.trans hsize.symm)
  subst hgs
  rw [List.append_nil] at hfront
  rcases r with ⟨_, _⟩
  rcases s with ⟨_, _⟩
  cases hfront
  cases hlast
  cases hs
  exact ⟨rfl, rfl⟩

theorem Sum.isRegular_of_node? {s : Sum}
    (h : Parser.node? s.lexemes = some (s.tree : SignalExpr K)) : s.IsRegular := by
  rcases s with ⟨g, gs⟩
  induction gs using List.reverseRecOn with
  | nil =>
    have hl : Sum.lexemes ⟨g, []⟩ = g.lexemes := by simp [lexemes, Chain.text]
    rw [hl] at h
    refine ⟨fun _ => rfl, fun k hk hs => ?_⟩
    rw [List.mem_singleton.1 hk] at hs ⊢
    exact Group.rest_of_node? h hs
  | append_singleton ks k ih =>
    rw [tree_concat] at h
    obtain ⟨p, hp, ha, hb⟩ := Parser.exists_split_of_plus h
    obtain ⟨r, hr, -, hrs⟩ := Parser.exists_sum_of_node? ha
    obtain ⟨s, hs, -, -⟩ := Parser.exists_sum_of_node? hb
    have hlexemes : (Sum.plus r s).lexemes = Sum.lexemes ⟨g, ks ++ [k]⟩ := by
      rw [Sum.lexemes_plus, hr, hs]
      exact (Parser.eq_append_of_mem_splits (Parser.mem_additiveSplits hp).1).symm
    obtain ⟨rfl, rfl⟩ := Sum.sides_of_plus (Sum.lexemes_injective hlexemes)
      (hrs.trans (Sum.operands_tree _))
    have hleft : Sum.IsRegular ⟨g, ks⟩ := ih (hr ▸ ha)
    have hright : k.sign = some .minus → k.rest = [] := by
      apply Group.rest_of_node? (K := K)
      rw [← hb, ← hs]
      simp [Sum.lexemes, Chain.text]
    have hhead : Sum.sign ⟨g, ks ++ [k]⟩ ≠ some .plus := by
      intro hsign
      apply Parser.head?_ne_of_mem_additiveSplits hp
      rw [Sum.head?_lexemes]
      exact Factor.head?_of_sign hsign
    refine ⟨fun hsign => absurd hsign hhead, fun j hj hsign => ?_⟩
    rcases List.mem_append.1 (show j ∈ (g :: ks) ++ [k] from hj) with hj | hj
    · exact hleft.minus j hj hsign
    · rw [List.mem_singleton.1 hj] at hsign ⊢
      exact hright hsign

end Grammar

end SteppedConvolution
