import SteppedConvolution.Expression.Machine
import SteppedConvolution.Proofs.Expression.Regular
import SteppedConvolution.Scalar.Rational

/-! # Expressions without signed operands

Where every sign outside brackets stands behind an operand, the parser accepts exactly the
sums of products in which no product but the last ends in a number, and the tree is the
conventional one. This holds on every stack with more levels than there are operators outside
brackets. On a smaller stack the parser may give up on a sum, and on each stack there is a sum on
which it does.
-/

namespace SteppedConvolution

open Grammar

namespace Bracket

/-- Every sign outside brackets directly follows the time variable, a number or a closing
bracket. -/
def SignsJoin (ls : List Lexeme) : Prop :=
  ∀ place < ls.length, (depths ls)[place]? = some 0 →
    ls[place]? = some .plus ∨ ls[place]? = some .minus →
    0 < place ∧ ls[place - 1]?.any Lexeme.endsOperand = true

instance (ls : List Lexeme) : Decidable (SignsJoin ls) :=
  inferInstanceAs (Decidable (∀ place < ls.length, (depths ls)[place]? = some 0 →
    ls[place]? = some .plus ∨ ls[place]? = some .minus →
    0 < place ∧ ls[place - 1]?.any Lexeme.endsOperand = true))

end Bracket

namespace Parser

variable {l x : Lexeme} {xs ys : List Lexeme} {q : List Lexeme × List Lexeme}

theorem mem_splits_append (he : IsEven xs) (hq : q ∈ splits l xs) :
    (q.1, q.2 ++ ys) ∈ splits l (xs ++ ys) := by
  rw [splits_append he, List.mem_append]
  exact .inl (List.mem_map.2 ⟨q, hq, rfl⟩)

theorem mem_splits_append_cons (he : IsEven xs) (hb : x.isBracket = false)
    (hq : q ∈ splits l ys) : (xs ++ x :: q.1, q.2) ∈ splits l (xs ++ x :: ys) := by
  rw [splits_append he, splits_cons hb, List.mem_append]
  refine .inr (List.mem_map.2 ⟨(x :: q.1, q.2), ?_, rfl⟩)
  exact List.mem_append_right _ (List.mem_map.2 ⟨q, hq, rfl⟩)

/-- Signs that join have an operand on their left. -/
theorem not_isOpen_of_signsJoin {ls : List Lexeme} (hs : Bracket.SignsJoin ls) {sign : Sign}
    (hq : q ∈ splits sign.lexeme ls) : ¬ IsOpen q.1 := by
  obtain ⟨place, hd, hl, rfl⟩ := mem_splits.1 hq
  have hlt := (List.getElem?_eq_some_iff.1 hl).1
  have hsign : ls[place]? = some .plus ∨ ls[place]? = some .minus := by
    cases sign with
    | plus => exact .inl hl
    | minus => exact .inr hl
  obtain ⟨hp, hany⟩ := hs place hlt hd hsign
  obtain ⟨y, hy, he⟩ := (Option.any_eq_true _ _).1 hany
  intro ho
  have hlast : (ls.take place).getLast? = some y := by
    rw [List.getLast?_take, if_neg (by omega), hy, Option.some_or]
  rw [ho y hlast] at he
  cases he

end Parser

namespace Grammar

open SteppedConvolution.Parser

/-- A split of a part, with an operand missing on its left, is a split of the chain. -/
theorem Chain.exists_isOpen {α : Type} (sep : Lexeme) {l : Lexeme} {f : α → List Lexeme}
    (hs : sep.isBracket = false) (ho : sep.endsOperand = false) (he : ∀ a, IsEven (f a))
    {c : Chain α} {a : α} (ha : a ∈ c.parts) (hf : ∃ q ∈ splits l (f a), IsOpen q.1) :
    ∃ q ∈ splits l (c.text sep f), IsOpen q.1 := by
  rcases c with ⟨b, bs⟩
  obtain ⟨q, hq, hopen⟩ := hf
  induction bs generalizing b with
  | nil =>
    rw [List.mem_singleton.1 ha] at hq
    exact ⟨q, by simpa [text] using hq, hopen⟩
  | cons d ds ih =>
    rw [text_cons]
    rcases List.mem_cons.1 ha with rfl | ha
    · exact ⟨_, mem_splits_append (he a) hq, hopen⟩
    · obtain ⟨r, hr, hopen⟩ := ih d ha
      exact ⟨_, mem_splits_append_cons (he b) hs hr, hopen.append_cons ho (f b)⟩

/-- Where all signs join, no number carries one. -/
theorem Sum.isUnsigned_of_signsJoin {s : Sum} (hs : Bracket.SignsJoin s.lexemes) :
    s.IsUnsigned := by
  intro p hp f hf
  obtain ⟨g, hg, hp⟩ := List.mem_flatMap.1 hp
  cases hsign : f.sign with
  | none => rfl
  | some sign =>
    have hl : sign.lexeme = .plus ∨ sign.lexeme = .minus ∨ sign.lexeme = .star := by
      cases sign with
      | plus => exact .inl rfl
      | minus => exact .inr (.inl rfl)
    have hfactor : ∃ q ∈ splits sign.lexeme f.lexemes, IsOpen q.1 := by
      refine ⟨([], f.lexemes.tail), ?_, isOpen_nil⟩
      simp [f.splits_lexemes hl, hsign]
    have hproduct := Chain.exists_isOpen .star rfl rfl Factor.isEven hf hfactor
    have hgroup := Chain.exists_isOpen .minus rfl rfl Product.isEven hp hproduct
    obtain ⟨q, hq, ho⟩ := Chain.exists_isOpen .plus rfl rfl Group.isEven hg hgroup
    exact absurd ho (not_isOpen_of_signsJoin hs hq)

theorem Sum.IsUnsigned.isRegular {s : Sum} (hs : s.IsUnsigned) : s.IsRegular := by
  have hsign (g : Group) (hg : g ∈ s.parts) : g.sign = none := by
    apply hs g.first (List.mem_flatMap.2 ⟨g, hg, List.mem_cons_self⟩)
    exact List.mem_cons_self
  constructor
  · intro h
    have hfirst : s.sign = none := hsign s.first List.mem_cons_self
    rw [hfirst] at h
    cases h
  · intro g hg h
    rw [hsign g hg] at h
    cases h

end Grammar

namespace Parser

open Rule

/-- On a stack that has room for it. -/
theorem node?_eq_some_iff {K : Type} [Scalar K] {ls : List Lexeme} (hs : Bracket.SignsJoin ls)
    (t : SignalExpr K) :
    node? ls = some t ↔
      ∃ s : Sum, s.lexemes = ls ∧ s.IsUnsigned ∧ s.NumbersLast ∧ s.tree = t := by
  constructor
  · intro h
    obtain ⟨s, rfl, hn, -⟩ := exists_sum_of_node? h
    have hu := Sum.isUnsigned_of_signsJoin hs
    rw [node?_sum s hu.isRegular hn] at h
    exact ⟨s, rfl, hu, hn, Option.some.inj h⟩
  · rintro ⟨s, rfl, hu, hn, rfl⟩
    exact node?_sum s hu.isRegular hn

/-- Where every sign outside brackets stands behind an operand, what is parsed are the sums of
unsigned products of which none but the last ends in a number, and each of them is parsed to its
own tree, unless the stack is too small for it. It never is with more levels than there are
operators outside brackets. All readings of a list of lexemes therefore have the same tree. -/
theorem node_eq_some_iff {K : Type} [Scalar K] {ls : List Lexeme} (hs : Bracket.SignsJoin ls)
    (levels : Nat) :
    (∀ t : SignalExpr K, node levels ls = of (some t) ↔ node (K := K) levels ls ≠ tooDeep ∧
      ∃ s : Sum, s.lexemes = ls ∧ s.IsUnsigned ∧ s.NumbersLast ∧ s.tree = t) ∧
    (operators ls < levels → node (K := K) levels ls ≠ tooDeep) := by
  constructor
  · intro t
    rw [← node?_eq_some_iff hs t]
    constructor
    · intro h
      exact ⟨fun hd => of_ne_tooDeep _ (h.symm.trans hd), node?_of_node h⟩
    · rintro ⟨hd, h⟩
      rw [(node_cases levels ls).resolve_right fun hn => hd hn.1, h]
  · intro h hd
    exact of_ne_tooDeep _ ((node_eq h).symm.trans hd)

/-- The expression `2*n-u[n-1]*n+3`. -/
theorem node_mixed :
    let ls : List Lexeme := [.number ⟨['2'], none, none⟩, .star, .time, .minus, .primitive .step,
      .opening, .time, .minus, .number ⟨['1'], none, none⟩, .closing, .star, .time, .plus,
      .number ⟨['3'], none, none⟩]
    let t : SignalExpr Rat := .plus (.minus (.times (.constant 2) .time)
      (.times (.call .step (.minus .time (.constant 1))) .time)) (.constant 3)
    Bracket.SignsJoin ls ∧ node machineLevels ls = of (some t) := by
  intro ls t
  have hs : Bracket.SignsJoin ls := by decide
  obtain ⟨hiff, hroom⟩ := node_eq_some_iff (K := Rat) hs machineLevels
  let s : Sum := ⟨⟨⟨.number none ⟨['2'], none, none⟩, [.time]⟩,
      [⟨.call .step (.shifted .minus ⟨['1'], none, none⟩), [.time]⟩]⟩,
    [⟨⟨.number none ⟨['3'], none, none⟩, []⟩, []⟩]⟩
  refine ⟨hs, (hiff t).2 ⟨hroom (by decide), s, rfl, ?_, ?_, ?_⟩⟩
  · decide
  · decide
  · decide +kernel

/-! ## Sums for which a stack is too small -/

/-- In a long sum every sign stands behind the time variable. -/
theorem signsJoin_longSum (k : Nat) : Bracket.SignsJoin (longSum k) := by
  have htime (place : Nat) (h : (longSum k)[place]? = some .plus) :
      0 < place ∧ (longSum k)[place - 1]? = some .time := by
    induction k with
    | zero => cases place <;> simp [longSum] at h
    | succ k ih =>
      rcases Nat.lt_or_ge place (longSum k).length with hlt | hge
      · rw [longSum, List.getElem?_append_left hlt] at h
        obtain ⟨hpos, hprev⟩ := ih h
        exact ⟨hpos, by rw [longSum, List.getElem?_append_left (by omega), hprev]⟩
      · -- the sign that was added follows the last term of the shorter sum
        have hpos : 0 < (longSum k).length := List.length_pos_iff.2 (longSum_ne_nil k)
        obtain rfl : place = (longSum k).length := by
          rw [longSum, List.getElem?_append_right hge] at h
          rcases hi : place - (longSum k).length with _ | _ | i
          · omega
          · rw [hi] at h
            cases h
          · rw [hi] at h
            cases h
        refine ⟨hpos, ?_⟩
        rw [longSum, List.getElem?_append_left (by omega), ← List.getLast?_eq_getElem?,
          getLast?_longSum]
  intro place _ _ h
  rcases h with h | h
  · obtain ⟨hpos, hprev⟩ := htime place h
    exact ⟨hpos, by rw [hprev]; rfl⟩
  · rcases mem_longSum (List.mem_of_getElem? h) with h | h <;> cases h

end Parser

namespace Grammar

/-- The sum of the time variable with itself, with a number of operators. -/
def Sum.ofTimes (k : Nat) : Sum := ⟨⟨⟨.time, []⟩, []⟩, List.replicate k ⟨⟨.time, []⟩, []⟩⟩

theorem Sum.lexemes_ofTimes (k : Nat) : (ofTimes k).lexemes = Parser.longSum k := by
  induction k with
  | zero => rfl
  | succ k ih =>
    have happend : (ofTimes (k + 1)).lexemes = (ofTimes k).lexemes ++ [.plus, .time] := by
      rw [ofTimes, List.replicate_succ']
      exact Chain.text_concat _ _ _
    rw [happend, ih, Parser.longSum]

theorem Sum.eq_of_mem_products_ofTimes {k : Nat} {p : Product} (h : p ∈ (ofTimes k).products) :
    p = ⟨.time, []⟩ := by
  obtain ⟨g, hg, hp⟩ := List.mem_flatMap.1 h
  have hg : g = ⟨⟨.time, []⟩, []⟩ := by
    rcases List.mem_cons.1 hg with rfl | hg
    · rfl
    · exact List.eq_of_mem_replicate hg
  rw [hg] at hp
  exact List.mem_singleton.1 hp

theorem Sum.isUnsigned_ofTimes (k : Nat) : (ofTimes k).IsUnsigned := by
  intro p hp f hf
  rw [eq_of_mem_products_ofTimes hp] at hf
  rw [List.mem_singleton.1 hf]
  rfl

theorem Sum.numbersLast_ofTimes (k : Nat) : (ofTimes k).NumbersLast := by
  intro p hp
  rw [eq_of_mem_products_ofTimes (List.dropLast_subset _ hp)]
  rfl

end Grammar

/-- The sum of five thousand and one terms `n` has a reading, but no tree on the stack of the
machine. -/
theorem Parser.node_sumOfTimes :
    let ls := longSum 5000
    Bracket.SignsJoin ls ∧ (∃ s : Sum, s.lexemes = ls ∧ s.IsUnsigned ∧ s.NumbersLast) ∧
      ∀ t : SignalExpr Rat, node machineLevels ls ≠ Rule.of (some t) := by
  intro ls
  refine ⟨signsJoin_longSum 5000, ⟨Sum.ofTimes 5000, Sum.lexemes_ofTimes 5000,
    Sum.isUnsigned_ofTimes 5000, Sum.numbersLast_ofTimes 5000⟩, fun t h => ?_⟩
  have hdeep : (node machineLevels ls : Rule Rat (SignalExpr Rat)) = Rule.tooDeep :=
    node_longSum (by decide)
  exact Rule.of_ne_tooDeep _ (h.symm.trans hdeep)

end SteppedConvolution
