import SteppedConvolution.Proofs.Expression.Grammar
import SteppedConvolution.Proofs.Expression.Levels

/-! # What the parser accepts

Every list of lexemes that is parsed is that of a sum, in which no product but the last
ends in a number. Which tree it is parsed to is another matter.
-/

namespace SteppedConvolution

open Grammar

/-- The number of operands that the operators of a tree join. -/
def SignalExpr.operands {K : Type} : SignalExpr K → Nat
  | .combine _ a b => a.operands + b.operands
  | _ => 1

namespace Parser

variable {K : Type} [Scalar K] {ls : List Lexeme} {t : SignalExpr K}

/-! ## Calls and simple terms -/

theorem argument?_lexemes (a : Argument) : argument? a.lexemes = some (a.tree : SignalExpr K) := by
  cases a with
  | time => rfl
  | negated => rfl
  | shifted sign k => cases sign <;> rfl
  | scaled sign c => rcases sign with _ | _ | _ <;> rfl
  | number sign c => rcases sign with _ | _ | _ <;> rfl

theorem lexemes_of_signedNumber? {c : K} (h : signedNumber? ls = some c) :
    ∃ sign k, ls = Sign.lexemes sign ++ [.number k] ∧ c = Sign.value sign k := by
  unfold signedNumber? at h
  split at h <;> cases h
  · exact ⟨none, _, rfl, rfl⟩
  · exact ⟨some .plus, _, rfl, rfl⟩
  · exact ⟨some .minus, _, rfl, rfl⟩

omit [Scalar K] in
theorem eq_of_bareTime? (h : bareTime? ls = some t) : ls = [.time] ∧ t = .time := by
  unfold bareTime? at h
  split at h <;> cases h
  exact ⟨rfl, rfl⟩

theorem lexemes_of_argument? (h : argument? ls = some t) : ∃ a : Argument, a.lexemes = ls := by
  simp only [argument?, Option.orElse_eq_orElse, Option.orElse_eq_or, Option.or_eq_some_iff] at h
  rcases h with h | ⟨-, h | ⟨-, h | ⟨-, h | ⟨-, h⟩⟩⟩⟩
  · obtain ⟨rfl, -⟩ := eq_of_bareTime? h
    exact ⟨.time, rfl⟩
  · unfold negatedTime? at h
    split at h <;> cases h
    exact ⟨.negated, rfl⟩
  · unfold shiftedTime? at h
    split at h <;> cases h
    · exact ⟨.shifted .plus _, rfl⟩
    · exact ⟨.shifted .minus _, rfl⟩
  · unfold scaledTime? at h
    split at h <;> cases h
    · exact ⟨.scaled none _, rfl⟩
    · exact ⟨.scaled (some .plus) _, rfl⟩
    · exact ⟨.scaled (some .minus) _, rfl⟩
  · obtain ⟨c, hc, -⟩ := Option.map_eq_some_iff.1 h
    obtain ⟨sign, k, rfl, -⟩ := lexemes_of_signedNumber? hc
    exact ⟨.number sign k, rfl⟩

/-- What a simple term is made of. -/
theorem cases_of_simple? (h : simple? ls = some t) :
    (ls = [.time] ∧ t = .time) ∨ ∃ sign c,
      ls = Sign.lexemes sign ++ [.number c, .star, .time] ∧
          t = .times (.constant (Sign.value sign c)) .time ∨
        ls = Sign.lexemes sign ++ [.number c, .caret, .time] ∧ t = .power (Sign.value sign c) ∨
        ls = Sign.lexemes sign ++ [.number c] ∧ t = .constant (Sign.value sign c) := by
  simp only [simple?, Option.orElse_eq_orElse, Option.orElse_eq_or, Option.or_eq_some_iff] at h
  rcases h with h | ⟨-, h | ⟨-, h⟩⟩
  · exact .inl (eq_of_bareTime? h)
  · unfold timeTerm? at h
    split at h <;> cases h
    · exact .inr ⟨none, _, .inl ⟨rfl, rfl⟩⟩
    · exact .inr ⟨some .plus, _, .inl ⟨rfl, rfl⟩⟩
    · exact .inr ⟨some .minus, _, .inl ⟨rfl, rfl⟩⟩
    · exact .inr ⟨none, _, .inr (.inl ⟨rfl, rfl⟩)⟩
    · exact .inr ⟨some .plus, _, .inr (.inl ⟨rfl, rfl⟩)⟩
    · exact .inr ⟨some .minus, _, .inr (.inl ⟨rfl, rfl⟩)⟩
  · obtain ⟨v, hv, rfl⟩ := Option.map_eq_some_iff.1 h
    obtain ⟨sign, c, hls, rfl⟩ := lexemes_of_signedNumber? hv
    exact .inr ⟨sign, c, .inr (.inr ⟨hls, rfl⟩)⟩

theorem lexemes_of_simple? (h : simple? ls = some t) :
    ∃ p : Product, p.lexemes = ls ∧ p.parts.length = t.operands := by
  rcases cases_of_simple? h with ⟨rfl, rfl⟩ | ⟨sign, c, ⟨rfl, rfl⟩ | ⟨rfl, rfl⟩ | ⟨rfl, rfl⟩⟩
  · exact ⟨⟨.time, []⟩, rfl, rfl⟩
  · exact ⟨⟨.number sign c, [.time]⟩, by cases sign <;> rfl, rfl⟩
  · exact ⟨⟨.power sign c, []⟩, by cases sign <;> rfl, rfl⟩
  · exact ⟨⟨.number sign c, []⟩, by cases sign <;> rfl, rfl⟩

/-- The place that closes a bracket holds a closing bracket. -/
theorem closing_of_closingFrom {depth : Int} {place c : Nat} {ls : List Lexeme}
    (h : Bracket.closingFrom depth place ls = some c) :
    place ≤ c ∧ ls[c - place]? = some .closing := by
  induction ls generalizing depth place with
  | nil => cases h
  | cons x xs ih =>
    have hnext (depth : Int) (h : Bracket.closingFrom depth (place + 1) xs = some c) :
        place ≤ c ∧ (x :: xs)[c - place]? = some .closing := by
      obtain ⟨hp, hc⟩ := ih h
      have hs : c - place = (c - (place + 1)) + 1 := by omega
      rw [hs, List.getElem?_cons_succ]
      exact ⟨by omega, hc⟩
    cases x
    case closing =>
      simp only [Bracket.closingFrom] at h
      split at h
      · cases h
        simp
      · exact hnext _ h
    all_goals exact hnext _ h

theorem eq_bracketed_of_callParts? {f : Primitive} {inner : List Lexeme}
    (h : callParts? ls = some (f, inner)) : ls = bracketed f inner := by
  unfold callParts? at h
  split at h
  · rename_i p rest
    split at h
    · rename_i hm
      cases h
      obtain ⟨-, hc⟩ := closing_of_closingFrom hm
      rw [Nat.add_sub_cancel] at hc
      rcases List.eq_nil_or_concat rest with rfl | ⟨init, x, rfl⟩
      · cases hc
      · rw [List.concat_eq_append] at hc ⊢
        rw [List.length_append, List.length_singleton, List.drop_one, List.tail_cons,
          List.getElem?_cons_succ, List.getElem?_concat_length] at hc
        cases hc
        rw [List.dropLast_concat]
        rfl
    · cases h
  · cases h

theorem lexemes_of_call? (h : call? ls = some t) :
    ∃ f : Factor, f.lexemes = ls ∧ t.operands = 1 := by
  unfold call? at h
  cases ho : callParts? ls with
  | none => simp [ho] at h
  | some outer =>
    obtain ⟨f, inner⟩ := outer
    rw [eq_bracketed_of_callParts? ho]
    simp only [ho] at h
    cases hi : callParts? inner with
    | none =>
      simp only [hi, Option.map_eq_some_iff] at h
      obtain ⟨_, ha, rfl⟩ := h
      obtain ⟨a, rfl⟩ := lexemes_of_argument? ha
      exact ⟨.call f a, rfl, rfl⟩
    | some call =>
      obtain ⟨g, arg⟩ := call
      rw [eq_bracketed_of_callParts? hi]
      simp only [hi, Option.map_eq_some_iff] at h
      obtain ⟨_, ha, rfl⟩ := h
      obtain ⟨a, rfl⟩ := lexemes_of_argument? ha
      exact ⟨.nested f g a, rfl, rfl⟩

end Parser

namespace Grammar

/-! ## Ends of lists -/

theorem endsInNumber_append (xs : List Lexeme) {ys : List Lexeme} (hy : ys ≠ []) :
    Parser.endsInNumber (xs ++ ys) = Parser.endsInNumber ys := by
  unfold Parser.endsInNumber
  rw [List.getLast?_append, List.getLast?_eq_some_getLast hy, Option.some_or]

theorem Factor.lexemes_ne_nil (f : Factor) : f.lexemes ≠ [] := by
  cases f <;> simp [lexemes, bracketed]

theorem Chain.text_ne_nil {α : Type} {sep : Lexeme} {f : α → List Lexeme}
    (hf : ∀ a, f a ≠ []) (c : Chain α) : c.text sep f ≠ [] := by
  simp [text, hf]

theorem Product.lexemes_ne_nil (p : Product) : p.lexemes ≠ [] :=
  Chain.text_ne_nil Factor.lexemes_ne_nil p

theorem Group.lexemes_ne_nil (g : Group) : g.lexemes ≠ [] :=
  Chain.text_ne_nil Product.lexemes_ne_nil g

theorem Sum.lexemes_ne_nil (s : Sum) : s.lexemes ≠ [] :=
  Chain.text_ne_nil Group.lexemes_ne_nil s

theorem Product.endsInNumber_times (p q : Product) :
    Parser.endsInNumber (p.times q).lexemes = Parser.endsInNumber q.lexemes := by
  rw [lexemes_times, endsInNumber_append _ (List.cons_ne_nil _ _)]
  exact endsInNumber_append [.star] q.lexemes_ne_nil

/-- The lexemes of a chain end in those of its last part. -/
theorem Chain.text_of_parts {α : Type} (sep : Lexeme) (f : α → List Lexeme) {c : Chain α}
    {as : List α} {a : α} (h : c.parts = as ++ [a]) : ∃ front, c.text sep f = front ++ f a := by
  rcases c with ⟨b, bs⟩
  cases as with
  | nil =>
    cases h
    exact ⟨[], by simp [text]⟩
  | cons d as =>
    cases h
    exact ⟨f b ++ as.flatMap (fun a => sep :: f a) ++ [sep], by simp [text]⟩

namespace Sum

/-- The lexemes of a sum end in those of its last product. -/
theorem endsInNumber {s : Sum} {ps : List Product} {p : Product} (h : s.products = ps ++ [p]) :
    Parser.endsInNumber s.lexemes = Parser.endsInNumber p.lexemes := by
  obtain ⟨gs, g, hs⟩ := s.exists_parts_eq_concat
  obtain ⟨qs, q, hg⟩ := g.exists_parts_eq_concat
  have hp : s.products = (gs.flatMap Chain.parts ++ qs) ++ [q] := by
    simp [products, hs, hg]
  obtain ⟨-, hq⟩ := List.append_inj' (h.symm.trans hp) rfl
  cases hq
  obtain ⟨front, hfront⟩ := Chain.text_of_parts .plus Group.lexemes hs
  obtain ⟨front', hfront'⟩ := Chain.text_of_parts .minus Product.lexemes hg
  rw [lexemes, hfront, endsInNumber_append _ g.lexemes_ne_nil, Group.lexemes, hfront',
    endsInNumber_append _ p.lexemes_ne_nil]

theorem exists_last (s : Sum) : ∃ ps p, s.products = ps ++ [p] := by
  obtain ⟨gs, g, hs⟩ := s.exists_parts_eq_concat
  obtain ⟨ps, p, hg⟩ := g.exists_parts_eq_concat
  exact ⟨gs.flatMap Chain.parts ++ ps, p, by simp [products, hs, hg]⟩

theorem numbersLast_iff {s : Sum} {ps : List Product} {p : Product} (h : s.products = ps ++ [p]) :
    s.NumbersLast ↔ ∀ q ∈ ps, Parser.endsInNumber q.lexemes = false := by
  rw [NumbersLast, h, List.dropLast_concat]

/-- Sums whose products stand in a row. -/
theorem numbersLast_of_append {s t r : Sum} (hr : r.products = s.products ++ t.products)
    (hs : s.NumbersLast) (he : Parser.endsInNumber s.lexemes = false) (ht : t.NumbersLast) :
    r.NumbersLast := by
  obtain ⟨ps, p, hp⟩ := s.exists_last
  obtain ⟨qs, q, hq⟩ := t.exists_last
  rw [numbersLast_iff hp] at hs
  rw [numbersLast_iff hq] at ht
  rw [endsInNumber hp] at he
  have hlast : r.products = (ps ++ p :: qs) ++ [q] := by simp [hr, hp, hq]
  rw [numbersLast_iff hlast]
  simp only [List.mem_append, List.mem_cons]
  rintro r (hr | rfl | hr)
  · exact hs r hr
  · exact he
  · exact ht r hr

theorem products_plus (s t : Sum) : (s.plus t).products = s.products ++ t.products := by
  simp [products, plus, Chain.parts_append]

theorem products_minus (s t : Sum) : (s.minus t).products = s.products ++ t.products := by
  obtain ⟨gs, g, hs, hm⟩ := Chain.parts_merge Group.minus s t
  have ht : Chain.parts t = t.first :: t.rest := rfl
  simp [products, minus, hs, hm, ht, Group.minus, Chain.parts_append]

theorem products_times (s t : Sum) : ∃ ps p q qs, s.products = ps ++ [p] ∧
    t.products = q :: qs ∧ (s.times t).products = ps ++ p.times q :: qs := by
  obtain ⟨gs, g, hs, hm⟩ := Chain.parts_merge Group.times s t
  obtain ⟨ps, p, hg, hm'⟩ := Chain.parts_merge Product.times g t.first
  refine ⟨gs.flatMap Chain.parts ++ ps, p, t.first.first,
    t.first.rest ++ t.rest.flatMap Chain.parts, ?_, rfl, ?_⟩
  · simp [products, hs, hg]
  · simp [products, times, hm, Group.times, hm']

theorem numbersLast_times {s t : Sum} (hs : s.NumbersLast) (ht : t.NumbersLast) :
    (s.times t).NumbersLast := by
  obtain ⟨ps, p, q, qs, hp, hq, hr⟩ := products_times s t
  rw [numbersLast_iff hp] at hs
  rcases List.eq_nil_or_concat qs with rfl | ⟨rs, r, rfl⟩
  · rwa [numbersLast_iff hr]
  · rw [List.concat_eq_append] at hq hr
    have htlast : t.products = (q :: rs) ++ [r] := hq
    have hlast : (s.times t).products = (ps ++ p.times q :: rs) ++ [r] := by simp [hr]
    rw [numbersLast_iff htlast] at ht
    rw [numbersLast_iff hlast]
    simp only [List.mem_append, List.mem_cons] at ht ⊢
    rintro r (hr | rfl | hr)
    · exact hs r hr
    · rw [Product.endsInNumber_times]
      exact ht q (.inl rfl)
    · exact ht r (.inr hr)

theorem size_plus (s t : Sum) : (s.plus t).size = s.size + t.size := by
  simp [size, products_plus]

theorem size_minus (s t : Sum) : (s.minus t).size = s.size + t.size := by
  simp [size, products_minus]

theorem size_times (s t : Sum) : (s.times t).size = s.size + t.size := by
  obtain ⟨ps, p, q, qs, hp, hq, hr⟩ := products_times s t
  simp only [size, hp, hq, hr, Product.times, Chain.parts_append, List.map_append, List.map_cons,
    List.map_nil, List.sum_append, List.sum_cons, List.sum_nil, List.length_append]
  omega

/-- The sum of a single product. -/
def ofProduct (p : Product) : Sum := ⟨⟨p, []⟩, []⟩

theorem lexemes_ofProduct (p : Product) : (ofProduct p).lexemes = p.lexemes := by
  simp [ofProduct, lexemes, Group.lexemes, Chain.text]

theorem size_ofProduct (p : Product) : (ofProduct p).size = p.parts.length := by
  simp [ofProduct, size, products, Chain.parts]

theorem numbersLast_ofProduct (p : Product) : (ofProduct p).NumbersLast := by
  simp [ofProduct, NumbersLast, products, Chain.parts]

end Sum

end Grammar

namespace Parser

variable {K : Type} [Scalar K] {ls : List Lexeme} {t : SignalExpr K}

/-- The rules by which a list of lexemes may be parsed. -/
theorem cases_of_node? (h : node? ls = some t) :
    (∃ p ∈ additiveSplits .plus ls, joined .add p = some t) ∨
    (∃ p ∈ additiveSplits .minus ls, joined .subtract p = some t) ∨
    (∃ p ∈ splits .star ls, joined .multiply p = some t) ∨
    call? ls = some t ∨ simple? ls = some t := by
  rw [node?_eq] at h
  simp only [Option.orElse_eq_orElse, Option.orElse_eq_or, Option.or_eq_some_iff] at h
  rcases h with h | ⟨-, h | ⟨-, h | ⟨-, h | ⟨-, h⟩⟩⟩⟩
  · exact .inl (List.exists_of_findSome?_eq_some h)
  · exact .inr (.inl (List.exists_of_findSome?_eq_some h))
  · exact .inr (.inr (.inl (List.exists_of_findSome?_eq_some h)))
  · exact .inr (.inr (.inr (.inl h)))
  · exact .inr (.inr (.inr (.inr h)))

/-- Whatever is parsed is a sum in which no product but the last ends in a number. The tree has
as many operands as the sum has factors. -/
theorem exists_sum_of_node? {ls : List Lexeme} {t : SignalExpr K} (h : node? ls = some t) :
    ∃ s : Sum, s.lexemes = ls ∧ s.NumbersLast ∧ s.size = t.operands := by
  have hsides {l : Lexeme} {op : Operator} {p : List Lexeme × List Lexeme} (hp : p ∈ splits l ls)
      (hj : joined op p = some t) : ∃ r s : Sum, ls = r.lexemes ++ l :: s.lexemes ∧
        r.lexemes = p.1 ∧ r.NumbersLast ∧ s.NumbersLast ∧ r.size + s.size = t.operands := by
    obtain ⟨a, b, ha, hb, rfl⟩ := joined_eq_some.1 hj
    have heq := eq_append_of_mem_splits hp
    have hl := congrArg List.length heq
    rw [List.length_append, List.length_cons] at hl
    obtain ⟨r, hr, hrn, hrs⟩ := exists_sum_of_node? ha
    obtain ⟨s, hs, hsn, hss⟩ := exists_sum_of_node? hb
    exact ⟨r, s, by rw [hr, hs, heq], hr, hrn, hsn, by rw [hrs, hss]; rfl⟩
  -- in a cut at `*` the product on the left may end in a number, since it goes on behind the cut
  rcases cases_of_node? h with ⟨p, hp, hj⟩ | ⟨p, hp, hj⟩ | ⟨p, hp, hj⟩ | h | h
  · obtain ⟨hp, he⟩ := mem_additiveSplits hp
    obtain ⟨r, s, rfl, hr, hrn, hsn, hsize⟩ := hsides hp hj
    refine ⟨r.plus s, Sum.lexemes_plus r s, ?_, (Sum.size_plus r s).trans hsize⟩
    exact Sum.numbersLast_of_append (Sum.products_plus r s) hrn (hr ▸ he) hsn
  · obtain ⟨hp, he⟩ := mem_additiveSplits hp
    obtain ⟨r, s, rfl, hr, hrn, hsn, hsize⟩ := hsides hp hj
    refine ⟨r.minus s, Sum.lexemes_minus r s, ?_, (Sum.size_minus r s).trans hsize⟩
    exact Sum.numbersLast_of_append (Sum.products_minus r s) hrn (hr ▸ he) hsn
  · obtain ⟨r, s, rfl, -, hrn, hsn, hsize⟩ := hsides hp hj
    exact ⟨r.times s, Sum.lexemes_times r s, Sum.numbersLast_times hrn hsn,
      (Sum.size_times r s).trans hsize⟩
  · obtain ⟨f, hf, ht⟩ := lexemes_of_call? h
    refine ⟨.ofProduct ⟨f, []⟩, ?_, Sum.numbersLast_ofProduct _, ?_⟩
    · rw [Sum.lexemes_ofProduct, ← hf]
      simp [Product.lexemes, Chain.text]
    · rw [Sum.size_ofProduct, ht]
      rfl
  · obtain ⟨p, hp, ht⟩ := lexemes_of_simple? h
    refine ⟨.ofProduct p, ?_, Sum.numbersLast_ofProduct p, ?_⟩
    · rw [Sum.lexemes_ofProduct, hp]
    · rw [Sum.size_ofProduct, ht]
termination_by ls.length

end Parser

end SteppedConvolution
