import SteppedConvolution.Proofs.Expression.Accepted

/-! # Induction over what is parsed

A parsed list of lexemes is a factor, a number times `n`, or two parsed lists around an
operator outside brackets. What holds of the first two and passes from both sides of an
operator to the whole holds of everything that is parsed.
-/

namespace SteppedConvolution

open Grammar

namespace Parser

variable {K : Type} [Scalar K] {ls : List Lexeme} {t : SignalExpr K}

theorem factor_of_call? (h : call? ls = some t) :
    ∃ f : Factor, ls = f.lexemes ∧ t = f.tree := by
  unfold call? at h
  split at h
  · cases h
  · rename_i f inner houter
    rw [eq_bracketed_of_callParts? houter]
    split at h
    · rename_i g arg hinner
      rw [eq_bracketed_of_callParts? hinner]
      obtain ⟨_, ha, rfl⟩ := Option.map_eq_some_iff.1 h
      obtain ⟨a, rfl⟩ := lexemes_of_argument? ha
      rw [argument?_lexemes] at ha
      exact ⟨.nested f g a, rfl, by rw [← Option.some.inj ha]; rfl⟩
    · obtain ⟨_, ha, rfl⟩ := Option.map_eq_some_iff.1 h
      obtain ⟨a, rfl⟩ := lexemes_of_argument? ha
      rw [argument?_lexemes] at ha
      exact ⟨.call f a, rfl, by rw [← Option.some.inj ha]; rfl⟩

/-- A simple term is a factor or a number times `n`. -/
theorem factor_or_scaled_of_simple? (h : simple? ls = some t) :
    (∃ f : Factor, ls = f.lexemes ∧ t = f.tree) ∨
      ∃ sign c, ls = Sign.lexemes sign ++ [.number c, .star, .time] ∧
        t = .times (.constant (Sign.value sign c)) .time := by
  rcases cases_of_simple? h with ⟨rfl, rfl⟩ | ⟨sign, c, ⟨rfl, rfl⟩ | ⟨rfl, rfl⟩ | ⟨rfl, rfl⟩⟩
  · exact .inl ⟨.time, rfl, rfl⟩
  · exact .inr ⟨sign, c, rfl, rfl⟩
  · exact .inl ⟨.power sign c, rfl, rfl⟩
  · exact .inl ⟨.number sign c, rfl, rfl⟩

/-- Induction over the trees of parsed lists. -/
theorem node?_induction {motive : List Lexeme → SignalExpr K → Prop}
    (factor : ∀ f : Factor, motive f.lexemes f.tree)
    (scaled : ∀ sign c, motive (Sign.lexemes sign ++ [.number c, .star, .time])
      (.times (.constant (Sign.value sign c)) .time))
    (combine : ∀ (op : Operator) (xs ys : List Lexeme) (a b : SignalExpr K),
      node? xs = some a → node? ys = some b → motive xs a → motive ys b →
        motive (xs ++ op.lexeme :: ys) (.combine (.known op) a b))
    {ls : List Lexeme} {t : SignalExpr K} (h : node? ls = some t) : motive ls t := by
  have hjoined (op : Operator) {p : List Lexeme × List Lexeme} (hp : p ∈ splits op.lexeme ls)
      (hj : joined op p = some t) : motive ls t := by
    obtain ⟨a, b, ha, hb, rfl⟩ := joined_eq_some.1 hj
    have heq := eq_append_of_mem_splits hp
    have hl := congrArg List.length heq
    rw [List.length_append, List.length_cons] at hl
    have hleft := node?_induction factor scaled combine ha
    have hright := node?_induction factor scaled combine hb
    rw [heq]
    exact combine op p.1 p.2 a b ha hb hleft hright
  have hfactor (hf : ∃ f : Factor, ls = f.lexemes ∧ t = f.tree) : motive ls t := by
    obtain ⟨f, rfl, rfl⟩ := hf
    exact factor f
  rcases cases_of_node? h with ⟨p, hp, hj⟩ | ⟨p, hp, hj⟩ | ⟨p, hp, hj⟩ | h | h
  · exact hjoined .add (mem_additiveSplits hp).1 hj
  · exact hjoined .subtract (mem_additiveSplits hp).1 hj
  · exact hjoined .multiply hp hj
  · exact hfactor (factor_of_call? h)
  · rcases factor_or_scaled_of_simple? h with hf | ⟨sign, c, rfl, rfl⟩
    · exact hfactor hf
    · exact scaled sign c
termination_by ls.length

end Parser

end SteppedConvolution
