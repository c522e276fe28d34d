import SteppedConvolution.Proofs.Binary.Sign
import SteppedConvolution.Proofs.Expression.Induction
import SteppedConvolution.Proofs.Expression.LeadingSign

/-! # Listings of trees

The tokens of a tree from the left to the right. The listing of a parsed tree is the list of
the tokens that were read, where numbers count by their values, a `+` in front of a number
is dropped and the argument `-n` is written out as a product. The rules of the parser cut
a list at an operator, so the listings of both sides are put together with it.
-/

namespace SteppedConvolution

open Grammar

/-- What a listing is made of: numbers by their values, other lexemes, and texts of what is no
lexeme. -/
inductive Symbol (K : Type) where
  | number (value : K)
  | lexeme (l : Lexeme)
  | word (content : String)
  deriving DecidableEq, Repr

namespace Symbol

variable {K : Type} [Scalar K]

/-- The symbol of a lexeme. -/
def ofLexeme : Lexeme → Symbol K
  | .number k => .number k.value
  | l => .lexeme l

/-- The symbols of a number; a minus sign stands apart from the magnitude. -/
def signed (a : K) : List (Symbol K) :=
  if Scalar.isNegative a then [.lexeme .minus, .number (Scalar.magnitude a)] else [.number a]

/-- Whether an operand or an argument may start behind a lexeme, or behind none. -/
def startsOperand (before : Option Lexeme) : Bool := before.all fun l => !l.endsOperand

/-- What a lexeme adds to the normal form, given the lexeme before it and those behind it. -/
def contribution (before : Option Lexeme) (l : Lexeme) (behind : List Lexeme) :
    List (Symbol K) :=
  match l, behind with
  | .plus, .number _ :: _ => if startsOperand before then [] else [.lexeme .plus]
  | .minus, .time :: .closing :: _ =>
    if before = some .opening then [.lexeme .minus, .number 1, .lexeme .star]
    else [.lexeme .minus]
  | l, _ => [ofLexeme l]

/-- The normal form of lexemes behind a given one. -/
def normalFrom (before : Option Lexeme) : List Lexeme → List (Symbol K)
  | [] => []
  | l :: ls => contribution before l ls ++ normalFrom (some l) ls

/-- The normal form of lexemes. A `+` that is the sign of a number is left out, and `-n` in
brackets becomes `-1*n`. -/
def normal (ls : List Lexeme) : List (Symbol K) := normalFrom none ls

end Symbol

/-- The symbol of a name. -/
def Named.symbol {α K : Type} (lexeme : α → Lexeme) : Named α → Symbol K
  | known a => .lexeme (lexeme a)
  | unknown name => .word name

namespace SignalExpr

variable {K : Type} [Scalar K]

/-- The symbols of a tree, from the left to the right. -/
def listing : SignalExpr K → List (Symbol K)
  | .vector entries => .lexeme .opening ::
      ([.lexeme .comma].intercalate (entries.map Symbol.signed) ++ [.lexeme .closing])
  | .time => [.lexeme .time]
  | .constant c => Symbol.signed c
  | .power base => Symbol.signed base ++ [.lexeme .caret, .lexeme .time]
  | .apply p a =>
    p.symbol .primitive :: .lexeme .opening :: (a.listing ++ [.lexeme .closing])
  | .combine op a b => a.listing ++ op.symbol Operator.lexeme :: b.listing
  | .foreign content => [.word content]

/-- A tree and all trees in it. -/
def subtrees : SignalExpr K → List (SignalExpr K)
  | .apply p a => .apply p a :: a.subtrees
  | .combine op a b => .combine op a b :: (a.subtrees ++ b.subtrees)
  | t => [t]

/-- The number of primitives that are applied to one another. -/
def nesting : SignalExpr K → Nat
  | .apply _ a => a.nesting + 1
  | .combine _ a b => max a.nesting b.nesting
  | _ => 0

/-- The arguments of primitives: `n`, a constant, `n+k` and `n-k` for `k ≥ 0`, and `c*n`. -/
inductive IsArgument : SignalExpr K → Prop
  | time : IsArgument .time
  | constant (c : K) : IsArgument (.constant c)
  | plus {k : K} (hk : 0 ≤ k) : IsArgument (.plus .time (.constant k))
  | minus {k : K} (hk : 0 ≤ k) : IsArgument (.minus .time (.constant k))
  | times (c : K) : IsArgument (.times (.constant c) .time)

/-- There is no vector in the tree, and primitives are applied to arguments or to one further
primitive on an argument. -/
structure IsParsed (t : SignalExpr K) : Prop where
  no_vector : ∀ entries, .vector entries ∉ t.subtrees
  applied : ∀ p a, .apply p a ∈ t.subtrees → a.IsArgument ∨ ∃ q b, a = .call q b ∧ b.IsArgument

namespace IsParsed

theorem nesting_of_isArgument {t : SignalExpr K} (h : t.IsArgument) :
    t.nesting = 0 := by
  cases h <;> rfl

/-- Primitives are nested at most two deep. -/
theorem nesting_le {t : SignalExpr K} (h : t.IsParsed) : t.nesting ≤ 2 := by
  obtain ⟨-, h⟩ := h
  induction t with
  | apply p a =>
    rcases h p a (by simp [subtrees]) with ha | ⟨q, b, rfl, hb⟩
    · simp [nesting, nesting_of_isArgument ha]
    · simp [nesting, call, nesting_of_isArgument hb]
  | combine op a b iha ihb =>
    have ha := iha fun p c hc => h p c (by simp [subtrees, hc])
    have hb := ihb fun p c hc => h p c (by simp [subtrees, hc])
    exact max_le ha hb
  | _ => exact Nat.zero_le 2

theorem combine {op : Named Operator} {a b : SignalExpr K} (ha : a.IsParsed) (hb : b.IsParsed) :
    (SignalExpr.combine op a b).IsParsed where
  no_vector entries h := by
    simp only [subtrees, List.mem_cons, List.mem_append, reduceCtorEq, false_or] at h
    exact h.elim (ha.no_vector entries) (hb.no_vector entries)
  applied p c h := by
    simp only [subtrees, List.mem_cons, List.mem_append, reduceCtorEq, false_or] at h
    exact h.elim (ha.applied p c) (hb.applied p c)

theorem leaf {t : SignalExpr K} (h : t.subtrees = [t]) (hv : ∀ entries, t ≠ .vector entries)
    (ha : ∀ p a, t ≠ .apply p a) : t.IsParsed where
  no_vector entries hm := by
    rw [h, List.mem_singleton] at hm
    exact hv entries hm.symm
  applied p a hm := by
    rw [h, List.mem_singleton] at hm
    exact absurd hm.symm (ha p a)

theorem time : (SignalExpr.time : SignalExpr K).IsParsed := leaf rfl nofun nofun

theorem constant (c : K) : (SignalExpr.constant c).IsParsed := leaf rfl nofun nofun

theorem power (base : K) : (SignalExpr.power base).IsParsed := leaf rfl nofun nofun

theorem of_isArgument {t : SignalExpr K} (h : t.IsArgument) : t.IsParsed := by
  cases h with
  | time => exact time
  | constant c => exact constant c
  | plus => exact time.combine (constant _)
  | minus => exact time.combine (constant _)
  | times c => exact (constant c).combine time

theorem apply {p : Named Primitive} {a : SignalExpr K} (ha : a.IsParsed)
    (h : a.IsArgument ∨ ∃ q b, a = .call q b ∧ b.IsArgument) : (SignalExpr.apply p a).IsParsed where
  no_vector entries hm := by
    simp only [subtrees, List.mem_cons, reduceCtorEq, false_or] at hm
    exact ha.no_vector entries hm
  applied q b hm := by
    simp only [subtrees, List.mem_cons, apply.injEq] at hm
    rcases hm with ⟨-, rfl⟩ | hm
    · exact h
    · exact ha.applied q b hm

end IsParsed

end SignalExpr

/-! ## Normal forms -/

namespace Symbol

variable {K : Type} [Scalar K]

/-- Behind an operator an operand starts, as at the start of a list. -/
theorem normalFrom_operator (op : Operator) (ls : List Lexeme) :
    (normalFrom (some op.lexeme) ls : List (Symbol K)) = normal ls := by
  cases ls with
  | nil => rfl
  | cons l ls =>
    have hc : (contribution (some op.lexeme) l ls : List (Symbol K)) = contribution none l ls := by
      cases op <;> rfl
    rw [normal, normalFrom, normalFrom, hc]

theorem contribution_of_endsOperand {l : Lexeme} (h : l.endsOperand = true)
    (before : Option Lexeme) (behind : List Lexeme) :
    (contribution before l behind : List (Symbol K)) = [ofLexeme l] := by
  cases l <;> first | rfl | cases h

theorem contribution_operator {before : Lexeme} (h : before.endsOperand = true) (op : Operator)
    (behind : List Lexeme) :
    (contribution (some before) op.lexeme behind : List (Symbol K)) = [.lexeme op.lexeme] := by
  have hs : startsOperand (some before) = false := by simp [startsOperand, h]
  have ho : some before ≠ some .opening := by
    rintro ⟨⟩
    cases h
  cases op with
  | add =>
    change contribution (some before) .plus behind = [.lexeme .plus]
    unfold contribution
    split <;> simp_all [ofLexeme]
  | subtract =>
    change contribution (some before) .minus behind = [.lexeme .minus]
    unfold contribution
    split <;> simp_all [ofLexeme]
  | multiply => rfl

/-- What an operator follows has its normal form without it. -/
theorem normalFrom_append {xs : List Lexeme} {x : Lexeme} (hx : xs.getLast? = some x)
    (he : x.endsOperand = true) (before : Option Lexeme) (op : Operator) (ys : List Lexeme) :
    (normalFrom before (xs ++ op.lexeme :: ys) : List (Symbol K)) =
      normalFrom before xs ++ .lexeme op.lexeme :: normal ys := by
  induction xs generalizing before with
  | nil => cases hx
  | cons y xs ih =>
    rw [List.cons_append, normalFrom, normalFrom]
    rcases xs with _ | ⟨z, zs⟩
    · have hyx : y = x := Option.some.inj hx
      subst hyx
      rw [List.nil_append, contribution_of_endsOperand he, contribution_of_endsOperand he,
        normalFrom, normalFrom, contribution_operator he, normalFrom_operator]
      rfl
    · rw [List.getLast?_cons_cons] at hx
      have hc : (contribution before y (z :: zs ++ op.lexeme :: ys) : List (Symbol K)) =
          contribution before y (z :: zs) := by
        -- a `-` looks at two lexemes behind it, and an operator does not close brackets
        cases y with
        | minus =>
          cases z with
          | time =>
            cases zs with
            | nil => cases op <;> rfl
            | cons w ws => cases w <;> rfl
          | _ => rfl
        | plus => cases z <;> rfl
        | _ => rfl
      rw [hc, ih hx, List.append_assoc]

variable [SignedDecimals K]

@[simp]
theorem signed_value (k : Numeral) : signed (k.value : K) = [.number k.value] := by
  rw [signed, if_neg (by simp [SignedDecimals.isNegative_value])]

@[simp]
theorem signed_neg_value (k : Numeral) :
    signed (-k.value : K) = [.lexeme .minus, .number k.value] := by
  rw [signed, if_pos (SignedDecimals.isNegative_neg_value k), SignedDecimals.magnitude_neg_value]

@[simp]
theorem signed_neg_one : signed (-1 : K) = [.lexeme .minus, .number 1] := by
  rw [signed, if_pos SignedDecimals.isNegative_neg_one, SignedDecimals.magnitude_neg_one]

end Symbol

/-! ## What the parser builds -/

namespace Grammar

open SteppedConvolution.Symbol (normal normalFrom signed)

variable {K : Type} [Scalar K] [SignedDecimals K]

/-- A number with its sign, where an operand or an argument starts. -/
theorem normalFrom_signed {before : Option Lexeme} (h : Symbol.startsOperand before = true)
    (sign : Option Sign) (c : Numeral) (ls : List Lexeme) :
    (normalFrom before (Sign.lexemes sign ++ .number c :: ls) : List (Symbol K)) =
      signed (Sign.value sign c) ++ normalFrom (some (.number c)) ls := by
  have hnumber (before : Option Lexeme) :
      (normalFrom before (.number c :: ls) : List (Symbol K)) =
        .number c.value :: normalFrom (some (.number c)) ls := rfl
  rcases sign with _ | _ | _
  · simp [Sign.lexemes, Sign.value, hnumber]
  · have hplus : (normalFrom before (.plus :: .number c :: ls) : List (Symbol K)) =
        normalFrom (some .plus) (.number c :: ls) := by
      rw [normalFrom, Symbol.contribution, if_pos h, List.nil_append]
    simp [Sign.lexemes, Sign.lexeme, Sign.value, hplus, hnumber]
  · have hminus : (normalFrom before (.minus :: .number c :: ls) : List (Symbol K)) =
        .lexeme .minus :: normalFrom (some .minus) (.number c :: ls) := rfl
    simp [Sign.lexemes, Sign.lexeme, Sign.value, hminus, hnumber]

/-- The normal form of an argument in brackets. -/
theorem Argument.normalFrom_lexemes (a : Argument) (ls : List Lexeme) :
    normalFrom (some .opening) (a.lexemes ++ .closing :: ls) =
      (a.tree : SignalExpr K).listing ++ .lexeme .closing :: normalFrom (some .closing) ls := by
  have hstart : Symbol.startsOperand (some .opening) = true := rfl
  cases a with
  | time => rfl
  | negated =>
    have hone : (tree negated : SignalExpr K).listing =
        signed (-1) ++ [.lexeme .star, .lexeme .time] := rfl
    rw [hone, Symbol.signed_neg_one]
    rfl
  | shifted sign k =>
    have hk : (SignalExpr.constant k.value : SignalExpr K).listing = [.number k.value] :=
      Symbol.signed_value k
    cases sign with
    | plus =>
      change _ = [.lexeme .time] ++ .lexeme .plus :: (SignalExpr.constant k.value).listing ++ _
      rw [hk]
      rfl
    | minus =>
      change _ = [.lexeme .time] ++ .lexeme .minus :: (SignalExpr.constant k.value).listing ++ _
      rw [hk]
      rfl
  | scaled sign c =>
    have happ : (scaled sign c).lexemes ++ Lexeme.closing :: ls =
        Sign.lexemes sign ++ .number c :: (.star :: .time :: .closing :: ls) := by
      simp [lexemes]
    rw [happ, normalFrom_signed hstart]
    exact (List.append_assoc _ [_, _] _).symm
  | number sign c =>
    have happ : (number sign c).lexemes ++ Lexeme.closing :: ls =
        Sign.lexemes sign ++ .number c :: (.closing :: ls) := by
      simp [lexemes]
    rw [happ, normalFrom_signed hstart]
    rfl

theorem Factor.listing_tree (f : Factor) :
    (f.tree : SignalExpr K).listing = normal f.lexemes := by
  have hstart : Symbol.startsOperand none = true := rfl
  cases f with
  | time => rfl
  | number sign k =>
    have h := normalFrom_signed (K := K) hstart sign k []
    exact (h.trans (List.append_nil _)).symm
  | power sign k => exact (normalFrom_signed hstart sign k [.caret, .time]).symm
  | call f a =>
    have ha := a.normalFrom_lexemes (K := K) []
    change _ = .lexeme (.primitive f) :: .lexeme .opening :: normalFrom _ _
    rw [ha]
    rfl
  | nested f g a =>
    have ha := a.normalFrom_lexemes (K := K) [.closing]
    have happ : bracketed g a.lexemes ++ [.closing] =
        .primitive g :: .opening :: (a.lexemes ++ [.closing, .closing]) := by
      simp [bracketed]
    change _ = .lexeme (.primitive f) :: .lexeme .opening :: normalFrom _ _
    rw [happ]
    change _ = .lexeme (.primitive f) :: .lexeme .opening :: .lexeme (.primitive g) ::
      .lexeme .opening :: normalFrom _ _
    rw [ha]
    exact congrArg (_ :: _ :: _ :: _ :: ·) (List.append_assoc _ [_] [_])

theorem Argument.isArgument (a : Argument) : (a.tree : SignalExpr K).IsArgument := by
  cases a with
  | time => exact .time
  | negated => exact .times _
  | shifted sign k =>
    have hk := SignedDecimals.zero_le_value (K := K) k
    cases sign with
    | plus => exact .plus hk
    | minus => exact .minus hk
  | scaled sign c => exact .times _
  | number sign c => exact .constant _

theorem Factor.isParsed (f : Factor) : (f.tree : SignalExpr K).IsParsed := by
  have hcall (f : Primitive) (a : Argument) : (SignalExpr.call f a.tree : SignalExpr K).IsParsed :=
    (SignalExpr.IsParsed.of_isArgument a.isArgument).apply (.inl a.isArgument)
  cases f with
  | time => exact .time
  | number sign k => exact .constant _
  | power sign k => exact .power _
  | call f a => exact hcall f a
  | nested f g a => exact (hcall g a).apply (.inr ⟨g, _, rfl, a.isArgument⟩)

end Grammar

namespace Parser

variable {K : Type} [Scalar K] [SignedDecimals K] {ls : List Lexeme} {t : SignalExpr K}

/-- The listing of a parsed tree is the normal form of the list of lexemes. -/
theorem listing_of_node? (h : node? ls = some t) :
    t.listing = Symbol.normal ls ∧ t.IsParsed := by
  refine node?_induction (motive := fun ls t => t.listing = Symbol.normal ls ∧ t.IsParsed)
    (fun f => ⟨f.listing_tree, f.isParsed⟩) ?_ ?_ h
  · intro sign c
    refine ⟨?_, (SignalExpr.IsParsed.constant _).combine .time⟩
    exact (normalFrom_signed rfl sign c [.star, .time]).symm
  · rintro op xs ys a b ha - ⟨hla, hpa⟩ ⟨hlb, hpb⟩
    obtain ⟨s, rfl, -, -⟩ := exists_sum_of_node? ha
    obtain ⟨x, hx, he⟩ := s.getLast?_lexemes
    refine ⟨?_, hpa.combine hpb⟩
    rw [Symbol.normal, Symbol.normalFrom_append hx he, ← hlb]
    change a.listing ++ _ = Symbol.normal s.lexemes ++ _
    rw [hla]
    rfl

end Parser

namespace SignalExpr

/-- No token of a text is lost, moved or invented by the parser. A tree that is read, but not as a
vector, has the listing of its tokens in normal form; primitives are applied to arguments or to one
further primitive, and are nested at most two deep. -/
theorem listing_of_read {levels : Nat} {text : String} {t : SignalExpr Float}
    (hv : isVectorText (Text.strip text.toList) = false)
    (hread : (SignalExpr.read levels (some text)).outcome = .ok t) :
    ∃ tokens, (Lexer.tokenize (Text.strip text.toList) : Except (TextFault Float) _) = .ok tokens ∧
      t.listing = Symbol.normal (tokens.map Token.lexeme) ∧ t.IsParsed ∧ t.nesting ≤ 2 := by
  obtain ⟨tokens, htokens, hnode⟩ := exists_tokens_of_read hv hread
  obtain ⟨hlisting, hparsed⟩ := Parser.listing_of_node? (Parser.node?_of_node hnode)
  exact ⟨tokens, htokens, hlisting, hparsed, hparsed.nesting_le⟩

/-- The sign of `+2.5` is dropped, `-n` is written out, and `-0` keeps its sign. -/
theorem listing_of_signed_operands : ∃ (t : SignalExpr Float) (tokens : List Token),
    (SignalExpr.read Parser.machineLevels (some "n-+2.5*u[-n]+sin[abs[+3*n]]*-0")).outcome = .ok t ∧
      (Lexer.tokenize "n-+2.5*u[-n]+sin[abs[+3*n]]*-0".toList : Except (TextFault Float) _) =
        .ok tokens ∧
      t.listing = Symbol.normal (tokens.map Token.lexeme) ∧
      t.listing = [.lexeme .time, .lexeme .minus, .number 2.5, .lexeme .star,
        .lexeme (.primitive .step), .lexeme .opening, .lexeme .minus, .number 1, .lexeme .star,
        .lexeme .time, .lexeme .closing, .lexeme .plus, .lexeme (.primitive .sine),
        .lexeme .opening, .lexeme (.primitive .magnitude), .lexeme .opening, .number 3,
        .lexeme .star, .lexeme .time, .lexeme .closing, .lexeme .closing, .lexeme .star,
        .lexeme .minus, .number 0] ∧ t.IsParsed ∧ t.nesting ≤ 2 := by
  have hread : (SignalExpr.read Parser.machineLevels
      (some "n-+2.5*u[-n]+sin[abs[+3*n]]*-0")).outcome =
      .ok (.plus (.minus .time (.times (.constant (2.5 : Float))
        (.call .step (.times (.constant (-1)) .time))))
        (.times (.call .sine (.call .magnitude (.times (.constant 3) .time)))
          (.constant (-0)))) :=
    eq_ok_of_toOption (by decide +kernel)
  obtain ⟨tokens, htokens, hlisting, hparsed, hnesting⟩ :=
    listing_of_read (by decide +kernel) hread
  exact ⟨_, tokens, hread, htokens, hlisting, by decide +kernel, hparsed, hnesting⟩

end SignalExpr

end SteppedConvolution
