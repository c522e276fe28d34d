import SteppedConvolution.Proofs.Expression.Pieces
import SteppedConvolution.Proofs.Expression.Regular
import SteppedConvolution.Proofs.Numeral.Format

/-! # Other numbers in place of those that were read

Whether a rule of the parser applies depends on the pieces of a list but not on their numbers.
So a list with other numbers is parsed to the same tree with other numbers.
-/

namespace SteppedConvolution

open Grammar

/-- A tree with the numbers that are read where its own are spelled out. -/
def SignalExpr.respelled {K : Type} [Scalar K] (spell : K → Numeral) : SignalExpr K → SignalExpr K
  | .vector entries => .vector (entries.map fun v => (spelled spell v).value)
  | .time => .time
  | .constant c => .constant (spelled spell c).value
  | .power base => .power (spelled spell base).value
  | .apply p a => .apply p (a.respelled spell)
  | .combine op a b => .combine op (a.respelled spell) (b.respelled spell)
  | .foreign content => .foreign content

/-- A minus sign, or none. -/
def Grammar.Sign.dropPlus (sign : Option Sign) : Option Sign := sign.filter (· = .minus)

/-- An argument with its numbers spelled out. A plus sign is left out, and `-n` becomes a
product. -/
def Grammar.Argument.respelled {K : Type} [Scalar K] (spell : K → Numeral) : Argument → Argument
  | time => time
  | negated => scaled (some .minus) (spell 1)
  | shifted sign k => shifted sign (spell k.value)
  | scaled sign c => scaled (Sign.dropPlus sign) (spell c.value)
  | number sign c => number (Sign.dropPlus sign) (spell c.value)

/-- A piece with its numbers spelled out. -/
def Piece.respelled {K : Type} [Scalar K] (spell : K → Numeral) : Piece → Piece
  | number k => number (spell k.value)
  | call f a => call f (a.respelled spell)
  | nested f g a => nested f g (a.respelled spell)
  | u => u

section

variable {K : Type} [Scalar K] [SignedDecimals K] (spell : K → Numeral)

omit [SignedDecimals K] in
theorem Grammar.Sign.value_dropPlus (sign : Option Sign) (k : Numeral) :
    (Sign.value (Sign.dropPlus sign) k : K) = Sign.value sign k := by
  rcases sign with _ | _ | _ <;> rfl

theorem Grammar.Sign.value_spell (sign : Option Sign) (k : Numeral) :
    (Sign.value sign (spell (k.value : K)) : K) = (spelled spell (Sign.value sign k)).value := by
  rcases sign with _ | _ | _
  · exact congrArg SignedNumeral.value (spelled_value spell k).symm
  · exact congrArg SignedNumeral.value (spelled_value spell k).symm
  · exact congrArg SignedNumeral.value (spelled_neg_value spell k).symm

theorem Grammar.Argument.tree_respelled (a : Argument) :
    ((a.respelled spell).tree : SignalExpr K) = a.tree.respelled spell := by
  cases a with
  | time => rfl
  | negated =>
    have hone : ((spelled spell (-1)).value : K) = -(spell 1).value :=
      congrArg SignedNumeral.value (spelled_neg_one spell)
    exact congrArg (fun c => SignalExpr.times (.constant c) .time) hone.symm
  | shifted sign k =>
    have hk := Sign.value_spell spell none k
    cases sign with
    | plus => exact congrArg (fun c => SignalExpr.plus .time (.constant c)) hk
    | minus => exact congrArg (fun c => SignalExpr.minus .time (.constant c)) hk
  | scaled sign c =>
    change SignalExpr.times (.constant (Sign.value (Sign.dropPlus sign) (spell c.value))) .time = _
    rw [Sign.value_dropPlus, Sign.value_spell]
    rfl
  | number sign c =>
    change SignalExpr.constant (Sign.value (Sign.dropPlus sign) (spell c.value)) = _
    rw [Sign.value_dropPlus, Sign.value_spell]
    rfl

end

/-! ## Calls and simple terms with other numbers -/

namespace Parser

variable {K : Type} [Scalar K]

/-- The bracket of a call closes before the end when something follows. -/
theorem callParts?_append {inner rest : List Lexeme} (h : Bracket.Passes inner) (f : Primitive)
    (hr : rest ≠ []) : callParts? (bracketed f inner ++ rest) = none := by
  have hm : Bracket.matching? (bracketed f inner ++ rest) 1 = some (2 + inner.length) := by
    have happ : bracketed f inner ++ rest =
        .primitive f :: .opening :: (inner ++ .closing :: rest) := by
      simp [bracketed]
    rw [happ]
    exact h 1 2 (.closing :: rest) (by decide)
  have hl : 2 + inner.length ≠ ((inner ++ [Lexeme.closing]) ++ rest).length + 1 := by
    have := List.length_pos_iff.2 hr
    simp only [List.length_append, List.length_singleton]
    omega
  change (if Bracket.matching? (bracketed f inner ++ rest) 1 =
      some (((inner ++ [Lexeme.closing]) ++ rest).length + 1) then _ else none) = _
  rw [hm, if_neg (mt Option.some.inj hl)]

theorem call?_append {inner rest : List Lexeme} (h : Bracket.Passes inner) (f : Primitive)
    (hr : rest ≠ []) : (call? (bracketed f inner ++ rest) : Option (SignalExpr K)) = none := by
  rw [call?, callParts?_append h f hr]

theorem call?_factor {f : Factor} (h : (simple? f.lexemes : Option (SignalExpr K)) = none) :
    call? f.lexemes = some (f.tree : SignalExpr K) := by
  have hf := call?_orElse_simple? (K := K) f
  rw [h] at hf
  simpa using hf

/-- What a number with a sign is, with what follows it. -/
def numberTerm? (sign : Option Sign) (c : Numeral) : List Lexeme → Option (SignalExpr K)
  | [] => some (.constant (Sign.value sign c))
  | [.star, .time] => some (.times (.constant (Sign.value sign c)) .time)
  | [.caret, .time] => some (.power (Sign.value sign c))
  | _ => none

theorem simple?_signed (sign : Option Sign) (c : Numeral) (ls : List Lexeme) :
    simple? (Sign.lexemes sign ++ .number c :: ls) =
      (numberTerm? sign c ls : Option (SignalExpr K)) := by
  rcases sign with _ | _ | _ <;> rcases ls with _ | ⟨x, _ | ⟨y, _ | ⟨z, ls⟩⟩⟩ <;>
    first | rfl | (cases x <;> first | rfl | (cases y <;> rfl))

theorem numberTerm?_eq_none (sign : Option Sign) (c : Numeral) {ls : List Lexeme}
    (h : 3 ≤ ls.length) : (numberTerm? sign c ls : Option (SignalExpr K)) = none := by
  rcases ls with _ | ⟨x, _ | ⟨y, _ | ⟨z, ls⟩⟩⟩
  · simp at h
  · simp at h
  · simp at h
  · cases x <;> first | rfl | (cases y <;> rfl)

end Parser

namespace Piece

open SteppedConvolution.Parser

variable {K : Type} [Scalar K] [SignedDecimals K] (spell : K → Numeral)

theorem numberTerm?_respelled (sign : Option Sign) (c : Numeral) (us : List Piece) :
    numberTerm? sign (spell c.value) (flat (us.map (respelled spell))) =
      (numberTerm? sign c (flat us)).map (SignalExpr.respelled spell) := by
  have hvalue := Sign.value_spell spell sign c
  rcases us with _ | ⟨u, _ | ⟨v, _ | ⟨w, ws⟩⟩⟩
  · exact congrArg (fun a => some (SignalExpr.constant a)) hvalue
  · cases u with
    | operator op => cases op <;> rfl
    | _ => rfl
  · cases u with
    | operator op =>
      cases op with
      | multiply =>
        cases v with
        | time => exact congrArg (fun a => some (SignalExpr.times (.constant a) .time)) hvalue
        | operator op => cases op <;> rfl
        | _ => rfl
      | _ => rfl
    | caret =>
      cases v with
      | time => exact congrArg (fun a => some (SignalExpr.power a)) hvalue
      | operator op => cases op <;> rfl
      | _ => rfl
    | _ => rfl
  · have hnone (us : List Piece) (h : 3 ≤ us.length) (c : Numeral) :
        (numberTerm? sign c (flat us) : Option (SignalExpr K)) = none :=
      numberTerm?_eq_none sign c (h.trans (length_le_flat us))
    rw [hnone _ (by simp), hnone _ (by simp)]
    rfl

theorem simple?_respelled (us : List Piece) :
    simple? (flat (us.map (respelled spell))) =
      (simple? (flat us)).map (SignalExpr.respelled spell) := by
  have hsigned (sign : Option Sign) (c : Numeral) (us : List Piece) :
      simple? (Sign.lexemes sign ++ .number (spell c.value) :: flat (us.map (respelled spell))) =
        (simple? (Sign.lexemes sign ++ .number c :: flat us)).map
          (SignalExpr.respelled spell) := by
    rw [simple?_signed, simple?_signed, numberTerm?_respelled]
  rcases us with _ | ⟨u, us⟩
  · rfl
  · cases u with
    | number k => exact hsigned none k us
    | time =>
      rcases us with _ | ⟨v, us⟩
      · rfl
      · cases v with
        | operator op => cases op <;> rfl
        | _ => rfl
    | operator op =>
      rcases us with _ | ⟨v, us⟩
      · cases op <;> rfl
      · cases v with
        | number k =>
          cases op with
          | add => exact hsigned (some .plus) k us
          | subtract => exact hsigned (some .minus) k us
          | multiply => rfl
        | operator p => cases op <;> cases p <;> rfl
        | _ => cases op <;> rfl
    | _ => rfl

theorem call?_respelled (us : List Piece) :
    call? (flat (us.map (respelled spell))) =
      (call? (flat us)).map (SignalExpr.respelled spell) := by
  have hpasses (a : Argument) : Bracket.Passes a.lexemes := Bracket.passes_of_isBracket a.isBracket
  rcases us with _ | ⟨u, us⟩
  · rfl
  · have hsingle (u : Piece) : flat [u] = u.lexemes := List.append_nil _
    rw [List.map_cons]
    cases u with
    | call f a =>
      rcases us with _ | ⟨v, us⟩
      · have hcall (a : Argument) : call? (lexemes (call f a)) =
            some (.call f a.tree : SignalExpr K) := call?_factor (f := .call f a) rfl
        rw [List.map_nil, hsingle, hsingle, hcall, respelled, hcall, Argument.tree_respelled]
        rfl
      · have hnone (a : Argument) (v : Piece) (us : List Piece) :
            (call? (flat (call f a :: v :: us)) : Option (SignalExpr K)) = none := by
          rw [flat_cons]
          exact call?_append (hpasses a) f (mt flat_eq_nil.1 (List.cons_ne_nil v us))
        rw [hnone, respelled, List.map_cons, hnone]
        rfl
    | nested f g a =>
      rcases us with _ | ⟨v, us⟩
      · have hcall (a : Argument) : call? (lexemes (nested f g a)) =
            some (.call f (.call g a.tree) : SignalExpr K) := call?_factor (f := .nested f g a) rfl
        rw [List.map_nil, hsingle, hsingle, hcall, respelled, hcall, Argument.tree_respelled]
        rfl
      · have hnone (a : Argument) (v : Piece) (us : List Piece) :
            (call? (flat (nested f g a :: v :: us)) : Option (SignalExpr K)) = none := by
          rw [flat_cons]
          exact call?_append ((hpasses a).bracketed g) f (mt flat_eq_nil.1 (List.cons_ne_nil v us))
        rw [hnone, respelled, List.map_cons, hnone]
        rfl
    | operator op => cases op <;> rfl
    | _ => rfl

/-! ## Trees with other numbers -/

omit [SignedDecimals K] in
theorem respelled_eq_operator {u : Piece} {op : Operator} :
    u.respelled spell = operator op ↔ u = operator op := by
  cases u <;> simp [respelled]

/-- Both sides of a cut with their numbers spelled out. -/
def respelledSides (p : List Piece × List Piece) : List Piece × List Piece :=
  (p.1.map (respelled spell), p.2.map (respelled spell))

omit [SignedDecimals K] in
theorem cuts_respelled (op : Operator) (us : List Piece) :
    cuts op (us.map (respelled spell)) = (cuts op us).map (respelledSides spell) := by
  induction us with
  | nil => rfl
  | cons u us ih =>
    simp only [List.map_cons, cuts, respelled_eq_operator, ih, List.map_append, List.map_map]
    split <;> rfl

omit [SignedDecimals K] in
theorem endsInNumber_respelled (us : List Piece) :
    endsInNumber (us.map (respelled spell)) = endsInNumber us := by
  unfold endsInNumber
  rw [List.getLast?_map]
  cases us.getLast? with
  | none => rfl
  | some u => cases u <;> rfl

omit [SignedDecimals K] in
theorem additiveCuts_respelled (op : Operator) (us : List Piece) :
    additiveCuts op (us.map (respelled spell)) =
      (additiveCuts op us).map (respelledSides spell) := by
  have hhead : (us.map (respelled spell)).head? = some (operator op) ↔
      us.head? = some (operator op) := by
    cases us with
    | nil => exact Iff.rfl
    | cons u us => simp [respelled_eq_operator]
  have hfilter : ((fun p : List Piece × List Piece => p.1 ≠ [] && !endsInNumber p.1) ∘
      respelledSides spell) = fun p => p.1 ≠ [] && !endsInNumber p.1 := by
    funext p
    simp [respelledSides, endsInNumber_respelled]
  unfold additiveCuts
  simp only [hhead]
  split
  · rfl
  · rw [cuts_respelled, ← List.map_reverse, List.filter_map, hfilter]

/-- With other numbers, pieces are parsed on as many levels, and to the same tree with other
numbers. -/
theorem node_respelled (levels : Nat) (us : List Piece) :
    node levels (flat (us.map (respelled spell))) =
      SignalExpr.respelled spell <$> (node levels (flat us) : Rule K (SignalExpr K)) := by
  -- on the levels: the cuts are those of the pieces, and both sides are parsed a level further down
  induction levels generalizing us with
  | zero =>
    cases us with
    | nil => rfl
    | cons u us =>
      rw [node_zero (mt flat_eq_nil.1 (List.cons_ne_nil u us)),
        node_zero (mt flat_eq_nil.1 (by simp))]
      rfl
  | succ n ih =>
    by_cases hne : us = []
    · rw [hne]
      rfl
    have hjoined (op : Operator) (p : List Piece × List Piece) :
        joinedBy (node n) op (flatSides (respelledSides spell p)) =
          SignalExpr.respelled spell <$> joinedBy (node n) op (flatSides p) := by
      simp only [joinedBy, flatSides, respelledSides, ih]
      rcases (node n (flat p.1) : Rule K (SignalExpr K)) with _ | _ | a
      · rfl
      · rfl
      · rcases (node n (flat p.2) : Rule K (SignalExpr K)) with _ | _ | b <;> rfl
    have hsearch (op : Operator) (ps : List (List Piece × List Piece)) :
        firstOf (joinedBy (node n) op) ((ps.map (respelledSides spell)).map flatSides) =
          SignalExpr.respelled spell <$> firstOf (joinedBy (node n) op) (ps.map flatSides) := by
      induction ps with
      | nil => rfl
      | cons p ps ih =>
        rw [List.map_cons, List.map_cons, List.map_cons, firstOf, firstOf, Rule.map_orElse, ← ih,
          hjoined]
    have hplus (us : List Piece) :
        additiveSplits .plus (flat us) = (additiveCuts .add us).map flatSides :=
      additiveSplits_flat .add us
    have hminus (us : List Piece) :
        additiveSplits .minus (flat us) = (additiveCuts .subtract us).map flatSides :=
      additiveSplits_flat .subtract us
    have hstar (us : List Piece) : splits .star (flat us) = (cuts .multiply us).map flatSides :=
      splits_flat .multiply us
    rw [node_succ n (mt flat_eq_nil.1 hne), node_succ n (mt flat_eq_nil.1 (by simpa using hne)),
      hplus, hplus, hminus, hminus, hstar, hstar, additiveCuts_respelled, additiveCuts_respelled,
      cuts_respelled, hsearch, hsearch, hsearch, call?_respelled, simple?_respelled]
    simp only [Rule.map_orElse, Rule.map_of]

end Piece

end SteppedConvolution
