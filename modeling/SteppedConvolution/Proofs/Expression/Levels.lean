import SteppedConvolution.Proofs.Expression.Patterns
import SteppedConvolution.Proofs.Expression.Splits

/-! # Levels of the parser

Both sides of a cut are parsed one level further down, and each of them has fewer operators outside
brackets than the whole. So the stack has room for every list with fewer of them than it has
levels. With any number of levels the parser finds the one result of the list, or that its stack is
too small, and nothing else.
-/

namespace SteppedConvolution.Parser

variable {K α β : Type}

namespace Rule

/-- The result of a rule, if it comes to one. -/
def result (r : Rule K α) : Option α :=
  match r.run with
  | .ok a => a
  | .error _ => none

/-- The rule for which the stack is too small. -/
def tooDeep : Rule K α := OptionT.lift (.error (.plain .tooDeep))

theorem map_of (f : α → β) (a : Option α) : f <$> (of a : Rule K α) = of (a.map f) := by
  cases a <;> rfl

theorem map_orElse (f : α → β) (a b : Rule K α) : f <$> (a <|> b) = (f <$> a <|> f <$> b) := by
  rcases a with _ | _ | a <;> rfl

theorem of_ne_tooDeep (a : Option α) : (of a : Rule K α) ≠ tooDeep := nofun

end Rule

open Rule

/-! ## Searching in a list -/

section

variable {γ : Type} {f g : γ → Rule K α} {as : List γ}

theorem firstOf_congr (h : ∀ a ∈ as, f a = g a) : firstOf f as = firstOf g as := by
  induction as with
  | nil => rfl
  | cons a as ih =>
    rw [firstOf, firstOf, h a List.mem_cons_self, ih fun b hb => h b (List.mem_cons_of_mem a hb)]

theorem firstOf_map {δ : Type} (f : γ → Rule K α) (h : δ → γ) (as : List δ) :
    firstOf f (as.map h) = firstOf (fun a => f (h a)) as := by
  induction as with
  | nil => rfl
  | cons a as ih => rw [List.map_cons, firstOf, firstOf, ih]

theorem firstOf_filter (f : γ → Rule K α) (p : γ → Bool) (as : List γ) :
    firstOf f (as.filter p) = firstOf (fun a => if p a then f a else failure) as := by
  induction as with
  | nil => rfl
  | cons a as ih =>
    rw [firstOf, ← ih]
    cases hp : p a with
    | true => rw [List.filter_cons_of_pos hp, firstOf, if_pos rfl]
    | false =>
      rw [List.filter_cons_of_neg (by rw [hp]; exact Bool.false_ne_true),
        if_neg Bool.false_ne_true, failure_orElse]

theorem firstOf_of {h : γ → Option α} (hf : ∀ a ∈ as, f a = of (h a)) :
    firstOf f as = of (as.findSome? h) := by
  rw [firstOf_congr hf]
  clear hf
  induction as with
  | nil => rfl
  | cons a as ih =>
    rw [firstOf, ih, of_orElse, List.findSome?_cons]
    cases h a <;> rfl

end

/-! ## One level -/

variable [Scalar K] {ls : List Lexeme}

/-- The two sides of a split, joined by an operator. -/
def joinedBy (node : List Lexeme → Rule K (SignalExpr K)) (op : Operator)
    (p : List Lexeme × List Lexeme) : Rule K (SignalExpr K) := do
  let a ← node p.1
  let b ← node p.2
  pure (.combine (.known op) a b)

theorem endsInNumber_take {i : Nat} (h0 : i ≠ 0) (hi : i - 1 < ls.length) :
    endsInNumber (ls.take i) = endsInNumber [ls[i - 1]] := by
  rw [endsInNumber, List.getLast?_take, if_neg h0, List.getElem?_eq_getElem hi, Option.some_or]
  rfl

omit [Scalar K] in
theorem additive_eq (node : List Lexeme → Rule K (SignalExpr K)) (h : ls ≠ []) (sign : Lexeme)
    (op : Operator) :
    additive node ls sign op = firstOf (joinedBy node op) (additiveSplits sign ls) := by
  obtain ⟨head, tail, rfl⟩ := List.exists_cons_of_ne_nil h
  have hhead : (entry (head :: tail) 0 : Rule K Lexeme) = pure head :=
    entry_natCast _ (i := 0) rfl
  rw [additive, hhead, pure_bind, additiveSplits, List.head?_cons]
  by_cases hs : head = sign
  · rw [guard_bind_of_neg (fun h => h hs), if_pos (congrArg some hs)]
    rfl
  · rw [guard_bind_of_pos hs, if_neg (mt Option.some.inj hs), firstOf_filter,
      splits_eq_map_places, ← List.map_reverse, firstOf_map]
    refine firstOf_congr fun i hi => ?_
    have hlt := (List.getElem?_eq_some_iff.1 (mem_places.1 (List.mem_reverse.1 hi)).2).1
    rcases Nat.eq_zero_or_pos i with rfl | h0
    · exact guard_bind_of_neg (fun h => h rfl) _
    · have hprev : i - 1 < (head :: tail).length := by omega
      have hentry : (entry (head :: tail) ((i : Int) - 1) : Rule K Lexeme) =
          pure (head :: tail)[i - 1] := by
        have hcast : ((i : Int) - 1) = ((i - 1 : Nat) : Int) := by omega
        rw [hcast]
        exact entry_natCast _ (List.getElem?_eq_getElem hprev)
      have htake : (head :: tail).take i ≠ [] := by
        rw [← List.length_pos_iff, List.length_take]
        omega
      rw [guard_bind_of_pos (Nat.ne_of_gt h0), hentry, pure_bind, decide_eq_true htake,
        Bool.true_and, endsInNumber_take (Nat.ne_of_gt h0) hprev]
      cases (head :: tail)[i - 1] <;> rfl

theorem node_zero (h : ls ≠ []) : (node 0 ls : Rule K (SignalExpr K)) = tooDeep := by
  obtain ⟨head, tail, rfl⟩ := List.exists_cons_of_ne_nil h
  rfl

/-- One level of the parser, over splits. -/
theorem node_succ (levels : Nat) (h : ls ≠ []) :
    (node (levels + 1) ls : Rule K (SignalExpr K)) =
      ((firstOf (joinedBy (node levels) .add) (additiveSplits .plus ls) <|>
        firstOf (joinedBy (node levels) .subtract) (additiveSplits .minus ls) <|>
        firstOf (joinedBy (node levels) .multiply) (splits .star ls)) <|>
        of (call? ls) <|> of (simple? ls)) := by
  rw [← additive_eq _ h, ← additive_eq _ h, splits_eq_map_places, firstOf_map, ← call_eq,
    ← simple_eq]
  obtain ⟨head, tail, rfl⟩ := List.exists_cons_of_ne_nil h
  rfl

/-! ## As many levels as operators -/

/-- Whether a list can be cut at a lexeme. -/
def isOperator : Lexeme → Bool
  | .plus | .minus | .star => true
  | _ => false

/-- The number of operators outside brackets, when `depth` brackets are open in front. -/
def operatorsFrom (depth : Int) : List Lexeme → Nat
  | [] => 0
  | x :: xs => (if Bracket.depthOf depth x = 0 ∧ isOperator x then 1 else 0) +
      operatorsFrom (Bracket.depthBehind depth x) xs

/-- The number of operators outside brackets. -/
def operators (ls : List Lexeme) : Nat := operatorsFrom 0 ls

omit [Scalar K] in
/-- Each operator of a list is on one of the sides of a split, or the list is split at it. -/
theorem operatorsFrom_of_mem_splitsFrom {depth : Int} {op : Operator}
    {p : List Lexeme × List Lexeme} (h : p ∈ splitsFrom depth op.lexeme ls) :
    operatorsFrom depth ls = operatorsFrom depth p.1 + (1 + operatorsFrom 0 p.2) := by
  induction ls generalizing depth p with
  | nil => cases h
  | cons x xs ih =>
    rcases List.mem_append.1 h with h | h
    · split at h
      · rename_i hx
        rw [List.mem_singleton.1 h]
        obtain ⟨hdepth, rfl⟩ := hx
        have hop : isOperator op.lexeme = true := by cases op <;> rfl
        have hbracket : op.lexeme.isBracket = false := by cases op <;> rfl
        rw [Bracket.depthOf_of_isBracket hbracket] at hdepth
        change operatorsFrom depth (op.lexeme :: xs) = 0 + (1 + operatorsFrom 0 xs)
        rw [operatorsFrom, Bracket.depthOf_of_isBracket hbracket,
          Bracket.depthBehind_of_isBracket hbracket, if_pos ⟨hdepth, hop⟩, hdepth, Nat.zero_add]
      · cases h
    · obtain ⟨q, hq, rfl⟩ := List.mem_map.1 h
      rw [operatorsFrom, operatorsFrom, ih hq, Nat.add_assoc]

omit [Scalar K] in
/-- Both sides of a split have fewer operators than the whole. -/
theorem operators_of_mem_splits {op : Operator} {p : List Lexeme × List Lexeme}
    (h : p ∈ splits op.lexeme ls) :
    operators p.1 < operators ls ∧ operators p.2 < operators ls := by
  have hcount : operators ls = operators p.1 + (1 + operators p.2) :=
    operatorsFrom_of_mem_splitsFrom h
  omega

/-! ## Any number of levels -/

/-- A rule for each number of levels comes to one result from `n` levels on, or finds the stack
too small with `n`, which is less than a bound. -/
def Settles (rule : Nat → Rule K α) (n bound : Nat) : Prop :=
  (∃ result, ∀ m, n ≤ m → rule m = of result) ∨ rule n = tooDeep ∧ n < bound

namespace Settles

variable {rule : Nat → Rule K α} {n bound : Nat}

omit [Scalar K]

theorem const (a : Option α) : Settles (fun _ => (of a : Rule K α)) n bound :=
  .inl ⟨a, fun _ _ => rfl⟩

theorem pure (a : α) : Settles (fun _ => (Pure.pure a : Rule K α)) n bound := const (some a)

theorem mono (h : Settles rule n bound) {larger : Nat} (hb : bound ≤ larger) :
    Settles rule n larger := h.imp_right fun h => ⟨h.1, Nat.lt_of_lt_of_le h.2 hb⟩

theorem bind {next : α → Nat → Rule K β} (h : Settles rule n bound)
    (hn : ∀ a, Settles (next a) n bound) :
    Settles (fun m => rule m >>= fun a => next a m) n bound := by
  have hrule {m : Nat} {r : Rule K α} (hm : rule m = r) :
      (rule m >>= fun a => next a m) = (r >>= fun a => next a m) := by rw [hm]
  rcases h with ⟨_ | a, h⟩ | ⟨h, hlt⟩
  · exact .inl ⟨none, fun m hm => hrule (h m hm)⟩
  · rcases hn a with ⟨result, hnext⟩ | ⟨hnext, hlt⟩
    · exact .inl ⟨result, fun m hm => (hrule (h m hm)).trans (hnext m hm)⟩
    · exact .inr ⟨(hrule (h n (Nat.le_refl n))).trans hnext, hlt⟩
  · exact .inr ⟨hrule h, hlt⟩

theorem orElse {other : Nat → Rule K α} (h : Settles rule n bound)
    (ho : Settles other n bound) : Settles (fun m => rule m <|> other m) n bound := by
  have hrule {m : Nat} {r : Rule K α} (hm : rule m = r) :
      (rule m <|> other m) = (r <|> other m) := by rw [hm]
  rcases h with ⟨_ | a, h⟩ | ⟨h, hlt⟩
  · rcases ho with ⟨result, ho⟩ | ⟨ho, hlt⟩
    · exact .inl ⟨result, fun m hm => (hrule (h m hm)).trans (ho m hm)⟩
    · exact .inr ⟨(hrule (h n (Nat.le_refl n))).trans ho, hlt⟩
  · exact .inl ⟨some a, fun m hm => hrule (h m hm)⟩
  · exact .inr ⟨hrule h, hlt⟩

theorem firstOf {γ : Type} {rule : γ → Nat → Rule K α} {as : List γ}
    (h : ∀ a ∈ as, Settles (rule a) n bound) :
    Settles (fun m => Parser.firstOf (fun a => rule a m) as) n bound := by
  induction as with
  | nil => exact const none
  | cons a as ih =>
    exact (h a List.mem_cons_self).orElse (ih fun b hb => h b (List.mem_cons_of_mem a hb))

end Settles

/-- With any number of levels the parser settles on a result, unless the list has as many
operators. -/
theorem node_settles (n : Nat) (ls : List Lexeme) :
    Settles (fun m => (node m ls : Rule K (SignalExpr K))) n (operators ls + 1) := by
  have hnil (n : Nat) : Settles (fun m => (node m [] : Rule K (SignalExpr K))) n 1 :=
    .inl ⟨none, fun m _ => by cases m <;> rfl⟩
  -- on the levels: both sides of every split settle with one level less
  induction n generalizing ls with
  | zero =>
    cases ls with
    | nil => exact hnil 0
    | cons l ls => exact .inr ⟨rfl, Nat.succ_pos _⟩
  | succ n ih =>
    by_cases hne : ls = []
    · exact hne ▸ hnil (n + 1)
    have hjoined (op : Operator) (p : List Lexeme × List Lexeme) (hp : p ∈ splits op.lexeme ls) :
        Settles (fun m => joinedBy (K := K) (node m) op p) n (operators ls) := by
      obtain ⟨hleft, hright⟩ := operators_of_mem_splits hp
      exact ((ih p.1).mono hleft).bind fun a => ((ih p.2).mono hright).bind fun b => .pure _
    have hplus := Settles.firstOf fun p hp => hjoined .add p (mem_additiveSplits hp).1
    have hminus := Settles.firstOf fun p hp => hjoined .subtract p (mem_additiveSplits hp).1
    have hstar := Settles.firstOf fun p hp => hjoined .multiply p hp
    rcases (hplus.orElse (hminus.orElse hstar)).orElse
      ((Settles.const (call? ls)).orElse (.const (simple? ls))) with ⟨result, h⟩ | ⟨h, hlt⟩
    · refine .inl ⟨result, fun m hm => ?_⟩
      cases m with
      | zero => exact absurd hm (Nat.not_succ_le_zero n)
      | succ m => exact (node_succ m hne).trans (h m (Nat.le_of_succ_le_succ hm))
    · exact .inr ⟨(node_succ n hne).trans h, Nat.succ_lt_succ hlt⟩

/-- The tree of a list of lexemes, on a stack that has room for it. -/
def node? (ls : List Lexeme) : Option (SignalExpr K) := (node (operators ls + 1) ls).result

/-- Whatever the number of levels, the parser finds the tree of the list or that there is none,
unless its stack is too small, and then the list has as many operators as the stack has levels. -/
theorem node_cases (levels : Nat) (ls : List Lexeme) :
    (node levels ls : Rule K (SignalExpr K)) = of (node? ls) ∨
      (node levels ls : Rule K (SignalExpr K)) = tooDeep ∧ levels ≤ operators ls := by
  obtain ⟨found, hfound⟩ : ∃ found, ∀ m, operators ls + 1 ≤ m → node m ls = of (K := K) found :=
    (node_settles (operators ls + 1) ls).resolve_right fun h => Nat.lt_irrefl _ h.2
  have hnode : node? ls = found := congrArg Rule.result (hfound _ (Nat.le_refl _))
  rcases node_settles (K := K) levels ls with ⟨result, h⟩ | ⟨h, hlt⟩
  · have hlast := h _ (Nat.le_max_left levels (operators ls + 1))
    have hsame := of_injective (hlast.symm.trans (hfound _ (Nat.le_max_right _ _)))
    exact .inl ((h levels (Nat.le_refl _)).trans (congrArg of (hsame.trans hnode.symm)))
  · exact .inr ⟨h, Nat.le_of_lt_succ hlt⟩

theorem node_eq {levels : Nat} (h : operators ls < levels) :
    (node levels ls : Rule K (SignalExpr K)) = of (node? ls) :=
  (node_cases levels ls).resolve_right fun hd => Nat.not_le.2 h hd.2

/-- A result that is found does not depend on the number of levels. -/
theorem node?_of_node {levels : Nat} {result : Option (SignalExpr K)}
    (h : (node levels ls : Rule K (SignalExpr K)) = of result) : node? ls = result := by
  rcases node_cases (K := K) levels ls with hn | ⟨hn, -⟩
  · exact of_injective (hn.symm.trans h)
  · exact absurd (h.symm.trans hn) (of_ne_tooDeep _)

/-! ## Long sums -/

/-- The sum `n+n+...+n` with a number of operators. -/
def longSum : Nat → List Lexeme
  | 0 => [.time]
  | k + 1 => longSum k ++ [.plus, .time]

theorem longSum_ne_nil (k : Nat) : longSum k ≠ [] := by cases k <;> simp [longSum]

theorem mem_longSum {k : Nat} {l : Lexeme} (h : l ∈ longSum k) : l = .time ∨ l = .plus := by
  induction k with
  | zero => exact .inl (List.mem_singleton.1 h)
  | succ k ih =>
    rcases List.mem_append.1 h with h | h
    · exact ih h
    · simpa [or_comm] using h

theorem isEven_longSum (k : Nat) : IsEven (longSum k) := by
  induction k with
  | zero => exact fun _ => rfl
  | succ k ih => exact ih.append fun _ => rfl

theorem getLast?_longSum (k : Nat) : (longSum k).getLast? = some .time := by
  cases k with
  | zero => rfl
  | succ k =>
    rw [longSum, List.getLast?_append]
    rfl

theorem head?_longSum (k : Nat) : (longSum k).head? = some .time := by
  induction k with
  | zero => rfl
  | succ k ih => rw [longSum, List.head?_append, ih, Option.some_or]

/-- A long sum is cut at its last operator first. -/
theorem additiveSplits_longSum (k : Nat) :
    ∃ rest, additiveSplits .plus (longSum (k + 1)) = (longSum k, [.time]) :: rest := by
  have hlast : (splits .plus [.plus, .time]).map (fun p => (longSum k ++ p.1, p.2)) =
      [(longSum k, [.time])] := by
    change [(longSum k ++ [], [Lexeme.time])] = _
    rw [List.append_nil]
  have hkept : (longSum k ≠ [] && !endsInNumber (longSum k)) = true := by
    rw [endsInNumber, getLast?_longSum, decide_eq_true (longSum_ne_nil k)]
    rfl
  rw [additiveSplits, if_neg (by rw [head?_longSum]; exact nofun), longSum,
    splits_append (isEven_longSum k), hlast, List.reverse_append]
  exact ⟨_, List.filter_cons_of_pos hkept⟩

/-- A long sum has to be parsed on more levels than it has operators. -/
theorem node_longSum {levels k : Nat} (h : levels ≤ k) :
    (node levels (longSum k) : Rule K (SignalExpr K)) = tooDeep := by
  -- on the levels: the sum in front of the last operator is parsed one level further down
  induction levels generalizing k with
  | zero => exact node_zero (longSum_ne_nil k)
  | succ levels ih =>
    obtain ⟨k, rfl⟩ : ∃ j, k = j + 1 := ⟨k - 1, by omega⟩
    obtain ⟨rest, hrest⟩ := additiveSplits_longSum k
    rw [node_succ levels (longSum_ne_nil _), hrest, firstOf, joinedBy,
      ih (Nat.le_of_succ_le_succ h)]
    rfl

/-! ## The parser as a search -/

/-- The tree of an operator between the two sides of a split. -/
def joined (op : Operator) (p : List Lexeme × List Lexeme) : Option (SignalExpr K) :=
  (node? p.1).bind fun a => (node? p.2).map fun b => .combine (.known op) a b

theorem joined_eq_some {op : Operator} {p : List Lexeme × List Lexeme} {t : SignalExpr K} :
    joined op p = some t ↔
      ∃ a b, node? p.1 = some a ∧ node? p.2 = some b ∧ .combine (.known op) a b = t := by
  simp only [joined, Option.bind_eq_some_iff, Option.map_eq_some_iff]
  constructor
  · rintro ⟨a, ha, b, hb, h⟩
    exact ⟨a, b, ha, hb, h⟩
  · rintro ⟨a, b, ha, hb, h⟩
    exact ⟨a, ha, b, hb, h⟩

/-- The rules of the parser, over splits. -/
theorem node?_eq (ls : List Lexeme) : (node? ls : Option (SignalExpr K)) =
    ((additiveSplits .plus ls).findSome? (joined .add) <|>
      (additiveSplits .minus ls).findSome? (joined .subtract) <|>
      (splits .star ls).findSome? (joined .multiply) <|> call? ls <|> simple? ls) := by
  by_cases hne : ls = []
  · rw [hne]
    rfl
  · have hjoined (op : Operator) (p : List Lexeme × List Lexeme) (hp : p ∈ splits op.lexeme ls) :
        joinedBy (node (operators ls)) op p = of (joined (K := K) op p) := by
      obtain ⟨hleft, hright⟩ := operators_of_mem_splits hp
      rw [joinedBy, node_eq hleft, node_eq hright, joined]
      cases (node? p.1 : Option (SignalExpr K)) with
      | none => rfl
      | some a => cases (node? p.2 : Option (SignalExpr K)) <;> rfl
    have hplus : firstOf (joinedBy (node (operators ls)) .add) (additiveSplits .plus ls) =
        of ((additiveSplits .plus ls).findSome? (joined (K := K) .add)) :=
      firstOf_of fun p hp => hjoined .add p (mem_additiveSplits hp).1
    have hminus : firstOf (joinedBy (node (operators ls)) .subtract) (additiveSplits .minus ls) =
        of ((additiveSplits .minus ls).findSome? (joined (K := K) .subtract)) :=
      firstOf_of fun p hp => hjoined .subtract p (mem_additiveSplits hp).1
    have hstar : firstOf (joinedBy (node (operators ls)) .multiply) (splits .star ls) =
        of ((splits .star ls).findSome? (joined (K := K) .multiply)) :=
      firstOf_of fun p hp => hjoined .multiply p hp
    rw [node?, node_succ _ hne, hplus, hminus, hstar, of_orElse, of_orElse, of_orElse, of_orElse]
    simp only [Option.orElse_eq_orElse, Option.orElse_eq_or, Option.or_assoc]
    rfl

end SteppedConvolution.Parser
