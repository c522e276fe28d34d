import SteppedConvolution.Expression.Parser

/-! # Rules as patterns

The rules for calls and simple terms look lexemes up by index, behind a check of the length. No
look-up fails, so each rule says what lists of a certain shape stand for, and no more.
-/

namespace SteppedConvolution.Parser

variable {K α β : Type}

namespace Rule

/-- The rule that comes to a result, or to none, without a fault. -/
def of (result : Option α) : Rule K α := OptionT.mk (.ok result)

theorem failure_orElse (r : Rule K α) : (failure <|> r) = r := rfl

theorem guard_bind_of_pos {p : Prop} [Decidable p] (h : p) (f : Unit → Rule K α) :
    (guard p >>= f) = f () := by
  change ((if p then pure () else failure : Rule K Unit) >>= f) = f ()
  rw [if_pos h]
  rfl

theorem guard_bind_of_neg {p : Prop} [Decidable p] (h : ¬ p) (f : Unit → Rule K α) :
    (guard p >>= f) = failure := by
  change ((if p then pure () else failure : Rule K Unit) >>= f) = failure
  rw [if_neg h]
  rfl

theorem of_orElse (a b : Option α) : (of a <|> of b : Rule K α) = of (a <|> b) := by
  cases a <;> rfl

theorem of_bind_pure (a : Option α) (f : α → β) :
    (of a >>= fun x => pure (f x) : Rule K β) = of (a.map f) := by
  cases a <;> rfl

theorem of_injective : Function.Injective (of : Option α → Rule K α) :=
  fun _ _ h => Except.ok.inj h

end Rule

open Rule

/-! ## Look-ups -/

theorem entry_natCast (ls : List Lexeme) {i : Nat} {l : Lexeme} (h : ls[i]? = some l) :
    (entry ls i : Rule K Lexeme) = pure l := by
  have hplace : Indexing.place? ls.length i = some i := by
    have := (List.getElem?_eq_some_iff.1 h).1
    rw [Indexing.place?, if_pos (Int.natCast_nonneg i), Int.toNat_natCast, if_pos this]
  rw [entry, Indexing.entryAt?, hplace, Option.bind_some, h]
  rfl

/-- A negative index counts from the end. -/
theorem entry_reverse (ls : List Lexeme) {i : Nat} {l : Lexeme} (h : ls[i]? = some l) :
    (entry ls.reverse (-(i + 1)) : Rule K Lexeme) = pure l := by
  have hi := (List.getElem?_eq_some_iff.1 h).1
  have hplace : Indexing.place? ls.reverse.length (-(i + 1)) = some (ls.length - 1 - i) := by
    rw [List.length_reverse, Indexing.place?, if_neg (by omega), if_pos (by omega)]
    exact congrArg some (by omega)
  have hentry : ls.reverse[ls.length - 1 - i]? = some l := by
    rw [List.getElem?_reverse (by omega), ← h]
    congr 1
    omega
  rw [entry, Indexing.entryAt?, hplace, Option.bind_some, hentry]
  rfl

theorem take_reverse (x y : Lexeme) (ls : List Lexeme) :
    (y :: x :: ls).reverse.take ((y :: x :: ls).reverse.length - 2) = ls.reverse := by
  simp

/-! ## Numbers and terms -/

variable [Scalar K]

/-- The value of a number with or without a sign, if a list is one. -/
def signedNumber? : List Lexeme → Option K
  | [.number n] => some n.value
  | [.plus, .number n] => some (signedValue .plus n)
  | [.minus, .number n] => some (signedValue .minus n)
  | _ => none

theorem signedNumber_eq (ls : List Lexeme) :
    (signedNumber ls : Rule K K) = of (signedNumber? ls) := by
  match ls with
  | [] => rfl
  | [l] => cases l <;> rfl
  | [l, m] => cases l <;> first | rfl | (cases m <;> rfl)
  | l :: m :: k :: ls =>
    have hnone : (signedNumber? (l :: m :: k :: ls) : Option K) = none := by
      cases l <;> first | rfl | (cases m <;> rfl)
    have hone : ¬ (l :: m :: k :: ls).length = 1 := by simp
    have htwo : ¬ (l :: m :: k :: ls).length = 2 := by simp
    rw [hnone, signedNumber, guard_bind_of_neg hone, guard_bind_of_neg htwo]
    rfl

/-- The constant that a list stands for. -/
def constant? (ls : List Lexeme) : Option (SignalExpr K) := (signedNumber? ls).map .constant

theorem constant_eq (ls : List Lexeme) :
    (constant ls : Rule K (SignalExpr K)) = of (constant? ls) := by
  rw [constant, signedNumber_eq]
  exact of_bind_pure _ _

/-- The variable, if a list stands for it. -/
def bareTime? : List Lexeme → Option (SignalExpr K)
  | [.time] => some .time
  | _ => none

omit [Scalar K] in
theorem bareTime_eq (ls : List Lexeme) :
    (bareTime ls : Rule K (SignalExpr K)) = of (bareTime? ls) := by
  match ls with
  | [] => rfl
  | [l] => cases l <;> rfl
  | l :: m :: ls =>
    have hnone : (bareTime? (l :: m :: ls) : Option (SignalExpr K)) = none := by cases l <;> rfl
    have hone : ¬ (l :: m :: ls).length = 1 := by simp
    rw [hnone, bareTime, guard_bind_of_neg hone]
    rfl

/-- What `-n` stands for. -/
def negatedTime? : List Lexeme → Option (SignalExpr K)
  | [.minus, .time] => some (.times (.constant (-1)) .time)
  | _ => none

theorem negatedTime_eq (ls : List Lexeme) :
    (negatedTime ls : Rule K (SignalExpr K)) = of (negatedTime? ls) := by
  match ls with
  | [] => rfl
  | [l] => cases l <;> rfl
  | [l, m] => cases l <;> first | rfl | (cases m <;> rfl)
  | l :: m :: k :: ls =>
    have hnone : (negatedTime? (l :: m :: k :: ls) : Option (SignalExpr K)) = none := by
      cases l <;> first | rfl | (cases m <;> rfl)
    have htwo : ¬ (l :: m :: k :: ls).length = 2 := by simp
    rw [hnone, negatedTime, guard_bind_of_neg htwo]
    rfl

/-- What `n+k` and `n-k` stand for. -/
def shiftedTime? : List Lexeme → Option (SignalExpr K)
  | [.time, .plus, .number k] => some (.plus .time (.constant k.value))
  | [.time, .minus, .number k] => some (.minus .time (.constant k.value))
  | _ => none

theorem shiftedTime_eq (ls : List Lexeme) :
    (shiftedTime ls : Rule K (SignalExpr K)) = of (shiftedTime? ls) := by
  match ls with
  | [] => rfl
  | [l] => cases l <;> rfl
  | [l, m] => cases l <;> first | rfl | (cases m <;> rfl)
  | [l, m, k] => cases l <;> first | rfl | (cases m <;> first | rfl | (cases k <;> rfl))
  | l :: m :: k :: j :: ls =>
    have hnone : (shiftedTime? (l :: m :: k :: j :: ls) : Option (SignalExpr K)) = none := by
      cases l <;> first | rfl | (cases m <;> first | rfl | (cases k <;> rfl))
    have hthree : ¬ (l :: m :: k :: j :: ls).length = 3 := by simp
    rw [hnone, shiftedTime, guard_bind_of_neg hthree]
    rfl

/-- What a number in front of `*n` stands for, in a list from its end. -/
def scaledTimeFromEnd? : List Lexeme → Option (SignalExpr K)
  | .time :: .star :: ls => (signedNumber? ls.reverse).map fun c => .times (.constant c) .time
  | _ => none

/-- What a number in front of `*n` or `^n` stands for, in a list from its end. -/
def timeTermFromEnd? : List Lexeme → Option (SignalExpr K)
  | .time :: .star :: ls => (signedNumber? ls.reverse).map fun c => .times (.constant c) .time
  | .time :: .caret :: ls => (signedNumber? ls.reverse).map .power
  | _ => none

theorem scaledTime_reverse (ls : List Lexeme) :
    (scaledTime ls.reverse : Rule K (SignalExpr K)) = of (scaledTimeFromEnd? ls) := by
  match ls with
  | [] => rfl
  | [l] => cases l <;> rfl
  | [l, m] => cases l <;> first | rfl | (cases m <;> rfl)
  | l :: m :: k :: ls =>
    have hthree : 3 ≤ (l :: m :: k :: ls).reverse.length := by simp
    have hlast : (entry (l :: m :: k :: ls).reverse (-1) : Rule K Lexeme) = pure l :=
      entry_reverse _ (i := 0) rfl
    have hbefore : (entry (l :: m :: k :: ls).reverse (-2) : Rule K Lexeme) = pure m :=
      entry_reverse _ (i := 1) rfl
    rw [scaledTime, guard_bind_of_pos hthree, hlast, hbefore, take_reverse, signedNumber_eq,
      pure_bind, pure_bind]
    cases m
    case star =>
      cases l
      case time => exact of_bind_pure _ _
      all_goals rfl
    all_goals cases l <;> rfl

theorem timeTerm_reverse (ls : List Lexeme) :
    (timeTerm ls.reverse : Rule K (SignalExpr K)) = of (timeTermFromEnd? ls) := by
  match ls with
  | [] => rfl
  | [l] => cases l <;> rfl
  | [l, m] => cases l <;> first | rfl | (cases m <;> rfl)
  | l :: m :: k :: ls =>
    have hthree : 3 ≤ (l :: m :: k :: ls).reverse.length := by simp
    have hlast : (entry (l :: m :: k :: ls).reverse (-1) : Rule K Lexeme) = pure l :=
      entry_reverse _ (i := 0) rfl
    have hbefore : (entry (l :: m :: k :: ls).reverse (-2) : Rule K Lexeme) = pure m :=
      entry_reverse _ (i := 1) rfl
    rw [timeTerm, guard_bind_of_pos hthree, hlast, hbefore, take_reverse, signedNumber_eq,
      pure_bind]
    cases l
    case time =>
      cases m
      case star | caret => exact of_bind_pure _ _
      all_goals cases signedNumber? (K := K) (k :: ls).reverse <;> rfl
    all_goals rfl

/-- What `c*n` stands for. -/
def scaledTime? : List Lexeme → Option (SignalExpr K)
  | [.number c, .star, .time] => some (.times (.constant c.value) .time)
  | [.plus, .number c, .star, .time] => some (.times (.constant (signedValue .plus c)) .time)
  | [.minus, .number c, .star, .time] => some (.times (.constant (signedValue .minus c)) .time)
  | _ => none

/-- What `c*n` and `c^n` stand for. -/
def timeTerm? : List Lexeme → Option (SignalExpr K)
  | [.number c, .star, .time] => some (.times (.constant c.value) .time)
  | [.plus, .number c, .star, .time] => some (.times (.constant (signedValue .plus c)) .time)
  | [.minus, .number c, .star, .time] => some (.times (.constant (signedValue .minus c)) .time)
  | [.number c, .caret, .time] => some (.power c.value)
  | [.plus, .number c, .caret, .time] => some (.power (signedValue .plus c))
  | [.minus, .number c, .caret, .time] => some (.power (signedValue .minus c))
  | _ => none

/-- A list whose end is a number, with a sign or without. -/
theorem eq_of_signedNumber? {ls : List Lexeme} {c : K} (h : signedNumber? ls.reverse = some c) :
    ∃ n, ls = [.number n] ∧ c = n.value ∨ ls = [.number n, .plus] ∧ c = signedValue .plus n ∨
      ls = [.number n, .minus] ∧ c = signedValue .minus n := by
  unfold signedNumber? at h
  split at h <;> cases h <;> rename_i n hls
  · exact ⟨n, .inl ⟨List.reverse_eq_iff.1 hls, rfl⟩⟩
  · exact ⟨n, .inr (.inl ⟨List.reverse_eq_iff.1 hls, rfl⟩)⟩
  · exact ⟨n, .inr (.inr ⟨List.reverse_eq_iff.1 hls, rfl⟩)⟩

theorem scaledTimeFromEnd?_eq (ls : List Lexeme) :
    (scaledTimeFromEnd? ls : Option (SignalExpr K)) = scaledTime? ls.reverse := by
  ext t
  constructor
  · intro h
    unfold scaledTimeFromEnd? at h
    split at h
    · obtain ⟨c, hc, rfl⟩ := Option.map_eq_some_iff.1 h
      obtain ⟨n, ⟨rfl, rfl⟩ | ⟨rfl, rfl⟩ | ⟨rfl, rfl⟩⟩ := eq_of_signedNumber? hc <;> rfl
    · cases h
  · intro h
    unfold scaledTime? at h
    split at h
    case h_4 => cases h
    all_goals
      rename_i hls
      rw [List.reverse_eq_iff.1 hls]
      exact h

theorem timeTermFromEnd?_eq (ls : List Lexeme) :
    (timeTermFromEnd? ls : Option (SignalExpr K)) = timeTerm? ls.reverse := by
  ext t
  constructor
  · intro h
    unfold timeTermFromEnd? at h
    split at h
    case h_3 => cases h
    all_goals
      obtain ⟨c, hc, rfl⟩ := Option.map_eq_some_iff.1 h
      obtain ⟨n, ⟨rfl, rfl⟩ | ⟨rfl, rfl⟩ | ⟨rfl, rfl⟩⟩ := eq_of_signedNumber? hc <;> rfl
  · intro h
    unfold timeTerm? at h
    split at h
    case h_7 => cases h
    all_goals
      rename_i hls
      rw [List.reverse_eq_iff.1 hls]
      exact h

/-- What the argument of a primitive stands for. -/
def argument? (ls : List Lexeme) : Option (SignalExpr K) :=
  bareTime? ls <|> negatedTime? ls <|> shiftedTime? ls <|> scaledTime? ls <|> constant? ls

theorem argument_eq (ls : List Lexeme) :
    (argument ls : Rule K (SignalExpr K)) = of (argument? ls) := by
  have hscaled := scaledTime_reverse (K := K) ls.reverse
  rw [scaledTimeFromEnd?_eq, List.reverse_reverse] at hscaled
  rw [argument, bareTime_eq, negatedTime_eq, shiftedTime_eq, hscaled, constant_eq, of_orElse,
    of_orElse, of_orElse, of_orElse]
  rfl

/-- What a simple term stands for. -/
def simple? (ls : List Lexeme) : Option (SignalExpr K) :=
  bareTime? ls <|> timeTerm? ls <|> constant? ls

theorem simple_eq (ls : List Lexeme) :
    (simple ls : Rule K (SignalExpr K)) = of (simple? ls) := by
  have hterm := timeTerm_reverse (K := K) ls.reverse
  rw [timeTermFromEnd?_eq, List.reverse_reverse] at hterm
  rw [simple, bareTime_eq, hterm, constant_eq, of_orElse, of_orElse]
  rfl

/-! ## Calls -/

/-- A primitive and what stands in the brackets behind it, where they span the whole list. -/
def callParts? : List Lexeme → Option (Primitive × List Lexeme)
  | .primitive p :: .opening :: rest =>
    if Bracket.matching? (.primitive p :: .opening :: rest) 1 = some (rest.length + 1) then
      some (p, rest.dropLast)
    else none
  | _ => none

omit [Scalar K] in
theorem callParts_eq (ls : List Lexeme) :
    (callParts ls : Rule K (Primitive × List Lexeme)) = of (callParts? ls) := by
  match ls with
  | [] => rfl
  | [l] => cases l <;> rfl
  | [l, m] => cases l <;> first | rfl | (cases m <;> rfl)
  | l :: m :: k :: ls =>
    have hthree : 3 ≤ (l :: m :: k :: ls).length := by simp
    have hfirst : (entry (l :: m :: k :: ls) 0 : Rule K Lexeme) = pure l :=
      entry_natCast _ (i := 0) rfl
    have hsecond : (entry (l :: m :: k :: ls) 1 : Rule K Lexeme) = pure m :=
      entry_natCast _ (i := 1) rfl
    rw [callParts, guard_bind_of_pos hthree, hfirst, hsecond, pure_bind, pure_bind]
    cases l
    case primitive p =>
      cases m
      case opening =>
        by_cases h : Bracket.matching? (.primitive p :: .opening :: k :: ls) 1 =
          some ((k :: ls).length + 1)
        · rw [callParts?, if_pos h]
          exact guard_bind_of_pos h _
        · rw [callParts?, if_neg h]
          exact guard_bind_of_neg h _
      all_goals rfl
    all_goals rfl

/-- What a call of a primitive stands for. -/
def call? (ls : List Lexeme) : Option (SignalExpr K) :=
  match callParts? ls with
  | none => none
  | some (outer, inner) =>
    match callParts? inner with
    | some (p, arg) => (argument? arg).map fun a => .call outer (.call p a)
    | none => (argument? inner).map fun a => .call outer a

theorem call_eq (ls : List Lexeme) : (call ls : Rule K (SignalExpr K)) = of (call? ls) := by
  rw [call, callParts_eq, call?]
  cases callParts? ls with
  | none => rfl
  | some outer =>
    obtain ⟨f, inner⟩ := outer
    change (optional (callParts inner) >>= _) = _
    rw [callParts_eq]
    cases hinner : callParts? inner with
    | none =>
      change (argument inner >>= _) = of _
      rw [argument_eq]
      simp only [hinner]
      exact of_bind_pure _ _
    | some parts =>
      obtain ⟨g, arg⟩ := parts
      change (argument arg >>= _) = of _
      rw [argument_eq]
      simp only [hinner]
      exact of_bind_pure _ _

end SteppedConvolution.Parser
