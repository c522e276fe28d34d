import Mathlib.Data.Int.Order.Basic
import SteppedConvolution.Proofs.Expression.Splits

/-! # Heights

The height at a place of a list of lexemes is the number of brackets open in front of it. The
depths of lexemes, whether brackets come in pairs, and where the bracket closes that is open at a
place are all said by heights alone.
-/

namespace SteppedConvolution.Bracket

theorem depthBehind_eq_add (depth : Int) (x : Lexeme) :
    depthBehind depth x = depth + depthBehind 0 x := by
  cases x <;> simp [depthBehind, Int.sub_eq_add_neg]

theorem depthAfter_eq_add (depth : Int) (ls : List Lexeme) :
    depthAfter depth ls = depth + depthAfter 0 ls := by
  induction ls generalizing depth with
  | nil => exact (Int.add_zero depth).symm
  | cons x xs ih =>
    calc depthAfter depth (x :: xs)
        = depthBehind depth x + depthAfter 0 xs := ih _
      _ = depth + (depthBehind 0 x + depthAfter 0 xs) := by rw [depthBehind_eq_add, Int.add_assoc]
      _ = depth + depthAfter 0 (x :: xs) := congrArg (depth + ·) (ih _).symm

/-- The number of brackets that are open in front of a place. -/
def height (ls : List Lexeme) (place : Nat) : Int := depthAfter 0 (ls.take place)

@[simp] theorem height_zero (ls : List Lexeme) : height ls 0 = 0 := rfl

@[simp] theorem height_nil (place : Nat) : height [] place = 0 := by simp [height, depthAfter]

@[simp] theorem height_cons_succ (x : Lexeme) (xs : List Lexeme) (place : Nat) :
    height (x :: xs) (place + 1) = depthBehind 0 x + height xs place :=
  depthAfter_eq_add (depthBehind 0 x) (xs.take place)

theorem height_length (ls : List Lexeme) :
    height ls ls.length = ls.count .opening - ls.count .closing := by
  induction ls with
  | nil => rfl
  | cons x xs ih =>
    rw [List.length_cons, height_cons_succ, ih]
    cases x <;> simp [depthBehind] <;> omega

theorem height_of_length_le {ls : List Lexeme} {place : Nat} (h : ls.length ≤ place) :
    height ls place = height ls ls.length := by
  rw [height, height, List.take_of_length_le h, List.take_length]

theorem height_take (ls : List Lexeme) (stop place : Nat) :
    height (ls.take stop) place = height ls (min place stop) := by
  rw [height, height, List.take_take]

/-- The heights behind a place count from the height there. -/
theorem height_add (ls : List Lexeme) (start place : Nat) :
    height ls (start + place) = height ls start + height (ls.drop start) place := by
  have happ : depthAfter 0 (ls.take start ++ (ls.drop start).take place) =
      depthAfter (height ls start) ((ls.drop start).take place) := List.foldl_append
  rw [height, List.take_add, happ, depthAfter_eq_add]
  rfl

/-! ## From one place to the next -/

section

variable {ls : List Lexeme} {place : Nat} {x : Lexeme}

theorem height_succ (h : ls[place]? = some x) :
    height ls (place + 1) = depthBehind (height ls place) x := by
  have htake : depthAfter 0 (ls.take place ++ [x]) = depthBehind (height ls place) x :=
    List.foldl_append
  rw [height, List.take_add_one, h]
  exact htake

theorem height_succ_of_opening (h : ls[place]? = some .opening) :
    height ls (place + 1) = height ls place + 1 := height_succ h

theorem height_succ_of_closing (h : ls[place]? = some .closing) :
    height ls (place + 1) = height ls place - 1 := height_succ h

theorem height_succ_of_isBracket (h : ls[place]? = some x) (hx : x.isBracket = false) :
    height ls (place + 1) = height ls place := by
  rw [height_succ h, depthBehind_of_isBracket hx]

/-- Heights change by at most one, up at an opening bracket and down at a closing one. -/
theorem height_succ_cases (ls : List Lexeme) (place : Nat) :
    ls[place]? = some .opening ∧ height ls (place + 1) = height ls place + 1 ∨
      ls[place]? = some .closing ∧ height ls (place + 1) = height ls place - 1 ∨
        height ls (place + 1) = height ls place := by
  cases h : ls[place]? with
  | none =>
    have hlength := List.getElem?_eq_none_iff.1 h
    rw [height_of_length_le hlength, height_of_length_le (Nat.le_succ_of_le hlength)]
    exact .inr (.inr rfl)
  | some x =>
    cases x with
    | opening => exact .inl ⟨rfl, height_succ h⟩
    | closing => exact .inr (.inl ⟨rfl, height_succ h⟩)
    | _ => exact .inr (.inr (height_succ h))

end

/-! ## Depths -/

theorem getElem?_depthsFrom (depth : Int) (ls : List Lexeme) (place : Nat) :
    (depthsFrom depth ls)[place]? = ls[place]?.map (depthOf (depth + height ls place)) := by
  induction ls generalizing depth place with
  | nil => rfl
  | cons x xs ih =>
    rw [depthsFrom_cons]
    cases place with
    | zero => simp
    | succ place =>
      rw [List.getElem?_cons_succ, ih, depthBehind_eq_add, List.getElem?_cons_succ,
        height_cons_succ, Int.add_assoc]

/-- The depth of a lexeme is the lower one of the heights on its two sides. -/
theorem getElem?_depths (ls : List Lexeme) (place : Nat) (d : Int) :
    (depths ls)[place]? = some d ↔
      place < ls.length ∧ min (height ls place) (height ls (place + 1)) = d := by
  rw [depths, getElem?_depthsFrom, Int.zero_add]
  cases hx : ls[place]? with
  | none =>
    have hlength := List.getElem?_eq_none_iff.1 hx
    exact iff_of_false (Option.some_ne_none d).symm fun h => Nat.not_lt.2 hlength h.1
  | some x =>
    have hmin : depthOf (height ls place) x = min (height ls place) (height ls (place + 1)) := by
      rw [height_succ hx]
      cases x <;> simp only [depthOf, depthBehind] <;> omega
    simp [(List.getElem?_eq_some_iff.1 hx).1, hmin]

theorem forall_depths_iff (ls : List Lexeme) :
    (∀ d ∈ depths ls, 0 ≤ d) ↔ ∀ place, 0 ≤ height ls place := by
  constructor
  · intro h place
    induction place with
    | zero => exact Int.le_refl 0
    | succ place ih =>
      by_cases hp : place < ls.length
      · have hmin := h _ (List.mem_of_getElem? ((getElem?_depths ls place _).2 ⟨hp, rfl⟩))
        exact le_trans hmin (min_le_right _ _)
      · rwa [height_of_length_le (by omega), ← height_of_length_le (Nat.not_lt.1 hp)]
  · intro h d hd
    obtain ⟨place, hplace⟩ := List.mem_iff_getElem?.1 hd
    obtain ⟨-, rfl⟩ := (getElem?_depths ls place d).1 hplace
    exact le_min (h place) (h (place + 1))

/-! ## Balanced lists -/

theorem isBalancedFrom_iff (depth : Nat) (ls : List Lexeme) :
    isBalancedFrom depth ls = true ↔
      (∀ place, 0 ≤ depth + height ls place) ∧ depth + height ls ls.length = 0 := by
  induction ls generalizing depth with
  | nil => simp [isBalancedFrom]
  | cons x xs ih =>
    -- what is known of the rest, when `next` brackets are open behind the first lexeme
    have hrest {next : Nat} (hnext : (next : Int) = depth + depthBehind 0 x) :
        isBalancedFrom next xs = true ↔ (∀ place, 0 ≤ depth + height (x :: xs) place) ∧
          depth + height (x :: xs) (xs.length + 1) = 0 := by
      have hall : (∀ place, 0 ≤ depth + height (x :: xs) place) ↔
          ∀ place, 0 ≤ next + height xs place := by
        rw [← Nat.and_forall_add_one]
        simp [hnext, Int.add_assoc]
      rw [ih, hall, height_cons_succ, hnext, Int.add_assoc]
    cases x with
    | opening => exact hrest rfl
    | closing =>
      cases depth with
      | zero =>
        refine iff_of_false Bool.false_ne_true fun h => ?_
        have hfirst := h.1 1
        simp [depthBehind] at hfirst
      | succ depth => exact hrest (by simp only [depthBehind]; omega)
    | _ => exact hrest (Int.add_zero _).symm

/-- Brackets come in pairs if no height is negative and the last one is zero. -/
theorem isBalanced_iff (ls : List Lexeme) :
    isBalanced ls = true ↔ (∀ place, 0 ≤ height ls place) ∧ height ls ls.length = 0 := by
  rw [isBalanced, isBalancedFrom_iff]
  simp

end SteppedConvolution.Bracket
