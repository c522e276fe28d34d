import Mathlib.Algebra.Order.Field.Rat
import Mathlib.Tactic.Ring
import SteppedConvolution.Expression.Evaluation
import SteppedConvolution.Proofs.Expression.Grammar
import SteppedConvolution.Proofs.Outcome
import SteppedConvolution.Scalar.Rational

/-! # Conventional values

The value of a sum, read in the conventional way: products bind tighter than the operators
between them, which are applied from the left, and a sign in front of a number belongs to
the number. The conventional tree of a sum has this value, at every time and whatever the
primitives and the powers stand for.
-/

namespace SteppedConvolution

/-! ## Values of trees -/

namespace SignalExpr

variable {K : Type} [Scalar K]

/-- The value of a tree at a time, for given meanings of the primitives and of powers. Vectors,
and names that stand for nothing, have none. -/
def valueAt (prim : Primitive → K → K) (pow : K → K → K) (n : K) : SignalExpr K → Option K
  | .time => some n
  | .constant c => some c
  | .power base => some (pow base n)
  | .apply (.known p) a => (a.valueAt prim pow n).map (prim p)
  | .combine (.known op) a b =>
    (a.valueAt prim pow n).bind fun v =>
      (b.valueAt prim pow n).map fun w => op.apply v w
  | _ => none

/-- A tree that has a value at every time is evaluated to its values. -/
theorem evaluate_of_valueAt {interpretation : Interpretation K} {width : K} {e : SignalExpr K}
    {f : K → K}
    (h : ∀ n, e.valueAt (Primitive.value interpretation width) interpretation.power n = some (f n))
    (positions : List K) :
    (e.evaluate interpretation width positions).outcome = .ok (positions.map f) := by
  unfold evaluate
  generalize onPositions (K := K) positions.length = lay
  induction e generalizing f with
  | vector entries => cases h 0
  | time =>
    have hf : f = id := funext fun n => (Option.some.inj (h n)).symm
    rw [hf, List.map_id]
    rfl
  | constant c =>
    have hf : f = fun _ => c := funext fun n => (Option.some.inj (h n)).symm
    rw [hf]
    rfl
  | power base =>
    have hf : f = interpretation.power base := funext fun n => (Option.some.inj (h n)).symm
    rw [hf]
    rfl
  | apply p a ih =>
    cases p with
    | unknown name => cases h 0
    | known p =>
      have ha (n : K) := Option.map_eq_some_iff.1 (h n)
      choose g hg hf using ha
      have hmap : positions.map f = (positions.map g).map (p.value interpretation width) := by
        rw [List.map_map]
        exact List.map_congr_left fun n _ => (hf n).symm
      rw [hmap]
      exact Logged.bind_eq_ok.2 ⟨_, ih hg, rfl⟩
  | combine op a b iha ihb =>
    cases op with
    | unknown name => cases h 0
    | known op =>
      have ha (n : K) := Option.bind_eq_some_iff.1 (h n)
      choose g hg hb using ha
      have hb (n : K) := Option.map_eq_some_iff.1 (hb n)
      choose k hk hf using hb
      have hmap : positions.map f = List.zipWith op.apply (positions.map g) (positions.map k) := by
        rw [List.zipWith_map, List.zipWith_self]
        exact List.map_congr_left fun n _ => (hf n).symm
      rw [hmap]
      exact Logged.bind_eq_ok.2 ⟨_, iha hg, Logged.bind_eq_ok.2 ⟨_, ihb hk, rfl⟩⟩
  | foreign content => cases h 0

end SignalExpr

/-! ## Values of readings -/

namespace Grammar

variable (prim : Primitive → Rat → Rat) (pow : Rat → Rat → Rat) (n : Rat)

def Argument.value : Argument → Rat
  | time => n
  | negated => -n
  | shifted .plus k => n + k.value
  | shifted .minus k => n - k.value
  | scaled sign c => Sign.value sign c * n
  | number sign c => Sign.value sign c

def Factor.value : Factor → Rat
  | time => n
  | number sign k => Sign.value sign k
  | power sign k => pow (Sign.value sign k) n
  | call f a => prim f (a.value n)
  | nested f g a => prim f (prim g (a.value n))

def Product.value (p : Product) : Rat := (p.parts.map (Factor.value prim pow n)).prod

/-- The value after a group, from the left: its first product is added, the others are
subtracted. -/
def Group.valueFrom (v : Rat) (g : Group) : Rat :=
  g.rest.foldl (fun v p => v - Product.value prim pow n p) (v + Product.value prim pow n g.first)

/-- The products of a sum, added and subtracted from the left. -/
def Sum.value (s : Sum) : Rat := s.parts.foldl (Group.valueFrom prim pow n) 0

theorem Argument.valueAt_tree (a : Argument) : a.tree.valueAt prim pow n = some (a.value n) := by
  cases a with
  | time => rfl
  | negated => exact congrArg some (neg_one_mul n)
  | shifted sign k => cases sign <;> rfl
  | scaled sign c => rfl
  | number sign c => rfl

theorem Factor.valueAt_tree (f : Factor) :
    f.tree.valueAt prim pow n = some (f.value prim pow n) := by
  cases f with
  | time => rfl
  | number sign k => rfl
  | power sign k => rfl
  | call f a => exact congrArg (Option.map (prim f)) (a.valueAt_tree prim pow n)
  | nested f g a =>
    exact congrArg (fun v => (v.map (prim g)).map (prim f)) (a.valueAt_tree prim pow n)

section

variable {prim pow n}

theorem valueAt_combine {op : Operator} {t u : SignalExpr Rat} {v w : Rat}
    (ht : t.valueAt prim pow n = some v) (hu : u.valueAt prim pow n = some w) :
    (SignalExpr.combine (.known op) t u).valueAt prim pow n = some (op.apply v w) := by
  simp [SignalExpr.valueAt, ht, hu]

end

theorem Product.valueAt_tree (p : Product) :
    (Product.tree p).valueAt prim pow n = some (Product.value prim pow n p) := by
  rcases p with ⟨a, bs⟩
  induction bs generalizing a with
  | nil => simpa [tree, treeFrom, value, Chain.parts] using a.valueAt_tree prim pow n
  | cons b bs ih => exact valueAt_combine (a.valueAt_tree prim pow n) (ih b)

theorem Group.valueFrom_eq_add (v : Rat) (g : Group) :
    Group.valueFrom prim pow n v g = v + Group.valueFrom prim pow n 0 g := by
  have hshift (ps : List Product) (w : Rat) :
      ps.foldl (fun v p => v - Product.value prim pow n p) (v + w) =
        v + ps.foldl (fun v p => v - Product.value prim pow n p) w := by
    induction ps generalizing w with
    | nil => rfl
    | cons p ps ih => rw [List.foldl_cons, List.foldl_cons, add_sub_assoc, ih]
  rw [valueFrom, valueFrom, zero_add, hshift]

theorem Group.valueAt_tree (g : Group) :
    (Group.tree g).valueAt prim pow n = some (Group.valueFrom prim pow n 0 g) := by
  have hfold (ps : List Product) (t : SignalExpr Rat) (v : Rat)
      (ht : t.valueAt prim pow n = some v) :
      (ps.foldl (fun t p => .minus t (Product.tree p)) t).valueAt prim pow n =
        some (ps.foldl (fun v p => v - Product.value prim pow n p) v) := by
    induction ps generalizing t v with
    | nil => exact ht
    | cons p ps ih => exact ih _ _ (valueAt_combine ht (p.valueAt_tree prim pow n))
  rw [valueFrom, zero_add]
  exact hfold g.rest _ _ (Product.valueAt_tree prim pow n g.first)

/-- The conventional tree of a sum has its conventional value. -/
theorem Sum.valueAt_tree (s : Sum) :
    (Sum.tree s).valueAt prim pow n = some (Sum.value prim pow n s) := by
  have hfold (gs : List Group) (t : SignalExpr Rat) (v : Rat)
      (ht : t.valueAt prim pow n = some v) :
      (gs.foldl (fun t g => .plus t (Group.tree g)) t).valueAt prim pow n =
        some (gs.foldl (Group.valueFrom prim pow n) v) := by
    induction gs generalizing t v with
    | nil => exact ht
    | cons g gs ih =>
      apply ih
      rw [Group.valueFrom_eq_add]
      exact valueAt_combine ht (Group.valueAt_tree prim pow n g)
  exact hfold s.rest _ _ (Group.valueAt_tree prim pow n s.first)

end Grammar

end SteppedConvolution
