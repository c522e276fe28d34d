/-! # Scalars

The numbers that grids, signals and convolutions are made of. All arithmetic of
the library is written over one class, so that the same definition runs on
binary floating point and is reasoned about over the rationals. The class
collects operations and assumes no laws.
-/

namespace SteppedConvolution

/-- Where a scalar lies among the integers after rounding. -/
inductive Whole where
  | exactly (value : Int)
  | above
  | below
  | undefined
  deriving DecidableEq, Repr

/-- Why a scalar has no integer part. -/
inductive NotWhole where
  | unbounded
  | undefined
  deriving DecidableEq, Repr

namespace Whole

/-- The integer, for callers that accept no infinity and no undefined value. -/
def toInt? : Whole → Except NotWhole Int
  | exactly k => .ok k
  | above | below => .error .unbounded
  | undefined => .error .undefined

/-- The nearest index of a table with `n` entries; an undefined value has none. -/
def clampBelow (n : Nat) : Whole → Option Nat
  | exactly k => some (min k.toNat (n - 1))
  | above => some (n - 1)
  | below => some 0
  | undefined => none

end Whole

/-- A scalar is the sum of a list, with the additions made in some order. -/
inductive IsSum {K : Type} [Zero K] [Add K] : List K → K → Prop
  | nil : IsSum [] 0
  | singleton (a : K) : IsSum [a] a
  | append {xs ys : List K} {a b : K} (ha : IsSum xs a) (hb : IsSum ys b) : IsSum (xs ++ ys) (a + b)
  | perm {xs ys : List K} {a : K} (h : xs.Perm ys) (ha : IsSum xs a) : IsSum ys a

/-- A way to add up lists. Where additions are rounded, sums depend on their order. -/
structure Summation (K : Type) [Zero K] [Add K] where
  total : List K → K
  isSum : ∀ xs, IsSum xs (total xs)

theorem IsSum.foldl {K : Type} [Zero K] [Add K] {xs : List K} {a : K} (h : IsSum xs a)
    (ys : List K) : IsSum (xs ++ ys) (ys.foldl (· + ·) a) := by
  induction ys generalizing xs a with
  | nil => simpa using h
  | cons b ys ih => simpa using ih (h.append (.singleton b))

/-- Addition from the left. -/
def Summation.fromLeft {K : Type} {_ : Zero K} {_ : Add K} : Summation K where
  total xs := xs.foldl (· + ·) 0
  isSum := IsSum.nil.foldl

/-- Numbers with the arithmetic, order, rounding and decimal reading that signals need. -/
class Scalar (K : Type) extends Zero K, One K, Add K, Sub K, Mul K, Div K, Neg K,
    LT K, LE K, BEq K where
  decideLt : DecidableLT K
  decideLe : DecidableLE K
  /-- The scalar that stands for a count. -/
  ofNat : Nat → K
  /-- `ofDecimal m e` is the scalar nearest to `m * 10 ^ e`. -/
  ofDecimal : Nat → Int → K
  /-- The scalar beyond all numbers, where there is one. -/
  infinity? : Option K
  /-- The scalar that is not a number, where there is one. -/
  undefined? : Option K
  magnitude : K → K
  /-- Whether the scalar carries a minus sign, which a zero may do. -/
  isNegative : K → Bool
  isUndefined : K → Bool
  isFinite : K → Bool
  /-- The greatest integer that is not larger. -/
  floor : K → Whole
  /-- The least integer that is not smaller. -/
  ceil : K → Whole
  /-- The closest integer; a tie goes to the even neighbour. -/
  nearest : K → Whole
  /-- The order in which products are added up. -/
  summation : Summation K

namespace Scalar

variable {K : Type} [Scalar K]

instance : DecidableLT K := decideLt
instance : DecidableLE K := decideLe

/-- The first argument unless the second is larger. -/
def larger (a b : K) : K := if a < b then b else a

/-- The first argument unless the second is smaller. -/
def smaller (a b : K) : K := if b < a then b else a

/-- The scalar that stands for an integer. -/
def ofInt (i : Int) : K := if i < 0 then -ofNat i.natAbs else ofNat i.natAbs

/-- Half of a scalar. -/
def half (a : K) : K := a / ofNat 2

/-- The sum of a list. -/
def sum (xs : List K) : K := (summation : Summation K).total xs

theorem isSum_sum (xs : List K) : IsSum xs (sum xs) := (summation : Summation K).isSum xs

/-- The larger of two scalars; an undefined one absorbs the other. -/
def joinPeak (a b : K) : K :=
  if isUndefined a then a else if isUndefined b then b else larger a b

/-- The largest magnitude in a list, 0 for the empty list. -/
def peak (xs : List K) : K := (xs.map magnitude).foldl joinPeak 0

/-- The integer between 0 and the scalar that is closest to the scalar. -/
def truncate (a : K) : Whole := if a < 0 then ceil a else floor a

end Scalar

end SteppedConvolution
