import SteppedConvolution.Decimal.Layout

/-! # Shortest decimal of a double

The fewest digits that read back to the same double, and of those the closest.
A decimal reads back when it lies between the midpoints to the neighbouring
doubles; a midpoint itself belongs to the double with the even significand.
All comparisons are between natural numbers.
-/

namespace SteppedConvolution.Decimal

/-- The closest `n`-digit decimal that reads back to `m * 2 ^ q`, if there is one. The
interval of a double reaches half a unit to both sides, and a quarter below a power of two. -/
def readingBack? (m : Nat) (q : Int) (n : Nat) : Option Expansion :=
  let leading := leadingExponent (m * Nat.pow 2 q.toNat) (Nat.pow 2 (-q).toNat)
  let unit := leading - (n - 1)
  let binary := Nat.pow 2 (q - 2).toNat * Nat.pow 10 (-unit).toNat
  let decimal := Nat.pow 2 (2 - q).toNat * Nat.pow 10 unit.toNat
  let exact := 4 * m * binary
  let low := (4 * m - (if m = Nat.pow 2 52 ∧ -1074 < q then 1 else 2)) * binary
  let high := (4 * m + 2) * binary
  let inside (k : Nat) : Bool :=
    if m % 2 = 0 then decide (low ≤ k * decimal ∧ k * decimal ≤ high)
    else decide (low < k * decimal ∧ k * decimal < high)
  let below := exact / decimal
  let above := below + 1
  match inside below, inside above with
  | false, false => none
  | true, false => some (.ofCount below unit)
  | false, true => some (.ofCount above unit)
  | true, true =>
    let down := exact - below * decimal
    let up := above * decimal - exact
    if down < up ∨ down = up ∧ below % 2 = 0 then some (.ofCount below unit)
    else some (.ofCount above unit)

/-- The shortest expansion that reads back to `m * 2 ^ q`; seventeen digits always do. -/
def shortest (m : Nat) (q : Int) : Expansion :=
  match (List.range 17).findSome? fun n => readingBack? m q (n + 1) with
  | some d => d.trimmed
  | none =>
    (Expansion.ofQuotient 17 (m * Nat.pow 2 q.toNat) (Nat.pow 2 (-q).toNat)).trimmed

/-- The shortest text of a double: positional from `10 ^ (-4)` up to `10 ^ 16`, where a whole
number keeps one zero behind the point. -/
def shortestText (m : Nat) (q : Int) : List Char :=
  if m = 0 then ['0', '.', '0']
  else
    let d := shortest m q
    if -4 ≤ d.exponent ∧ d.exponent < 16 then
      if d.digits.length ≤ d.exponent + 1 then d.positional ++ ['.', '0'] else d.positional
    else d.scientific

end SteppedConvolution.Decimal
