import SteppedConvolution.Numeral.Reading
import SteppedConvolution.Shaped.Basic

/-! # Numeric input

Numbers as a caller hands them over: single values or nested lists, with texts,
truth values and gaps among them. Only rectangular input made of numbers, with no
more dimensions than an array may have, has a numeric reading, which is an array.
-/

namespace SteppedConvolution

variable {K : Type}

/-- A value that is meant to be numeric. -/
inductive Input (K : Type) where
  | number (value : K)
  | text (content : String)
  | flag (value : Bool)
  | missing
  | foreign
  | list (items : List (Input K))

/-- Why an input has no numeric reading. -/
inductive NotNumeric where
  /-- Lists of different lengths side by side, lists nested too deep, or a text that is no
  number. -/
  | malformed
  /-- Something that can never be a number. -/
  | foreign
  deriving DecidableEq, Repr

namespace Input

/-- A one-dimensional list of numbers. -/
def ofList (xs : List K) : Input K := .list (xs.map .number)

mutual

/-- The lengths of the dimensions of a rectangular input. -/
def shape? : Input K → Option (List Nat)
  | .list items =>
    match itemShapes? items with
    | none => none
    | some [] => some [0]
    | some (s :: rest) => if rest.all (· = s) then some ((rest.length + 1) :: s) else none
  | _ => some []

/-- The shape of each item. -/
def itemShapes? : List (Input K) → Option (List (List Nat))
  | [] => some []
  | item :: items =>
    match shape? item, itemShapes? items with
    | some s, some rest => some (s :: rest)
    | _, _ => none

end

theorem itemShapes?_map_number (xs : List K) :
    itemShapes? (xs.map number) = some (xs.map fun _ => []) := by
  induction xs with
  | nil => rfl
  | cons a xs ih => simp [itemShapes?, shape?, ih]

theorem shape?_ofList (xs : List K) : (ofList xs).shape? = some [xs.length] := by
  cases xs with
  | nil => rfl
  | cons a xs => simp [ofList, shape?, itemShapes?, itemShapes?_map_number]

variable [Scalar K]

/-- The scalar in place of a gap or a text. -/
def orMalformed (value : Option K) : Except NotNumeric (List K) :=
  match value with
  | some k => .ok [k]
  | none => .error .malformed

mutual

/-- The numbers of an input in order; a gap is an undefined number. -/
def numbers : Input K → Except NotNumeric (List K)
  | .number k => .ok [k]
  | .text s => orMalformed ((Reading.ofText? s.toList).bind Reading.value?)
  | .flag b => .ok [if b then 1 else 0]
  | .missing => orMalformed Scalar.undefined?
  | .foreign => .error .foreign
  | .list items => itemNumbers items

/-- The numbers of all items in order. -/
def itemNumbers : List (Input K) → Except NotNumeric (List K)
  | [] => .ok []
  | item :: items =>
    match numbers item with
    | .error e => .error e
    | .ok ks =>
      match itemNumbers items with
      | .error e => .error e
      | .ok rest => .ok (ks ++ rest)

end

/-- The numeric reading of an input. -/
def shaped (input : Input K) : Except NotNumeric (Shaped K) :=
  match input.shape? with
  | none => .error .malformed
  | some shape =>
    if Shaped.rankLimit < shape.length then .error .malformed
    else input.numbers.map fun entries => ⟨shape, entries⟩

theorem itemNumbers_map_number (xs : List K) : itemNumbers (xs.map number) = .ok xs := by
  induction xs with
  | nil => rfl
  | cons a xs ih => simp [itemNumbers, numbers, ih]

/-- A list of numbers is read as an array of one dimension. -/
theorem shaped_ofList (xs : List K) : (ofList xs).shaped = .ok (Shaped.ofList xs) := by
  rw [shaped, shape?_ofList]
  simp [Shaped.rankLimit, ofList, numbers, itemNumbers_map_number, Except.map, Shaped.ofList]

end Input

end SteppedConvolution
