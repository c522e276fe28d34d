import SteppedConvolution.Proofs.Scalar.Exact
import SteppedConvolution.Proofs.Session.Opening
import SteppedConvolution.Proofs.TimeGrid.Admissible

/-! # Shifted grids

Adding one number to all positions of a grid keeps its steps, and the checks on a grid look at
nothing else. So every way of giving positions gives the shifted grid of shifted positions.
-/

namespace SteppedConvolution

namespace Positions

theorem steps_shift (c : Rat) (vs : List Rat) : steps (vs.map (· + c)) = steps vs := by
  unfold steps
  rw [← List.map_tail, List.zipWith_map]
  simp only [add_sub_add_right_eq_sub]

theorem defect?_shift (atol c : Rat) (vs : List Rat) :
    defect? atol (vs.map (· + c)) = defect? atol vs := by
  have hfinite : (vs.map (· + c)).all Scalar.isFinite = vs.all Scalar.isFinite := by
    rw [List.all_map]
    rfl
  unfold defect? hasDescent isUniform
  rw [steps_shift, hfinite]
  by_cases hn : vs = [] <;> simp [hn]

end Positions

namespace TimeGrid

/-- A grid with all its positions moved by `c`. -/
def shift (c : Rat) (g : TimeGrid Rat) : TimeGrid Rat where
  values := g.values.map (· + c)
  admissible := by
    obtain ⟨atol, h⟩ := g.admissible
    exact ⟨atol, (Positions.defect?_shift atol c g.values).trans h⟩

variable (c atol : Rat) (g : TimeGrid Rat)

@[simp] theorem values_shift : (g.shift c).values = g.values.map (· + c) := rfl

@[simp] theorem size_shift : (g.shift c).size = g.size := List.length_map _

@[simp] theorem start_shift : (g.shift c).start = g.start + c := List.head_map ..

@[simp] theorem stop_shift : (g.shift c).stop = g.stop + c := List.getLast_map ..

@[simp] theorem step_shift : (g.shift c).step = g.step := by
  simp only [step, size_shift, start_shift, stop_shift, add_sub_add_right_eq_sub]

theorem ofValues_shift (vs : List Rat) :
    ofValues atol (vs.map (· + c)) = (ofValues atol vs).map (shift c) := by
  have hd := Positions.defect?_shift atol c vs
  unfold ofValues
  split <;> split <;> simp_all [Except.map, shift]

theorem mapError_ofValues_shift {E : Type} (fault : GridDefect → E) (vs : List Rat) :
    (ofValues atol (vs.map (· + c))).mapError fault =
      ((ofValues atol vs).mapError fault).map (shift c) := by
  rw [ofValues_shift, mapError_map]

theorem ofShaped_shift (s : Shaped Rat) : ofShaped atol ⟨s.shape, s.entries.map (· + c)⟩ =
    (ofShaped atol s).map (shift c) := by
  unfold ofShaped Shaped.rank
  split
  · exact ofValues_shift c atol s.entries
  · rfl

end TimeGrid

/-! ## Shifted inputs -/

namespace Input

mutual

/-- An input with all its numbers moved by `c`. What stands for no number stays as it is. -/
def shift (c : Rat) : Input Rat → Input Rat
  | .number k => .number (k + c)
  | .text s =>
    match (Reading.ofText? s.toList).bind Reading.value? with
    | some k => .number (k + c)
    | none => .text s
  | .flag b => .number ((if b then 1 else 0) + c)
  | .missing => .missing
  | .foreign => .foreign
  | .list items => .list (shiftItems c items)

/-- Each item with all its numbers moved by `c`. -/
def shiftItems (c : Rat) : List (Input Rat) → List (Input Rat)
  | [] => []
  | item :: items => shift c item :: shiftItems c items

end

mutual

theorem shape?_shift (c : Rat) : (input : Input Rat) → (input.shift c).shape? = input.shape?
  | .number _ | .flag _ | .missing | .foreign => rfl
  | .text s => by
    rw [shift]
    split <;> rfl
  | .list items => by rw [shift, shape?, shape?, itemShapes?_shift c items]

theorem itemShapes?_shift (c : Rat) :
    (items : List (Input Rat)) → itemShapes? (shiftItems c items) = itemShapes? items
  | [] => rfl
  | item :: items => by
    rw [shiftItems, itemShapes?, itemShapes?, shape?_shift c item, itemShapes?_shift c items]

end

mutual

theorem numbers_shift (c : Rat) :
    (input : Input Rat) → (input.shift c).numbers = input.numbers.map (List.map (· + c))
  | .number _ | .flag _ | .missing | .foreign => rfl
  | .text s => by
    rw [shift, numbers]
    cases hr : (Reading.ofText? s.toList).bind (Reading.value? (K := Rat)) with
    | some k => rfl
    | none =>
      rw [numbers, hr]
      rfl
  | .list items => by rw [shift, numbers, numbers, itemNumbers_shift c items]

theorem itemNumbers_shift (c : Rat) : (items : List (Input Rat)) →
    itemNumbers (shiftItems c items) = (itemNumbers items).map (List.map (· + c))
  | [] => rfl
  | item :: items => by
    rw [shiftItems, itemNumbers, itemNumbers, numbers_shift c item, itemNumbers_shift c items]
    cases item.numbers with
    | error e => rfl
    | ok ks =>
      cases itemNumbers items with
      | error e => rfl
      | ok rest => simp [Except.map]

end

theorem shaped_shift (c : Rat) (input : Input Rat) : (input.shift c).shaped =
    input.shaped.map fun s => ⟨s.shape, s.entries.map (· + c)⟩ := by
  unfold shaped
  rw [shape?_shift, numbers_shift]
  split
  · rfl
  · split
    · rfl
    · cases input.numbers <;> rfl

end Input

namespace GridInput

/-- Positions as a caller gives them, moved by `c`. -/
def shift (c : Rat) : GridInput Rat → GridInput Rat
  | positions input => positions (input.shift c)
  | grid g => grid (g.shift c)

end GridInput

/-- The grid of shifted positions is shifted, and what is no grid is refused as it was. -/
theorem TimeGrid.ofInput_shift (atol c : Rat) (g : GridInput Rat) :
    ofInput atol (g.shift c) = (ofInput atol g).map (shift c) := by
  cases g with
  | grid g => rfl
  | positions input =>
    simp only [GridInput.shift, ofInput, Samples.shapedInput, Input.shaped_shift]
    cases input.shaped with
    | error e => rfl
    | ok s =>
      change ((ofShaped atol _).mapError fault) = ((ofShaped atol s).mapError fault).map (shift c)
      rw [ofShaped_shift, mapError_map]

end SteppedConvolution
