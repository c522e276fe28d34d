import SteppedConvolution.Shaped.Stretch

/-! # Lists as arrays

On arrays of one dimension the operations on rows are those on lists: gathering
looks entries up, a mask filters, stretching to the same length changes nothing,
and two arrays of the same length are combined by `List.zipWith`.
-/

namespace SteppedConvolution.Shaped

variable {K A B : Type}

theorem parts_one (xs : List K) : parts 1 xs.length xs = xs.map fun a => [a] := by
  induction xs with
  | nil => rfl
  | cons a xs ih => simp [parts, ih]

theorem flatten_map_singleton (xs : List K) : (xs.map fun a => [a]).flatten = xs := by
  rw [← List.flatMap_def, List.flatMap_singleton']

theorem mapM_map_singleton (look : A → Option K) (as : List A) :
    as.mapM (fun a => (look a).map fun k => [k]) =
      (as.mapM look).map fun ks => ks.map fun k => [k] := by
  induction as with
  | nil => rfl
  | cons a as ih =>
    rw [List.mapM_cons, List.mapM_cons, ih]
    cases look a with
    | none => rfl
    | some k => cases as.mapM look <;> rfl

/-- On lists, gathering looks entries up. -/
theorem gather?_ofList (xs : List K) (indices : List Nat) :
    (ofList xs).gather? (ofList indices) =
      (indices.mapM (xs[·]?)).map fun found => ⟨[indices.length], found⟩ := by
  have hr : ∀ i : Nat, (parts 1 xs.length xs).toArray[i]? = (xs[i]?).map fun k => [k] := by
    intro i
    simp [parts_one]
  have hv : volume [] = 1 := rfl
  simp only [gather?, ofList, hv, hr, rank, rankLimit, mapM_map_singleton]
  cases indices.mapM (xs[·]?) <;> simp [flatten_map_singleton]

theorem kept_parts_one (f : A → Bool) (as : List A) (xs : List K) :
    (((as.map f).zip (xs.map fun a => [a])).filter Prod.fst).map Prod.snd =
      (((as.zip xs).filter fun e => f e.1).map Prod.snd).map fun a => [a] := by
  induction as generalizing xs with
  | nil => simp
  | cons a as ih =>
    cases xs with
    | nil => simp
    | cons x xs => by_cases h : f a = true <;> simp [h, ih]

/-- A mask on a list keeps the entries at which it holds. -/
theorem select?_ofList (f : A → Bool) {as : List A} {xs : List K} (h : as.length = xs.length) :
    (ofList xs).select? ⟨[as.length], as.map f⟩ =
      some (ofList (((as.zip xs).filter fun e => f e.1).map Prod.snd)) := by
  have hk := kept_parts_one f as xs
  simp [select?, ofList, rank, rankLimit, volume, h, parts_one, hk, flatten_map_singleton,
    -List.map_map]

theorem select?_ofList_eq_none (f : A → Bool) {as : List A} {xs : List K}
    (h : as.length ≠ xs.length) : (ofList xs).select? ⟨[as.length], as.map f⟩ = none := by
  simp [select?, ofList, rank, Ne.symm h]

/-- Two lists of the same length have that length in common. -/
theorem commonShape?_self (n : Nat) : commonShape? [n] [n] = some [n] := by
  simp [commonShape?, joinReversed?, joinLengths?]

/-- A list is stretched to its own length without a change. -/
theorem stretch?_ofList (xs : List K) : (ofList xs).stretch? [xs.length] = some (ofList xs) := by
  have hs : spread [xs.length] [xs.length] xs = xs := spread_self (by simp [volume])
  simp [stretch?, ofList, commonShape?_self, padShape, hs]

/-- Lists of the same length are combined entry by entry as they are. -/
theorem zipWith?_ofList (f : A → B → K) {as : List A} {bs : List B} (h : as.length = bs.length) :
    zipWith? f (ofList as) (ofList bs) = some (ofList (List.zipWith f as bs)) := by
  have ha := stretch?_ofList as
  have hb := stretch?_ofList bs
  rw [h] at ha
  have hc : commonShape? (ofList as).shape (ofList bs).shape = some [bs.length] := by
    rw [ofList, ofList, h, commonShape?_self]
  rw [zipWith?, hc]
  change ((ofList as).stretch? [bs.length]).bind _ = _
  rw [ha]
  change ((ofList bs).stretch? [bs.length]).bind _ = _
  rw [hb]
  simp [ofList, h]

end SteppedConvolution.Shaped
