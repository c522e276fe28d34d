import SteppedConvolution.Canvas.Arrays
import SteppedConvolution.Proofs.Outcome
import SteppedConvolution.Shaped.Lemmas

/-! # Lists on grids

Placing and looking up arrays of one dimension is placing and looking up lists, so
what holds of lists of samples holds of such arrays.
-/

namespace SteppedConvolution.Canvas

variable {K : Type} [Scalar K]

theorem filter_zip_self {A : Type} (f : A → Bool) (as : List A) :
    ((as.zip as).filter fun e => f e.1).map Prod.snd = as.filter f := by
  induction as with
  | nil => rfl
  | cons a as ih => by_cases h : f a = true <;> simp [h, ih]

theorem filter_zip_fst {A B : Type} (f : A → Bool) {as : List A} {bs : List B}
    (h : as.length = bs.length) :
    ((as.zip bs).filter fun e => f e.1).map Prod.fst = as.filter f := by
  induction as generalizing bs with
  | nil => simp
  | cons a as ih =>
    cases bs with
    | nil => simp at h
    | cons b bs =>
      have hi := ih (Nat.succ.inj h)
      by_cases hf : f a = true <;> simp [hf, hi]

/-- On arrays of one dimension samples are placed as on lists. -/
theorem placeArray_ofList (threshold : K) (samples positions : List K) (target : TimeGrid K) :
    placeArray threshold (.ofList samples) (.ofList positions) target =
      place threshold samples positions target := by
  have ha : (samples.map (counts threshold)).any id = samples.any (counts threshold) := by
    rw [List.any_map]
    rfl
  unfold placeArray place
  dsimp only [Shaped.ofList]
  rw [ha]
  split
  · rfl
  · by_cases hl : samples.length = positions.length
    · have hp := Shaped.select?_ofList (counts threshold) hl
      have hs := Shaped.select?_ofList (counts threshold) (rfl : samples.length = samples.length)
      rw [filter_zip_self, ← filter_zip_fst _ hl] at hs
      have ht := Shaped.stretch?_ofList ((keptSamples threshold samples positions).map Prod.fst)
      rw [if_neg (by simp [hl])]
      simp only [Shaped.ofList, List.length_map, keptSamples] at hp hs ht ⊢
      simp only [hp, hs, ht, Fault.require, Logged.ofExcept, Logged.bind_ok, List.nil_append]
    · have hp := Shaped.select?_ofList_eq_none (counts threshold) hl
      rw [if_pos hl]
      simp only [Shaped.ofList] at hp
      rw [hp]
      rfl

/-- The samples that are looked up at positions, given which of them are hits. -/
theorem mapM_hits (table : List K) (hit : K → Nat × K → Bool) (positions : List K)
    (found : List (Nat × K)) (h : found.length = positions.length) :
    ((positions.zip found).mapM fun e =>
      ((Fault.require .noSuchEntry table[e.2.1]?).map fun a => if hit e.1 e.2 then a else 0 :
        Except (Fault K) K)) =
    (Fault.require .noSuchEntry ((found.map Prod.fst).mapM (table[·]?))).map
      (List.zipWith (fun hit a => if hit then a else 0) (List.zipWith hit positions found)) := by
  induction found generalizing positions with
  | nil =>
    cases positions with
    | nil => rfl
    | cons p ps => cases h
  | cons f found ih =>
    cases positions with
    | nil => cases h
    | cons p ps =>
      rw [List.zip_cons_cons, List.mapM_cons, List.map_cons, List.mapM_cons,
        ih ps (Nat.succ.inj h)]
      cases ha : table[f.1]? with
      | none => rfl
      | some a => cases (found.map Prod.fst).mapM (table[·]?) <;> rfl

/-- On arrays of one dimension values are looked up as on lists. -/
theorem sampleArrayAt_ofList (values : List K) (g : TimeGrid K) (positions : List K) :
    sampleArrayAt (.ofList values) g (.ofList positions) =
      (sampleAt values g positions).map .ofList := by
  unfold sampleArrayAt sampleAt
  dsimp only [Shaped.ofList]
  cases hn : nearestPositions g positions with
  | error f => rfl
  | ok found =>
    have hl : found.length = positions.length := length_of_mapM hn
    have hb {A B : Type} (a : A) (f : A → Except (Fault K) B) :
        ((.ok a : Except _ _) >>= f) = f a := rfl
    have hm := mapM_hits values (isHit (Scalar.half g.step)) positions found hl
    have hg := Shaped.gather?_ofList values (found.map Prod.fst)
    simp only [Shaped.ofList, List.length_map, hl] at hg
    simp only [List.getElem?_toArray, hb, hg, hm]
    cases hf : (found.map Prod.fst).mapM (values[·]?) with
    | none => rfl
    | some as =>
      have ha : as.length = positions.length := by
        rw [length_of_mapM? hf, List.length_map, hl]
      have hh : (List.zipWith (isHit (Scalar.half g.step)) positions found).length =
          positions.length := by simp [hl]
      have hz := Shaped.zipWith?_ofList (fun hit a => if hit then a else (0 : K))
        (hh.trans ha.symm)
      simp only [Shaped.ofList, ha, hh] at hz
      simp only [Option.map_some, Fault.require, hb, hz]
      rfl

/-- On arrays of one dimension a canvas is that of two lists. -/
theorem ofArrays_ofList (threshold : K) (x : List K) (nx : TimeGrid K) (h : List K)
    (nh : TimeGrid K) :
    ofArrays threshold (.ofList x) nx (.ofList h) nh = ofSignals threshold x nx h nh := by
  have hr (ys : List K) : (Shaped.ofList ys).rowCount? = some ys.length := rfl
  unfold ofArrays ofSignals
  simp only [hr, Fault.require, Logged.ofExcept, Logged.bind_ok, List.nil_append,
    placeArray_ofList]

end SteppedConvolution.Canvas
