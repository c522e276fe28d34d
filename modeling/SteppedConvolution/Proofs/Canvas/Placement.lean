import SteppedConvolution.Proofs.Canvas.Lattice

/-! # Samples on their exact places

A signal at consecutive places of a grid in equal steps is placed there entry by entry.
What is placed reads, at every place, as the signal with its small samples left out.
-/

namespace SteppedConvolution.Canvas

/-- A sample, or 0 where it does not count. -/
def suppress (threshold a : Rat) : Rat := if |a| ≤ threshold then 0 else a

theorem suppress_of_counts {threshold a : Rat} (h : counts threshold a = true) :
    suppress threshold a = a := by
  unfold counts at h
  rw [Scalar.magnitude_eq_abs, decide_eq_true_eq] at h
  exact if_neg (not_le.2 h)

theorem suppress_of_not_counts {threshold a : Rat} (h : counts threshold a = false) :
    suppress threshold a = 0 := by
  unfold counts at h
  rw [Scalar.magnitude_eq_abs, decide_eq_false_iff_not] at h
  exact if_pos (not_lt.1 h)

/-- Nothing is lost where every sample is zero or counts. -/
theorem map_suppress_eq_self {threshold : Rat} {samples : List Rat}
    (h : ∀ a ∈ samples, a = 0 ∨ threshold < |a|) : samples.map (suppress threshold) = samples := by
  have hid : samples.map (suppress threshold) = samples.map id := by
    apply List.map_congr_left
    intro a ha
    unfold suppress
    rcases h a ha with h0 | hlt
    · simp [h0]
    · exact if_neg (not_le.2 hlt)
  rw [hid, List.map_id]

/-- The samples that count, with their indices on the grid, when the first one has index `a`. -/
def exactEntries (threshold : Rat) (a : Nat) (samples : List Rat) : List (Nat × Rat) :=
  ((samples.zipIdx a).filter fun e => counts threshold e.1).map fun e => (e.2, e.1)

theorem mem_exactEntries {threshold : Rat} {a k : Nat} {samples : List Rat} {v : Rat} :
    (k, v) ∈ exactEntries threshold a samples ↔
      a ≤ k ∧ samples[k - a]? = some v ∧ counts threshold v = true := by
  simp only [exactEntries, List.mem_map, List.mem_filter, Prod.exists, Prod.mk.injEq]
  constructor
  · rintro ⟨w, j, ⟨hm, hc⟩, rfl, rfl⟩
    rw [List.mk_mem_zipIdx_iff_le_and_getElem?_sub] at hm
    exact ⟨hm.1, hm.2, hc⟩
  · rintro ⟨hk, hv, hc⟩
    refine ⟨v, k, ⟨?_, hc⟩, rfl, rfl⟩
    rw [List.mk_mem_zipIdx_iff_le_and_getElem?_sub]
    exact ⟨hk, hv⟩

/-- No index is written twice. -/
theorem nodup_exactEntries (threshold : Rat) (a : Nat) (samples : List Rat) :
    ((exactEntries threshold a samples).map Prod.fst).Nodup := by
  have hs : (((samples.zipIdx a).filter fun e => counts threshold e.1).map Prod.snd).Sublist
      (List.range' a samples.length) := by
    rw [← List.zipIdx_map_snd]
    exact List.filter_sublist.map Prod.snd
  rw [exactEntries, List.map_map]
  exact List.Nodup.sublist hs List.nodup_range'

variable {target : TimeGrid Rat} {d threshold : Rat} {samples : List Rat} {a : Nat}

/-- Samples at consecutive places are written to the indices of these places. -/
theorem place_exact (hg : 1 < target.size) (hs : target.Spaced d)
    (ha : a + samples.length ≤ target.size) :
    (place threshold samples
      ((List.range' a samples.length).map fun k : Nat => target.start + (k : Rat) * d)
      target).outcome = .ok (writeEntries (exactEntries threshold a samples) (blank target)) := by
  unfold place
  by_cases hany : samples.any (counts threshold) = true
  · have hl : ¬ samples.length ≠ ((List.range' a samples.length).map
        fun k : Nat => target.start + (k : Rat) * d).length := by
      simp
    have hkept : keptSamples threshold samples
        ((List.range' a samples.length).map fun k : Nat => target.start + (k : Rat) * d) =
        ((samples.zipIdx a).filter fun e => counts threshold e.1).map
          fun e => (e.1, target.start + ((e.2 : Int) : Rat) * d) := by
      rw [keptSamples, List.zip_map_right, List.zipIdx_eq_zip_range', List.filter_map]
      simp only [Int.cast_natCast]
      rfl
    have hindex (e : Rat × Nat) (he : e ∈ (samples.zipIdx a).filter fun e => counts threshold e.1) :
        min (e.2 : Int).toNat (target.size - 1) = e.2 := by
      have := List.snd_lt_add_of_mem_zipIdx (List.mem_filter.1 he).1
      omega
    simp only [hany, Bool.not_true, Bool.false_eq_true, if_false, if_neg hl, hkept, List.map_map,
      Logged.bind_eq_ok]
    refine ⟨_, locate_exact hg hs _ fun e : Rat × Nat => (e.2 : Int), ?_⟩
    rw [List.map_congr_left hindex, List.zip_map']
    rfl
  · have hnone : exactEntries threshold a samples = [] := by
      rw [exactEntries, List.map_eq_nil_iff, List.filter_eq_nil_iff]
      intro e he
      have hmem := List.fst_mem_of_mem_zipIdx he
      exact fun hc => hany (List.any_eq_true.2 ⟨e.1, hmem, hc⟩)
    simp only [hany, Bool.not_false, if_true, hnone]
    rfl

theorem getD_place_of_notMem {k : Nat} (hk : ∀ v, (k, v) ∉ exactEntries threshold a samples) :
    (writeEntries (exactEntries threshold a samples) (blank target)).getD k 0 = 0 := by
  have hn : k ∉ (exactEntries threshold a samples).map Prod.fst := by
    intro hmem
    obtain ⟨⟨j, v⟩, he, rfl⟩ := List.mem_map.1 hmem
    exact hk v he
  rw [List.getD_eq_getElem?_getD, getElem?_writeEntries_of_notMem hn, blank, List.getElem?_map]
  cases target.values[k]? <;> rfl

theorem getD_place_of_le (ha : a + samples.length ≤ target.size) {k : Nat} (hak : a ≤ k) :
    (writeEntries (exactEntries threshold a samples) (blank target)).getD k 0 =
      (samples.map (suppress threshold)).getD (k - a) 0 := by
  rw [List.getD_eq_getElem?_getD (l := samples.map _), List.getElem?_map]
  cases hv : samples[k - a]? with
  | none =>
    apply getD_place_of_notMem
    intro v hm
    obtain ⟨-, hw, -⟩ := mem_exactEntries.1 hm
    cases hv.symm.trans hw
  | some v =>
    cases hc : counts threshold v with
    | true =>
      have hm := mem_exactEntries.2 ⟨hak, hv, hc⟩
      have hlt : k < (blank target).length := by
        have := (List.getElem?_eq_some_iff.1 hv).1
        rw [blank, List.length_map]
        rw [TimeGrid.size] at ha
        omega
      rw [List.getD_eq_getElem?_getD,
        getElem?_writeEntries_of_mem (nodup_exactEntries threshold a samples) hm hlt]
      exact (suppress_of_counts hc).symm
    | false =>
      rw [getD_place_of_notMem]
      · exact (suppress_of_not_counts hc).symm
      · intro w hm
        obtain ⟨-, hw, hcw⟩ := mem_exactEntries.1 hm
        cases hv.symm.trans hw
        rw [hc] at hcw
        cases hcw

/-- What is placed reads as the signal with its small samples left out. -/
theorem entryAt_place (ha : a + samples.length ≤ target.size) (z : Int) :
    entryAt (writeEntries (exactEntries threshold a samples) (blank target)) z =
      entryAt (samples.map (suppress threshold)) (z - a) := by
  by_cases hz : z < 0
  · rw [entryAt_of_neg hz, entryAt_of_neg (by omega)]
  obtain ⟨k, rfl⟩ := Int.eq_ofNat_of_zero_le (Int.not_lt.1 hz)
  rw [entryAt_natCast]
  by_cases hak : k < a
  · rw [entryAt_of_neg (by omega), getD_place_of_notMem]
    intro v hm
    exact Nat.not_le_of_lt hak (mem_exactEntries.1 hm).1
  · have hle := Nat.le_of_not_lt hak
    rw [← Int.ofNat_sub hle, entryAt_natCast, getD_place_of_le ha hle]

end SteppedConvolution.Canvas
