import SteppedConvolution.Proofs.Canvas.OnGrid
import SteppedConvolution.Proofs.Canvas.Vicinity

/-! # Placement as a translation

Where the positions of a signal are in the steps of the grid and nothing is reported, all of its
samples that count are moved by the same number of places. Rounding, the ends of the grid and
writing over other samples can all move a sample by a different number, but it is then half a step
or more away from its place and is reported.
-/

namespace SteppedConvolution.Canvas

variable {g : TimeGrid Rat} {d threshold p q : Rat} {samples positions : List Rat}

/-- Positions a whole number of steps apart that are within half a step of their places have places
that are just as far apart. -/
theorem slot_sub_slot (hd : 0 < d) {z : Int} (hpq : q - p = z * d)
    (hp : |g.start + slot g p * d - p| < d / 2) (hq : |g.start + slot g q * d - q| < d / 2) :
    (slot g q : Int) - slot g p = z := by
  have hindex : (q - g.start) / d = (p - g.start) / d + z := by
    rw [← mul_div_cancel_right₀ (z : Rat) hd.ne', ← hpq, ← add_div]
    ring
  rw [← abs_index_sub_lt_half_iff hd] at hp hq
  rw [hindex, ← sub_sub, sub_right_comm, ← Int.cast_sub] at hq
  have hsame := eq_of_abs_sub_lt_half hq hp
  omega

/-- The samples that count stand in a list at their own indices moved by a whole number, and
everything else in it is zero. -/
structure MovedBy (threshold : Rat) (samples ys : List Rat) (s : Int) : Prop where
  kept : ∀ (k : Nat) (a : Rat), samples[k]? = some a → threshold < |a| →
    ∃ i : Nat, (i : Int) = s + k ∧ ys[i]? = some a
  zero : ∀ i : Nat, i < ys.length → (∀ (k : Nat) (a : Rat), samples[k]? = some a →
    threshold < |a| → (i : Int) ≠ s + k) → ys[i]? = some 0

/-- Positions in equal steps differ by as many steps as their indices. -/
theorem sub_eq_of_isSpaced (hp : Positions.IsSpaced d positions) {j k : Nat}
    (hj : positions[j]? = some p) (hk : positions[k]? = some q) :
    q - p = ((k : Int) - j : Int) * d := by
  obtain ⟨hjl, rfl⟩ := List.getElem?_eq_some_iff.1 hj
  obtain ⟨hkl, rfl⟩ := List.getElem?_eq_some_iff.1 hk
  have hn : positions ≠ [] := List.ne_nil_of_length_pos (Nat.zero_lt_of_lt hjl)
  rw [hp.getElem hn, hp.getElem hn]
  push_cast
  ring

theorem exists_position (hl : samples.length = positions.length) {k : Nat} {a : Rat}
    (ha : samples[k]? = some a) : ∃ p, positions[k]? = some p := by
  have hlt := (List.getElem?_eq_some_iff.1 ha).1
  rw [hl] at hlt
  exact ⟨_, List.getElem?_eq_getElem hlt⟩

/-- What is placed is moved by `s` where every sample that counts has its place `s` behind its
index, and no two of them share one. -/
theorem movedBy_writeEntries {s : Int} (hl : samples.length = positions.length)
    (hslots : ∀ (k : Nat) (a p : Rat), samples[k]? = some a → positions[k]? = some p →
      threshold < |a| → (slot g p : Int) = s + k)
    (hincreasing :
      ((keptSamples threshold samples positions).map fun e => slot g e.2).Pairwise (· < ·)) :
    MovedBy threshold samples (writeEntries ((keptSamples threshold samples positions).map
      fun e => (slot g e.2, e.1)) (blank g)) s := by
  have hnodup : ((keptSamples threshold samples positions).map fun e => slot g e.2).Nodup :=
    hincreasing.imp ne_of_lt
  constructor
  · intro k a ha hc
    obtain ⟨p, hp⟩ := exists_position hl ha
    refine ⟨slot g p, hslots k a p ha hp hc, getElem?_writeEntries_of_mem ?_ ?_ ?_⟩
    · rw [List.map_map]
      exact hnodup
    · exact List.mem_map.2 ⟨(a, p), mem_keptSamples ha hp hc, rfl⟩
    · rw [blank_eq, List.length_replicate]
      exact slot_lt g p
  · intro i hi hother
    rw [length_writeEntries, blank_eq, List.length_replicate] at hi
    rw [getElem?_writeEntries_of_notMem, blank_eq, List.getElem?_replicate, if_pos hi]
    intro hmem
    rw [List.map_map] at hmem
    obtain ⟨e, he, rfl⟩ := List.mem_map.1 hmem
    obtain ⟨k, ha, hp, hc⟩ := exists_of_mem_keptSamples he
    exact hother k e.1 ha hc (hslots k e.1 e.2 ha hp hc)

/-- A signal in the steps of the grid that is placed without a report is moved as a whole: one whole
number takes the index of each sample that counts to its place, and no other place is written. -/
theorem place_moves (hg : 1 < g.size) (hs : g.Spaced d) (hl : samples.length = positions.length)
    (hp : Positions.IsSpaced d positions)
    (hw : ∀ n, .misaligned n ∉ (place threshold samples positions g).events)
    (hk : ∃ a ∈ samples, threshold < |a|) :
    ∃ ys s, (place threshold samples positions g).outcome = .ok ys ∧ ys.length = g.size ∧
      MovedBy threshold samples ys s := by
  have hwithin {k : Nat} {a p : Rat} (ha : samples[k]? = some a) (hp : positions[k]? = some p)
      (hc : threshold < |a|) : |g.start + slot g p * d - p| < d / 2 :=
    within_of_place (e := (a, p)) hg hs hl hw (mem_keptSamples ha hp hc)
  obtain ⟨a₀, hmem, hc₀⟩ := hk
  obtain ⟨k₀, ha₀⟩ := List.mem_iff_getElem?.1 hmem
  obtain ⟨p₀, hp₀⟩ := exists_position hl ha₀
  have hys : (place threshold samples positions g).outcome = _ :=
    congrArg Logged.outcome (place_eq hg hs hl)
  refine ⟨_, (slot g p₀ : Int) - k₀, hys, length_of_place hys, movedBy_writeEntries hl ?_ ?_⟩
  · -- the first sample that counts sets the number for all of them
    intro k a p ha hpk hc
    have hsub := slot_sub_slot (hs.pos hg) (sub_eq_of_isSpaced hp hp₀ hpk) (hwithin ha₀ hp₀ hc₀)
      (hwithin ha hpk hc)
    omega
  · exact increasing_slots hg hs hl (fun t ht => (hp t ht).ge) hw

/-- A signal that starts a fraction of a step in front of the grid. Its first sample does not count
and would have no place, and the others are moved down by one. -/
theorem place_moves_fraction :
    let g : TimeGrid Rat := ⟨[0, 1 / 2, 1, 3 / 2], 0, by decide +kernel⟩
    let samples : List Rat := [0, 5, 1 / 10 ^ 13, -7]
    let positions : List Rat := [-2 / 5, 1 / 10, 3 / 5, 11 / 10]
    1 < g.size ∧ g.Spaced (1 / 2) ∧ samples.length = positions.length ∧
      Positions.IsSpaced (1 / 2) positions ∧
      (∀ n, .misaligned n ∉ (place (1 / 10 ^ 12) samples positions g).events) ∧
      (∃ a ∈ samples, 1 / 10 ^ 12 < |a|) ∧ MovedBy (1 / 10 ^ 12) samples [5, 0, -7, 0] (-1) := by
  intro g samples positions
  have hg : 1 < g.size := by decide
  have hl : samples.length = positions.length := rfl
  have hs : g.Spaced (1 / 2) := by unfold TimeGrid.Spaced Positions.IsSpaced; decide +kernel
  have hp : Positions.IsSpaced (1 / 2) positions := by unfold Positions.IsSpaced; decide +kernel
  have hw (n : Nat) : .misaligned n ∉ (place (1 / 10 ^ 12) samples positions g).events := fun hn =>
    (show ∀ e ∈ (place (1 / 10 ^ 12) samples positions g).events, e.severity ≠ .warning by
      decide +kernel) _ hn rfl
  have hk : ∃ a ∈ samples, 1 / 10 ^ 12 < |a| := ⟨5, by decide +kernel, by norm_num⟩
  obtain ⟨ys, s, hys, -, hmoved⟩ := place_moves hg hs hl hp hw hk
  have hvalue : (place (1 / 10 ^ 12) samples positions g).outcome.toOption =
      some [5, 0, -7, 0] := by decide +kernel
  rw [hys] at hvalue
  obtain rfl := Option.some.inj hvalue
  -- the second sample stands in front, and nowhere else
  obtain ⟨i, hi, hat⟩ := hmoved.kept 1 5 rfl (by norm_num)
  obtain rfl : i = 0 := by
    match i, hat with
    | 0, _ => rfl
    | 1, h | 2, h | 3, h => exact absurd h (by decide +kernel)
  obtain rfl : s = -1 := by omega
  exact ⟨hg, hs, hl, hp, hw, hk, hmoved⟩

end SteppedConvolution.Canvas
