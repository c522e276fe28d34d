import SteppedConvolution.Proofs.Canvas.Separation

/-! # Samples on grid positions

A sample whose position is one of a grid is placed at that position, and nothing is reported
of it. A sample at another position has no place of its own on the grid, so whether a signal
is placed exactly is a question about its positions alone.
-/

namespace SteppedConvolution.Canvas

variable {g : TimeGrid Rat} {d threshold : Rat} {samples positions ys : List Rat} {p : Rat}

/-- Every sample of a signal that counts stands on a grid at its own position. -/
def Placed (threshold : Rat) (samples positions : List Rat) (g : TimeGrid Rat) (ys : List Rat) :
    Prop :=
  ∀ (i : Nat) (a p : Rat), samples[i]? = some a → positions[i]? = some p → threshold < |a| →
    ∃ k : Nat, g.values[k]? = some p ∧ ys[k]? = some a

/-- A grid position is its own closest one. -/
theorem getElem?_slot (hg : 1 < g.size) (hs : g.Spaced d) (hp : p ∈ g.values) :
    g.values[slot g p]? = some p := by
  obtain ⟨k, hk, rfl⟩ := List.mem_iff_getElem.1 hp
  have hslot : slot g g.values[k] = k := by
    have hindex : indexOf g.size g.start d (g.start + ((k : Int) : Rat) * d) = _ :=
      indexOf_exact hg.ne' (hs.pos hg).ne' k
    rw [Int.toNat_natCast, Int.cast_natCast, ← hs.getElem hk] at hindex
    rw [slot, nearestIndex, hs.step_eq hg, hindex, Option.getD_some]
    have : k < g.size := hk
    omega
  rw [hslot, List.getElem?_eq_getElem hk]

theorem mem_keptSamples {i : Nat} {a : Rat} (ha : samples[i]? = some a)
    (hp : positions[i]? = some p) (hc : threshold < |a|) :
    (a, p) ∈ keptSamples threshold samples positions := by
  refine List.mem_filter.2 ⟨List.mem_of_getElem? (i := i) ?_, ?_⟩
  · rw [List.getElem?_zip_eq_some]
    exact ⟨ha, hp⟩
  · rw [counts, Scalar.magnitude_eq_abs]
    exact decide_eq_true hc

theorem exists_of_mem_keptSamples {e : Rat × Rat}
    (he : e ∈ keptSamples threshold samples positions) :
    ∃ i : Nat, samples[i]? = some e.1 ∧ positions[i]? = some e.2 ∧ threshold < |e.1| := by
  obtain ⟨hzip, hc⟩ := List.mem_filter.1 he
  obtain ⟨i, hi⟩ := List.mem_iff_getElem?.1 hzip
  rw [List.getElem?_zip_eq_some] at hi
  rw [counts, Scalar.magnitude_eq_abs, decide_eq_true_eq] at hc
  exact ⟨i, hi.1, hi.2, hc⟩

/-- The positions of the samples that count are grid positions. -/
def Hosts (threshold : Rat) (samples positions : List Rat) (g : TimeGrid Rat) : Prop :=
  ∀ e ∈ keptSamples threshold samples positions, e.2 ∈ g.values

/-- Samples at grid positions are placed without a report. -/
theorem Hosts.events_place (h : Hosts threshold samples positions g) (hg : 1 < g.size)
    (hs : g.Spaced d) (hl : samples.length = positions.length) :
    (place threshold samples positions g).events = [] := by
  have hastray : astray g d ((keptSamples threshold samples positions).map Prod.snd) = 0 := by
    rw [astray, List.countP_eq_zero]
    intro p hp
    obtain ⟨e, he, rfl⟩ := List.mem_map.1 hp
    obtain ⟨hk, hv⟩ := List.getElem?_eq_some_iff.1 (getElem?_slot hg hs (h e he))
    rw [hs.getElem hk] at hv
    rw [hv, sub_self, abs_zero, decide_eq_true_eq, not_le]
    have := hs.pos hg
    linarith
  rw [place_eq hg hs hl, locate_eq hg hs, hastray, if_pos rfl]

/-- Samples are placed exactly when their positions are grid positions. -/
theorem placed_iff_hosts (hg : 1 < g.size) (hs : g.Spaced d)
    (hl : samples.length = positions.length) (hn : positions.Nodup)
    (hys : (place threshold samples positions g).outcome = .ok ys) :
    Placed threshold samples positions g ys ↔ Hosts threshold samples positions g := by
  constructor
  · intro h e he
    obtain ⟨i, ha, hp, hc⟩ := exists_of_mem_keptSamples he
    obtain ⟨k, hk, -⟩ := h i e.1 e.2 ha hp hc
    exact List.mem_of_getElem? hk
  · intro h i a p ha hp hc
    have hmem := mem_keptSamples ha hp hc
    have hslot := getElem?_slot hg hs (h _ hmem)
    refine ⟨slot g p, hslot, ?_⟩
    rw [place_eq hg hs hl] at hys
    obtain rfl := Except.ok.inj hys
    refine getElem?_writeEntries_of_mem ?_ (List.mem_map.2 ⟨_, hmem, rfl⟩) ?_
    · -- grid positions with one place are the same
      rw [List.map_map, List.Nodup, List.pairwise_map]
      have hne : ((keptSamples threshold samples positions).map Prod.snd).Nodup :=
        hn.sublist (sublist_map_snd_keptSamples hl.ge)
      rw [List.Nodup, List.pairwise_map] at hne
      refine hne.imp_of_mem fun {e f} he hf hef heq => hef ?_
      have hp := getElem?_slot hg hs (h e he)
      have hq := getElem?_slot hg hs (h f hf)
      change slot g e.2 = slot g f.2 at heq
      rw [heq, hq] at hp
      exact (Option.some.inj hp).symm
    · rw [blank, List.length_map]
      exact (List.getElem?_eq_some_iff.1 hslot).1

end SteppedConvolution.Canvas
