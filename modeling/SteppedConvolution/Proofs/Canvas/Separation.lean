import SteppedConvolution.Proofs.Canvas.Alignment

/-! # Samples that stay apart

A sample is placed at the grid position closest to its own, over what is already there. Where
every position is within half a step of its place and the positions are at least a step apart,
no two samples have the same place, so the places hold the samples in their order. The report of
samples that are away from their places says nothing of those that share one.
-/

namespace SteppedConvolution.Canvas

/-! ## Entries in increasing places -/

theorem writeEntries_cons {K : Type} (e : Nat × K) (es : List (Nat × K)) (xs : List K) :
    writeEntries (e :: es) xs = writeEntries es (xs.set e.1 e.2) := rfl

theorem set_append_replicate {K : Type} [Zero K] (xs : List K) (i m : Nat) (a : K) :
    (xs ++ List.replicate (i + 1 + m) 0).set (xs.length + i) a =
      xs ++ List.replicate i 0 ++ [a] ++ List.replicate m 0 := by
  rw [List.set_append_right _ _ (Nat.le_add_right _ _), Nat.add_sub_cancel_left,
    Nat.add_assoc, List.replicate_add, List.set_append_right _ _ (by simp), List.length_replicate,
    Nat.sub_self, Nat.add_comm 1 m, List.replicate_succ, List.set_cons_zero]
  simp

/-- Entries that are written behind a list in increasing places stand there in their order, with
zeros between them. -/
theorem filter_writeEntries {es : List (Nat × Rat)}
    (hincreasing : (es.map Prod.fst).Pairwise (· < ·))
    (hne : ∀ e ∈ es, e.2 ≠ 0) (xs : List Rat) (m : Nat)
    (hplace : ∀ e ∈ es, xs.length ≤ e.1 ∧ e.1 < xs.length + m) :
    (writeEntries es (xs ++ List.replicate m 0)).filter (· ≠ 0) =
      xs.filter (· ≠ 0) ++ es.map Prod.snd := by
  -- what is in front of the next place grows by the zeros up to it and by its entry
  induction es generalizing xs m with
  | nil => simp [writeEntries]
  | cons e es ih =>
    rw [List.map_cons, List.pairwise_cons] at hincreasing
    rw [List.forall_mem_cons] at hne hplace
    obtain ⟨i, hi⟩ := Nat.exists_eq_add_of_le hplace.1.1
    obtain ⟨k, rfl⟩ := Nat.exists_eq_add_of_le (show i + 1 ≤ m by omega)
    rw [writeEntries_cons, hi, set_append_replicate, ih hincreasing.2 hne.2]
    · simp [hne.1]
    · intro f hf
      have hlt := hincreasing.1 f.1 (List.mem_map_of_mem hf)
      have hle := (hplace.2 f hf).2
      simp only [List.length_append, List.length_replicate, List.length_singleton]
      omega

/-! ## Places of positions -/

/-- The index of the grid position closest to a number. -/
def slot (g : TimeGrid Rat) (p : Rat) : Nat := (nearestIndex g p).getD 0

variable {g nx nh : TimeGrid Rat} {d threshold : Rat} {samples positions : List Rat}

theorem nearestIndex_eq_slot (g : TimeGrid Rat) (p : Rat) : nearestIndex g p = some (slot g p) := by
  obtain ⟨i, hi⟩ := Option.ne_none_iff_exists'.1 (nearestIndex_ne_none_rat g p)
  rw [slot, hi, Option.getD_some]

theorem slot_lt (g : TimeGrid Rat) (p : Rat) : slot g p < g.size :=
  indexOf_lt g.size_pos (nearestIndex_eq_slot g p)

theorem nearestPositions_eq (hs : g.Spaced d) (positions : List Rat) :
    nearestPositions g positions =
      .ok (positions.map fun p => (slot g p, g.start + slot g p * d)) := by
  unfold nearestPositions
  conv_lhs => rw [← List.map_id positions]
  apply mapM_map_eq_ok
  intro p _
  have hlt : slot g p < g.values.length := slot_lt g p
  have hi : indexOf g.size g.start g.step p = some (slot g p) := nearestIndex_eq_slot g p
  simp only [id_eq, hi, List.getElem?_toArray, List.getElem?_eq_getElem hlt, hs.getElem hlt]

/-- The number of positions that are half a step or more away from their places. -/
def astray (g : TimeGrid Rat) (d : Rat) (positions : List Rat) : Nat :=
  positions.countP fun p => decide (d / 2 ≤ |g.start + slot g p * d - p|)

/-- Positions are located at their places, and those away from them are counted. -/
theorem locate_eq (hg : 1 < g.size) (hs : g.Spaced d) (positions : List Rat) :
    locate g positions =
      ⟨if astray g d positions = 0 then [] else [.misaligned (astray g d positions)],
        .ok (positions.map (slot g))⟩ := by
  have hcount : ((positions.zip (positions.map fun p => (slot g p, g.start + slot g p * d))).countP
      fun e => decide (d / 2 ≤ Scalar.magnitude (e.2.2 - e.1))) = astray g d positions := by
    conv_lhs => rw [← List.map_id positions, List.map_map, List.zip_map', List.countP_map]
    simp only [Scalar.magnitude_eq_abs]
    rfl
  unfold locate
  rw [nearestPositions_eq hs, hs.step_eq hg, Scalar.half_eq]
  simp only [Logged.ofExcept, Logged.bind_ok, List.nil_append, hcount, List.map_map]
  by_cases h0 : astray g d positions = 0
  · simp only [h0, ne_eq, not_true_eq_false, decide_false, if_true]
    rfl
  · simp only [h0, ne_eq, not_false_eq_true, decide_true, if_false]
    rfl

/-- Where nothing is reported, every position is within half a step of its place. -/
theorem within_of_silent (hg : 1 < g.size) (hs : g.Spaced d)
    (hw : ∀ n, .misaligned n ∉ (locate g positions).events) {p : Rat} (hp : p ∈ positions) :
    |g.start + slot g p * d - p| < d / 2 := by
  have h0 : astray g d positions = 0 := by
    by_contra h0
    apply hw (astray g d positions)
    rw [locate_eq hg hs, if_neg h0]
    exact List.mem_singleton_self _
  rw [astray, List.countP_eq_zero] at h0
  simpa using h0 p hp

/-- Positions a step apart that are within half a step of their places have different ones. -/
theorem slot_lt_slot {p q : Rat} (hd : 0 < d) (hpq : d ≤ q - p)
    (hp : |g.start + slot g p * d - p| < d / 2) (hq : |g.start + slot g q * d - q| < d / 2) :
    slot g p < slot g q := by
  by_contra hle
  have hle : (slot g q : Rat) * d ≤ slot g p * d :=
    mul_le_mul_of_nonneg_right (by exact_mod_cast not_lt.1 hle) hd.le
  have hp := (abs_lt.1 hp).2
  have hq := (abs_lt.1 hq).1
  linarith

/-! ## Signals on a canvas -/

theorem map_fst_keptSamples (h : samples.length ≤ positions.length) :
    (keptSamples threshold samples positions).map Prod.fst = samples.filter (counts threshold) := by
  conv_rhs => rw [← List.map_fst_zip h, List.filter_map]
  rfl

theorem sublist_map_snd_keptSamples (h : positions.length ≤ samples.length) :
    ((keptSamples threshold samples positions).map Prod.snd).Sublist positions := by
  conv_rhs => rw [← List.map_snd_zip h]
  exact List.filter_sublist.map Prod.snd

theorem ne_zero_of_counts (ht : 0 ≤ threshold) {a : Rat} (h : counts threshold a = true) :
    a ≠ 0 := by
  rintro rfl
  rw [counts, Scalar.magnitude_eq_abs, abs_zero, decide_eq_true_eq] at h
  exact absurd h (not_lt.2 ht)

theorem blank_eq (g : TimeGrid Rat) : blank g = List.replicate g.size 0 := List.map_const' ..

/-- What is placed, and what is reported. -/
theorem place_eq (hg : 1 < g.size) (hs : g.Spaced d) (hl : samples.length = positions.length) :
    place threshold samples positions g =
      ⟨(locate g ((keptSamples threshold samples positions).map Prod.snd)).events,
        .ok (writeEntries ((keptSamples threshold samples positions).map fun e =>
          (slot g e.2, e.1)) (blank g))⟩ := by
  unfold place
  split
  · rename_i hnone
    have hkept : keptSamples threshold samples positions = [] := by
      rw [← List.map_eq_nil_iff (f := Prod.fst), map_fst_keptSamples hl.le]
      simpa using hnone
    rw [hkept, locate_eq hg hs]
    rfl
  · rw [if_neg (not_not.2 hl)]
    dsimp only
    rw [locate_eq hg hs, Logged.bind_ok, List.map_map, List.zip_map', Logged.pure_eq,
      List.append_nil]
    rfl

/-- Samples that are placed without a report are within half a step of their places. -/
theorem within_of_place (hg : 1 < g.size) (hs : g.Spaced d) (hl : samples.length = positions.length)
    (hw : ∀ n, .misaligned n ∉ (place threshold samples positions g).events) {e : Rat × Rat}
    (he : e ∈ keptSamples threshold samples positions) :
    |g.start + slot g e.2 * d - e.2| < d / 2 := by
  rw [place_eq hg hs hl] at hw
  exact within_of_silent hg hs hw (List.mem_map_of_mem he)

/-- Samples a step apart that are placed without a report have increasing places. -/
theorem increasing_slots (hg : 1 < g.size) (hs : g.Spaced d)
    (hl : samples.length = positions.length) (hsteps : ∀ t ∈ Positions.steps positions, d ≤ t)
    (hw : ∀ n, .misaligned n ∉ (place threshold samples positions g).events) :
    ((keptSamples threshold samples positions).map fun e => slot g e.2).Pairwise (· < ·) := by
  -- the distances add up from the steps, and leaving samples out only makes them larger
  have hapart : (keptSamples threshold samples positions).Pairwise fun e f => d ≤ f.2 - e.2 := by
    have hd := (hs.pos hg).le
    have hadd {t u : Rat} (ht : d ≤ t) (hu : d ≤ u) : d ≤ t + u := by linarith
    rw [← List.pairwise_map (f := Prod.snd) (R := fun p q : Rat => d ≤ q - p)]
    exact (Positions.pairwise_of_steps hadd hsteps).sublist (sublist_map_snd_keptSamples hl.ge)
  rw [List.pairwise_map]
  exact hapart.imp_of_mem fun he hf hef =>
    slot_lt_slot (hs.pos hg) hef (within_of_place hg hs hl hw he) (within_of_place hg hs hl hw hf)

/-- Samples a step apart that are placed without a report are all kept, in their order. -/
theorem filter_place (hg : 1 < g.size) (hs : g.Spaced d) (ht : 0 ≤ threshold)
    (hl : samples.length = positions.length) (hsteps : ∀ t ∈ Positions.steps positions, d ≤ t)
    (hw : ∀ n, .misaligned n ∉ (place threshold samples positions g).events) {ys : List Rat}
    (hys : (place threshold samples positions g).outcome = .ok ys) :
    ys.filter (· ≠ 0) = samples.filter (counts threshold) := by
  have hincreasing := increasing_slots hg hs hl hsteps hw
  rw [place_eq hg hs hl] at hys
  obtain rfl := Except.ok.inj hys
  rw [blank_eq, ← List.nil_append (List.replicate _ _), filter_writeEntries]
  · rw [List.map_map, List.filter_nil, List.nil_append, ← map_fst_keptSamples hl.le]
    rfl
  · rw [List.map_map]
    exact hincreasing
  · intro e he
    obtain ⟨f, hf, rfl⟩ := List.mem_map.1 he
    exact ne_zero_of_counts ht (List.mem_filter.1 hf).2
  · intro e he
    obtain ⟨f, hf, rfl⟩ := List.mem_map.1 he
    simpa using slot_lt g f.2

/-- The step of a shared grid is the shared step. -/
theorem spaced_of_ofSignals {x h : List Rat} {c : Canvas Rat} (hx : x ≠ []) (hh : h ≠ [])
    (hc : (ofSignals threshold x nx h nh).outcome = .ok c) :
    c.grid.Spaced (sharedStep nx nh) ∧ 1 < c.grid.size := by
  have hgrid := (of_ofSignals hc).1
  have hn : 1 ≤ (x.length : Int) + h.length - 1 := by
    have := List.length_pos_iff.2 hx
    have := List.length_pos_iff.2 hh
    omega
  exact ⟨spaced_of_sharedGrid hgrid, one_lt_size_of_sharedGrid hn hgrid⟩

/-- Without a report, nothing is lost of a signal whose positions are at least the shared step
apart: the entries of the canvas that are not zero are its samples that count, in their order. -/
theorem ofSignals_keeps (ht : 0 ≤ threshold) {x h : List Rat} {c : Canvas Rat} (hx : x ≠ [])
    (hh : h ≠ []) (hrx : x.length ≤ nx.size) (hrh : h.length ≤ nh.size)
    (hc : (ofSignals threshold x nx h nh).outcome = .ok c)
    (hw : ∀ n, .misaligned n ∉ (ofSignals threshold x nx h nh).events) :
    ((∀ t ∈ Positions.steps (nx.values.take x.length), sharedStep nx nh ≤ t) →
      c.x.filter (· ≠ 0) = x.filter (counts threshold)) ∧
    ((∀ t ∈ Positions.steps (nh.values.take h.length), sharedStep nx nh ≤ t) →
      c.h.filter (· ≠ 0) = h.filter (counts threshold)) := by
  obtain ⟨hs, hg⟩ := spaced_of_ofSignals hx hh hc
  have hlx : x.length = (nx.values.take x.length).length := by
    rw [List.length_take]
    exact (Nat.min_eq_left hrx).symm
  have hlh : h.length = (nh.values.take h.length).length := by
    rw [List.length_take]
    exact (Nat.min_eq_left hrh).symm
  unfold ofSignals at hc hw
  simp only [Logged.bind_eq_ok, Logged.ofExcept_outcome] at hc
  obtain ⟨g, hgrid, px, hpx, ph, hph, -, -, hc⟩ := hc
  cases hc
  rw [Logged.events_bind_of_ok hgrid, Logged.events_bind_of_ok hpx,
    Logged.events_bind_of_ok hph] at hw
  constructor
  · intro hsteps
    refine filter_place hg hs ht hlx hsteps (fun n hn => hw n ?_) hpx
    exact List.mem_append_right _ (List.mem_append_left _ hn)
  · intro hsteps
    refine filter_place hg hs ht hlh hsteps (fun n hn => hw n ?_) hph
    exact List.mem_append_right _ (List.mem_append_right _ (List.mem_append_left _ hn))

/-- Two signals a quarter of a step apart, of which one sample is zero. -/
theorem ofSignals_keeps_quarters :
    let nx : TimeGrid Rat := ⟨[0, 1, 2], 0, by decide +kernel⟩
    let nh : TimeGrid Rat := ⟨[1 / 4, 5 / 4], 0, by decide +kernel⟩
    ∃ c, (ofSignals (1 / 10 ^ 12) [1, 0, 3] nx [5, -7] nh).outcome = .ok c ∧
      c.x.filter (· ≠ 0) = [1, 3] ∧ c.h.filter (· ≠ 0) = [5, -7] := by
  intro nx nh
  obtain ⟨c, hc⟩ : ∃ c,
      (ofSignals (1 / 10 ^ 12) [1, 0, 3] nx [5, -7] nh).outcome.toOption = some c :=
    Option.isSome_iff_exists.1 (by decide +kernel)
  have hc := eq_ok_of_toOption hc
  have hw (n : Nat) : .misaligned n ∉ (ofSignals (1 / 10 ^ 12) [1, 0, 3] nx [5, -7] nh).events :=
    fun hn => (show ∀ e ∈ (ofSignals (1 / 10 ^ 12) [1, 0, 3] nx [5, -7] nh).events,
      e.severity ≠ .warning by decide +kernel) _ hn rfl
  obtain ⟨hx, hh⟩ := ofSignals_keeps (by norm_num) (List.cons_ne_nil _ _) (List.cons_ne_nil _ _)
    (by decide) (by decide) hc hw
  exact ⟨c, hc, (hx (by decide +kernel)).trans (by decide +kernel),
    (hh (by decide +kernel)).trans (by decide +kernel)⟩

/-- The second grid is four times as fine as the shared one, so that its two positions have one
place. Both samples count and neither is reported, but the first one is lost. -/
theorem ofSignals_overwrites :
    let nx : TimeGrid Rat := ⟨[0, 1], 0, by decide +kernel⟩
    let nh : TimeGrid Rat := ⟨[0, 1 / 4], 0, by decide +kernel⟩
    let placed := ofSignals (1 / 10 ^ 12) [1, 1] nx [1, 2] nh
    (∀ n, .misaligned n ∉ placed.events) ∧ [1, 2].filter (counts (1 / 10 ^ 12)) = [1, (2 : Rat)] ∧
      placed.outcome.toOption.map (fun c => c.h.filter (· ≠ 0)) = some [2] := by
  intro nx nh placed
  refine ⟨fun n hn => ?_, by decide +kernel, by decide +kernel⟩
  exact (show ∀ e ∈ placed.events, e.severity ≠ .warning by decide +kernel) _ hn rfl

end SteppedConvolution.Canvas
