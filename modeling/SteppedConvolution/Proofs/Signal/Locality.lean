import SteppedConvolution.Proofs.Binary.Agreement
import SteppedConvolution.Proofs.Expression.Value
import SteppedConvolution.Proofs.Signal.Sampled

/-! # Sampling is local

On a shorter grid with the same leading positions a text has the leading samples. Unless the text
is a vector, a sample depends on its own position alone, so two grids have the same sample
wherever they have the same position. Positions that are zeros of either sign have samples that
are equal as numbers, if the functions that expressions name cannot tell such zeros apart.
-/

namespace SteppedConvolution

open Binary Grammar

/-! ## Leading positions -/

namespace SignalExpr

variable {K : Type} [Scalar K]

theorem take_alignLeft (entries : List K) (m n : Nat) :
    (alignLeft entries n).take m = alignLeft entries (min m n) := by
  rw [alignLeft, alignLeft, List.take_append, List.take_take, List.length_take,
    List.take_replicate]
  congr 2
  omega

/-- The values at leading positions are the leading values. -/
theorem IsEvaluable.exists_values_take {e : SignalExpr K} (he : e.IsEvaluable)
    (interpretation : Interpretation K) (width : K) (positions : List K) (n : Nat) :
    ∃ values, (e.evaluate interpretation width positions).outcome = .ok values ∧
      (e.evaluate interpretation width (positions.take n)).outcome = .ok (values.take n) := by
  unfold evaluate
  induction he with
  | vector entries =>
    refine ⟨alignLeft entries positions.length, ?_, ?_⟩
    · exact Logged.bind_eq_ok.2 ⟨(), Logged.noteIf_outcome _ _, rfl⟩
    · rw [take_alignLeft, ← List.length_take]
      exact Logged.bind_eq_ok.2 ⟨(), Logged.noteIf_outcome _ _, rfl⟩
  | time => exact ⟨positions, rfl, rfl⟩
  | constant c => exact ⟨_, rfl, congrArg Except.ok List.map_take⟩
  | power base => exact ⟨_, rfl, congrArg Except.ok List.map_take⟩
  | call p ha ih =>
    obtain ⟨arguments, ha, ha'⟩ := ih
    refine ⟨arguments.map (p.value interpretation width), ?_, ?_⟩
    · exact Logged.bind_eq_ok.2 ⟨arguments, ha, rfl⟩
    · rw [← List.map_take]
      exact Logged.bind_eq_ok.2 ⟨arguments.take n, ha', rfl⟩
  | combine op ha hb iha ihb =>
    obtain ⟨left, ha, ha'⟩ := iha
    obtain ⟨right, hb, hb'⟩ := ihb
    refine ⟨List.zipWith op.apply left right, ?_, ?_⟩
    · exact Logged.bind_eq_ok.2 ⟨left, ha, Logged.bind_eq_ok.2 ⟨right, hb, rfl⟩⟩
    · rw [List.take_zipWith]
      exact Logged.bind_eq_ok.2 ⟨_, ha', Logged.bind_eq_ok.2 ⟨_, hb', rfl⟩⟩

end SignalExpr

/-! ## Values at a position -/

/-- What is parsed has a value at every time, whatever its primitives and powers mean. -/
theorem Parser.exists_valueAt {K : Type} [Scalar K] {ls : List Lexeme} {t : SignalExpr K}
    (h : node? ls = some t) (prim : Primitive → K → K) (pow : K → K → K) (n : K) :
    ∃ v, t.valueAt prim pow n = some v := by
  have hargument (a : Argument) : ∃ v, (a.tree : SignalExpr K).valueAt prim pow n = some v := by
    cases a with
    | shifted sign k => cases sign <;> exact ⟨_, rfl⟩
    | _ => exact ⟨_, rfl⟩
  refine node?_induction (motive := fun _ t => ∃ v, t.valueAt prim pow n = some v) ?_ ?_ ?_ h
  · intro f
    cases f with
    | call p a =>
      obtain ⟨v, hv⟩ := hargument a
      exact ⟨prim p v, congrArg (Option.map (prim p)) hv⟩
    | nested p q a =>
      obtain ⟨v, hv⟩ := hargument a
      exact ⟨prim p (prim q v), congrArg (fun v => (v.map (prim q)).map (prim p)) hv⟩
    | _ => exact ⟨_, rfl⟩
  · exact fun sign c => ⟨_, rfl⟩
  · rintro op xs ys a b - - ⟨v, hv⟩ ⟨w, hw⟩
    exact ⟨op.apply v w, by simp [SignalExpr.valueAt, hv, hw]⟩

/-- A text that is a vector in one pair of brackets. -/
def IsDirectVector (text : Option String) : Prop :=
  ∃ source ∈ text, SignalExpr.isVectorText (Text.strip source.toList) = true

theorem SignalExpr.exists_valueAt_of_read {K : Type} [Scalar K] {levels : Nat}
    {text : Option String} {e : SignalExpr K} (h : (read levels text).outcome = .ok e)
    (hv : ¬ IsDirectVector text) (prim : Primitive → K → K) (pow : K → K → K) :
    ∃ f : K → K, ∀ n, e.valueAt prim pow n = some (f n) := by
  cases text with
  | none => cases h
  | some source =>
    have hv : isVectorText (Text.strip source.toList) = false :=
      Bool.eq_false_iff.2 fun hvector => hv ⟨source, rfl, hvector⟩
    obtain ⟨tokens, -, hnode⟩ := exists_tokens_of_read hv h
    exact Classical.skolem.1 fun n => Parser.exists_valueAt (Parser.node?_of_node hnode) prim pow n

/-! ## Zeros of either sign -/

/-- The functions do not tell zeros of either sign apart, other than by the sign of a zero. -/
structure Interpretation.Respects (interpretation : Interpretation Float) : Prop where
  sine : ∀ a b, Agree a b → Agree (interpretation.sine a) (interpretation.sine b)
  cosine : ∀ a b, Agree a b → Agree (interpretation.cosine a) (interpretation.cosine b)
  tangent : ∀ a b, Agree a b → Agree (interpretation.tangent a) (interpretation.tangent b)
  exponential : ∀ a b, Agree a b →
    Agree (interpretation.exponential a) (interpretation.exponential b)
  power : ∀ base a b, Agree a b →
    Agree (interpretation.power base a) (interpretation.power base b)

section

variable {interpretation : Interpretation Float} {width : Float} {a b : Float}

theorem Primitive.agree_value (hi : interpretation.Respects) (h : Agree a b) (p : Primitive) :
    Agree (p.value interpretation width a) (p.value interpretation width b) := by
  cases p with
  | step =>
    have hstep : Primitive.value interpretation width .step a =
        Primitive.value interpretation width .step b :=
      if_congr (h.le_iff_le 0) rfl rfl
    rw [hstep]
    exact agree_refl _
  | impulse =>
    rw [Primitive.value, Primitive.value, h.magnitude_eq]
    exact agree_refl _
  | sine => exact hi.sine a b h
  | cosine => exact hi.cosine a b h
  | tangent => exact hi.tangent a b h
  | bell => exact hi.exponential _ _ (h.mul h).half_neg
  | magnitude =>
    rw [Primitive.value, Primitive.value, h.magnitude_eq]
    exact agree_refl _

theorem Operator.agree_apply {a' b' : Float} (ha : Agree a a') (hb : Agree b b')
    (op : Operator) : Agree (op.apply a b) (op.apply a' b') := by
  cases op with
  | add => exact ha.add hb
  | subtract => exact ha.sub hb
  | multiply => exact ha.mul hb

/-- At times that agree a tree has values that agree. -/
theorem SignalExpr.agree_valueAt (hi : interpretation.Respects) (h : Agree a b)
    {e : SignalExpr Float} {v w : Float}
    (hv : e.valueAt (Primitive.value interpretation width) interpretation.power a = some v)
    (hw : e.valueAt (Primitive.value interpretation width) interpretation.power b = some w) :
    Agree v w := by
  induction e generalizing v w with
  | vector entries => cases hv
  | time =>
    cases hv
    cases hw
    exact h
  | constant c =>
    cases hv
    cases hw
    exact agree_refl c
  | power base =>
    cases hv
    cases hw
    exact hi.power base a b h
  | apply p argument ih =>
    cases p with
    | unknown name => cases hv
    | known p =>
      obtain ⟨v', hv', rfl⟩ := Option.map_eq_some_iff.1 hv
      obtain ⟨w', hw', rfl⟩ := Option.map_eq_some_iff.1 hw
      exact p.agree_value hi (ih hv' hw')
  | combine op left right ihl ihr =>
    cases op with
    | unknown name => cases hv
    | known op =>
      obtain ⟨v₁, hv₁, hv⟩ := Option.bind_eq_some_iff.1 hv
      obtain ⟨v₂, hv₂, rfl⟩ := Option.map_eq_some_iff.1 hv
      obtain ⟨w₁, hw₁, hw⟩ := Option.bind_eq_some_iff.1 hw
      obtain ⟨w₂, hw₂, rfl⟩ := Option.map_eq_some_iff.1 hw
      exact op.agree_apply (ihl hv₁ hw₁) (ihr hv₂ hw₂)
  | foreign content => cases hv

end

/-! ## Samples -/

namespace Samples

/-- A value with a zero in its place if it is not finite. -/
def clamp (a : Float) : Float := if Scalar.isFinite a then a else 0

theorem clampNonFinite_eq (values : List Float) :
    (clampNonFinite values).1 = values.map clamp := rfl

theorem agree_clamp {a b : Float} (h : Agree a b) : Agree (clamp a) (clamp b) := by
  rw [clamp, clamp, h.isFinite_eq]
  split_ifs
  · exact h
  · exact agree_refl 0

theorem isFinite_clamp (a : Float) : Scalar.isFinite (clamp a) = true := by
  rw [clamp]
  split_ifs with h
  · exact h
  · rfl

end Samples

namespace Signal

variable {levels : Nat} {interpretation : Interpretation Float} {tolerances : Tolerances Float}
  {text : Option String} {e : SignalExpr Float} {s t : Signal Float}

/-- The sample at a place is the value at the position there, with a zero in its place if it is not
finite. -/
theorem getElem?_samples {f : Float → Float}
    (hf : ∀ n, e.valueAt (Primitive.value interpretation tolerances.deltaWidth)
      interpretation.power n = some (f n)) {g : TimeGrid Float} {values : List Float}
    (hvalues : (e.evaluate interpretation tolerances.deltaWidth g.values).outcome = .ok values)
    (hs : s.samples = values.map Samples.clamp) {i : Nat} {p : Float}
    (hp : g.values[i]? = some p) : s.samples[i]? = some (Samples.clamp (f p)) := by
  rw [SignalExpr.evaluate_of_valueAt hf] at hvalues
  cases hvalues
  rw [hs, List.getElem?_map, List.getElem?_map, hp]
  rfl

/-- On leading positions of a grid there are the leading samples. -/
theorem samples_take (he : e.IsEvaluable) {g k : TimeGrid Float} {values leading : List Float}
    (hg : (e.evaluate interpretation tolerances.deltaWidth g.values).outcome = .ok values)
    (hk : (e.evaluate interpretation tolerances.deltaWidth k.values).outcome = .ok leading)
    (hs : s.samples = values.map Samples.clamp) (ht : t.samples = leading.map Samples.clamp)
    (h : k.values <+: g.values) : t.samples = s.samples.take k.size := by
  obtain ⟨values', hvalues, hleading⟩ := he.exists_values_take interpretation
    tolerances.deltaWidth g.values k.size
  rw [hg] at hvalues
  cases hvalues
  have htake : g.values.take k.size = k.values := (List.prefix_iff_eq_take.1 h).symm
  rw [htake, hk] at hleading
  cases hleading
  rw [ht, hs, List.map_take]

/-- The signals that a text gives on different grids, compared with each other. -/
structure SamplesLocally (levels : Nat) (interpretation : Interpretation Float)
    (tolerances : Tolerances Float) (text : Option String)
    (sample : TimeGrid Float → Signal Float) : Prop where
  outcome : ∀ g, (ofText levels interpretation tolerances text (.grid g)).outcome = .ok (sample g)
  grid : ∀ g, (sample g).grid = g
  /-- On leading positions of a grid there are the leading samples. -/
  leading : ∀ g k : TimeGrid Float, k.values <+: g.values →
    (sample k).samples = (sample g).samples.take k.size
  /-- At a common position two grids have the same sample. -/
  common : ¬ IsDirectVector text → ∀ (g k : TimeGrid Float) (i j : Nat) (p : Float),
    g.values[i]? = some p → k.values[j]? = some p →
      ∃ a, (sample g).samples[i]? = some a ∧ (sample k).samples[j]? = some a
  /-- At positions that are equal as numbers two grids have samples that are. -/
  equal : ¬ IsDirectVector text → interpretation.Respects →
    ∀ (g k : TimeGrid Float) (i j : Nat) (p q : Float), g.values[i]? = some p →
      k.values[j]? = some q → (p == q) = true →
        ∃ a b, (sample g).samples[i]? = some a ∧ (sample k).samples[j]? = some b ∧ (a == b) = true

/-- Sampling a text is local: what stands behind a position has no influence on the sample there,
and unless the text is a vector, nor has what stands in front of it. -/
theorem ofText_local (interpretation : Interpretation Float) (tolerances : Tolerances Float)
    (h : (SignalExpr.read levels text).outcome = .ok e) :
    ∃ sample, SamplesLocally levels interpretation tolerances text sample := by
  choose values sample hvalues _ houtcome hgrid hclamped using
    ofText_read interpretation tolerances (h := h)
  have hsamples (g : TimeGrid Float) : (sample g).samples = (values g).map Samples.clamp :=
    (hclamped g).trans (Samples.clampNonFinite_eq (values g))
  -- one function of the time for all grids: it is what makes samples comparable across them
  have hpointwise (hv : ¬ IsDirectVector text) : ∃ f : Float → Float, ∀ n,
      e.valueAt (Primitive.value interpretation tolerances.deltaWidth) interpretation.power n =
        some (f n) := SignalExpr.exists_valueAt_of_read h hv _ _
  refine ⟨sample, houtcome, hgrid, fun g k hk => ?_, fun hv g k i j p hp hq => ?_,
    fun hv hi g k i j p q hp hq hpq => ?_⟩
  · exact samples_take (SignalExpr.isEvaluable_of_read h) (hvalues g) (hvalues k) (hsamples g)
      (hsamples k) hk
  · obtain ⟨f, hf⟩ := hpointwise hv
    exact ⟨_, getElem?_samples hf (hvalues g) (hsamples g) hp,
      getElem?_samples hf (hvalues k) (hsamples k) hq⟩
  · obtain ⟨f, hf⟩ := hpointwise hv
    refine ⟨_, _, getElem?_samples hf (hvalues g) (hsamples g) hp,
      getElem?_samples hf (hvalues k) (hsamples k) hq, ?_⟩
    have hagree := SignalExpr.agree_valueAt hi (agree_of_beq hpq) (hf p) (hf q)
    exact (Samples.agree_clamp hagree).beq (Samples.isFinite_clamp _)

/-- A ramp on two grids that start at zeros of different signs. -/
theorem ofText_local_ramp :
    let interpretation : Interpretation Float := ⟨id, fun _ => 1, id, fun _ => 1, fun _ _ => 1⟩
    let g : TimeGrid Float := ⟨[0, 0.5], 0, by decide +kernel⟩
    let k : TimeGrid Float := ⟨[-0.0, 1], 0, by decide +kernel⟩
    ¬ IsDirectVector (some "u[n]*n") ∧ interpretation.Respects ∧
      ∃ sample, SamplesLocally Parser.machineLevels interpretation ⟨.standard, rfl⟩
        (some "u[n]*n") sample ∧ ∃ a b, (sample g).samples[0]? = some a ∧
          (sample k).samples[0]? = some b ∧ (a == b) = true := by
  intro interpretation g k
  have hread : (SignalExpr.read Parser.machineLevels (some "u[n]*n")).outcome =
      .ok (.times (.call .step .time) .time : SignalExpr Float) :=
    eq_ok_of_toOption (by decide +kernel)
  have hvector : ¬ IsDirectVector (some "u[n]*n") := by
    rintro ⟨_, ⟨⟩, h⟩
    revert h
    decide +kernel
  have hrespects : interpretation.Respects :=
    ⟨fun _ _ h => h, fun _ _ _ => agree_refl 1, fun _ _ h => h, fun _ _ _ => agree_refl 1,
      fun _ _ _ _ => agree_refl 1⟩
  obtain ⟨sample, hsample⟩ := ofText_local interpretation ⟨.standard, rfl⟩ hread
  exact ⟨hvector, hrespects, sample, hsample,
    hsample.equal hvector hrespects g k 0 0 0 (-0.0) rfl rfl (by decide +kernel)⟩

end Signal

end SteppedConvolution
