import SteppedConvolution.Expression.Machine
import SteppedConvolution.Proofs.Binary.Comparison
import SteppedConvolution.Proofs.Expression.Induction
import SteppedConvolution.Proofs.Expression.LeadingSign
import SteppedConvolution.Proofs.Expression.Lexing
import SteppedConvolution.Proofs.Expression.Rereading
import SteppedConvolution.Proofs.Numeral.Listed
import SteppedConvolution.Proofs.TimeGrid.Admissible
import SteppedConvolution.Signal.Sampling

/-! # Texts that are sampled

Sampling the text of an expression on a grid fails only where reading the text does, and reading
fails with a fault of the text, or because its operators nest deeper than the stack of the parser
has room for. What is read names nothing unknown, so it has a value at every position; values that
are not finite become zero, and what is left are the samples of a signal. The numbers of a text are
read back from their own characters as the values that they have in the tree.
-/

namespace SteppedConvolution

open Grammar

/-! ## Trees with values -/

namespace SignalExpr

variable {K : Type} [Scalar K]

/-- Trees whose primitives and operators all exist and whose leaves are expressions. -/
inductive IsEvaluable : SignalExpr K → Prop
  | vector (entries : List K) : IsEvaluable (.vector entries)
  | time : IsEvaluable .time
  | constant (c : K) : IsEvaluable (.constant c)
  | power (base : K) : IsEvaluable (.power base)
  | call (p : Primitive) {a : SignalExpr K} (ha : IsEvaluable a) : IsEvaluable (.call p a)
  | combine (op : Operator) {a b : SignalExpr K} (ha : IsEvaluable a) (hb : IsEvaluable b) :
    IsEvaluable (.combine (.known op) a b)

theorem length_alignLeft (entries : List K) (n : Nat) : (alignLeft entries n).length = n := by
  rw [alignLeft, List.length_append, List.length_take, List.length_replicate]
  omega

/-- Such a tree has one value for each position. -/
theorem IsEvaluable.exists_values {e : SignalExpr K} (he : e.IsEvaluable)
    (interpretation : Interpretation K) (width : K) (positions : List K) :
    ∃ values, (e.evaluate interpretation width positions).outcome = .ok values ∧
      values.length = positions.length := by
  unfold evaluate
  induction he with
  | vector entries =>
    refine ⟨alignLeft entries positions.length, ?_, length_alignLeft _ _⟩
    exact Logged.bind_eq_ok.2 ⟨(), Logged.noteIf_outcome _ _, rfl⟩
  | time => exact ⟨positions, rfl, rfl⟩
  | constant c => exact ⟨_, rfl, List.length_map _⟩
  | power base => exact ⟨_, rfl, List.length_map _⟩
  | call p ha ih =>
    obtain ⟨arguments, ha, hl⟩ := ih
    refine ⟨arguments.map (p.value interpretation width), ?_, ?_⟩
    · exact Logged.bind_eq_ok.2 ⟨arguments, ha, rfl⟩
    · rw [List.length_map, hl]
  | combine op ha hb iha ihb =>
    obtain ⟨left, ha, hla⟩ := iha
    obtain ⟨right, hb, hlb⟩ := ihb
    refine ⟨List.zipWith op.apply left right, ?_, ?_⟩
    · exact Logged.bind_eq_ok.2 ⟨left, ha, Logged.bind_eq_ok.2 ⟨right, hb, rfl⟩⟩
    · rw [List.length_zipWith, hla, hlb, min_self]

end SignalExpr

namespace Grammar

variable {K : Type} [Scalar K]

theorem Argument.isEvaluable (a : Argument) : (a.tree : SignalExpr K).IsEvaluable := by
  cases a with
  | time => exact .time
  | negated => exact .combine _ (.constant _) .time
  | shifted sign k =>
    cases sign with
    | plus => exact .combine _ .time (.constant _)
    | minus => exact .combine _ .time (.constant _)
  | scaled sign c => exact .combine _ (.constant _) .time
  | number sign c => exact .constant _

theorem Factor.isEvaluable (f : Factor) : (f.tree : SignalExpr K).IsEvaluable := by
  cases f with
  | time => exact .time
  | number sign k => exact .constant _
  | power sign k => exact .power _
  | call f a => exact .call f a.isEvaluable
  | nested f g a => exact .call f (.call g a.isEvaluable)

end Grammar

/-- What is parsed has a value at every position. -/
theorem Parser.isEvaluable_of_node? {K : Type} [Scalar K] {ls : List Lexeme} {t : SignalExpr K}
    (h : node? ls = some t) : t.IsEvaluable := by
  refine node?_induction (motive := fun _ t => t.IsEvaluable) (fun f => f.isEvaluable) ?_ ?_ h
  · intro sign c
    exact .combine _ (.constant _) .time
  · intro op xs ys a b _ _ ha hb
    exact .combine op ha hb

/-! ## Faults of reading -/

/-- The kinds of faults with which the text of an expression is refused. -/
def TextFault.Kind.isOfReading : TextFault.Kind → Bool
  | emptyInput | invalidNumber | nestedBrackets | divisionNotSupported | complexLiteral
  | unknownIdentifier | unexpectedCharacter | unparseableExpression => true
  | _ => false

/-- The fault of a text that is no expression. -/
def Fault.IsOfReading {K : Type} (f : Fault K) : Prop :=
  ∃ cause source, f = .text cause source ∧ cause.kind.isOfReading = true

namespace SignalExpr

variable {K : Type} {levels : Nat} {text : Option String}

theorem kind_of_tokenize {cs : List Char} {cause : TextFault K}
    (h : Lexer.tokenize cs = .error cause) : cause.kind.isOfReading = true := by
  unfold Lexer.tokenize at h
  dsimp only at h
  split_ifs at h
  · cases h
    rfl
  · cases h
    rfl
  · cases htokens : Lexer.tokensFrom 0 (Text.compact cs) with
    | ok tokens =>
      rw [htokens] at h
      cases h
    | error failed =>
      obtain ⟨failure, position⟩ := failed
      rw [htokens] at h
      cases h
      cases failure <;> rfl

variable [Scalar K]

theorem kind_of_values {cs : List Char} {cause : TextFault K}
    (h : (Bracketed.values cs : Except (TextFault K) (List K)) = .error cause) :
    cause.kind.isOfReading = true := by
  rcases Bracketed.cause_of_values h with rfl | rfl | rfl <;> rfl

/-- The operators of a text outside brackets are as many as the levels of a stack, or more. -/
def ExceedsStack (K : Type) (levels : Nat) (stripped : List Char) : Prop :=
  ∃ tokens, (Lexer.tokenize stripped : Except (TextFault K) _) = .ok tokens ∧
    levels ≤ Parser.operators (tokens.map Token.lexeme)

theorem fault_of_parse {source stripped : List Char} {f : Fault K}
    (h : parse levels source stripped = .error f) :
    f.IsOfReading ∨ f = .plain .tooDeep ∧ ExceedsStack K levels stripped := by
  unfold parse at h
  cases htokens : (Lexer.tokenize stripped : Except (TextFault K) _) with
  | error cause =>
    rw [htokens] at h
    cases h
    exact .inl ⟨cause, _, rfl, kind_of_tokenize htokens⟩
  | ok tokens =>
    rw [htokens] at h
    dsimp only at h
    split at h
    · cases h
      exact .inl ⟨_, _, rfl, rfl⟩
    · -- the parser finds a result or that its stack is too small
      rcases Parser.node_cases (K := K) levels (tokens.map Token.lexeme) with hn | ⟨hn, hle⟩
      · rw [hn] at h
        cases hfound : (Parser.node? (tokens.map Token.lexeme) : Option (SignalExpr K)) with
        | none =>
          rw [hfound] at h
          cases h
          exact .inl ⟨_, _, rfl, rfl⟩
        | some t =>
          rw [hfound] at h
          cases h
      · rw [hn] at h
        cases h
        exact .inr ⟨rfl, tokens, htokens, hle⟩

/-- A text that is no expression is refused with a fault of that text, and one with too many
operators for the stack because of those. -/
theorem fault_of_read {f : Fault K} (h : (read levels text).outcome = .error f) :
    f.IsOfReading ∨
      f = .plain .tooDeep ∧ ∃ source ∈ text, ExceedsStack K levels (Text.strip source.toList) := by
  unfold read at h
  split at h
  · cases h
    exact .inl ⟨_, _, rfl, rfl⟩
  · rename_i source
    split at h
    · cases h
      exact .inl ⟨_, _, rfl, rfl⟩
    · dsimp only at h
      split at h
      · split at h
        · rename_i cause hvalues
          cases h
          exact .inl ⟨cause, _, rfl, kind_of_values hvalues⟩
        · cases h
      · cases hparse : (parse levels source.toList (Text.strip source.toList) :
            Except (Fault K) (SignalExpr K)) with
        | ok e =>
          rw [hparse] at h
          cases h
        | error g =>
          rw [hparse] at h
          cases h
          exact (fault_of_parse hparse).imp_right fun h => ⟨h.1, source, rfl, h.2⟩

theorem isEvaluable_of_read {e : SignalExpr K} (h : (read levels text).outcome = .ok e) :
    e.IsEvaluable := by
  cases text with
  | none => cases h
  | some source =>
    by_cases hv : isVectorText (Text.strip source.toList) = true
    · unfold read at h
      dsimp only at h
      rw [if_pos hv] at h
      split at h
      · cases h
      · split at h
        · cases h
        · cases h
          exact .vector _
    · obtain ⟨tokens, -, hnode⟩ := exists_tokens_of_read (Bool.eq_false_iff.2 hv) h
      exact Parser.isEvaluable_of_node? (Parser.node?_of_node hnode)

end SignalExpr

/-! ## Samples of expressions -/

theorem Samples.isFinite_of_mem_clampNonFinite {values : List Float} {a : Float}
    (ha : a ∈ (clampNonFinite values).1) : Scalar.isFinite a = true := by
  obtain ⟨b, -, rfl⟩ := List.mem_map.1 ha
  split
  · assumption
  · rfl

/-- A finite double is a number. -/
theorem Binary.isUndefined_of_isFinite {a : Float} (h : Scalar.isFinite a = true) :
    Scalar.isUndefined a = false := by
  change (parts a).isFinite = true at h
  change (parts a).isNaN = false
  cases hp : parts a with
  | notANumber =>
    rw [hp] at h
    cases h
  | infinity s => rfl
  | zero s => rfl
  | finite s m e hm => rfl

theorem Samples.defect?_clampNonFinite {values : List Float} (h : values ≠ []) :
    defect? (clampNonFinite values).1 = none := by
  refine defect?_eq_none_iff.2 ⟨?_, fun a ha => ?_, fun a ha => isFinite_of_mem_clampNonFinite ha⟩
  · simpa [clampNonFinite] using h
  · exact Binary.isUndefined_of_isFinite (isFinite_of_mem_clampNonFinite ha)

namespace Signal

/-- Samples without a defect, one for each position, make a signal. -/
theorem exists_ofSamples {K : Type} [Scalar K] {g : TimeGrid K} {samples : List K}
    (hd : Samples.defect? samples = none) (hl : samples.length = g.size) :
    ∃ s, ofSamples g samples = .ok s ∧ s.grid = g ∧ s.samples = samples := by
  unfold ofSamples
  split
  · rename_i d h
    rw [hd] at h
    cases h
  · exact ⟨_, dif_pos hl, rfl, rfl⟩

section

variable (interpretation : Interpretation Float) (tolerances : Tolerances Float)
  {levels : Nat} {text : Option String} (g : TimeGrid Float)

/-- A text that is no expression is refused with the fault of reading it. -/
theorem ofText_refused {f : Fault Float} (h : (SignalExpr.read levels text).outcome = .error f) :
    (ofText levels interpretation tolerances text (.grid g)).outcome = .error f := by
  unfold ofText
  rw [Logged.outcome_bind_of_ok rfl, Logged.outcome_bind_of_ok rfl, Logged.outcome_bind_of_error h]

/-- The values of an expression that is read become the samples of a signal. -/
theorem ofText_read {e : SignalExpr Float} (h : (SignalExpr.read levels text).outcome = .ok e) :
    ∃ values s, (e.evaluate interpretation tolerances.deltaWidth g.values).outcome = .ok values ∧
      values.length = g.size ∧
      (ofText levels interpretation tolerances text (.grid g)).outcome = .ok s ∧
      s.grid = g ∧ s.samples = (Samples.clampNonFinite values).1 := by
  obtain ⟨values, hvalues, hl⟩ := (SignalExpr.isEvaluable_of_read h).exists_values interpretation
    tolerances.deltaWidth g.values
  have hl : values.length = g.size := hl
  have hlength : (Samples.clampNonFinite values).1.length = g.size :=
    (List.length_map _).trans hl
  have hne : values ≠ [] := by
    rw [← List.length_pos_iff, hl]
    exact g.size_pos
  obtain ⟨s, hs, hgrid, hsamples⟩ := exists_ofSamples (Samples.defect?_clampNonFinite hne) hlength
  refine ⟨values, s, hvalues, hl, ?_, hgrid, hsamples⟩
  unfold ofText
  rw [Logged.outcome_bind_of_ok rfl, Logged.outcome_bind_of_ok rfl, Logged.outcome_bind_of_ok h,
    Logged.outcome_bind_of_ok hvalues, if_neg (not_not.2 hl),
    Logged.outcome_bind_of_ok (Logged.noteIf_outcome _ _), Logged.ofExcept_outcome, hs]

end

/-- The numbers among the tokens of a text, and those in brackets, are read back from their own
characters as the values that the tree has. -/
theorem value?_numbers {K : Type} [Scalar K] (cs : List Char) :
    (∀ tokens, (Lexer.tokenize cs : Except (TextFault K) _) = .ok tokens →
      ∀ n, .number n ∈ tokens.map Token.lexeme →
        ((Reading.ofText? n.text).bind Reading.value? : Option K) = some n.value) ∧
    ∀ ss, (Bracketed.numerals cs : Except (TextFault K) _) = .ok ss →
      ∀ s ∈ ss, ((Reading.ofText? s.text).bind Reading.value? : Option K) = some s.value := by
  constructor
  · intro tokens htokens n hn
    have hread := Numeral.ofText?_text (Lexer.wellFormed_of_tokenize htokens n hn) (.inl rfl)
    rw [Option.toList_none, List.nil_append] at hread
    simp [hread, Reading.value?]
  · intro ss hss s hs
    exact (Bracketed.wellFormed_of_numerals hss s hs).value?_ofText?

/-- Sampling a text on a grid fails exactly as reading the text does, with a fault of that text or
because it has at least as many operators outside brackets as the stack has levels. Otherwise the
expression has a value at every position of the grid, and the result is a signal on the grid with
one finite sample for each position. Every number of the text is one that can be read back. -/
theorem ofText_ends (levels : Nat) (interpretation : Interpretation Float)
    (tolerances : Tolerances Float) (text : Option String) (g : TimeGrid Float) :
    (∀ f, (SignalExpr.read levels text).outcome = .error f →
      (ofText levels interpretation tolerances text (.grid g)).outcome = .error f ∧
      (f.IsOfReading ∨ f = .plain .tooDeep ∧
        ∃ source ∈ text, SignalExpr.ExceedsStack Float levels (Text.strip source.toList))) ∧
    (∀ e, (SignalExpr.read levels text).outcome = .ok e → ∃ values s,
      (e.evaluate interpretation tolerances.deltaWidth g.values).outcome = .ok values ∧
      values.length = g.size ∧
      (ofText levels interpretation tolerances text (.grid g)).outcome = .ok s ∧ s.grid = g ∧
      s.samples = (Samples.clampNonFinite values).1 ∧ s.samples.length = g.size ∧
      ∀ a ∈ s.samples, Scalar.isFinite a = true) ∧
    (∀ source ∈ text, ∀ tokens,
      (Lexer.tokenize (Text.strip source.toList) : Except (TextFault Float) _) = .ok tokens →
      ∀ n, .number n ∈ tokens.map Token.lexeme →
        (Reading.ofText? n.text).bind Reading.value? = some (n.value : Float)) ∧
    ∀ source ∈ text, ∀ ss,
      (Bracketed.numerals (Text.strip source.toList) : Except (TextFault Float) _) = .ok ss →
      ∀ s ∈ ss, (Reading.ofText? s.text).bind Reading.value? = some (s.value : Float) := by
  refine ⟨fun f hf => ?_, fun e he => ?_, fun source _ => (value?_numbers _).1,
    fun source _ => (value?_numbers _).2⟩
  · exact ⟨ofText_refused interpretation tolerances g hf, SignalExpr.fault_of_read hf⟩
  · obtain ⟨values, s, hvalues, hl, hs, hgrid, hsamples⟩ :=
      ofText_read interpretation tolerances g he
    exact ⟨values, s, hvalues, hl, hs, hgrid, hsamples, hgrid ▸ s.length_eq, s.finite⟩

end Signal

/-! ## Sums that are too long -/

theorem Lexer.wellPlaced_longSum (k : Nat) : WellPlaced (Parser.longSum k) := by
  induction k with
  | zero => exact .factor .time
  | succ k ih => exact ih.combine (.factor .time) .add

namespace Signal

/-- The text `n+n+...+n` with a number of operators. -/
def longSumText (k : Nat) : String := String.ofList (Lexer.joined (Parser.longSum k))

/-- On any stack some sum is too long, although nothing is wrong with its text. -/
theorem ofText_longSum {levels k : Nat} (h : levels ≤ k) (interpretation : Interpretation Float)
    (tolerances : Tolerances Float) (g : TimeGrid Float) :
    (ofText levels interpretation tolerances (some (longSumText k)) (.grid g)).outcome =
      .error (.plain .tooDeep) := by
  have hnumber (n : Numeral) (hn : .number n ∈ Parser.longSum k) : n.WellFormed .mayTrail := by
    rcases Parser.mem_longSum hn with h | h <;> cases h
  have hread := SignalExpr.read_joined (K := Float) levels (Lexer.wellPlaced_longSum k) hnumber
  rw [Parser.node_longSum h] at hread
  exact ofText_refused interpretation tolerances g hread

/-- On the stack of the machine, the sum of five thousand and one terms `n` is refused with a fault
that is no fault of its text. -/
theorem ofText_sumOfTimes :
    let g : TimeGrid Float := ⟨[0, 1], 0, by decide +kernel⟩
    (ofText Parser.machineLevels .machine ⟨.standard, rfl⟩ (some (longSumText 5000))
      (.grid g)).outcome = .error (.plain .tooDeep) ∧
      ¬ (.plain .tooDeep : Fault Float).IsOfReading := by
  intro g
  refine ⟨ofText_longSum (by decide) .machine ⟨.standard, rfl⟩ g, ?_⟩
  rintro ⟨cause, source, hf, -⟩
  cases hf

end Signal

end SteppedConvolution
