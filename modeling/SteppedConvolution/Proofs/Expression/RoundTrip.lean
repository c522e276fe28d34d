import SteppedConvolution.Proofs.Decimal.General
import SteppedConvolution.Proofs.Expression.LeadingSign
import SteppedConvolution.Proofs.Expression.Rereading
import SteppedConvolution.Proofs.Expression.Spelling

/-! # Reading the text of a tree

The text of a tree that was read is read again. Its tokens are those of the tree up to the
spelling of numbers, at which the parser does not look, so the same tree comes back.
-/

namespace SteppedConvolution

variable {K : Type} [Scalar K] {levels : Nat} {write : K → String}

namespace SignalExpr

/-- A tree with other numbers is the same tree when its numbers are the same. -/
theorem same_respelled {spell : K → Numeral} {t : SignalExpr K}
    (h : ∀ v ∈ t.numbers, ((spelled spell v).value == v) = true) :
    (t.respelled spell).same t = true := by
  induction t with
  | vector entries =>
    change (entries.map fun v => (spelled spell v).value) == entries
    induction entries with
    | nil => rfl
    | cons v entries ih =>
      have hv := h v List.mem_cons_self
      have hentries := ih fun w hw => h w (List.mem_cons_of_mem v hw)
      rw [List.map_cons, List.cons_beq_cons, hv, hentries]
      rfl
  | time => rfl
  | constant c => exact h c List.mem_cons_self
  | power base => exact h base List.mem_cons_self
  | apply p a ih =>
    rw [respelled, same, ih h]
    simp
  | combine op a b iha ihb =>
    rw [respelled, same, iha fun v hv => h v (List.mem_append_left _ hv),
      ihb fun v hv => h v (List.mem_append_right _ hv)]
    simp
  | foreign content => simp [respelled, same]

/-- What is read as a vector has entries. -/
theorem exists_entries_of_read {text : String} {t : SignalExpr K}
    (hv : isVectorText (Text.strip text.toList) = true)
    (hread : (SignalExpr.read levels (some text)).outcome = .ok t) :
    ∃ entries, t = .vector entries ∧ entries ≠ [] := by
  unfold read at hread
  dsimp only at hread
  split at hread
  · cases hread
  · split at hread
    · cases hread
    · rename_i entries hvalues
      cases hread
      exact ⟨entries, rfl, Bracketed.ne_nil_of_values hvalues⟩

/-- The text of a tree that was read is read as the tree with its numbers spelled out. -/
theorem read_text_respelled [SignedDecimals K] (hw : IsNumberFormat write) {text : String}
    {t : SignalExpr K} (hread : (SignalExpr.read levels (some text)).outcome = .ok t)
    (hf : ∀ v ∈ t.numbers, Scalar.isFinite v = true)
    (hplus : ∀ tokens, (Lexer.tokenize (Text.strip text.toList) : Except (TextFault K) _) =
      .ok tokens → ¬ Parser.HasPlusSign (tokens.map Token.lexeme)) :
    (SignalExpr.read levels (some (t.text write))).outcome =
      .ok (t.respelled (numeralOf write)) := by
  cases hv : isVectorText (Text.strip text.toList) with
  | false =>
    obtain ⟨tokens, htokens, hnode⟩ := exists_tokens_of_read hv hread
    obtain ⟨us, hus, htext, hnumber⟩ :=
      hw.spells_of_node? (Parser.node?_of_node hnode) (hplus tokens htokens) hf
    have hrespelled := Piece.node_respelled (numeralOf write) levels us
    rw [hus, hnode, Parser.Rule.map_of] at hrespelled
    have hplaced := Lexer.WellPlaced.of_node? (Parser.node?_of_node hrespelled)
    have hjoined := read_joined (K := K) levels hplaced hnumber
    rwa [hrespelled, htext, String.ofList_toList] at hjoined
  | true =>
    obtain ⟨entries, rfl, hne⟩ := exists_entries_of_read hv hread
    have hspelled (v : K) (hv : v ∈ entries) := hw.wellFormed_spelled (hf v hv)
    have hwell : ∀ s ∈ entries.map (spelled (numeralOf write)), s.WellFormed := by
      intro s hs
      obtain ⟨v, hv, rfl⟩ := List.mem_map.1 hs
      exact (hspelled v hv).1
    have hlisted := read_listed (K := K) levels (by simpa using hne) hwell
    have htext : ((vector entries).text write).toList =
        Bracketed.listed (entries.map (spelled (numeralOf write))) := by
      have hmap : (entries.map write).map String.toList =
          (entries.map (spelled (numeralOf write))).map SignedNumeral.text := by
        rw [List.map_map, List.map_map]
        exact List.map_congr_left fun v hv => (hspelled v hv).2.symm
      rw [SignalExpr.text, String.toList_append, String.toList_append, String.toList_intercalate,
        hmap]
      rfl
    rw [← htext, String.ofList_toList, List.map_map] at hlisted
    exact hlisted

/-- The text of a tree that was read is read as the same tree, given that every number in it is
finite and is read back from its text, and that no `+` outside brackets is a sign. -/
theorem read_text {write : Float → String} (hw : IsNumberFormat write) {text : String}
    {t : SignalExpr Float} (hread : (SignalExpr.read levels (some text)).outcome = .ok t)
    (hnumbers : ∀ v ∈ t.numbers, Scalar.isFinite v = true ∧ readsBack write v = true)
    (hplus : ∀ tokens, (Lexer.tokenize (Text.strip text.toList) : Except (TextFault Float) _) =
      .ok tokens → ¬ Parser.HasPlusSign (tokens.map Token.lexeme)) :
    ∃ t', (SignalExpr.read levels (some (t.text write))).outcome = .ok t' ∧ t'.same t = true := by
  have hrespelled := read_text_respelled hw hread (fun v hv => (hnumbers v hv).1) hplus
  refine ⟨t.respelled (numeralOf write), hrespelled, same_respelled fun v hv => ?_⟩
  obtain ⟨hfinite, hback⟩ := hnumbers v hv
  obtain ⟨hwell, htext⟩ := hw.wellFormed_spelled hfinite
  rwa [readsBack, ← htext, hwell.value?_ofText?] at hback

/-- Signs of operands, `-n` in brackets and powers of ten go through the round trip. -/
theorem read_text_signed_operands : ∃ (t : SignalExpr Float),
    (SignalExpr.read Parser.machineLevels
        (some "0.5*n--3*u[+2]*sin[cos[-n]]+1e-7^n-2.5e+10")).outcome = .ok t ∧
      t.text Binary.generalText = "0.5*n--3*u[2]*sin[cos[-1*n]]+1e-07^n-2.5e+10" ∧
      (∀ v ∈ t.numbers, Scalar.isFinite v = true ∧ readsBack Binary.generalText v = true) ∧
      ∃ t', (SignalExpr.read Parser.machineLevels
        (some (t.text Binary.generalText))).outcome = .ok t' ∧ t'.same t = true := by
  have hread : (SignalExpr.read Parser.machineLevels
      (some "0.5*n--3*u[+2]*sin[cos[-n]]+1e-7^n-2.5e+10")).outcome =
      .ok (.plus (.minus (.times (.constant (0.5 : Float)) .time)
        (.times (.constant (-3)) (.times (.call .step (.constant 2))
          (.call .sine (.call .cosine (.times (.constant (-1)) .time))))))
        (.minus (.power 1e-7) (.constant 2.5e10))) :=
    eq_ok_of_toOption (by decide +kernel)
  have hplus (tokens : List Token)
      (h : (Lexer.tokenize (Text.strip "0.5*n--3*u[+2]*sin[cos[-n]]+1e-7^n-2.5e+10".toList) :
        Except (TextFault Float) _) = .ok tokens) :
      ¬ Parser.HasPlusSign (tokens.map Token.lexeme) := by
    have hlexemes : (Lexer.tokenize (K := Float) (Text.strip
        "0.5*n--3*u[+2]*sin[cos[-n]]+1e-7^n-2.5e+10".toList)).toOption.all fun tokens =>
          ¬ Parser.HasPlusSign (tokens.map Token.lexeme) := by
      decide +kernel
    rw [h] at hlexemes
    exact of_decide_eq_true hlexemes
  exact ⟨_, hread, by decide +kernel, by decide +kernel,
    read_text Binary.isNumberFormat_generalText hread (by decide +kernel) hplus⟩

end SignalExpr

end SteppedConvolution
