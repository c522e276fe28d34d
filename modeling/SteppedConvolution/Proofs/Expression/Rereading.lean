import SteppedConvolution.Expression.Reading
import SteppedConvolution.Proofs.Expression.Induction
import SteppedConvolution.Proofs.Expression.Lexing
import SteppedConvolution.Proofs.Expression.Outline
import SteppedConvolution.Proofs.Numeral.Listed

/-! # Reading texts that were put together

In a list that is parsed no lexemes run together and brackets come in pairs. So the texts of
its lexemes, joined without blanks, are read as an expression with the same tree. Numbers in
brackets, with commas and blanks between them, are read as a vector.
-/

namespace SteppedConvolution

open Grammar

/-- No lexemes of the list run together, its brackets come in pairs, and it starts with a lexeme
that is no bracket. -/
structure Lexer.WellPlaced (ls : List Lexeme) : Prop where
  chain : ls.IsChain fun before after => mayFollow before after = true
  balanced : ∀ depth rest,
    Bracket.isBalancedFrom depth (ls ++ rest) = Bracket.isBalancedFrom depth rest
  starts : ∃ l ∈ ls.head?, l ≠ .opening

namespace Bracket

theorem isBalancedFrom_append {ls : List Lexeme} (h : ∀ x ∈ ls, x.isBracket = false) (depth : Nat)
    (rest : List Lexeme) : isBalancedFrom depth (ls ++ rest) = isBalancedFrom depth rest := by
  induction ls with
  | nil => rfl
  | cons x xs ih =>
    have hx := h x List.mem_cons_self
    have hstep : isBalancedFrom depth (x :: (xs ++ rest)) = isBalancedFrom depth (xs ++ rest) := by
      cases x <;> first | rfl | cases hx
    rw [List.cons_append, hstep, ih fun y hy => h y (List.mem_cons_of_mem x hy)]

end Bracket

namespace Lexer.WellPlaced

/-- A call of lexemes that do not start with a bracket. -/
theorem bracketed {ls : List Lexeme} (h : WellPlaced ls) (f : Primitive) :
    WellPlaced (bracketed f ls) := by
  obtain ⟨l, hl, hne⟩ := h.starts
  refine ⟨?_, ?_, .primitive f, rfl, nofun⟩
  · have hopening : mayFollow .opening l = true := by cases l <;> first | rfl | exact absurd rfl hne
    have hclosing (l : Lexeme) : mayFollow l .closing = true := by cases l <;> rfl
    have hinner : (ls ++ [Lexeme.closing]).IsChain
        fun before after => mayFollow before after = true :=
      h.chain.append (List.isChain_singleton _) fun x _ y hy => by
        cases hy
        exact hclosing x
    refine List.isChain_cons_cons.2 ⟨rfl, List.isChain_cons.2 ⟨fun y hy => ?_, hinner⟩⟩
    rw [List.head?_append_of_ne_nil _ (List.ne_nil_of_mem (List.mem_of_head? hl)), hl] at hy
    cases hy
    exact hopening
  · intro depth rest
    have happ : Grammar.bracketed f ls ++ rest =
        .primitive f :: .opening :: (ls ++ .closing :: rest) := by
      simp [Grammar.bracketed]
    rw [happ]
    exact h.balanced (depth + 1) (.closing :: rest)

theorem argument (a : Argument) : WellPlaced a.lexemes := by
  refine ⟨?_, Bracket.isBalancedFrom_append a.isBracket, ?_⟩
  · cases a with
    | shifted sign k => cases sign <;> simp [Argument.lexemes, Sign.lexeme, mayFollow, Lexeme.kind]
    | scaled sign c =>
      rcases sign with _ | _ | _ <;>
        simp [Argument.lexemes, Sign.lexemes, Sign.lexeme, mayFollow, Lexeme.kind]
    | number sign c =>
      rcases sign with _ | _ | _ <;>
        simp [Argument.lexemes, Sign.lexemes, Sign.lexeme, mayFollow, Lexeme.kind]
    | _ => simp [Argument.lexemes, mayFollow, Lexeme.kind]
  · cases a with
    | scaled sign c | number sign c =>
      rcases sign with _ | _ | _ <;> exact ⟨_, rfl, by simp [Sign.lexeme]⟩
    | _ => exact ⟨_, rfl, by simp⟩

theorem factor (f : Factor) : WellPlaced f.lexemes := by
  cases f with
  | time => exact argument .time
  | number sign k => exact argument (.number sign k)
  | power sign k =>
    refine ⟨?_, Bracket.isBalancedFrom_append ?_, ?_⟩ <;> rcases sign with _ | _ | _ <;>
      simp [Factor.lexemes, Sign.lexemes, Sign.lexeme, mayFollow, Lexeme.kind, Lexeme.isBracket]
  | call f a => exact (argument a).bracketed f
  | nested f g a => exact ((argument a).bracketed g).bracketed f

/-- No lexeme runs on into an operator, nor an operator into what follows. -/
theorem combine {xs ys : List Lexeme} (hx : WellPlaced xs) (hy : WellPlaced ys) (op : Operator) :
    WellPlaced (xs ++ op.lexeme :: ys) := by
  obtain ⟨x, hx', hne⟩ := hx.starts
  have hbefore (l : Lexeme) : mayFollow l op.lexeme = true := by cases op <;> cases l <;> rfl
  have hbehind (l : Lexeme) : mayFollow op.lexeme l = true := by cases op <;> rfl
  refine ⟨?_, ?_, x, ?_, hne⟩
  · refine hx.chain.append (List.isChain_cons.2 ⟨fun y _ => hbehind y, hy.chain⟩) fun l _ m hm => ?_
    cases hm
    exact hbefore l
  · intro depth rest
    have hop (rest : List Lexeme) : Bracket.isBalancedFrom depth (op.lexeme :: rest) =
        Bracket.isBalancedFrom depth rest := by
      cases op <;> rfl
    rw [List.append_assoc, hx.balanced, List.cons_append, hop, hy.balanced]
  · rwa [List.head?_append_of_ne_nil _ (List.ne_nil_of_mem (List.mem_of_head? hx'))]

/-- What is parsed is well placed. -/
theorem of_node? {K : Type} [Scalar K] {ls : List Lexeme} {t : SignalExpr K}
    (h : Parser.node? ls = some t) : WellPlaced ls :=
  Parser.node?_induction (motive := fun ls _ => WellPlaced ls) factor
    (fun sign c => argument (.scaled sign c)) (fun op _ _ _ _ _ _ hx hy => hx.combine hy op) h

end Lexer.WellPlaced

namespace SignalExpr

variable {K : Type} [Scalar K]

/-- Lexemes that are well placed, joined without blanks, are tokenized as themselves. -/
theorem parse_joined (levels : Nat) {ls : List Lexeme} (h : Lexer.WellPlaced ls)
    (hn : ∀ n, .number n ∈ ls → n.WellFormed .mayTrail) :
    parse levels (Lexer.joined ls) (Lexer.joined ls) =
      match (Parser.node (K := K) levels ls).run with
      | .error f => .error f
      | .ok none => .error (.text .unparseable (some (String.ofList (Lexer.joined ls))))
      | .ok (some t) => .ok t := by
  obtain ⟨hchain, hbalanced, -⟩ := h
  obtain ⟨tokens, htokens, hls⟩ := Lexer.tokenize_joined (K := K) ⟨hchain, hn⟩
  have hbalanced : Bracket.isBalanced ls = true := by
    have hnil := hbalanced 0 []
    rwa [List.append_nil] at hnil
  rw [parse, htokens]
  rcases hnode : (Parser.node (K := K) levels ls).run with f | _ | t
  all_goals simp only [hls, hbalanced, hnode, Bool.not_true, Bool.false_eq_true, if_false]

/-- Lexemes that are well placed, joined without blanks, are read as the parser takes them. -/
theorem read_joined (levels : Nat) {ls : List Lexeme} (h : Lexer.WellPlaced ls)
    (hn : ∀ n, .number n ∈ ls → n.WellFormed .mayTrail) :
    (SignalExpr.read levels (some (String.ofList (Lexer.joined ls)))).outcome =
      match (Parser.node (K := K) levels ls).run with
      | .error f => .error f
      | .ok none => .error (.text .unparseable (some (String.ofList (Lexer.joined ls))))
      | .ok (some t) => .ok t := by
  rw [← parse_joined levels h hn]
  obtain ⟨hchain, -, l, hl, hne⟩ := h
  have hsep : Lexer.Separated ls := ⟨hchain, hn⟩
  have hmem := List.mem_of_head? hl
  obtain ⟨c, cs, htext⟩ := List.exists_cons_of_ne_nil
    (Lexer.text_ne_nil (l := l) fun n hl => hn n (hl ▸ hmem))
  have hc : c ∈ Lexer.joined ls := List.mem_flatMap.2 ⟨l, hmem, by simp [htext]⟩
  have hblank : Text.isBlankText (Lexer.joined ls) = false :=
    Text.isBlankText_eq_false hc (hsep.text_chars c hc).1
  have hstrip : Text.strip (Lexer.joined ls) = Lexer.joined ls :=
    Text.strip_eq_self fun c hc => (hsep.text_chars c hc).1
  have hvector : isVectorText (Lexer.joined ls) = false := by
    obtain ⟨ls', rfl⟩ := List.head?_eq_some_iff.1 hl
    have hopening : c ≠ '[' := fun heq =>
      hne ((Lexer.text_chars (fun n hl => hn n (hl ▸ hmem)) c (by simp [htext])).2.2 heq)
    simp [isVectorText, Lexer.joined, htext, hopening]
  unfold read
  dsimp only
  rw [String.toList_ofList, hblank, hstrip, hvector, if_neg Bool.false_ne_true,
    if_neg Bool.false_ne_true]
  cases hp : (parse levels (Lexer.joined ls) (Lexer.joined ls) : Except (Fault K) _) with
  | ok t => rfl
  | error f => rfl

/-- Numbers in brackets are read as a vector. -/
theorem read_listed (levels : Nat) {ss : List SignedNumeral} (hne : ss ≠ [])
    (h : ∀ s ∈ ss, s.WellFormed) :
    (SignalExpr.read levels (some (String.ofList (Bracketed.listed ss)))).outcome =
      .ok (.vector (ss.map (SignedNumeral.value (K := K)))) := by
  have hblank : Text.isBlankText (Bracketed.listed ss) = false :=
    Text.isBlankText_eq_false List.mem_cons_self (by decide)
  have hany : (SignedNumeral.listed ss).any (fun c => c = '[' || c = ']') = false := by
    rw [List.any_eq_false]
    intro c hc
    simpa using Bracketed.ne_bracket h c hc
  have hvector : isVectorText (Bracketed.listed ss) = true := by
    rw [isVectorText, Bracketed.getLast?_listed, Bracketed.dropEnds_listed, hany]
    rfl
  unfold read
  dsimp only
  rw [String.toList_ofList, hblank, Bracketed.strip_listed, hvector, if_neg Bool.false_ne_true,
    if_pos rfl, Bracketed.values_listed hne h]
  rfl

end SignalExpr

end SteppedConvolution
