import Mathlib.Data.List.Chain
import SteppedConvolution.Expression.Lexer
import SteppedConvolution.Proofs.Numeral.Scanning
import SteppedConvolution.Proofs.Outcome

/-! # Lexing joined lexemes

The texts of lexemes in a row are split into the same lexemes again, unless two of them run
together: a number or a name goes on as far as it can, so neither may be followed by a
number, nor a name by a name.
-/

namespace SteppedConvolution.Lexer

open Text

/-- The characters of lexemes in a row. -/
def joined (ls : List Lexeme) : List Char := ls.flatMap Lexeme.text

/-- Whether a lexeme may stand directly behind another one. -/
def mayFollow (before after : Lexeme) : Bool :=
  match before.kind, after.kind with
  | .number, .number | .name, .number | .name, .name | .opening, .opening => false
  | _, _ => true

/-- No lexeme runs on into the next one, and every number is one that is scanned as it is. -/
structure Separated (ls : List Lexeme) : Prop where
  chain : ls.IsChain fun before after => mayFollow before after = true
  number : ∀ n, .number n ∈ ls → n.WellFormed .mayTrail

/-- A lexeme does not go on in what follows. -/
def EndsAt (rest : List Char) : Lexeme → Prop
  | .number _ => Numeral.Ends rest
  | .time | .primitive _ => ∀ c ∈ rest.head?, isWord c = false
  | _ => True

/-! ## One lexeme -/

theorem next_name {c : Char} {cs rest : List Char} {l : Lexeme}
    (hl : lexemeOfName (c :: cs) = .ok l) (hstart : startsName c = true)
    (hdigit : isDigit c = false ∧ c ≠ '.')
    (hcs : ∀ d ∈ cs, isWord d = true) (hr : ∀ d ∈ rest.head?, isWord d = false) :
    next c (cs ++ rest) = .ok (l, rest) := by
  obtain ⟨htake, hdrop⟩ := span_append hcs hr
  unfold next
  rw [Numeral.scan?_eq_none hdigit]
  dsimp only
  rw [if_pos hstart, htake, hdrop, hl]
  rfl

theorem next_sign {c : Char} {rest : List Char} {l : Lexeme} (hl : Lexeme.ofSign? c = some l)
    (hstart : startsName c = false) (hdigit : isDigit c = false ∧ c ≠ '.') :
    next c rest = .ok (l, rest) := by
  unfold next
  rw [Numeral.scan?_eq_none hdigit]
  dsimp only
  rw [if_neg (by simp [hstart]), hl]

/-- A lexeme is split off the front of a text that starts with its characters. -/
theorem next_text {l : Lexeme} (hn : ∀ n, l = .number n → n.WellFormed .mayTrail)
    {rest : List Char} (hr : EndsAt rest l) :
    ∃ c cs, l.text = c :: cs ∧ next c (cs ++ rest) = .ok (l, rest) := by
  cases l with
  | number n =>
    obtain ⟨c, cs, htext, -⟩ := (hn n rfl).exists_head
    refine ⟨c, cs, htext, ?_⟩
    have hscan := Numeral.scan?_text (hn n rfl) hr
    rw [htext] at hscan
    unfold next
    rw [← List.cons_append, hscan]
  | time => exact ⟨'n', [], rfl, next_name (by rfl) (by decide) (by decide) nofun hr⟩
  | primitive p =>
    cases p <;>
      exact ⟨_, _, rfl, next_name (by rfl) (by decide) (by decide)
        (forall_mem_of_all (by decide)) hr⟩
  | opening => exact ⟨'[', [], rfl, next_sign (by decide) (by decide) (by decide)⟩
  | closing => exact ⟨']', [], rfl, next_sign (by decide) (by decide) (by decide)⟩
  | comma => exact ⟨',', [], rfl, next_sign (by decide) (by decide) (by decide)⟩
  | plus => exact ⟨'+', [], rfl, next_sign (by decide) (by decide) (by decide)⟩
  | minus => exact ⟨'-', [], rfl, next_sign (by decide) (by decide) (by decide)⟩
  | star => exact ⟨'*', [], rfl, next_sign (by decide) (by decide) (by decide)⟩
  | caret => exact ⟨'^', [], rfl, next_sign (by decide) (by decide) (by decide)⟩

/-! ## Lexemes in a row -/

theorem text_ne_nil {l : Lexeme} (hn : ∀ n, l = .number n → n.WellFormed .mayTrail) :
    l.text ≠ [] := by
  cases l with
  | number n =>
    obtain ⟨c, cs, htext, -⟩ := (hn n rfl).exists_head
    rw [Lexeme.text, htext]
    exact List.cons_ne_nil c cs
  | primitive p => cases p <;> exact List.cons_ne_nil _ _
  | _ => exact List.cons_ne_nil _ _

/-- What the next lexeme starts with does not belong to the one before it. -/
theorem endsAt_text {before after : Lexeme} (h : mayFollow before after = true)
    (hn : ∀ n, after = .number n → n.WellFormed .mayTrail) (rest : List Char) :
    EndsAt (after.text ++ rest) before := by
  have hhead : (after.text ++ rest).head? = after.text.head? :=
    List.head?_append_of_ne_nil _ (text_ne_nil hn)
  have hname (hb : before.kind = .name) : ∀ c ∈ after.text.head?, isWord c = false := by
    cases after with
    | number m | time | primitive p =>
      rw [mayFollow, hb] at h
      cases h
    | _ =>
      rintro c ⟨⟩
      decide
  cases before with
  | number n =>
    rw [EndsAt, Numeral.Ends, hhead]
    cases after with
    | number m => cases h
    | primitive p =>
      rintro c hc
      cases p <;> cases hc <;> decide
    | _ =>
      rintro c ⟨⟩
      decide
  | time | primitive p =>
    rw [EndsAt, hhead]
    exact hname rfl
  | _ => exact trivial

theorem Separated.tail {l : Lexeme} {ls : List Lexeme} (h : Separated (l :: ls)) :
    Separated ls :=
  ⟨h.chain.tail, fun n hn => h.number n (List.mem_cons_of_mem l hn)⟩

theorem Separated.endsAt {l : Lexeme} {ls : List Lexeme} (h : Separated (l :: ls)) :
    EndsAt (joined ls) l := by
  cases ls with
  | nil => cases l <;> first | exact trivial | exact nofun
  | cons m ls =>
    have hfirst := (List.isChain_cons_cons.1 h.chain).1
    exact endsAt_text hfirst (fun n hn => h.number n (by simp [hn])) _

theorem tokensFrom_joined {ls : List Lexeme} (h : Separated ls) (position : Nat) :
    ∃ tokens, tokensFrom position (joined ls) = .ok tokens ∧ tokens.map Token.lexeme = ls := by
  induction ls generalizing position with
  | nil => exact ⟨[], by rw [joined, List.flatMap_nil, tokensFrom], rfl⟩
  | cons l ls ih =>
    obtain ⟨tokens, htokens, hls⟩ := ih h.tail (position + l.text.length)
    obtain ⟨c, cs, htext, hnext⟩ := next_text (fun n hn => h.number n (by simp [hn])) h.endsAt
    have hjoined : joined (l :: ls) = c :: (cs ++ joined ls) := by
      rw [joined, List.flatMap_cons, htext]
      rfl
    refine ⟨⟨l, position⟩ :: tokens, ?_, by rw [List.map_cons, hls]⟩
    rw [hjoined, tokensFrom]
    split
    · rename_i heq
      rw [hnext] at heq
      cases heq
    · rename_i heq
      rw [hnext] at heq
      cases heq
      rw [htokens]
      rfl

/-! ## The whole text -/

/-- Every lexeme but an opening bracket is written without one. No lexeme has blanks, or a sign of
division. -/
theorem text_chars {l : Lexeme} (hn : ∀ n, l = .number n → n.WellFormed .mayTrail) :
    ∀ c ∈ l.text, isBlank c = false ∧ c ≠ '/' ∧ (c = '[' → l = .opening) := by
  cases l with
  | number n =>
    intro c hc
    have hnumeric := (hn n rfl).isNumeric_of_mem c hc
    refine ⟨Numeral.isBlank_of_isNumeric hnumeric, ?_, ?_⟩
    · rintro rfl
      exact absurd hnumeric (by decide)
    · rintro rfl
      exact absurd hnumeric (by decide)
  | primitive p => cases p <;> exact forall_mem_of_all (by decide)
  | _ => exact forall_mem_of_all (by decide)

theorem Separated.text_chars {ls : List Lexeme} (h : Separated ls) :
    ∀ c ∈ joined ls, isBlank c = false ∧ c ≠ '/' := by
  intro c hc
  obtain ⟨l, hl, hc⟩ := List.mem_flatMap.1 hc
  obtain ⟨hblank, hslash, -⟩ := Lexer.text_chars (fun n hn => h.number n (hn ▸ hl)) c hc
  exact ⟨hblank, hslash⟩

theorem hasDoubleOpening_append {cs : List Char} (h : ∀ c ∈ cs, c ≠ '[') (rest : List Char) :
    hasDoubleOpening (cs ++ rest) = hasDoubleOpening rest := by
  induction cs with
  | nil => rfl
  | cons c cs ih =>
    have hc := h c List.mem_cons_self
    rw [← ih fun d hd => h d (List.mem_cons_of_mem c hd), List.cons_append]
    conv_lhs => unfold hasDoubleOpening
    split
    · rename_i heq
      exact absurd (List.cons.inj heq).1 hc
    · rename_i heq
      rw [(List.cons.inj heq).2]
    · rename_i heq
      cases heq

theorem hasDoubleOpening_cons {cs : List Char} (h : ∀ c ∈ cs.head?, c ≠ '[') :
    hasDoubleOpening ('[' :: cs) = hasDoubleOpening cs := by
  conv_lhs => unfold hasDoubleOpening
  split
  · rename_i heq
    rw [(List.cons.inj heq).2] at h
    exact absurd rfl (h '[' rfl)
  · rename_i heq
    rw [(List.cons.inj heq).2]
  · rename_i heq
    cases heq

theorem hasDoubleOpening_joined {ls : List Lexeme} (h : Separated ls) :
    hasDoubleOpening (joined ls) = false := by
  induction ls with
  | nil => rfl
  | cons l ls ih =>
    have hn : ∀ n, l = .number n → n.WellFormed .mayTrail := fun n hn => h.number n (by simp [hn])
    have hl : joined (l :: ls) = l.text ++ joined ls := List.flatMap_cons
    by_cases ho : l = .opening
    · have hhead : ∀ c ∈ (joined ls).head?, c ≠ '[' := by
        cases ls with
        | nil => exact nofun
        | cons m ls =>
          have hn : ∀ n, m = .number n → n.WellFormed .mayTrail :=
            fun n hn => h.number n (by simp [hn])
          have hm : m ≠ .opening := by
            rintro rfl
            have hfirst := (List.isChain_cons_cons.1 h.chain).1
            rw [ho] at hfirst
            cases hfirst
          rw [joined, List.flatMap_cons, List.head?_append_of_ne_nil _ (text_ne_nil hn)]
          exact fun c hc heq => hm ((Lexer.text_chars hn c (List.mem_of_head? hc)).2.2 heq)
      rw [hl, ho]
      exact (hasDoubleOpening_cons hhead).trans (ih h.tail)
    · rw [hl, hasDoubleOpening_append fun c hc heq => ho ((Lexer.text_chars hn c hc).2.2 heq)]
      exact ih h.tail

/-- Lexemes that do not run together are the tokens of their joined text. -/
theorem tokenize_joined {K : Type} {ls : List Lexeme} (h : Separated ls) :
    ∃ tokens, (tokenize (joined ls) : Except (TextFault K) _) = .ok tokens ∧
      tokens.map Token.lexeme = ls := by
  obtain ⟨tokens, htokens, hls⟩ := tokensFrom_joined h 0
  have hcompact := compact_eq_self fun c hc => (h.text_chars c hc).1
  have hslash : (joined ls).contains '/' = false := by
    rw [List.contains_eq_mem, decide_eq_false_iff_not]
    exact fun hc => (h.text_chars '/' hc).2 rfl
  refine ⟨tokens, ?_, hls⟩
  unfold tokenize
  dsimp only
  rw [hcompact, hslash, hasDoubleOpening_joined h, htokens]
  rfl

/-! ## Numbers of a text -/

theorem lexemeOfName_ne_number {name : List Char} {n : Numeral} :
    lexemeOfName name ≠ .ok (.number n) := by
  unfold lexemeOfName Lexeme.ofName?
  split_ifs
  · simp
  · simp
  · cases Primitive.ofName? (String.ofList name) <;> simp

theorem ofSign?_ne_number {c : Char} {n : Numeral} : Lexeme.ofSign? c ≠ some (.number n) := by
  intro h
  obtain ⟨p, hp, hl⟩ := Option.map_eq_some_iff.1 h
  have hm := List.mem_of_find?_eq_some hp
  have hsign : ∀ p ∈ Lexeme.signs, p.2.kind ≠ .number := by decide
  exact hsign p hm (by rw [hl]; rfl)

/-- A number at the front of a text is one that is read back from its own text. -/
theorem wellFormed_of_next {c : Char} {cs rest : List Char} {n : Numeral}
    (h : next c cs = .ok (.number n, rest)) : n.WellFormed .mayTrail := by
  unfold next at h
  split at h
  · rename_i hscan
    cases h
    exact Numeral.wellFormed_of_scan? hscan
  · split at h
    · obtain ⟨l, hl, he⟩ := map_eq_ok.1 h
      cases he
      exact absurd hl lexemeOfName_ne_number
    · split at h
      · rename_i hs
        cases h
        exact absurd hs ofSign?_ne_number
      · cases h

theorem wellFormed_of_tokensFrom {position : Nat} {cs : List Char} {tokens : List Token}
    (h : tokensFrom position cs = .ok tokens) :
    ∀ n, .number n ∈ tokens.map Token.lexeme → n.WellFormed .mayTrail := by
  fun_induction tokensFrom position cs generalizing tokens with
  | case1 => 
    cases h
    simp
  | case2 => cases h
  | case3 position c cs l rest hnext _ ih =>
    obtain ⟨later, hlater, rfl⟩ := map_eq_ok.1 h
    intro n hn
    rcases List.mem_cons.1 hn with hn | hn
    · obtain rfl : l = .number n := hn.symm
      exact wellFormed_of_next hnext
    · exact ih hlater n hn

theorem wellFormed_of_tokenize {K : Type} {text : List Char} {tokens : List Token}
    (h : (tokenize text : Except (TextFault K) _) = .ok tokens) :
    ∀ n, .number n ∈ tokens.map Token.lexeme → n.WellFormed .mayTrail := by
  unfold tokenize at h
  dsimp only at h
  split_ifs at h
  exact wellFormed_of_tokensFrom (mapError_eq_ok.1 h)

end SteppedConvolution.Lexer
