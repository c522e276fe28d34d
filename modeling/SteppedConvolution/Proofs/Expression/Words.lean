import SteppedConvolution.Proofs.Expression.Lexing
import SteppedConvolution.Proofs.Numeral.Grammar

/-! # Words of expressions

A text without blanks is cut into numbers, names and single characters, the longest word taken
each time. A text has tokens when all its words have a meaning; these are the words, one by
one. Without tokens the first word that has no meaning is the one complained about, unless a
sign of division or a doubled bracket stands anywhere in the text.
-/

namespace SteppedConvolution.Lexer

open Text

/-! ## Words and their meaning -/

/-- A letter or an underscore, and letters, numerals and underscores behind it. -/
inductive IsName : List Char → Prop
  | mk {c : Char} {cs : List Char} (hc : startsName c = true) (hcs : ∀ d ∈ cs, isWord d = true) :
    IsName (c :: cs)

/-- The words that texts are cut into. -/
inductive IsLexical : List Char → Prop
  | number {w : List Char} (h : Numeral.IsNumber .mayTrail w) : IsLexical w
  | name {w : List Char} (h : IsName w) : IsLexical w
  | character (c : Char) : IsLexical [c]

/-- The names with a meaning. -/
def names : List String := ["n", "u", "delta", "sin", "cos", "tan", "gauss", "abs"]

/-- The characters with a meaning. -/
def signs : List Char := ['[', ']', ',', '+', '-', '*', '^']

/-- The words with a meaning. -/
inductive InVocabulary : List Char → Prop
  | number {w : List Char} (h : Numeral.IsNumber .mayTrail w) : InVocabulary w
  | name {w : List Char} (h : String.ofList w ∈ names) : InVocabulary w
  | sign {c : Char} (h : c ∈ signs) : InVocabulary [c]

/-- The words that lexemes of a kind are written with. -/
def IsOfKind : Lexeme.Kind → List Char → Prop
  | .number, w => Numeral.IsNumber .mayTrail w
  | .name, w => IsName w
  | kind, w => w = kind.label.toList

/-- Why a word without a meaning is refused. -/
inductive Refused : List Char → Failure → Prop
  | imaginary {w : List Char} (h : w = ['i'] ∨ w = ['j']) : Refused w .complexLiteral
  | name {w : List Char} (h : IsName w) (hi : ¬ (w = ['i'] ∨ w = ['j']))
    (hv : String.ofList w ∉ names) : Refused w (.unknownIdentifier w)
  | character {c : Char} (h : ¬ IsName [c]) (hv : ¬ InVocabulary [c]) :
    Refused [c] (.unexpectedCharacter c)

/-- A text that is cut into words with a meaning. -/
def IsMeaningful (source : List Char) : Prop :=
  ∃ ws, CutInto IsLexical source ws ∧ ∀ w ∈ ws, InVocabulary w

variable {K : Type} {c : Char} {cs rest w : List Char} {l : Lexeme} {position : Nat}
  {tokens : List Token}

/-! ## Classes of words -/

theorem startsName_of_isDigit (h : isDigit c = true) : startsName c = false :=
  forall_of_isDigit (P := fun c => startsName c = false) (by decide +kernel) h

theorem exists_head_of_isNumber (h : Numeral.IsNumber .mayTrail w) :
    ∃ c cs, w = c :: cs ∧ startsName c = false := by
  obtain ⟨n, hn, rfl⟩ := Numeral.isNumber_iff.1 h
  obtain ⟨c, cs, htext, hc⟩ := hn.exists_head
  refine ⟨c, cs, htext, ?_⟩
  rcases hc with hc | rfl
  · exact startsName_of_isDigit hc
  · decide

theorem IsName.not_isNumber (h : IsName w) : ¬ Numeral.IsNumber .mayTrail w := by
  intro hnumber
  obtain ⟨d, ds, heq, hd⟩ := exists_head_of_isNumber hnumber
  cases h with
  | mk hc hcs =>
    rw [(List.cons.inj heq).1, hd] at hc
    cases hc

theorem isLexical_of_isOfKind {kind : Lexeme.Kind} (h : IsOfKind kind w) : IsLexical w := by
  cases kind with
  | number => exact .number h
  | name => exact .name h
  | _ =>
    obtain rfl := h
    exact .character _

theorem exists_ofName?_iff : (∃ l, Lexeme.ofName? w = some l) ↔ String.ofList w ∈ names := by
  have hn : w = ['n'] ↔ String.ofList w = "n" := by
    rw [← String.toList_inj, String.toList_ofList]
    rfl
  unfold Lexeme.ofName?
  split_ifs with h
  · simp [names, hn.1 h]
  · have hfind : (∃ p, Primitive.ofName? (String.ofList w) = some p) ↔
        ∃ p ∈ Primitive.all, p.name = String.ofList w := by
      rw [← Option.isSome_iff_exists, Primitive.ofName?, List.find?_isSome]
      simp
    simp only [Option.map_eq_some_iff, exists_comm (α := Lexeme), exists_and_left, exists_eq',
      and_true, hfind]
    simp [Primitive.all, Primitive.name, names, ← hn, h, eq_comm]

theorem exists_ofSign?_iff : (∃ l, Lexeme.ofSign? c = some l) ↔ c ∈ signs := by
  have hsigns : signs = Lexeme.signs.map Prod.fst := rfl
  rw [← Option.isSome_iff_exists, Lexeme.ofSign?, Option.isSome_map, List.find?_isSome, hsigns,
    List.mem_map]
  simp only [decide_eq_true_eq]

theorem startsName_of_mem_signs (h : c ∈ signs) : startsName c = false := by
  have hall : signs.all (fun d => !startsName d) = true := by decide
  simpa using List.all_eq_true.1 hall c h

theorem isName_of_mem_names (h : String.ofList w ∈ names) : IsName w := by
  have hall : ∀ s ∈ names, ∃ c cs, s.toList = c :: cs ∧ startsName c = true ∧
      cs.all isWord = true := by
    intro s hs
    simp only [names, List.mem_cons, List.not_mem_nil, or_false] at hs
    rcases hs with rfl | rfl | rfl | rfl | rfl | rfl | rfl | rfl <;>
      exact ⟨_, _, rfl, by decide, by decide⟩
  obtain ⟨c, cs, htext, hc, hcs⟩ := hall _ h
  rw [String.toList_ofList] at htext
  rw [htext]
  exact .mk hc (List.all_eq_true.1 hcs)

/-- A name is a word with a meaning only by being one of the eight. -/
theorem IsName.inVocabulary_iff (h : IsName w) : InVocabulary w ↔ String.ofList w ∈ names := by
  constructor
  · rintro (hn | hn | hs)
    · exact absurd hn h.not_isNumber
    · exact hn
    · cases h with
      | mk hc hcs =>
        rw [startsName_of_mem_signs hs] at hc
        cases hc
  · exact .name

/-- A word that is refused has no meaning. -/
theorem Refused.not_inVocabulary {e : Failure} (h : Refused w e) : ¬ InVocabulary w := by
  cases h with
  | imaginary h =>
    have hname : IsName w := by
      rcases h with rfl | rfl <;> exact .mk (by decide) nofun
    rw [hname.inVocabulary_iff]
    rcases h with rfl | rfl <;> decide
  | name h hi hv => rwa [h.inVocabulary_iff]
  | character h hv => exact hv

/-! ## The word at the front -/

/-- What is found at the front of a text agrees with its longest word. -/
inductive Front (c : Char) (cs : List Char) : List Char → List Char → Prop
  | lexeme {l : Lexeme} {rest : List Char} (h : next c cs = .ok (l, rest)) :
    Front c cs l.text rest
  | failure {e : Failure} {w rest : List Char} (h : next c cs = .error e) (hw : Refused w e) :
    Front c cs w rest

theorem front_name (hstart : startsName c = true)
    (hscan : Numeral.scan? .mayTrail (c :: cs) = none) :
    Front c cs (c :: cs.takeWhile isWord) (cs.dropWhile isWord) := by
  have hname : IsName (c :: cs.takeWhile isWord) :=
    .mk hstart fun d hd => List.all_eq_true.1 List.all_takeWhile d hd
  have hnext : next c cs =
      (lexemeOfName (c :: cs.takeWhile isWord)).map fun l => (l, cs.dropWhile isWord) := by
    rw [next, hscan]
    exact if_pos hstart
  by_cases hi : c :: cs.takeWhile isWord = ['i'] ∨ c :: cs.takeWhile isWord = ['j']
  · refine .failure (e := .complexLiteral) ?_ (.imaginary hi)
    rw [hnext, lexemeOfName, if_pos hi]
    rfl
  · cases hl : Lexeme.ofName? (c :: cs.takeWhile isWord) with
    | none =>
      refine .failure ?_ (.name hname hi ?_)
      · rw [hnext, lexemeOfName, if_neg hi, hl]
        rfl
      · rw [← exists_ofName?_iff, hl]
        simp
    | some l =>
      rw [← Lexeme.text_of_ofName? hl]
      refine .lexeme ?_
      rw [hnext, lexemeOfName, if_neg hi, hl]
      rfl

theorem front_character (hstart : startsName c = false)
    (hscan : Numeral.scan? .mayTrail (c :: cs) = none) : Front c cs [c] cs := by
  have hname : ¬ IsName [c] := by
    rintro ⟨hc⟩
    rw [hstart] at hc
    cases hc
  have hnumber : ¬ Numeral.IsNumber .mayTrail [c] :=
    Numeral.not_isNumber_of_scan? hscan ⟨cs, rfl⟩
  cases hl : Lexeme.ofSign? c with
  | none =>
    refine .failure (e := .unexpectedCharacter c) ?_ (.character hname ?_)
    · rw [next, hscan]
      dsimp only
      rw [if_neg (by simp [hstart]), hl]
    · rintro (h | h | h)
      · exact hnumber h
      · exact hname (isName_of_mem_names h)
      · obtain ⟨l, hl'⟩ := exists_ofSign?_iff.2 h
        rw [hl] at hl'
        cases hl'
  | some l =>
    rw [← Lexeme.text_of_ofSign? hl]
    refine .lexeme ?_
    rw [next, hscan]
    dsimp only
    rw [if_neg (by simp [hstart]), hl]

theorem IsName.length_le (h : IsName w) (hw : w <+: c :: cs) :
    startsName c = true ∧ w.length ≤ (c :: cs.takeWhile isWord).length := by
  cases h with
  | @mk d ds hd hds =>
    obtain ⟨rest, heq⟩ := hw
    rw [List.cons_append] at heq
    obtain ⟨rfl, rfl⟩ := List.cons.inj heq
    refine ⟨hd, ?_⟩
    rw [List.takeWhile_append_of_pos hds]
    simp

/-- At the front of a text stands its longest word, the text of a lexeme or a word that is
refused. -/
theorem exists_front (c : Char) (cs : List Char) : ∃ w rest, w ++ rest = c :: cs ∧ w ≠ [] ∧
    IsLongest IsLexical w (c :: cs) ∧ Front c cs w rest := by
  -- no word of one class starts like one of another, so the first character settles the class
  cases hscan : Numeral.scan? .mayTrail (c :: cs) with
  | some found =>
    obtain ⟨n, rest⟩ := found
    have hlongest := Numeral.isLongest_of_scan? hscan
    have happ := Numeral.scan?_append hscan
    obtain ⟨d, ds, htext, hd⟩ := exists_head_of_isNumber hlongest.word
    have hstart : startsName c = false := by
      rw [htext] at happ
      rwa [← (List.cons.inj happ).1]
    refine ⟨n.text, rest, happ, by simp [htext], ⟨.number hlongest.word, hlongest.front, ?_⟩,
      .lexeme (l := .number n) ?_⟩
    · rintro v (hv | hv | e) hfront
      · exact hlongest.longest v hv hfront
      · rw [(hv.length_le hfront).1] at hstart
        cases hstart
      · rw [htext]
        simp
    · rw [next, hscan]
  | none =>
    by_cases hstart : startsName c = true
    · refine ⟨_, _, by simp, by simp, ⟨?_, ?_, ?_⟩, front_name hstart hscan⟩
      · exact .name (.mk hstart fun d hd => List.all_eq_true.1 List.all_takeWhile d hd)
      · exact ⟨cs.dropWhile isWord, by simp⟩
      · rintro v (hv | hv | e) hfront
        · exact absurd hv (Numeral.not_isNumber_of_scan? hscan hfront)
        · exact (hv.length_le hfront).2
        · simp
    · rw [Bool.not_eq_true] at hstart
      refine ⟨[c], cs, rfl, by simp, ⟨.character c, ⟨cs, rfl⟩, ?_⟩, front_character hstart hscan⟩
      rintro v (hv | hv | e) hfront
      · exact absurd hv (Numeral.not_isNumber_of_scan? hscan hfront)
      · rw [(hv.length_le hfront).1] at hstart
        cases hstart
      · simp

/-! ## All words -/

/-- Every text is cut into words. -/
theorem exists_cutInto (cs : List Char) : ∃ ws, CutInto IsLexical cs ws := by
  induction hl : cs.length using Nat.strong_induction_on generalizing cs with
  | _ n ih =>
    cases cs with
    | nil => exact ⟨[], .nil⟩
    | cons c cs =>
      obtain ⟨w, rest, happ, hne, hw, -⟩ := exists_front c cs
      have hlt : rest.length < n := by
        have := congrArg List.length happ
        have := List.length_pos_iff.2 hne
        rw [List.length_append] at *
        omega
      obtain ⟨ws, hws⟩ := ih _ hlt rest rfl
      exact ⟨w :: ws, .cons happ hne hw hws⟩

theorem cutInto_of_next {ws : List (List Char)} (h : next c cs = .ok (l, rest))
    (hws : CutInto IsLexical rest ws) : CutInto IsLexical (c :: cs) (l.text :: ws) := by
  obtain ⟨w, rest', happ, hne, hw, hfront⟩ := exists_front c cs
  cases hfront with
  | lexeme h' =>
    rw [h] at h'
    cases h'
    exact .cons happ hne hw hws
  | failure h' =>
    rw [h] at h'
    cases h'

theorem refused_of_next {e : Failure} (h : next c cs = .error e) :
    ∃ w ws, CutInto IsLexical (c :: cs) (w :: ws) ∧ Refused w e := by
  obtain ⟨w, rest, happ, hne, hw, hfront⟩ := exists_front c cs
  cases hfront with
  | lexeme h' =>
    rw [h] at h'
    cases h'
  | failure h' hrefused =>
    rw [h] at h'
    cases h'
    obtain ⟨ws, hws⟩ := exists_cutInto rest
    exact ⟨w, ws, .cons happ hne hw hws, hrefused⟩

theorem inVocabulary_text (hn : ∀ n, l = .number n → n.WellFormed .mayTrail) :
    InVocabulary l.text := by
  cases l with
  | number n => exact .number (Numeral.isNumber_iff.2 ⟨n, hn n rfl, rfl⟩)
  | time => exact .name (by decide)
  | primitive p => cases p <;> exact .name (by decide)
  | _ => exact .sign (by decide)

theorem isOfKind_text (hn : ∀ n, l = .number n → n.WellFormed .mayTrail) :
    IsOfKind l.kind l.text := by
  cases l with
  | number n => exact Numeral.isNumber_iff.2 ⟨n, hn n rfl, rfl⟩
  | time => exact .mk (by decide) nofun
  | primitive p => cases p <;> exact .mk (by decide) (forall_mem_of_all (by decide))
  | _ => rfl

/-- A text with tokens is cut into their texts. -/
theorem cutInto_of_tokensFrom (h : tokensFrom position cs = .ok tokens) :
    CutInto IsLexical cs (tokens.map fun t => t.lexeme.text) := by
  fun_induction tokensFrom position cs generalizing tokens with
  | case1 =>
    cases h
    exact .nil
  | case2 => cases h
  | case3 position c cs l rest hnext _ ih =>
    obtain ⟨later, hlater, rfl⟩ := map_eq_ok.1 h
    exact cutInto_of_next hnext (ih hlater)

/-- Every token stands behind the texts of the ones before it. -/
theorem position_of_tokensFrom (h : tokensFrom position cs = .ok tokens)
    {before after : List Token} {t : Token} (ht : tokens = before ++ t :: after) :
    t.position = position + (joined (before.map Token.lexeme)).length := by
  fun_induction tokensFrom position cs generalizing tokens before with
  | case1 =>
    cases h
    cases before <;> cases ht
  | case2 => cases h
  | case3 position c cs l rest hnext _ ih =>
    obtain ⟨later, hlater, rfl⟩ := map_eq_ok.1 h
    cases before with
    | nil =>
      obtain ⟨rfl, rfl⟩ := List.cons.inj ht
      rfl
    | cons first before =>
      obtain ⟨rfl, hrest⟩ := List.cons.inj ht
      have hjoined : joined ((⟨l, position⟩ :: before).map Token.lexeme) =
          l.text ++ joined (before.map Token.lexeme) := List.flatMap_cons
      rw [ih hlater hrest, hjoined, List.length_append, Nat.add_assoc]

/-- The place of a failure is that of the first word without a meaning. -/
theorem refused_of_tokensFrom {e : Failure} {place : Nat}
    (h : tokensFrom position cs = .error (e, place)) :
    ∃ before w after, CutInto IsLexical cs (before ++ w :: after) ∧
      (∀ v ∈ before, InVocabulary v) ∧ Refused w e ∧ place = position + before.flatten.length := by
  fun_induction tokensFrom position cs with
  | case1 => cases h
  | case2 position c cs e' hnext =>
    cases h
    obtain ⟨w, after, hcut, hrefused⟩ := refused_of_next hnext
    exact ⟨[], w, after, hcut, List.forall_mem_nil _, hrefused, rfl⟩
  | case3 position c cs l rest hnext _ ih =>
    obtain ⟨before, w, after, hcut, hbefore, hrefused, hplace⟩ := ih (map_eq_error.1 h)
    have hl : InVocabulary l.text := inVocabulary_text fun n hn => wellFormed_of_next (hn ▸ hnext)
    refine ⟨l.text :: before, w, after, cutInto_of_next hnext hcut,
      List.forall_mem_cons.2 ⟨hl, hbefore⟩, hrefused, ?_⟩
    rw [hplace, List.flatten_cons, List.length_append, Nat.add_assoc]

/-- A text has tokens when all its words have a meaning. -/
theorem exists_tokensFrom_iff :
    (∃ tokens, tokensFrom position cs = .ok tokens) ↔ IsMeaningful cs := by
  constructor
  · rintro ⟨tokens, h⟩
    refine ⟨_, cutInto_of_tokensFrom h, ?_⟩
    intro w hw
    obtain ⟨t, ht, rfl⟩ := List.mem_map.1 hw
    refine inVocabulary_text fun n hn => wellFormed_of_tokensFrom h n ?_
    exact hn ▸ List.mem_map_of_mem ht
  · rintro ⟨ws, hws, hvocabulary⟩
    cases h : tokensFrom position cs with
    | ok tokens => exact ⟨tokens, rfl⟩
    | error failure =>
      obtain ⟨before, w, after, hcut, -, hrefused, -⟩ := refused_of_tokensFrom h
      rw [hws.unique hcut] at hvocabulary
      exact absurd (hvocabulary w (by simp)) hrefused.not_inVocabulary

/-! ## The whole text -/

theorem hasDoubleOpening_iff : hasDoubleOpening cs = true ↔ ['[', '['] <:+: cs := by
  fun_induction hasDoubleOpening cs with
  | case1 rest => simp [List.infix_cons_iff]
  | case2 c cs hne ih =>
    have hfront : ¬ ['[', '['] <+: c :: cs := by
      rintro ⟨rest, heq⟩
      obtain ⟨rfl, rfl⟩ := List.cons.inj heq
      exact hne rest rfl rfl
    rw [ih, List.infix_cons_iff, or_iff_right hfront]
  | case3 => simp

/-- The tokens of a text without blanks. -/
structure Tokenized (source : List Char) (tokens : List Token) : Prop where
  cut : CutInto IsLexical source (tokens.map fun t => t.lexeme.text)
  vocabulary : ∀ t ∈ tokens, InVocabulary t.lexeme.text
  joined : joined (tokens.map Token.lexeme) = source
  position : ∀ before t after, tokens = before ++ t :: after →
    t.position = (Lexer.joined (before.map Token.lexeme)).length
  ne_nil : ∀ t ∈ tokens, t.lexeme.text ≠ []
  longest : ∀ t ∈ tokens,
    IsLongest (IsOfKind t.lexeme.kind) t.lexeme.text (source.drop t.position)
  again : ∀ K : Type, (tokenize source : Except (TextFault K) _) = .ok tokens

/-- The cause for which a text without blanks has no tokens. The first word without a meaning is
only complained about where there is no division and no doubled bracket. -/
structure RefusedFor (source : List Char) (cause : TextFault K) : Prop where
  division : cause.kind = .divisionNotSupported ↔ '/' ∈ source
  nested : cause.kind = .nestedBrackets ↔ '/' ∉ source ∧ ['[', '['] <:+: source
  word : '/' ∉ source → ¬ ['[', '['] <:+: source → ∃ before w after failure,
    CutInto IsLexical source (before ++ w :: after) ∧ (∀ v ∈ before, InVocabulary v) ∧
      ¬ InVocabulary w ∧ Refused w failure ∧ cause = failure.fault before.flatten.length

theorem compact_compact (text : List Char) : compact (compact text) = compact text := by
  simp [compact]

theorem tokenize_eq (text : List Char) : (tokenize text : Except (TextFault K) _) =
    if '/' ∈ compact text then .error .division
    else if ['[', '['] <:+: compact text then .error .nestedBrackets
    else (tokensFrom 0 (compact text)).mapError fun failure => failure.1.fault failure.2 := by
  simp only [← hasDoubleOpening_iff, ← List.contains_iff_mem]
  rfl

theorem tokenize_eq_ok_iff {text : List Char} :
    (tokenize text : Except (TextFault K) _) = .ok tokens ↔
      ('/' ∉ compact text ∧ ¬ ['[', '['] <:+: compact text) ∧
        tokensFrom 0 (compact text) = .ok tokens := by
  rw [tokenize_eq]
  split_ifs with hslash hopening
  · simp [hslash]
  · simp [hopening]
  · simp [hslash, hopening, mapError_eq_ok]

theorem tokenized_of_tokenize {text : List Char}
    (h : (tokenize text : Except (TextFault K) _) = .ok tokens) :
    Tokenized (compact text) tokens := by
  obtain ⟨hclean, htokens⟩ := tokenize_eq_ok_iff.1 h
  have hcut := cutInto_of_tokensFrom htokens
  have hnumber {t : Token} (ht : t ∈ tokens) :
      ∀ n, t.lexeme = .number n → n.WellFormed .mayTrail :=
    fun n hn => wellFormed_of_tokensFrom htokens n (hn ▸ List.mem_map_of_mem ht)
  have hjoined (ts : List Token) :
      joined (ts.map Token.lexeme) = (ts.map fun t => t.lexeme.text).flatten := by
    rw [joined, List.flatMap_def, List.map_map]
    rfl
  have hposition {before after : List Token} {t : Token} (ht : tokens = before ++ t :: after) :
      t.position = (joined (before.map Token.lexeme)).length :=
    (position_of_tokensFrom htokens ht).trans (Nat.zero_add _)
  exact {
    cut := hcut
    vocabulary := fun t ht => inVocabulary_text (hnumber ht)
    joined := by rw [hjoined, hcut.flatten]
    position := fun before t after ht => hposition ht
    ne_nil := fun t ht => text_ne_nil (hnumber ht)
    longest := by
      intro t ht
      obtain ⟨before, after, happ⟩ := List.append_of_mem ht
      rw [hposition happ, hjoined]
      rw [happ, List.map_append, List.map_cons] at hcut
      exact hcut.isLongest.2.of_imp (fun v => isLexical_of_isOfKind) (isOfKind_text (hnumber ht))
    again := fun K => by
      rw [tokenize_eq_ok_iff, compact_compact]
      exact ⟨hclean, htokens⟩ }

theorem kind_fault (failure : Failure) (place : Nat) :
    (failure.fault place : TextFault K).kind ≠ .divisionNotSupported ∧
      (failure.fault place : TextFault K).kind ≠ .nestedBrackets := by
  cases failure <;> exact ⟨nofun, nofun⟩

theorem refusedFor_of_tokenize {text : List Char} {cause : TextFault K}
    (h : (tokenize text : Except (TextFault K) _) = .error cause) :
    RefusedFor (compact text) cause := by
  rw [tokenize_eq] at h
  split_ifs at h with hslash hopening
  · cases h
    exact ⟨iff_of_true rfl hslash, iff_of_false nofun fun hn => hn.1 hslash,
      fun hn => absurd hslash hn⟩
  · cases h
    exact ⟨iff_of_false nofun hslash, iff_of_true rfl ⟨hslash, hopening⟩,
      fun _ hn => absurd hopening hn⟩
  · cases hr : tokensFrom 0 (compact text) with
    | ok tokens =>
      rw [hr] at h
      cases h
    | error failure =>
      obtain ⟨failure, place⟩ := failure
      obtain ⟨before, w, after, hcut, hbefore, hrefused, hplace⟩ := refused_of_tokensFrom hr
      rw [hr] at h
      obtain rfl : failure.fault place = cause := Except.error.inj h
      rw [Nat.zero_add] at hplace
      obtain ⟨hdivision, hnested⟩ := kind_fault (K := K) failure place
      exact ⟨iff_of_false hdivision hslash, iff_of_false hnested fun hn => hopening hn.2,
        fun _ _ => ⟨before, w, after, failure, hcut, hbefore, hrefused.not_inVocabulary, hrefused,
          by rw [hplace]⟩⟩

/-- A text has tokens exactly when it has no division and no doubled bracket, and all words that
it is cut into have a meaning. Then the tokens are these words, and otherwise the cause is the
first of what stands in the way. -/
theorem tokenize_words (text : List Char) :
    ((∃ tokens, (tokenize text : Except (TextFault K) _) = .ok tokens) ↔
      ('/' ∉ compact text ∧ ¬ ['[', '['] <:+: compact text) ∧ IsMeaningful (compact text)) ∧
    (∀ tokens, (tokenize text : Except (TextFault K) _) = .ok tokens →
      Tokenized (compact text) tokens) ∧
    ∀ cause, (tokenize text : Except (TextFault K) _) = .error cause →
      RefusedFor (compact text) cause := by
  refine ⟨?_, fun tokens => tokenized_of_tokenize, fun cause => refusedFor_of_tokenize⟩
  have htokens : (∃ tokens, tokensFrom 0 (compact text) = .ok tokens) ↔
      IsMeaningful (compact text) := exists_tokensFrom_iff
  simp only [tokenize_eq_ok_iff, exists_and_left, htokens]

end SteppedConvolution.Lexer
