import SteppedConvolution.Proofs.Expression.Grammar

/-! # One reading at most

A list of lexemes is that of at most one sum. A part is told from what follows it by the
lexemes that may follow it, level by level.
-/

namespace SteppedConvolution.Grammar

/-- What follows is nothing, or starts with an allowed lexeme. -/
def Follows (allowed rest : List Lexeme) : Prop := ∀ x ∈ rest.head?, x ∈ allowed

theorem follows_nil (allowed : List Lexeme) : Follows allowed [] := by simp [Follows]

@[simp] theorem follows_cons {allowed rest : List Lexeme} {x : Lexeme} :
    Follows allowed (x :: rest) ↔ x ∈ allowed := by simp [Follows]

/-- Parts are told from what follows them. -/
def Separates {α : Type} (allowed : List Lexeme) (f : α → List Lexeme) : Prop :=
  ∀ (a b : α) (r s : List Lexeme), Follows allowed r → Follows allowed s →
    f a ++ r = f b ++ s → a = b ∧ r = s

theorem Chain.separates {α : Type} {allowed : List Lexeme} {sep : Lexeme}
    {f : α → List Lexeme} (hsep : sep ∉ allowed) (hf : Separates (sep :: allowed) f) :
    Separates allowed (Chain.text sep f) := by
  have hwider {r : List Lexeme} (hr : Follows allowed r) : Follows (sep :: allowed) r :=
    fun x hx => List.mem_cons_of_mem sep (hr x hx)
  have hnot {r : List Lexeme} (rest : List Lexeme) (hr : Follows allowed r) : r ≠ sep :: rest := by
    rintro rfl
    exact hsep (hr sep rfl)
  rintro ⟨a, as⟩ ⟨b, bs⟩ r s hr hs h
  induction as generalizing a b bs with
  | nil =>
    cases bs with
    | nil =>
      simp only [text, List.flatMap_nil, List.append_nil] at h
      obtain ⟨rfl, rfl⟩ := hf a b r s (hwider hr) (hwider hs) h
      exact ⟨rfl, rfl⟩
    | cons b' bs =>
      rw [text_cons, List.append_assoc, List.cons_append] at h
      simp only [text, List.flatMap_nil, List.append_nil] at h
      have := (hf a b _ _ (hwider hr) (follows_cons.2 List.mem_cons_self) h).2
      exact absurd this (hnot _ hr)
  | cons a' as ih =>
    cases bs with
    | nil =>
      rw [text_cons, List.append_assoc, List.cons_append] at h
      simp only [text, List.flatMap_nil, List.append_nil] at h
      have := (hf a b _ _ (follows_cons.2 List.mem_cons_self) (hwider hs) h).2
      exact absurd this.symm (hnot _ hs)
    | cons b' bs =>
      rw [text_cons, text_cons, List.append_assoc, List.append_assoc, List.cons_append,
        List.cons_append] at h
      obtain ⟨rfl, hrest⟩ := hf a b _ _ (follows_cons.2 List.mem_cons_self)
        (follows_cons.2 List.mem_cons_self) h
      obtain ⟨he, rfl⟩ := ih a' b' bs (List.cons.inj hrest).2
      cases he
      exact ⟨rfl, rfl⟩

/-- The lexemes of the five forms differ, except that those of a number may go on. -/
theorem Argument.separates : Separates [.closing] Argument.lexemes := by
  intro a b r s hr hs h
  have hr (x : Lexeme) (rest : List Lexeme) (h : r = x :: rest) : x = .closing := by
    simpa [h] using hr
  have hs (x : Lexeme) (rest : List Lexeme) (h : s = x :: rest) : x = .closing := by
    simpa [h] using hs
  rcases a with _ | _ | ⟨_ | _, k⟩ | ⟨_ | _ | _, k⟩ | ⟨_ | _ | _, k⟩ <;>
    rcases b with _ | _ | ⟨_ | _, k'⟩ | ⟨_ | _ | _, k'⟩ | ⟨_ | _ | _, k'⟩ <;>
    simp [lexemes, Sign.lexemes, Sign.lexeme] at h ⊢ <;> grind

theorem bracketed_append (f : Primitive) (inner r : List Lexeme) :
    bracketed f inner ++ r = .primitive f :: .opening :: (inner ++ .closing :: r) := by
  simp [bracketed]

theorem Argument.lexemes_append_ne (a : Argument) (f : Primitive) (r s : List Lexeme) :
    a.lexemes ++ r ≠ .primitive f :: s := by
  rcases a with _ | _ | ⟨_ | _, _⟩ | ⟨_ | _ | _, _⟩ | ⟨_ | _ | _, _⟩ <;>
    simp [lexemes, Sign.lexemes, Sign.lexeme]

/-- Whether a factor is a call. -/
def Factor.isCall : Factor → Bool
  | call _ _ | nested _ _ _ => true
  | _ => false

/-- Terms are told by what may not follow them. -/
theorem Factor.separates_term {a b : Factor} (ha : a.isCall = false) {r s : List Lexeme}
    (hr : Follows [.star, .minus, .plus] r) (hs : Follows [.star, .minus, .plus] s)
    (h : a.lexemes ++ r = b.lexemes ++ s) : a = b ∧ r = s := by
  have hr (x : Lexeme) (rest : List Lexeme) (h : r = x :: rest) : x ≠ .caret := by
    rw [h, follows_cons] at hr
    rintro rfl
    simp at hr
  have hs (x : Lexeme) (rest : List Lexeme) (h : s = x :: rest) : x ≠ .caret := by
    rw [h, follows_cons] at hs
    rintro rfl
    simp at hs
  rcases a with _ | ⟨_ | _ | _, k⟩ | ⟨_ | _ | _, k⟩ | _ | _ <;>
    rcases b with _ | ⟨_ | _ | _, k'⟩ | ⟨_ | _ | _, k'⟩ | _ | _ <;>
    simp [lexemes, bracketed, Sign.lexemes, Sign.lexeme, isCall] at h ha ⊢ <;> grind

/-- Calls are told by the closing bracket behind their argument. -/
theorem Factor.separates : Separates [.star, .minus, .plus] Factor.lexemes := by
  intro a b r s hr hs h
  have hc (rest : List Lexeme) : Follows [.closing] (.closing :: rest) :=
    follows_cons.2 (List.mem_singleton_self _)
  have hterm (hb : b.isCall = false) : a = b ∧ r = s := by
    obtain ⟨hba, hsr⟩ := separates_term hb hs hr h.symm
    exact ⟨hba.symm, hsr.symm⟩
  cases a
  case call f a =>
    cases b
    case call g b =>
      simp only [lexemes, bracketed_append, List.cons.injEq, Lexeme.primitive.injEq, true_and] at h
      obtain ⟨rfl, hin⟩ := h
      obtain ⟨rfl, hrs⟩ := Argument.separates a b _ _ (hc r) (hc s) hin
      exact ⟨rfl, (List.cons.inj hrs).2⟩
    case nested g g' b =>
      simp only [lexemes, bracketed_append, List.cons.injEq, true_and] at h
      exact absurd h.2 (a.lexemes_append_ne _ _ _)
    all_goals exact hterm rfl
  case nested f f' a =>
    cases b
    case call g b =>
      simp only [lexemes, bracketed_append, List.cons.injEq, true_and] at h
      exact absurd h.2.symm (b.lexemes_append_ne _ _ _)
    case nested g g' b =>
      simp only [lexemes, bracketed_append, List.cons.injEq, Lexeme.primitive.injEq, true_and] at h
      obtain ⟨rfl, rfl, hin⟩ := h
      obtain ⟨rfl, hrs⟩ := Argument.separates a b _ _ (hc _) (hc _) hin
      exact ⟨rfl, (List.cons.inj (List.cons.inj hrs).2).2⟩
    all_goals exact hterm rfl
  all_goals exact separates_term rfl hr hs h

/-- A list of lexemes is that of at most one sum. -/
theorem Sum.lexemes_injective : Function.Injective Sum.lexemes := by
  have hproduct : Separates [.minus, .plus] Product.lexemes :=
    Chain.separates (by decide) Factor.separates
  have hgroup : Separates [.plus] Group.lexemes := Chain.separates (by decide) hproduct
  have hsum : Separates [] Sum.lexemes := Chain.separates (by decide) hgroup
  intro s t h
  exact (hsum s t [] [] (follows_nil []) (follows_nil []) (by rw [h])).1

end SteppedConvolution.Grammar
