import Mathlib.Data.List.Infix

/-! # Longest words

A text is cut into words of a class by taking the longest one at its front, as often as there
is one. There is at most one such cut. Characters that no word of the class has in it end
every word in front of them.
-/

namespace SteppedConvolution.Text

/-- The longest word of a class at the front of a text. -/
structure IsLongest (P : List Char → Prop) (w cs : List Char) : Prop where
  word : P w
  front : w <+: cs
  longest : ∀ v, P v → v <+: cs → v.length ≤ w.length

/-- The words of a class that a text is cut into, the longest one taken each time. -/
inductive CutInto (P : List Char → Prop) : List Char → List (List Char) → Prop
  | nil : CutInto P [] []
  | cons {cs w rest : List Char} {ws : List (List Char)} (hcs : w ++ rest = cs) (hn : w ≠ [])
    (hw : IsLongest P w cs) (h : CutInto P rest ws) : CutInto P cs (w :: ws)

variable {P Q : List Char → Prop} {w v cs rest : List Char} {ws vs : List (List Char)}

/-! ## One word -/

theorem IsLongest.unique (h : IsLongest P w cs) (h' : IsLongest P v cs) : w = v := by
  have hl : w.length = v.length :=
    Nat.le_antisymm (h'.longest w h.word h.front) (h.longest v h'.word h'.front)
  exact (List.prefix_of_prefix_length_le h.front h'.front hl.le).eq_of_length hl

theorem isLongest_self (h : P w) : IsLongest P w w :=
  ⟨h, List.prefix_rfl, fun _ _ hv => hv.length_le⟩

/-- A longest word is also the longest one in every smaller class that it belongs to. -/
theorem IsLongest.of_imp (h : IsLongest P w cs) (hQ : ∀ v, Q v → P v) (hw : Q w) :
    IsLongest Q w cs :=
  ⟨hw, h.front, fun v hv => h.longest v (hQ v hv)⟩

/-- A word whose characters are all of one kind does not reach over a character of another
kind. -/
theorem front_of_stop {p : Char → Bool} (hw : ∀ c ∈ w, p c = true)
    (hr : ∀ c ∈ rest.head?, p c = false) (h : w <+: cs ++ rest) : w <+: cs := by
  rcases List.prefix_or_prefix_of_prefix h (List.prefix_append cs rest) with h' | ⟨v, rfl⟩
  · exact h'
  · cases v with
    | nil => simp
    | cons c v =>
      obtain ⟨after, rfl⟩ := (List.prefix_append_right_inj cs).1 h
      have hc := hw c (by simp)
      rw [hr c rfl] at hc
      cases hc

theorem isLongest_append_iff {p : Char → Bool} (hP : ∀ v, P v → ∀ c ∈ v, p c = true)
    (hr : ∀ c ∈ rest.head?, p c = false) : IsLongest P w (cs ++ rest) ↔ IsLongest P w cs := by
  have hfront {v : List Char} (hv : P v) : v <+: cs ++ rest ↔ v <+: cs :=
    ⟨front_of_stop (hP v hv) hr, fun h => h.trans (List.prefix_append cs rest)⟩
  constructor
  · intro h
    exact ⟨h.word, (hfront h.word).1 h.front, fun v hv hf => h.longest v hv ((hfront hv).2 hf)⟩
  · intro h
    exact ⟨h.word, (hfront h.word).2 h.front, fun v hv hf => h.longest v hv ((hfront hv).1 hf)⟩

/-! ## All words -/

namespace CutInto

/-- The words in a row are the text. -/
theorem flatten (h : CutInto P cs ws) : ws.flatten = cs := by
  induction h with
  | nil => rfl
  | cons hcs hn hw h ih => rw [List.flatten_cons, ih, hcs]

theorem unique (h : CutInto P cs ws) (h' : CutInto P cs vs) : ws = vs := by
  induction h generalizing vs with
  | nil =>
    cases h' with
    | nil => rfl
    | cons hcs hn => exact absurd (List.append_eq_nil_iff.1 hcs).1 hn
  | cons hcs hn hw h ih =>
    cases h' with
    | nil => exact absurd (List.append_eq_nil_iff.1 hcs).1 hn
    | cons hcs' hn' hw' h' =>
      obtain rfl := hw.unique hw'
      obtain rfl := List.append_cancel_left (hcs.trans hcs'.symm)
      rw [ih h']

/-- A word of the class is cut into itself. -/
theorem single (h : P w) (hn : w ≠ []) : CutInto P w [w] :=
  cons (List.append_nil w) hn (isLongest_self h) nil

/-- A text is cut into a single word when it is a word of the class. -/
theorem length_eq_one_iff (h : CutInto P cs ws) (hn : cs ≠ []) :
    0 < ws.length ∧ (ws.length = 1 ↔ P cs) := by
  cases h with
  | nil => exact absurd rfl hn
  | @cons _ w rest ws hcs hne hw h =>
    refine ⟨by simp, fun hl => ?_, fun hP => ?_⟩
    · obtain rfl : ws = [] := List.length_eq_zero_iff.1 (Nat.succ.inj hl)
      cases h
      rw [← hcs, List.append_nil]
      exact hw.word
    · rw [(CutInto.cons hcs hne hw h).unique (single hP hn)]
      rfl

/-- Every word is the longest one at its place. -/
theorem isLongest (h : CutInto P cs (ws ++ w :: vs)) :
    w ≠ [] ∧ IsLongest P w (cs.drop ws.flatten.length) := by
  induction ws generalizing cs with
  | nil =>
    cases h with
    | cons hcs hn hw h => exact ⟨hn, hw⟩
  | cons v ws ih =>
    cases h with
    | cons hcs hn hw h =>
      rw [List.flatten_cons, List.length_append, ← hcs, ← List.drop_drop, List.drop_left]
      exact ih h

end CutInto

end SteppedConvolution.Text
