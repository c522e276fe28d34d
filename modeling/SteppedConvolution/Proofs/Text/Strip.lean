import Mathlib.Data.List.Basic
import Mathlib.Data.List.TakeWhile
import SteppedConvolution.Proofs.Text.Characters

/-! # Stripped texts

A text is its stripped part with dropped characters around it. What is stripped starts and ends
with a character that is kept, and it does not depend on the characters dropped.
-/

namespace SteppedConvolution.Text

variable {drop : Char → Bool} {cs before after : List Char}

/-- Dropped characters around a text make no difference. -/
theorem stripBy_append (hb : ∀ c ∈ before, drop c = true) (ha : ∀ c ∈ after, drop c = true)
    (cs : List Char) : stripBy drop (before ++ cs ++ after) = stripBy drop cs := by
  have ha' : ∀ c ∈ after.reverse, drop c = true := fun c hc => ha c (List.mem_reverse.1 hc)
  rw [stripBy, stripBy, List.append_assoc, List.dropWhile_append_of_pos hb, List.dropWhile_append]
  split
  · rename_i hnil
    rw [List.isEmpty_iff] at hnil
    rw [hnil, List.dropWhile_eq_nil_iff.2 ha]
  · rw [List.reverse_append, List.dropWhile_append_of_pos ha']

/-- A stripped text with what was dropped around it. -/
structure StripsTo (drop : Char → Bool) (cs before kept after : List Char) : Prop where
  append : before ++ kept ++ after = cs
  before : ∀ c ∈ before, drop c = true
  after : ∀ c ∈ after, drop c = true
  first : ∀ c ∈ kept.head?, drop c = false
  last : ∀ c ∈ kept.getLast?, drop c = false

theorem exists_stripsTo (drop : Char → Bool) (cs : List Char) :
    ∃ before after, StripsTo drop cs before (stripBy drop cs) after := by
  have hkept : stripBy drop cs ++ ((cs.dropWhile drop).reverse.takeWhile drop).reverse =
      cs.dropWhile drop := by
    rw [stripBy, ← List.reverse_append, List.takeWhile_append_dropWhile, List.reverse_reverse]
  have hhead (ds : List Char) : ∀ c ∈ (ds.dropWhile drop).head?, drop c = false := by
    intro c hc
    have := List.head?_dropWhile_not drop ds
    rw [Option.mem_def.1 hc] at this
    exact this
  refine ⟨cs.takeWhile drop, ((cs.dropWhile drop).reverse.takeWhile drop).reverse, ?_⟩
  constructor
  · rw [List.append_assoc, hkept, List.takeWhile_append_dropWhile]
  · exact List.all_eq_true.1 List.all_takeWhile
  · exact fun c hc => List.all_eq_true.1 List.all_takeWhile c (List.mem_reverse.1 hc)
  · intro c hc
    refine hhead cs c ?_
    rw [← hkept, List.head?_append, hc]
    rfl
  · intro c hc
    rw [stripBy, List.getLast?_reverse] at hc
    exact hhead _ c hc

theorem strip_eq_nil_iff : strip cs = [] ↔ isBlankText cs = true := by
  constructor
  · intro h
    obtain ⟨before, after, hs⟩ := exists_stripsTo isBlank cs
    rw [← strip, h] at hs
    rw [← hs.append, isBlankText, List.all_eq_true]
    simpa [or_imp, forall_and] using ⟨hs.before, hs.after⟩
  · intro h
    have := stripBy_append (List.all_eq_true.1 h) (List.forall_mem_nil _) []
    simpa [strip, stripBy] using this

theorem strip_append (hb : ∀ c ∈ before, isBlank c = true) (ha : ∀ c ∈ after, isBlank c = true)
    (cs : List Char) : strip (before ++ cs ++ after) = strip cs :=
  stripBy_append hb ha cs

theorem strip_append_left (hb : ∀ c ∈ before, isBlank c = true) (cs : List Char) :
    strip (before ++ cs) = strip cs := by
  have h := strip_append hb (List.forall_mem_nil _) cs
  rwa [List.append_nil] at h

theorem strip_append_right (ha : ∀ c ∈ after, isBlank c = true) (cs : List Char) :
    strip (cs ++ after) = strip cs :=
  strip_append (List.forall_mem_nil _) ha cs

/-- Only the outer parts of a text are stripped. -/
theorem exists_strip_append {first last : List Char} (hf : strip first ≠ []) (hl : strip last ≠ [])
    (middle : List Char) : ∃ first' last',
      strip (first ++ middle ++ last) = first' ++ middle ++ last' ∧
        strip first' = strip first ∧ strip last' = strip last := by
  obtain ⟨before, inner, hs⟩ := exists_stripsTo isBlank first
  obtain ⟨inner', after, hs'⟩ := exists_stripsTo isBlank last
  rw [← strip] at hs hs'
  have hfirst : before ++ (strip first ++ inner) = first := by rw [← List.append_assoc, hs.append]
  refine ⟨strip first ++ inner, inner' ++ strip last, ?_, ?_, ?_⟩
  · have hwhole : first ++ middle ++ last =
        before ++ (strip first ++ inner ++ middle ++ (inner' ++ strip last)) ++ after := by
      conv_lhs => rw [← hfirst, ← hs'.append]
      simp only [List.append_assoc]
    rw [hwhole, strip_append hs.before hs'.after]
    refine stripBy_eq_self ?_ ?_
    · rw [List.append_assoc, List.append_assoc, List.head?_append_of_ne_nil _ hf]
      exact hs.first
    · rw [← List.append_assoc, List.getLast?_append_of_ne_nil _ hl]
      exact hs'.last
  · rw [← strip_append_left hs.before, hfirst]
  · rw [← strip_append_right hs'.after, hs'.append]

end SteppedConvolution.Text
