import SteppedConvolution.Text.Blank
import SteppedConvolution.Text.Digit

/-! # Blanks and digits

A text without blanks at its ends is not stripped, one without any blank stays as it is. A
digit of any script lies in one of the runs of ten code points, so what holds of all of
them is checked run by run.
-/

namespace SteppedConvolution.Text

variable {drop : Char → Bool} {cs : List Char}

/-- The characters of a text are checked one by one. -/
theorem forall_mem_of_all {P : Char → Prop} [DecidablePred P]
    (h : cs.all (fun c => decide (P c)) = true) : ∀ c ∈ cs, P c :=
  fun c hc => of_decide_eq_true (List.all_eq_true.1 h c hc)

theorem dropWhile_eq_self (h : ∀ c ∈ cs.head?, drop c = false) : cs.dropWhile drop = cs := by
  cases cs with
  | nil => rfl
  | cons c cs => exact List.dropWhile_cons_of_neg (by simp [h c rfl])

/-- A class of characters is taken up to the first one that is not in it. -/
theorem span_append {p : Char → Bool} {xs rest : List Char} (hx : ∀ c ∈ xs, p c = true)
    (hr : ∀ c ∈ rest.head?, p c = false) :
    (xs ++ rest).takeWhile p = xs ∧ (xs ++ rest).dropWhile p = rest := by
  have hnone : rest.takeWhile p = [] := by
    cases rest with
    | nil => rfl
    | cons c rest => exact List.takeWhile_cons_of_neg (by simp [hr c rfl])
  rw [List.takeWhile_append_of_pos hx, List.dropWhile_append_of_pos hx, hnone, List.append_nil]
  exact ⟨rfl, dropWhile_eq_self hr⟩

/-- Nothing is dropped when neither the first nor the last character is. -/
theorem stripBy_eq_self (hfirst : ∀ c ∈ cs.head?, drop c = false)
    (hlast : ∀ c ∈ cs.getLast?, drop c = false) : stripBy drop cs = cs := by
  rw [← List.head?_reverse] at hlast
  rw [stripBy, dropWhile_eq_self hfirst, dropWhile_eq_self hlast, List.reverse_reverse]

theorem strip_eq_self (h : ∀ c ∈ cs, isBlank c = false) : strip cs = cs :=
  stripBy_eq_self (fun c hc => h c (List.mem_of_head? hc))
    (fun c hc => h c (List.mem_of_getLast? hc))

theorem compact_eq_self (h : ∀ c ∈ cs, isBlank c = false) : compact cs = cs :=
  List.filter_eq_self.2 fun c hc => by simp [h c hc]

theorem isBlankText_eq_false {c : Char} (hc : c ∈ cs) (h : isBlank c = false) :
    isBlankText cs = false :=
  List.all_eq_false.2 ⟨c, hc, by simp [h]⟩

/-- A digit is one of the ten behind a zero. -/
theorem exists_zero_of_isDigit {c : Char} (h : isDigit c = true) :
    ∃ z ∈ digitZeros, ∃ k < 10, c = Char.ofNat (z + k) := by
  obtain ⟨z, hz, hlow, hhigh⟩ : ∃ z ∈ digitZeros, z ≤ c.toNat ∧ c.toNat < z + 10 := by
    unfold isDigit digitValue? at h
    split at h
    · split at h
      · rename_i hd
        simp only [Char.isDigit, Bool.and_eq_true, decide_eq_true_eq] at hd
        have hlow : 0x30 ≤ c.toNat := hd.1
        have hhigh : c.toNat ≤ 0x39 := hd.2
        exact ⟨0x30, by decide, hlow, by omega⟩
      · cases h
    · rw [Option.isSome_map, List.find?_isSome] at h
      simpa using h
  refine ⟨z, hz, c.toNat - z, by omega, ?_⟩
  rw [Nat.add_sub_cancel' hlow, Char.ofNat_toNat]

/-- What holds of the ten characters behind every zero holds of every digit. -/
theorem forall_of_isDigit {P : Char → Prop}
    (hP : ∀ z ∈ digitZeros, ∀ k < 10, P (Char.ofNat (z + k))) {c : Char}
    (h : isDigit c = true) : P c := by
  obtain ⟨z, hz, k, hk, rfl⟩ := exists_zero_of_isDigit h
  exact hP z hz k hk

theorem isBlank_of_isDigit {c : Char} (h : isDigit c = true) : isBlank c = false :=
  forall_of_isDigit (P := fun c => isBlank c = false) (by decide +kernel) h

end SteppedConvolution.Text
