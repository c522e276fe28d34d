import SteppedConvolution.Fault.Basic

/-! # Samples

The values of a signal: a non-empty list of finite numbers. A single number is a
list of one sample.
-/

namespace SteppedConvolution.Samples

variable {K : Type} [Scalar K]

/-- The first defect of a list of samples. -/
def defect? (xs : List K) : Option SampleDefect :=
  if xs = [] then some .empty
  else if xs.any Scalar.isUndefined then some .undefinedValues
  else if !xs.all Scalar.isFinite then some .infiniteValues
  else none

/-- A list that can be the samples of a signal. -/
def check (name : String) (xs : List K) : Except (Fault K) (List K) :=
  match defect? xs with
  | some d => .error (.data (.samples name d))
  | none => .ok xs

/-- The samples that an array stands for. -/
def ofShaped (name : String) (s : Shaped K) : Except (Fault K) (List K) :=
  if 1 < s.rank then .error (.data (.samples name (.notOneDimensional s.rank)))
  else check name s.entries

/-- The samples that an input stands for. -/
def ofInput (name : String) (input : Input K) : Except (Fault K) (List K) :=
  match input.shaped with
  | .error _ => .error (.data (.samples name .notNumeric))
  | .ok s => ofShaped name s

/-- The entries of an input that is read without any check but that it is numeric. -/
def shapedInput (input : Input K) : Except (Fault K) (Shaped K) :=
  input.shaped.mapError fun cause => .plain (.notNumeric cause)

/-- Values with a zero in place of each one that is not finite, and how many those were. -/
def clampNonFinite (vs : List K) : List K × Nat :=
  (vs.map fun a => if Scalar.isFinite a then a else 0, vs.countP fun a => !Scalar.isFinite a)

theorem defect?_eq_none_iff {xs : List K} :
    defect? xs = none ↔
      xs ≠ [] ∧ (∀ a ∈ xs, Scalar.isUndefined a = false) ∧ ∀ a ∈ xs, Scalar.isFinite a = true := by
  unfold defect?
  by_cases he : xs = []
  · simp [he]
  · by_cases hu : xs.any Scalar.isUndefined = true
    · obtain ⟨a, ha, h⟩ := List.any_eq_true.1 hu
      simp only [if_neg he, if_pos hu, reduceCtorEq, false_iff]
      intro hn
      simp [hn.2.1 a ha] at h
    · rw [if_neg he, if_neg hu]
      by_cases hf : xs.all Scalar.isFinite = true <;> simp_all

theorem ofShaped_ofList (name : String) (xs : List K) :
    ofShaped name (.ofList xs) = check name xs := by
  simp [ofShaped, Shaped.ofList, Shaped.rank]

theorem eq_of_check {name : String} {xs ys : List K} (h : check name xs = .ok ys) :
    ys = xs := by
  unfold check at h
  split at h
  · cases h
  · cases h; rfl

end SteppedConvolution.Samples
