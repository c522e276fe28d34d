import SteppedConvolution.Expression.Parser

/-! # Splits of a list of lexemes

The two sides of each place at which the parser may cut a list of lexemes, found by
recursion on the list. A list in front of which and behind which the depth is the same
can be split off.
-/

namespace SteppedConvolution

namespace Lexeme

/-- Whether a lexeme changes the depth. -/
def isBracket : Lexeme → Bool
  | opening | closing => true
  | _ => false

/-- Whether an operand may end in a lexeme. -/
def endsOperand : Lexeme → Bool
  | number _ | time | closing => true
  | _ => false

end Lexeme

/-- The lexeme of an operator. -/
def Operator.lexeme : Operator → Lexeme
  | add => .plus
  | subtract => .minus
  | multiply => .star

namespace Bracket

/-- The depth that a lexeme itself is given, when `depth` brackets are open in front of it. -/
def depthOf (depth : Int) : Lexeme → Int
  | .closing => depth - 1
  | _ => depth

/-- The number of open brackets behind a lexeme. -/
def depthBehind (depth : Int) : Lexeme → Int
  | .opening => depth + 1
  | .closing => depth - 1
  | _ => depth

theorem depthsFrom_cons (depth : Int) (x : Lexeme) (xs : List Lexeme) :
    depthsFrom depth (x :: xs) = depthOf depth x :: depthsFrom (depthBehind depth x) xs := by
  cases x <;> rfl

theorem depthOf_of_isBracket {x : Lexeme} (hx : x.isBracket = false) (depth : Int) :
    depthOf depth x = depth := by
  cases x <;> first | rfl | cases hx

theorem depthBehind_of_isBracket {x : Lexeme} (hx : x.isBracket = false) (depth : Int) :
    depthBehind depth x = depth := by
  cases x <;> first | rfl | cases hx

/-- The number of open brackets behind a list of lexemes. -/
def depthAfter (depth : Int) (ls : List Lexeme) : Int := ls.foldl depthBehind depth

end Bracket

namespace Parser

open SteppedConvolution.Bracket

/-- The ways to split a list of lexemes at an operator outside brackets, from the left, when
`depth` brackets are open in front. -/
def splitsFrom (depth : Int) (l : Lexeme) : List Lexeme → List (List Lexeme × List Lexeme)
  | [] => []
  | x :: xs =>
    (if depthOf depth x = 0 ∧ x = l then [([], xs)] else []) ++
      (splitsFrom (depthBehind depth x) l xs).map fun p => (x :: p.1, p.2)

/-- The ways to split a list of lexemes at an operator outside brackets, from the left. -/
def splits (l : Lexeme) (ls : List Lexeme) : List (List Lexeme × List Lexeme) := splitsFrom 0 l ls

/-- The places of an operator outside brackets, counted from `k` on, when `depth` brackets are open
in front. -/
def placesFrom (depth : Int) (k : Nat) (l : Lexeme) (ls : List Lexeme) : List Nat :=
  (((depthsFrom depth ls).zip ls).zipIdx k).filterMap fun e =>
    if e.1.2 = l ∧ e.1.1 = 0 then some e.2 else none

theorem placesFrom_cons (depth : Int) (k : Nat) (l x : Lexeme) (xs : List Lexeme) :
    placesFrom depth k l (x :: xs) = (if depthOf depth x = 0 ∧ x = l then [k] else []) ++
      placesFrom (depthBehind depth x) (k + 1) l xs := by
  rw [placesFrom, depthsFrom_cons, List.zip_cons_cons, List.zipIdx_cons, List.filterMap_cons]
  by_cases h : depthOf depth x = 0 ∧ x = l
  · rw [if_pos h, if_pos h.symm]
    rfl
  · rw [if_neg h, if_neg (mt And.symm h)]
    rfl

theorem placesFrom_succ (depth : Int) (k : Nat) (l : Lexeme) (ls : List Lexeme) :
    placesFrom depth (k + 1) l ls = (placesFrom depth k l ls).map (· + 1) := by
  rw [placesFrom, placesFrom, List.zipIdx_succ, List.filterMap_map, List.map_filterMap]
  congr 1
  funext e
  dsimp only [Function.comp_apply]
  split <;> rfl

/-- The splits of a list are its two sides at the places where the parser cuts. -/
theorem splits_eq_map_places (l : Lexeme) (ls : List Lexeme) :
    splits l ls = (places l ls).map fun i => (ls.take i, ls.drop (i + 1)) := by
  suffices h : ∀ depth, splitsFrom depth l ls =
      (placesFrom depth 0 l ls).map fun i => (ls.take i, ls.drop (i + 1)) from h 0
  induction ls with
  | nil => exact fun _ => rfl
  | cons x xs ih =>
    intro depth
    rw [splitsFrom, placesFrom_cons, placesFrom_succ, ih, List.map_append, List.map_map,
      List.map_map]
    congr 1
    split <;> rfl

theorem mem_places {l : Lexeme} {ls : List Lexeme} {i : Nat} :
    i ∈ places l ls ↔ (depths ls)[i]? = some 0 ∧ ls[i]? = some l := by
  rw [places, List.mem_filterMap]
  constructor
  · rintro ⟨⟨⟨d, x⟩, k⟩, hmem, h⟩
    rw [List.mem_zipIdx_iff_getElem?, List.getElem?_zip_eq_some] at hmem
    dsimp only at h
    split at h
    · rename_i hx
      cases h
      obtain ⟨rfl, rfl⟩ := hx
      exact hmem
    · cases h
  · rintro ⟨hd, hl⟩
    refine ⟨((0, l), i), ?_, if_pos ⟨rfl, rfl⟩⟩
    rw [List.mem_zipIdx_iff_getElem?, List.getElem?_zip_eq_some]
    exact ⟨hd, hl⟩

variable {l : Lexeme} {ls : List Lexeme} {p : List Lexeme × List Lexeme}

theorem mem_splits : p ∈ splits l ls ↔ ∃ place, (depths ls)[place]? = some 0 ∧
    ls[place]? = some l ∧ p = (ls.take place, ls.drop (place + 1)) := by
  rw [splits_eq_map_places, List.mem_map]
  constructor
  · rintro ⟨place, hplace, rfl⟩
    obtain ⟨hd, hl⟩ := mem_places.1 hplace
    exact ⟨place, hd, hl, rfl⟩
  · rintro ⟨place, hd, hl, rfl⟩
    exact ⟨place, mem_places.2 ⟨hd, hl⟩, rfl⟩

theorem eq_append_of_mem_splits (h : p ∈ splits l ls) : ls = p.1 ++ l :: p.2 := by
  obtain ⟨place, -, hl, rfl⟩ := mem_splits.1 h
  obtain ⟨hp, rfl⟩ := List.getElem?_eq_some_iff.1 hl
  rw [← List.drop_eq_getElem_cons hp, List.take_append_drop]

/-! ## Lists in a row -/

theorem splitsFrom_append (depth : Int) (l : Lexeme) (xs ys : List Lexeme) :
    splitsFrom depth l (xs ++ ys) = (splitsFrom depth l xs).map (fun p => (p.1, p.2 ++ ys)) ++
      (splitsFrom (depthAfter depth xs) l ys).map fun p => (xs ++ p.1, p.2) := by
  induction xs generalizing depth with
  | nil => simp [splitsFrom, depthAfter]
  | cons x xs ih =>
    have hd : depthAfter depth (x :: xs) = depthAfter (depthBehind depth x) xs := rfl
    rw [List.cons_append, splitsFrom, splitsFrom, ih, hd]
    split <;> simp [Function.comp_def]

/-- As many brackets are open behind a list of lexemes as in front of it. -/
def IsEven (ls : List Lexeme) : Prop := ∀ depth, depthAfter depth ls = depth

theorem IsEven.append {xs ys : List Lexeme} (hx : IsEven xs) (hy : IsEven ys) :
    IsEven (xs ++ ys) := by
  intro depth
  have hd : depthAfter depth (xs ++ ys) = depthAfter (depthAfter depth xs) ys :=
    List.foldl_append
  rw [hd, hx, hy]

theorem IsEven.cons {x : Lexeme} {xs : List Lexeme} (hb : x.isBracket = false) (hx : IsEven xs) :
    IsEven (x :: xs) := by
  intro depth
  have ha : depthAfter depth (x :: xs) = depthAfter (depthBehind depth x) xs := rfl
  rw [ha, depthBehind_of_isBracket hb, hx]

theorem isEven_nil : IsEven [] := fun _ => rfl

/-- What follows a list that closes its brackets is split on its own. -/
theorem splits_append {xs : List Lexeme} (hx : IsEven xs) (l : Lexeme) (ys : List Lexeme) :
    splits l (xs ++ ys) = (splits l xs).map (fun p => (p.1, p.2 ++ ys)) ++
      (splits l ys).map fun p => (xs ++ p.1, p.2) := by
  rw [splits, splitsFrom_append, hx 0]
  rfl

theorem splits_cons {x : Lexeme} (hb : x.isBracket = false) (l : Lexeme) (xs : List Lexeme) :
    splits l (x :: xs) =
      (if x = l then [([], xs)] else []) ++ (splits l xs).map fun p => (x :: p.1, p.2) := by
  simp [splits, splitsFrom, depthOf_of_isBracket hb, depthBehind_of_isBracket hb]

/-- Nothing stands at the end, or a lexeme behind which an operand is missing. -/
def IsOpen (ls : List Lexeme) : Prop := ∀ x ∈ ls.getLast?, x.endsOperand = false

theorem isOpen_nil : IsOpen [] := by simp [IsOpen]

theorem IsOpen.append_cons {x : Lexeme} {ys : List Lexeme} (hx : x.endsOperand = false)
    (hy : IsOpen ys) (xs : List Lexeme) : IsOpen (xs ++ x :: ys) := by
  intro y h
  rcases List.eq_nil_or_concat ys with rfl | ⟨zs, z, rfl⟩
  · simp only [List.getLast?_concat, Option.mem_some_iff] at h
    exact h ▸ hx
  · rw [List.concat_eq_append] at h hy
    apply hy
    rw [← List.cons_append, ← List.append_assoc, List.getLast?_concat] at h
    rwa [List.getLast?_concat]

/-- On the left of every split at an operator an operand is missing. -/
def OpenSplits (l : Lexeme) (ls : List Lexeme) : Prop := ∀ p ∈ splits l ls, IsOpen p.1

/-- Two lists with another operator between them. -/
theorem OpenSplits.append_cons {x : Lexeme} {xs ys : List Lexeme} (he : IsEven xs)
    (hb : x.isBracket = false) (hx : x.endsOperand = false) (hl : x ≠ l)
    (hxs : OpenSplits l xs) (hys : OpenSplits l ys) : OpenSplits l (xs ++ x :: ys) := by
  intro p hp
  rw [splits_append he, splits_cons hb, if_neg hl, List.nil_append, List.map_map,
    List.mem_append] at hp
  simp only [List.mem_map] at hp
  rcases hp with ⟨q, hq, rfl⟩ | ⟨q, hq, rfl⟩
  · exact hxs q hq
  · exact IsOpen.append_cons hx (hys q hq) xs

/-! ## Sums and differences -/

/-- Whether a list ends in a number. -/
def endsInNumber (ls : List Lexeme) : Bool :=
  match ls.getLast? with
  | some (.number _) => true
  | _ => false

/-- The splits at a `+` or `-` outside brackets that join two operands, from the right. -/
def additiveSplits (l : Lexeme) (ls : List Lexeme) : List (List Lexeme × List Lexeme) :=
  if ls.head? = some l then []
  else (splits l ls).reverse.filter fun p => p.1 ≠ [] && !endsInNumber p.1

theorem mem_additiveSplits (h : p ∈ additiveSplits l ls) :
    p ∈ splits l ls ∧ endsInNumber p.1 = false := by
  unfold additiveSplits at h
  split at h
  · cases h
  · rw [List.mem_filter, List.mem_reverse] at h
    exact ⟨h.1, by simpa using (Bool.and_eq_true_iff.1 h.2).2⟩

end Parser

end SteppedConvolution
