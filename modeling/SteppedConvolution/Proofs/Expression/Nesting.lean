import Mathlib.Data.Nat.Find
import Mathlib.Order.Basic
import SteppedConvolution.Proofs.Expression.Heights

/-! # Nested pairs of brackets

The bracket that closes another one is the first place behind it where the height is again what it
was in front of it. In a balanced list there is such a place behind every opening bracket, and a
place that it closes in front of every closing one. What stands between the two is balanced and
deeper than they are, and either of these tells which place it is.
-/

namespace SteppedConvolution.Bracket

/-- Behind a place the height is what it was in front of an earlier one, for the first time. -/
structure Returns (ls : List Lexeme) (i j : Nat) : Prop where
  lt : i < j
  height_eq : height ls (j + 1) = height ls i
  lt_height : ∀ k, i < k → k ≤ j → height ls i < height ls k

/-- A closing bracket stands behind a place, and what stands between the two is balanced. -/
structure Encloses (ls : List Lexeme) (i j : Nat) : Prop where
  lt : i < j
  closes : ls[j]? = some .closing
  inside : isBalanced ((ls.take j).drop (i + 1)) = true

/-- A closing bracket stands behind a place and has the same depth, and what stands between the two
is deeper. -/
structure Spans (ls : List Lexeme) (i j : Nat) : Prop where
  lt : i < j
  closes : ls[j]? = some .closing
  deeper : ∃ d, (depths ls)[i]? = some d ∧ (depths ls)[j]? = some d ∧
    ∀ k, i < k → k < j → ∃ e, (depths ls)[k]? = some e ∧ d < e

/-! ## The search for a closing bracket -/

/-- With `depth` brackets open in front of a list, the last one of them is closed at a place. -/
def ClosesAt (depth : Int) (ls : List Lexeme) (place : Nat) : Prop :=
  depth + height ls (place + 1) = 0 ∧ ∀ k ≤ place, 0 < depth + height ls k

theorem closesAt_cons_zero {depth : Int} {x : Lexeme} {xs : List Lexeme} :
    ClosesAt depth (x :: xs) 0 ↔ 0 < depth ∧ depthBehind depth x = 0 := by
  rw [ClosesAt, height_cons_succ, height_zero, Int.add_zero, ← depthBehind_eq_add]
  simp [and_comm]

theorem closesAt_cons_succ {depth : Int} {x : Lexeme} {xs : List Lexeme} {place : Nat} :
    ClosesAt depth (x :: xs) (place + 1) ↔ 0 < depth ∧ ClosesAt (depthBehind depth x) xs place := by
  have hheight (k : Nat) :
      depth + height (x :: xs) (k + 1) = depthBehind depth x + height xs k := by
    rw [height_cons_succ, ← Int.add_assoc, ← depthBehind_eq_add]
  constructor
  · rintro ⟨hzero, hopen⟩
    refine ⟨by simpa using hopen 0 (Nat.zero_le _), hheight _ ▸ hzero, fun k hk => ?_⟩
    exact hheight k ▸ hopen (k + 1) (Nat.succ_le_succ hk)
  · rintro ⟨hd, hzero, hopen⟩
    refine ⟨(hheight _).trans hzero, fun k hk => ?_⟩
    cases k with
    | zero => simpa using hd
    | succ k => exact (hopen k (Nat.le_of_succ_le_succ hk)).trans_eq (hheight k).symm

theorem closingFrom_eq_some_iff {depth : Int} (hd : 0 < depth) (place stop : Nat)
    (ls : List Lexeme) : closingFrom depth place ls = some stop ↔
      ∃ n, stop = place + n ∧ ClosesAt depth ls n := by
  induction ls generalizing depth place with
  | nil =>
    refine iff_of_false (Option.some_ne_none stop).symm ?_
    rintro ⟨n, -, hzero, -⟩
    rw [height_nil] at hzero
    omega
  | cons x xs ih =>
    -- where brackets are still open behind the first lexeme, the search goes on
    have hnext (hpos : 0 < depthBehind depth x) :
        closingFrom (depthBehind depth x) (place + 1) xs = some stop ↔
          ∃ n, stop = place + n ∧ ClosesAt depth (x :: xs) n := by
      rw [ih hpos]
      constructor
      · rintro ⟨n, rfl, h⟩
        exact ⟨n + 1, by omega, closesAt_cons_succ.2 ⟨hd, h⟩⟩
      · rintro ⟨n, rfl, h⟩
        cases n with
        | zero => exact absurd (closesAt_cons_zero.1 h).2 hpos.ne'
        | succ n => exact ⟨n, by omega, (closesAt_cons_succ.1 h).2⟩
    cases x with
    | opening => exact hnext (Int.add_pos hd Int.one_pos)
    | closing =>
      rw [closingFrom]
      split
      · rename_i hlast
        rw [Option.some.injEq]
        constructor
        · rintro rfl
          exact ⟨0, rfl, closesAt_cons_zero.2 ⟨hd, hlast⟩⟩
        · rintro ⟨n, rfl, h⟩
          cases n with
          | zero => rfl
          | succ n =>
            have hopen := (closesAt_cons_succ.1 h).2.2 0 (Nat.zero_le n)
            rw [height_zero, Int.add_zero, show depthBehind depth .closing = 0 from hlast] at hopen
            exact absurd hopen (lt_irrefl 0)
      · rename_i hlast
        exact hnext (show 0 < depth - 1 by omega)
    | _ => exact hnext hd

variable {ls : List Lexeme} {i j k : Nat}

theorem matching?_eq_some_iff (h : ls[i]? = some .opening) :
    matching? ls i = some j ↔ Returns ls i j := by
  obtain ⟨hi, hx⟩ := List.getElem?_eq_some_iff.1 h
  have hdrop : ls.drop i = .opening :: ls.drop (i + 1) := by rw [List.drop_eq_getElem_cons hi, hx]
  have hstart : matching? ls i = closingFrom 1 (i + 1) (ls.drop (i + 1)) := by
    rw [matching?, hdrop]
    rfl
  have hheight (n : Nat) :
      1 + height (ls.drop (i + 1)) n = height ls (i + 1 + n) - height ls i := by
    rw [height_add, height_succ_of_opening h]
    omega
  rw [hstart, closingFrom_eq_some_iff Int.one_pos]
  constructor
  · rintro ⟨n, rfl, hzero, hopen⟩
    refine ⟨by omega, ?_, fun k hk hkn => ?_⟩
    · rw [hheight] at hzero
      exact Int.eq_of_sub_eq_zero hzero
    · have hk' := hopen (k - (i + 1)) (by omega)
      rw [hheight, Nat.add_sub_cancel' hk] at hk'
      omega
  · rintro ⟨hlt, heq, hmore⟩
    refine ⟨j - (i + 1), by omega, ?_, fun k hk => ?_⟩
    · rw [hheight, show i + 1 + (j - (i + 1) + 1) = j + 1 by omega, heq, Int.sub_self]
    · rw [hheight]
      have hk' := hmore (i + 1 + k) (by omega) (by omega)
      omega

/-! ## The brackets of a pair -/

theorem Returns.opening (h : Returns ls i j) : ls[i]? = some .opening := by
  have hmore := h.lt_height (i + 1) (Nat.lt_succ_self i) h.lt
  rcases height_succ_cases ls i with ⟨hx, -⟩ | ⟨-, heq⟩ | heq
  · exact hx
  · omega
  · omega

theorem Returns.closing (h : Returns ls i j) : ls[j]? = some .closing := by
  have hmore := h.lt_height j h.lt (Nat.le_refl j)
  rw [← h.height_eq] at hmore
  rcases height_succ_cases ls j with ⟨-, heq⟩ | ⟨hx, -⟩ | heq
  · omega
  · exact hx
  · omega

theorem Returns.lt_length (h : Returns ls i j) : j < ls.length :=
  (List.getElem?_eq_some_iff.1 h.closing).1

/-- A bracket is closed at one place only. -/
theorem Returns.right_unique (hj : Returns ls i j) (hk : Returns ls i k) : j = k := by
  by_contra hne
  rcases Nat.lt_or_gt_of_ne hne with hlt | hlt
  · exact (hk.lt_height (j + 1) (by have := hj.lt; omega) hlt).ne' hj.height_eq
  · exact (hj.lt_height (k + 1) (by have := hk.lt; omega) hlt).ne' hk.height_eq

/-- A place closes one bracket only. -/
theorem Returns.left_unique (hi : Returns ls i j) (hk : Returns ls k j) : i = k := by
  have heq : height ls i = height ls k := hi.height_eq.symm.trans hk.height_eq
  by_contra hne
  rcases Nat.lt_or_gt_of_ne hne with hlt | hlt
  · exact (hi.lt_height k hlt hk.lt.le).ne heq
  · exact (hk.lt_height i hlt hi.lt.le).ne' heq

theorem exists_returns_of_opening (hb : isBalanced ls = true) (h : ls[i]? = some .opening) :
    ∃ j, Returns ls i j := by
  obtain ⟨hnonneg, hclosed⟩ := (isBalanced_iff ls).1 hb
  have hi := (List.getElem?_eq_some_iff.1 h).1
  -- the first place behind the bracket where the height is down again
  have hdown : ∃ k, i < k ∧ height ls k ≤ height ls i :=
    ⟨ls.length, hi, hclosed.trans_le (hnonneg i)⟩
  have hfirst (k : Nat) (hik : i < k) (hk : k < Nat.find hdown) : height ls i < height ls k :=
    not_le.1 fun hle => Nat.find_min hdown hk ⟨hik, hle⟩
  obtain ⟨hlt, hle⟩ := Nat.find_spec hdown
  obtain ⟨j, hj⟩ : ∃ j, Nat.find hdown = j + 1 := Nat.exists_eq_add_one_of_ne_zero (by omega)
  rw [hj] at hlt hle hfirst
  have hij : i < j := by
    refine lt_of_le_of_ne (Nat.le_of_lt_succ hlt) ?_
    rintro rfl
    rw [height_succ_of_opening h] at hle
    omega
  have hmore := hfirst j hij (Nat.lt_succ_self j)
  refine ⟨j, hij, ?_, fun k hik hkj => hfirst k hik (Nat.lt_succ_of_le hkj)⟩
  rcases height_succ_cases ls j with ⟨-, heq⟩ | ⟨-, heq⟩ | heq <;> omega

theorem exists_returns_of_closing (hb : isBalanced ls = true) (h : ls[j]? = some .closing) :
    ∃ i, Returns ls i j := by
  obtain ⟨hnonneg, -⟩ := (isBalanced_iff ls).1 hb
  -- the last place in front of the bracket where the height is not above the one behind it
  obtain ⟨i, hle, hlow, hlast⟩ : ∃ i ≤ j, height ls i ≤ height ls (j + 1) ∧
      ∀ k, i < k → k ≤ j → height ls (j + 1) < height ls k :=
    ⟨Nat.findGreatest (fun k => height ls k ≤ height ls (j + 1)) j, Nat.findGreatest_le j,
      Nat.findGreatest_spec (P := fun k => height ls k ≤ height ls (j + 1)) (Nat.zero_le j)
        (hnonneg (j + 1)),
      fun k hk hkj => not_le.1 (Nat.findGreatest_is_greatest hk hkj)⟩
  have hij : i < j := by
    refine lt_of_le_of_ne hle ?_
    rintro rfl
    have hdown := height_succ_of_closing h
    omega
  have hmore := hlast (i + 1) (Nat.lt_succ_self i) hij
  have heq : height ls (j + 1) = height ls i := by
    rcases height_succ_cases ls i with ⟨-, hstep⟩ | ⟨-, hstep⟩ | hstep <;> omega
  exact ⟨i, hij, heq, fun k hik hkj => heq ▸ hlast k hik hkj⟩

/-! ## What stands between two brackets -/

/-- A part of a list is balanced if no height in it is below the one at its start, and the one at
its end is the same. -/
theorem isBalanced_part_iff (ls : List Lexeme) {start stop : Nat} (hle : start ≤ stop)
    (hlength : stop ≤ ls.length) : isBalanced ((ls.take stop).drop start) = true ↔
      (∀ k, start ≤ k → k ≤ stop → height ls start ≤ height ls k) ∧
        height ls stop = height ls start := by
  have hheight (k : Nat) : height ls (min (start + k) stop) =
      height ls start + height ((ls.take stop).drop start) k := by
    have hadd := height_add (ls.take stop) start k
    rwa [height_take, height_take, Nat.min_eq_left hle] at hadd
  have hend := hheight (stop - start)
  rw [Nat.add_sub_cancel' hle, Nat.min_self] at hend
  rw [isBalanced_iff, List.length_drop, List.length_take_of_le hlength]
  constructor
  · rintro ⟨hnonneg, hclosed⟩
    refine ⟨fun k hk hks => ?_, by omega⟩
    have hk' := hheight (k - start)
    rw [Nat.add_sub_cancel' hk, Nat.min_eq_left hks] at hk'
    have hpart := hnonneg (k - start)
    omega
  · rintro ⟨hmore, hclosed⟩
    refine ⟨fun k => ?_, by omega⟩
    have hk := hmore (min (start + k) stop) (by omega) (Nat.min_le_right _ _)
    rw [hheight] at hk
    omega

theorem encloses_iff (h : ls[i]? = some .opening) : Encloses ls i j ↔ Returns ls i j := by
  have hup := height_succ_of_opening h
  constructor
  · rintro ⟨hlt, hx, hinside⟩
    have hj := (List.getElem?_eq_some_iff.1 hx).1
    obtain ⟨hmore, hclosed⟩ := (isBalanced_part_iff ls (show i + 1 ≤ j from hlt) hj.le).1 hinside
    have hdown := height_succ_of_closing hx
    refine ⟨hlt, by omega, fun k hik hkj => ?_⟩
    have hk := hmore k hik hkj
    omega
  · intro hr
    have hdown := height_succ_of_closing hr.closing
    have hpart := isBalanced_part_iff ls (show i + 1 ≤ j from hr.lt) hr.lt_length.le
    refine ⟨hr.lt, hr.closing, hpart.2 ⟨fun k hik hkj => ?_, ?_⟩⟩
    · have hk := hr.lt_height k hik hkj
      omega
    · have heq := hr.height_eq
      omega

theorem spans_iff (h : ls[i]? = some .opening) : Spans ls i j ↔ Returns ls i j := by
  have hi := (List.getElem?_eq_some_iff.1 h).1
  have hup := height_succ_of_opening h
  constructor
  · rintro ⟨hlt, hx, d, hdi, hdj, hdeeper⟩
    have hdown := height_succ_of_closing hx
    obtain ⟨-, hdi⟩ := (getElem?_depths ls i d).1 hdi
    obtain ⟨-, hdj⟩ := (getElem?_depths ls j d).1 hdj
    refine ⟨hlt, by omega, fun k hik hkj => ?_⟩
    rcases Nat.lt_or_eq_of_le hkj with hkj | rfl
    · obtain ⟨e, he, hde⟩ := hdeeper k hik hkj
      obtain ⟨-, he⟩ := (getElem?_depths ls k e).1 he
      omega
    · omega
  · intro hr
    have hdown := height_succ_of_closing hr.closing
    have heq := hr.height_eq
    refine ⟨hr.lt, hr.closing, height ls i, ?_, ?_, fun k hik hkj => ?_⟩
    · exact (getElem?_depths ls i _).2 ⟨hi, by omega⟩
    · exact (getElem?_depths ls j _).2 ⟨hr.lt_length, by omega⟩
    · refine ⟨_, (getElem?_depths ls k _).2 ⟨hkj.trans hr.lt_length, rfl⟩, ?_⟩
      exact lt_min (hr.lt_height k hik hkj.le) (hr.lt_height (k + 1) (by omega) hkj)

/-- A lexeme outside brackets, that is none itself, cuts a balanced list into two of them. -/
theorem isBalanced_sides (hb : isBalanced ls = true) {x : Lexeme} (hx : ls[i]? = some x)
    (hbracket : x.isBracket = false) (hdepth : (depths ls)[i]? = some 0) :
    isBalanced (ls.take i) = true ∧ isBalanced (ls.drop (i + 1)) = true := by
  obtain ⟨hnonneg, hclosed⟩ := (isBalanced_iff ls).1 hb
  obtain ⟨hi, hmin⟩ := (getElem?_depths ls i 0).1 hdepth
  have hflat := height_succ_of_isBracket hx hbracket
  have hleft := isBalanced_part_iff ls (Nat.zero_le i) hi.le
  have hright := isBalanced_part_iff ls (Nat.succ_le_of_lt hi) (Nat.le_refl _)
  rw [List.drop_zero, height_zero] at hleft
  rw [List.take_length] at hright
  have hzero : height ls (i + 1) = 0 := by omega
  refine ⟨hleft.2 ⟨fun k _ _ => hnonneg k, by omega⟩, hright.2 ⟨fun k _ _ => ?_, ?_⟩⟩
  · exact hzero.trans_le (hnonneg k)
  · rw [hclosed, hzero]

/-- A list is balanced exactly when no depth is negative and there are as many closing brackets as
opening ones. Then a closing bracket is found for every opening one: the only one such that what
stands between the two is balanced, and the only one of the same depth such that what stands between
the two is deeper. No two brackets are closed by one, and every closing bracket closes exactly one.
A lexeme outside brackets, such as an operator, cuts the list into two balanced ones. -/
theorem nested_pairs (ls : List Lexeme) :
    (isBalanced ls = true ↔ (∀ d ∈ depths ls, 0 ≤ d) ∧ ls.count .opening = ls.count .closing) ∧
      (isBalanced ls = true →
        (∀ i, ls[i]? = some .opening → ∃ j, matching? ls i = some j ∧
          ∀ k, (Encloses ls i k ↔ k = j) ∧ (Spans ls i k ↔ k = j)) ∧
        (∀ i k, ls[i]? = some .opening → ls[k]? = some .opening →
          matching? ls i = matching? ls k → i = k) ∧
        (∀ j, ls[j]? = some .closing → ∃! i, ls[i]? = some .opening ∧ matching? ls i = some j) ∧
        ∀ i x, ls[i]? = some x → x.isBracket = false → (depths ls)[i]? = some 0 →
          isBalanced (ls.take i) = true ∧ isBalanced (ls.drop (i + 1)) = true) := by
  have hcount : height ls ls.length = 0 ↔ ls.count .opening = ls.count .closing := by
    rw [height_length]
    omega
  refine ⟨by rw [isBalanced_iff, forall_depths_iff, hcount], fun hb => ⟨?_, ?_, ?_, ?_⟩⟩
  · intro i hi
    obtain ⟨j, hj⟩ := exists_returns_of_opening hb hi
    have honly (k : Nat) : Returns ls i k ↔ k = j :=
      ⟨fun hk => hk.right_unique hj, fun hk => hk ▸ hj⟩
    exact ⟨j, (matching?_eq_some_iff hi).2 hj, fun k =>
      ⟨(encloses_iff hi).trans (honly k), (spans_iff hi).trans (honly k)⟩⟩
  · intro i k hi hk heq
    obtain ⟨j, hj⟩ := exists_returns_of_opening hb hi
    have hkj := heq ▸ (matching?_eq_some_iff hi).2 hj
    exact hj.left_unique ((matching?_eq_some_iff hk).1 hkj)
  · intro j hj
    obtain ⟨i, hi⟩ := exists_returns_of_closing hb hj
    refine ⟨i, ⟨hi.opening, (matching?_eq_some_iff hi.opening).2 hi⟩, fun k hk => ?_⟩
    exact ((matching?_eq_some_iff hk.1).1 hk.2).left_unique hi
  · intro i x hx hbracket hdepth
    exact isBalanced_sides hb hx hbracket hdepth

/-- In `u[abs[n]]*u[n]` the first bracket is closed by the fourth one, and the star is outside of
brackets. -/
theorem nested_pairs_product :
    let ls := [.primitive .step, .opening, .primitive .magnitude, .opening, .time, .closing, .closing,
      .star, .primitive .step, .opening, .time, .closing]
    isBalanced ls = true ∧
      (∃ j, matching? ls 1 = some j ∧ ∀ k, (Encloses ls 1 k ↔ k = j) ∧ (Spans ls 1 k ↔ k = j)) ∧
        matching? ls 1 ≠ matching? ls 3 ∧
          (∃! i, ls[i]? = some .opening ∧ matching? ls i = some 6) ∧
            isBalanced (ls.take 7) = true ∧ isBalanced (ls.drop 8) = true := by
  intro ls
  have hb : isBalanced ls = true := by decide
  obtain ⟨hpartner, hdistinct, hclosed, hsides⟩ := (nested_pairs ls).2 hb
  refine ⟨hb, hpartner 1 rfl, fun heq => ?_, hclosed 6 rfl, hsides 7 .star rfl rfl (by decide)⟩
  exact absurd (hdistinct 1 3 rfl rfl heq) (by decide)

end SteppedConvolution.Bracket
