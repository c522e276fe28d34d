import Mathlib.Algebra.Order.Ring.Abs
import SteppedConvolution.Proofs.Compliance.Errors
import SteppedConvolution.Proofs.Convolution.Commutative
import SteppedConvolution.Proofs.Session.Cursor
import SteppedConvolution.Session.Status

/-! # The report on a session

What the checks say about the session of an engine, after every history. The checks of the
length, of commutativity, of the positions and of the revealed samples pass. The check of the
impulse response compares the reference with the other signal, and these differ where the
impulse is not exactly 1.
-/

namespace SteppedConvolution

variable {t : Rat}

namespace Support

theorem spreadEntry_zero (a b : Rat) (n : Nat) : spreadEntry a b n 0 = a := by
  unfold spreadEntry
  dsimp only
  have hzero : (Scalar.ofNat 0 : Rat) = 0 := Nat.cast_zero
  rw [hzero, zero_div, zero_mul, zero_mul, zero_add, ite_self]

theorem head?_positions (a b : Rat) {n : Nat} (hn : 0 < n) : (positions a b n).head? = some a := by
  unfold positions
  by_cases h1 : n = 1
  · rw [if_pos h1, List.head?_cons]
  · obtain ⟨k, hk⟩ := Nat.exists_eq_succ_of_ne_zero (by omega : n - 1 ≠ 0)
    rw [if_neg h1, spread, hk, List.range_succ_eq_map, List.map_cons, List.cons_append,
      List.head?_cons, spreadEntry_zero]

theorem getLast?_positions {a b : Rat} {n : Nat} (h : n = 1 → b = a) :
    (positions a b n).getLast? = some b := by
  unfold positions
  by_cases h1 : n = 1
  · rw [if_pos h1, List.getLast?_singleton, h h1]
  · rw [if_neg h1, spread, List.getLast?_concat]

end Support

theorem TimeGrid.stop_eq_start {g : TimeGrid Rat} (hg : g.size = 1) : g.stop = g.start := by
  obtain ⟨p, hp⟩ := List.length_eq_one_iff.1 hg
  simp [stop, start, hp]

namespace Check

/-- Positions that start and end where they should pass their check. -/
theorem ofEnds_pass (ht : 0 < t) {nx nh : TimeGrid Rat} {ps : List Rat}
    (hhead : ps.head? = some (nx.start + nh.start))
    (hlast : ps.getLast? = some (nx.stop + nh.stop)) :
    ∃ c, ofEnds t nx.values nh.values ps = .ok c ∧ c.status = .pass := by
  have hnear (p : Rat) : Scalar.magnitude (p - p) < t := by
    rwa [sub_self, Scalar.magnitude_eq_abs, abs_zero]
  unfold ofEnds
  rw [hhead, hlast, List.head?_eq_some_head nx.values_ne_nil,
    List.head?_eq_some_head nh.values_ne_nil, List.getLast?_eq_some_getLast nx.values_ne_nil,
    List.getLast?_eq_some_getLast nh.values_ne_nil]
  refine ⟨_, rfl, statusOf_eq_pass.2 ?_⟩
  rw [Bool.and_eq_true, decide_eq_true_iff, decide_eq_true_iff]
  exact ⟨hnear _, hnear _⟩

end Check

/-- The checks pass, apart from that of the impulse response. -/
structure Report.Passes {K : Type} (r : Report K) : Prop where
  length : r.length.status = .pass
  commutativity : r.commutativity.status = .pass
  timeIndexing : r.timeIndexing.status = .pass
  selfConsistency : r.selfConsistency.status = .pass

/-- What the check of the impulse response says about exact signals. -/
def impulseStatus (t : Rat) (x h : List Rat) : CheckStatus :=
  if isUnitImpulse t x then
    Check.statusOf ((Deviation.between (Convolution.full x h) h).isBelow t)
  else .notApplicable

namespace Session

variable {tolerances : Tolerances Rat} {nx : TimeGrid Rat} {s : Session Rat}

theorem Built.timeCheck_pass (hs : s.Built tolerances nx) (ht : 0 < t) :
    ∃ c, Check.ofEnds t nx.values s.nh.values s.outputGrid.values = .ok c ∧ c.status = .pass := by
  have hsingle (h1 : s.length = 1) : nx.stop + s.nh.stop = nx.start + s.nh.start := by
    have hnx := nx.size_pos
    have hnh := s.nh.size_pos
    have hl := hs.length_eq
    rw [← hs.size_nx, ← hs.size_nh] at hl
    rw [nx.stop_eq_start (by omega), s.nh.stop_eq_start (by omega)]
  rw [hs.outputGrid_eq]
  exact Check.ofEnds_pass ht (Support.head?_positions _ _ hs.length_pos)
    (Support.getLast?_positions hsingle)

/-- The revealed samples are those of the reference. -/
theorem consistencyCheck_pass (ht : 0 < t) {e : Evidence Rat} {c : Nat}
    (hc : c ≤ s.length) (href : e.reference = s.reference) (hrev : e.revealed = c)
    (hout : e.output = s.reference.take c ++ List.replicate (s.length - c) 0) :
    (e.consistencyCheck t).status = .pass := by
  have hl : s.reference.length = s.length := rfl
  have hcount : e.revealedCount = c := by
    rw [Evidence.revealedCount, hrev, href, hl, Int.toNat_natCast, Nat.min_eq_left hc]
  have htake : e.output.take c = s.reference.take c := by
    have hlen : (s.reference.take c).length = c := by rw [List.length_take, hl, Nat.min_eq_left hc]
    rw [hout, List.take_append_of_le_length hlen.ge, List.take_take, Nat.min_self]
  have hlength : e.output.length = e.reference.length := by
    rw [hout, href, List.length_append, List.length_take, List.length_replicate, hl]
    omega
  unfold Evidence.consistencyCheck
  dsimp only
  rw [hcount, htake, if_neg (not_not.2 hlength), href]
  exact Check.statusOf_eq_pass.2 (Deviation.isBelow_between_self ht _)

/-- Whatever samples are revealed, the report on a session does not fail. -/
theorem Built.report_upTo (hs : s.Built tolerances nx) (ht : 0 < t) {c : Nat}
    (hc : c ≤ s.length) : ∃ r, (s.upTo c).report t = .ok r ∧ r.Passes ∧
      r.impulseResponse.status = impulseStatus t s.x s.h := by
  let e : Evidence Rat :=
    { x := s.x, h := s.h, nx := nx.values, nh := s.nh.values, reference := s.reference
      positions := s.outputGrid.values
      output := s.reference.take c ++ List.replicate (s.length - c) 0, revealed := c }
  have hreport : (s.upTo c).report t = e.report t := by
    unfold Session.report
    rw [upTo_nx, hs.nx_eq]
    rfl
  have hconv : Convolution.convolve s.h s.x = .ok s.reference := by
    rw [Convolution.convolve_eq_ok, hs.reference_eq]
    exact ⟨hs.samples_h, hs.samples_x, Convolution.full_comm _ _⟩
  have hcomm : e.commutativityCheck t =
      .ok (.ofError .commutativity t (Deviation.between s.reference s.reference)) := by
    rw [Evidence.commutativityCheck, hconv]
    rfl
  obtain ⟨time, htime, hpass⟩ := hs.timeCheck_pass ht
  have hok : e.report t = .ok
      { length := e.lengthCheck
        commutativity := .ofError .commutativity t (Deviation.between s.reference s.reference)
        impulseResponse := e.impulseCheck t, timeIndexing := time
        selfConsistency := e.consistencyCheck t } :=
    bind_eq_ok.2 ⟨_, hcomm, bind_eq_ok.2 ⟨time, htime, rfl⟩⟩
  refine ⟨_, hreport.trans hok, ⟨?_, ?_, hpass, ?_⟩, ?_⟩
  · exact Check.statusOf_eq_pass.2 (decide_eq_true hs.length_eq)
  · exact Check.statusOf_eq_pass.2 (Deviation.isBelow_between_self ht _)
  · exact consistencyCheck_pass ht hc rfl rfl rfl
  · unfold impulseStatus Evidence.impulseCheck
    rw [← hs.reference_eq]
    split <;> rfl

end Session

/-! ## The impulse response -/

/-- The response to a single sample differs from the other signal by multiples of its samples. -/
theorem Deviation.isBelow_between_full_singleton (ht : 0 < t) {a : Rat} {h : List Rat} :
    (between (Convolution.full [a] h) h).isBelow t = true ↔ ∀ v ∈ h, |a - 1| * |v| < t := by
  rw [isBelow_between_iff ht, Convolution.full_singleton, List.forall₂_map_left_iff,
    List.forall₂_same]
  refine forall₂_congr fun v _ => ?_
  rw [← abs_mul, sub_one_mul]

theorem impulseStatus_eq_notApplicable {x h : List Rat} :
    impulseStatus t x h = .notApplicable ↔ ¬ ∃ a, x = [a] ∧ |a - 1| < t := by
  rw [← isUnitImpulse_iff, impulseStatus]
  split_ifs with hx
  · cases (Deviation.between (Convolution.full x h) h).isBelow t <;> simp [Check.statusOf, hx]
  · simp [hx]

theorem impulseStatus_eq_fail (ht : 0 < t) {x h : List Rat} : impulseStatus t x h = .fail ↔
    ∃ a, x = [a] ∧ |a - 1| < t ∧ ∃ v ∈ h, t ≤ |a - 1| * |v| := by
  unfold impulseStatus
  by_cases hx : isUnitImpulse t x = true
  · obtain ⟨a, rfl, ha⟩ := isUnitImpulse_iff.1 hx
    rw [if_pos hx, Check.statusOf_eq_fail, ← Bool.not_eq_true,
      Deviation.isBelow_between_full_singleton ht]
    simp [ha]
  · rw [if_neg hx]
    refine ⟨fun h => (nomatch h), ?_⟩
    rintro ⟨a, rfl, ha, -⟩
    exact absurd (isUnitImpulse_iff.2 ⟨a, rfl, ha⟩) hx

namespace Engine

theorem Reachable.verify {e : Engine Rat} (he : e.Reachable) {s : Session Rat}
    (hs : e.session = some s) (ht : 0 < e.tolerances.compliance) :
    ∃ r, e.verify.outcome = .ok r ∧ r.Passes ∧
      r.impulseResponse.status = impulseStatus e.tolerances.compliance s.x s.h := by
  obtain ⟨opened, c, hat, rfl⟩ := he.standsAt hs
  obtain ⟨nx, hb⟩ := hat.built
  obtain ⟨r, hr, hpass, himpulse⟩ := hb.report_upTo ht hat.le
  refine ⟨r, ?_, hpass, himpulse⟩
  have hrequire : e.requireSession = .ok (opened.upTo c) := by rw [requireSession, hs]
  exact Logged.bind_eq_ok.2 ⟨_, hrequire, Logged.bind_eq_ok.2 ⟨r, hr, rfl⟩⟩

/-- After every history the report on the session of an engine passes the checks of the length,
of commutativity, of the positions and of the revealed samples. -/
theorem verify_passes {e : Engine Rat} (he : e.Reachable) {s : Session Rat}
    (hs : e.session = some s) (ht : 0 < e.tolerances.compliance) :
    ∃ r, e.verify.outcome = .ok r ∧ r.Passes := by
  obtain ⟨r, hr, hpass, -⟩ := he.verify hs ht
  exact ⟨r, hr, hpass⟩

/-- A session with two of its four samples revealed, after a third one was taken back. -/
theorem verify_passes_rewound :
    let e := (Engine.idle
      (⟨.standard, ToleranceSettings.firstNegative?_standard⟩ : Tolerances Rat)).after
      [.start (.samples (.ofList [1, 2])) (.samples (.ofList [1, 0, 3]))
        (some (.positions (.ofList [0, 1 / 2, 1])))
        (some (.positions (.ofList [1 / 3, 5 / 6, 4 / 3, 11 / 6]))),
        .step, .step, .step, .rewind (.integer 2)]
    0 < e.tolerances.compliance ∧ e.cursor = 2 ∧ ∃ r, e.verify.outcome = .ok r ∧ r.Passes := by
  intro e
  have he : e.Reachable := ⟨_, _, rfl⟩
  have ht : 0 < e.tolerances.compliance := by decide +kernel
  have hcursor : e.cursor = 2 := by decide +kernel
  have hsome : e.session.isSome = true := by decide +kernel
  obtain ⟨s, hs⟩ := Option.isSome_iff_exists.1 hsome
  exact ⟨ht, hcursor, verify_passes he hs ht⟩

/-- After every history the check of the impulse response does not apply unless `x` is a single
sample that is 1 within the tolerance, and fails only where the error that this sample brings to
some sample of `h` is not below the tolerance. -/
theorem verify_impulseResponse {e : Engine Rat} (he : e.Reachable) {s : Session Rat}
    (hs : e.session = some s) (ht : 0 < e.tolerances.compliance) :
    ∃ r, e.verify.outcome = .ok r ∧
      (r.impulseResponse.status = .notApplicable ↔
        ¬ ∃ a, s.x = [a] ∧ |a - 1| < e.tolerances.compliance) ∧
      (r.impulseResponse.status = .fail ↔
        ∃ a, s.x = [a] ∧ |a - 1| < e.tolerances.compliance ∧
          ∃ v ∈ s.h, e.tolerances.compliance ≤ |a - 1| * |v|) := by
  obtain ⟨r, hr, -, himpulse⟩ := he.verify hs ht
  refine ⟨r, hr, ?_, ?_⟩
  · rw [himpulse]
    exact impulseStatus_eq_notApplicable
  · rw [himpulse]
    exact impulseStatus_eq_fail ht

/-- An engine that convolves a single sample, which is just above 1, with 100. -/
def amplified : Engine Rat :=
  (idle ⟨.standard, ToleranceSettings.firstNegative?_standard⟩).after
    [.start (.samples (.ofList [1 + 1 / 20000000000])) (.samples (.ofList [100]))
      (some (.positions (.ofList [0]))) (some (.positions (.ofList [0])))]

theorem amplified_reachable : amplified.Reachable := ⟨_, _, rfl⟩

theorem amplified_compliance : amplified.tolerances.compliance = 1 / 10000000000 := by
  decide +kernel

theorem amplified_session :
    ∃ s, amplified.session = some s ∧ s.x = [1 + 1 / 20000000000] ∧ s.h = [100] := by
  have hview : amplified.session.map (fun s => (s.x, s.h)) =
      some ([1 + 1 / 20000000000], [100]) := by decide +kernel
  obtain ⟨s, hs, hview⟩ := Option.map_eq_some_iff.1 hview
  obtain ⟨hx, hh⟩ := Prod.mk.inj hview
  exact ⟨s, hs, hx, hh⟩

theorem verify_impulseResponse_amplified :
    0 < amplified.tolerances.compliance ∧
      ∃ r, amplified.verify.outcome = .ok r ∧ r.impulseResponse.status = .fail := by
  have ht : 0 < amplified.tolerances.compliance := by decide +kernel
  obtain ⟨s, hs, hx, hh⟩ := amplified_session
  obtain ⟨r, hr, -, hfail⟩ := verify_impulseResponse amplified_reachable hs ht
  refine ⟨ht, r, hr, hfail.2 ⟨_, hx, ?_, 100, ?_, ?_⟩⟩
  · decide +kernel
  · rw [hh]
    exact List.mem_singleton_self _
  · decide +kernel

/-- The check of the impulse response may fail although the reference is the convolution. -/
theorem impulseResponse_false_alarm : ¬ ∀ (e : Engine Rat) (s : Session Rat) (r : Report Rat),
    e.Reachable → e.session = some s → 0 < e.tolerances.compliance →
    e.verify.outcome = .ok r → r.impulseResponse.status ≠ .fail := by
  intro h
  have ht : 0 < amplified.tolerances.compliance := by decide +kernel
  obtain ⟨s, hs, hx, hh⟩ := amplified_session
  obtain ⟨r, hr, -, himpulse⟩ := amplified_reachable.verify hs ht
  have hfail : impulseStatus (1 / 10000000000) [1 + 1 / 20000000000] [100] = .fail := by
    decide +kernel
  rw [amplified_compliance, hx, hh, hfail] at himpulse
  exact h amplified s r amplified_reachable hs ht hr himpulse

end Engine

end SteppedConvolution
