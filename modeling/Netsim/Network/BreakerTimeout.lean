import Netsim.Network.BreakerTrace

/-!
# Timeouts beyond the signed range

The elapsed time is compared with the timeout after a cast to `long long`. A timeout
of `2^63` milliseconds or more becomes negative there, and an Open breaker recovers at
the next call however little time has passed.
-/

namespace Netsim.Network

namespace CircuitBreaker

/-- No call moved the breaker out of Open before the timeout had passed. -/
def NeverEarly (timeout : UInt64) (events : List Event) : Prop :=
  ∀ e earlier, e :: earlier <:+ events → e.before = .Open → (e.mid ≠ .Open ∨ e.after ≠ .Open) →
    ∃ t, openedAt earlier = some t ∧ t + timeout.toNat * 1000000 ≤ e.readings.compared

variable {threshold : UInt32} {timeout : UInt64} {s : Traced}

/-- A breaker that `get_state` leaves Open is Open after the call. -/
theorem Lawful.after_open {earlier : List Event} {e : Event}
    (h : Lawful threshold timeout earlier e) (hmid : e.mid = .Open) : e.after = .Open := by
  have hopens : ¬ e.Opens := fun h => h.1 hmid
  have hcloses : ¬ e.Closes := by
    intro hc
    have hhalf := (h.closes_iff.mp hc).2.1
    rw [hmid] at hhalf
    nomatch hhalf
  rw [h.stays hopens hcloses, hmid]

theorem FollowsTrace.neverEarly (h : FollowsTrace threshold timeout s) :
    NeverEarly timeout s.events := by
  intro e earlier hsuffix hbefore hleft
  have L := h.lawful e earlier hsuffix
  have hmid : e.mid ≠ .Open := by
    rcases hleft with hmid | hafter
    · exact hmid
    · exact fun hmid => hafter (L.after_open hmid)
  obtain ⟨t, ht, hiff⟩ := L.leaves_iff hbefore
  exact ⟨t, ht, hiff.mp hmid⟩

/-! ### A timeout that is too large -/

/-- A call whose readings are all zero. -/
def atZero (c : Call) : Call × Readings := (c, ⟨0, 0, 0⟩)

theorem nonDecreasing_atZero : ∀ calls : List Call, NonDecreasing 0 (calls.map atZero) := by
  intro calls
  induction calls with
  | nil => exact trivial
  | cons c calls ih => exact ⟨Int.le_refl 0, Int.le_refl 0, Int.le_refl 0, ih⟩

/-- The cast makes the timeout negative, so that no time is already enough. -/
theorem recoveryDue_of_overflow {b : CircuitBreaker} (htimeout : 2 ^ 63 ≤ b.recoveryTimeoutMs.toNat)
    (htime : b.lastStateChangeTime = 0) : b.recoveryDue 0 = true := by
  have hnegative : b.recoveryTimeoutMs.toInt64.toInt < 0 := by
    show b.recoveryTimeoutMs.toBitVec.toInt < 0
    rw [BitVec.toInt_neg_iff]
    show 2 ^ 64 ≤ 2 * b.recoveryTimeoutMs.toNat
    omega
  unfold recoveryDue elapsedMs
  rw [decide_eq_true_iff, htime]
  exact Int.le_of_lt hnegative

/-- A breaker built at zero, after `k` failures. -/
def counting (threshold : UInt32) (timeout : UInt64) (k : ℕ) : CircuitBreaker :=
  ⟨.Closed, threshold, timeout, UInt32.ofNat k, 0, 0⟩

/-- A breaker opened at zero. -/
def openedAtZero (threshold : UInt32) (timeout : UInt64) : CircuitBreaker :=
  ⟨.Open, threshold, timeout, 0, 0, 0⟩

theorem toNat_next_count {k : ℕ} (hk : k < max 1 threshold.toNat) :
    (UInt32.ofNat k + 1).toNat = k + 1 := by
  have hbound : k + 1 < 2 ^ 32 := by
    have hthreshold : threshold.toNat < 2 ^ 32 := threshold.toNat_lt
    omega
  rw [← UInt32.ofNat_one, ← UInt32.ofNat_add]
  exact UInt32.toNat_ofNat_of_lt' hbound

/-- A failure below the threshold is only counted. -/
theorem receive_counting {k : ℕ} (hk : k + 1 < max 1 threshold.toNat) :
    (counting threshold timeout k).receive (atZero .failure) =
      (some false, counting threshold timeout (k + 1)) := by
  have hbelow : ¬ UInt32.ofNat k + 1 ≥ threshold := by
    rw [ge_iff_le, UInt32.le_iff_toNat_le, toNat_next_count (Nat.lt_of_succ_lt hk)]
    omega
  simp only [receive, counting, getStateAt, record, countFailure, atZero, reduceCtorEq, if_false,
    hbelow]
  rw [UInt32.ofNat_add]
  rfl

theorem receive_last {k : ℕ} (hk : k + 1 = max 1 threshold.toNat) :
    (counting threshold timeout k).receive (atZero .failure) =
      (some true, openedAtZero threshold timeout) := by
  have hlt : k < max 1 threshold.toNat := hk ▸ Nat.lt_succ_self k
  have hreached : UInt32.ofNat k + 1 ≥ threshold := by
    rw [ge_iff_le, UInt32.le_iff_toNat_le, toNat_next_count hlt, hk]
    exact Nat.le_max_right _ _
  simp only [receive, counting, getStateAt, record, countFailure, atZero, reduceCtorEq, if_false,
    hreached, if_true]
  rfl

/-! ### The run that recovers early -/

theorem run_failures (threshold : UInt32) (timeout : UInt64) (k : ℕ)
    (hk : k < max 1 threshold.toNat) :
    (run threshold timeout 0 ((List.replicate k Call.failure).map atZero)).breaker =
      counting threshold timeout k := by
  induction k with
  | zero => rfl
  | succ k ih =>
      rw [List.replicate_succ', List.map_append, List.map_singleton, run_concat, step_breaker,
        ih (Nat.lt_of_succ_lt hk), receive_counting hk]

/-- As many failures as the threshold asks for open the breaker. -/
theorem run_all_failures (threshold : UInt32) (timeout : UInt64) :
    (run threshold timeout 0
        ((List.replicate (max 1 threshold.toNat) Call.failure).map atZero)).breaker =
      openedAtZero threshold timeout ∧
    openedAt (run threshold timeout 0
      ((List.replicate (max 1 threshold.toNat) Call.failure).map atZero)).events = some 0 := by
  obtain ⟨k, hk⟩ : ∃ k, k + 1 = max 1 threshold.toNat :=
    ⟨_, Nat.sub_add_cancel (Nat.le_max_left 1 _)⟩
  have hbefore := run_failures threshold timeout k (hk ▸ Nat.lt_succ_self k)
  have hlast : (counting threshold timeout k).receive (atZero .failure) =
      (some true, openedAtZero threshold timeout) := receive_last hk
  rw [← hk, List.replicate_succ', List.map_append, List.map_singleton, run_concat, step_breaker,
    step_events, hbefore]
  refine ⟨congrArg Prod.snd hlast, if_pos ⟨?_, congrArg (fun r => r.2.state) hlast⟩⟩
  simp [eventOf, getStateAt, counting]

/-- **The cast overflows.** With a timeout beyond the signed range, the query after the
failures that open the breaker moves it out of Open although no time has passed. -/
theorem not_neverEarly_of_overflow (threshold : UInt32) (timeout : UInt64)
    (htimeout : 2 ^ 63 ≤ timeout.toNat) :
    ¬ NeverEarly timeout (run threshold timeout 0
      ((List.replicate (max 1 threshold.toNat) Call.failure ++ [Call.query]).map
        atZero)).events := by
  obtain ⟨hopen, hopened⟩ := run_all_failures threshold timeout
  have hrecovers : (getStateAt ⟨0, 0, 0⟩ (openedAtZero threshold timeout)).state = .HalfOpen := by
    rw [getStateAt_of_recovers ⟨rfl, recoveryDue_of_overflow htimeout rfl⟩]
    rfl
  have hmid : (getStateAt ⟨0, 0, 0⟩ (openedAtZero threshold timeout)).state ≠ .Open := by
    rw [hrecovers]
    decide
  rw [List.map_append, List.map_singleton, run_concat, step_events, hopen]
  intro hnever
  obtain ⟨t, ht, hle⟩ := hnever _ _ (List.suffix_refl _) rfl (Or.inl hmid)
  obtain rfl := Option.some.inj (hopened.symm.trans ht)
  have hlate : (0 : ℤ) + timeout.toNat * 1000000 ≤ 0 := hle
  omega

/-- **When Open lasts.** For every threshold, no run with a clock that does not go back
leaves Open before the timeout if and only if the timeout is below `2^63`
milliseconds. -/
theorem neverEarly_iff (threshold : UInt32) (timeout : UInt64) :
    (∀ (created : ℤ) (calls : List (Call × Readings)), NonDecreasing created calls →
      NeverEarly timeout (run threshold timeout created calls).events) ↔
        timeout.toNat < 2 ^ 63 := by
  constructor
  · intro h
    by_contra hover
    exact not_neverEarly_of_overflow threshold timeout (Nat.not_lt.mp hover)
      (h 0 _ (nonDecreasing_atZero _))
  · intro htimeout created calls hclock
    exact (RunInv.foldl htimeout calls (runInv_initial threshold timeout created)
      hclock).neverEarly

/-- A timeout meant as never: the breaker recovers at the first query. -/
theorem not_neverEarly_max :
    ¬ ∀ (threshold : UInt32) (timeout : UInt64) (created : ℤ) (calls : List (Call × Readings)),
      NonDecreasing created calls →
        NeverEarly timeout (run threshold timeout created calls).events := by
  intro h
  exact not_neverEarly_of_overflow 1 18446744073709551615 (by decide)
    (h 1 18446744073709551615 0 _ (nonDecreasing_atZero _))

end CircuitBreaker

end Netsim.Network
