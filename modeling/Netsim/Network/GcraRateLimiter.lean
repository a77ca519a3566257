import Mathlib.Algebra.Group.Nat.Defs
import Mathlib.Data.Nat.Basic
import Mathlib.Logic.Function.Basic

/-!
# The rate limiter

`network/rate_limiter.hpp`: the generic cell rate algorithm on one atomic word,
the theoretical arrival time. Any number of threads call `allow`; a step is one
access to the clock or to the word, with the local computation after it. The
clock is sampled once, before the loop, so a call may take effect late, on a
value of the word that many other calls have moved.

A call that is admitted raises the word by at least the emission interval and
found it no later than its own time plus the tolerance. That bounds the
admissions of every window (`allow_window_bound`).
-/

namespace Netsim.Network

/-- The intervals are those the constructor computes from the rate and the burst. -/
structure GcraRateLimiter where
  emissionIntervalNs : UInt64
  toleranceNs : UInt64
  tatNs : UInt64
deriving DecidableEq, Repr

namespace GcraRateLimiter

/-- What one pass of the loop in `allow` comes to. -/
inductive Attempt where
  | returned (allowed : Bool)
  | retry (currentTat : UInt64)
deriving DecidableEq, Repr

/-- One pass of the loop. A weak compare-exchange may fail although the word has the
expected value; in any case it then loads the word anew. -/
def attempt (t currentTat : UInt64) (spurious : Bool) (limiter : GcraRateLimiter) :
    Attempt × GcraRateLimiter :=
  -- `std::max`
  let baseTat := if t < currentTat then currentTat else t
  if currentTat > t ∧ currentTat - t > limiter.toleranceNs then (.returned false, limiter)
  else
    let newTat := baseTat + limiter.emissionIntervalNs
    if limiter.tatNs = currentTat ∧ spurious = false then
      (.returned true, { limiter with tatNs := newTat })
    else (.retry limiter.tatNs, limiter)

/-- How far a call of `allow` has got. -/
inductive Allow where
  | idle
  | sampled (t : UInt64)
  | loaded (t currentTat : UInt64)
deriving DecidableEq, Repr

/-- A step of a thread: it reads the clock, loads the word, or tries to exchange it. -/
inductive Action (ι : Type*) where
  | sample (i : ι) (t : UInt64)
  | load (i : ι)
  | exchange (i : ι) (spurious : Bool)

/-- The limiter, what each thread is doing, and the calls that have returned: their
times and their answers. -/
structure State (ι : Type*) where
  limiter : GcraRateLimiter
  allow : ι → Allow
  returned : List (UInt64 × Bool)

variable {ι : Type*}

/-- A step that is not the thread's next one does nothing. -/
def step [DecidableEq ι] (s : State ι) : Action ι → State ι
  | .sample i t =>
      match s.allow i with
      | .idle => { s with allow := Function.update s.allow i (.sampled t) }
      | _ => s
  | .load i =>
      match s.allow i with
      | .sampled t => { s with allow := Function.update s.allow i (.loaded t s.limiter.tatNs) }
      | _ => s
  | .exchange i spurious =>
      match s.allow i with
      | .loaded t currentTat =>
          match attempt t currentTat spurious s.limiter with
          | (.returned allowed, limiter) =>
              { limiter := limiter
                allow := Function.update s.allow i .idle
                returned := s.returned ++ [(t, allowed)] }
          | (.retry currentTat, limiter) =>
              { s with
                limiter := limiter
                allow := Function.update s.allow i (.loaded t currentTat) }
      | _ => s

def initial (limiter : GcraRateLimiter) : State ι := ⟨limiter, fun _ => .idle, []⟩

def run [DecidableEq ι] (limiter : GcraRateLimiter) (actions : List (Action ι)) : State ι :=
  actions.foldl step (initial limiter)

/-- The calls that returned true and whose time lies in the window. -/
def admittedIn (a b : ℕ) (s : State ι) : ℕ :=
  s.returned.countP fun p => p.2 && decide (a ≤ p.1.toNat) && decide (p.1.toNat ≤ b)

/-! ### One pass of the loop -/

variable {limiter limiter' : GcraRateLimiter} {t currentTat : UInt64} {spurious : Bool}

/-- No sum that a call at time `t` may compute wraps. -/
def InRange (limiter : GcraRateLimiter) (t : UInt64) : Prop :=
  t.toNat + limiter.toleranceNs.toNat + limiter.emissionIntervalNs.toNat < 2 ^ 64

theorem toNat_later (t u : UInt64) : (if t < u then u else t).toNat = max t.toNat u.toNat := by
  split_ifs with h
  · rw [max_eq_right (Nat.le_of_lt (UInt64.lt_iff_toNat_lt.mp h))]
  · rw [max_eq_left (UInt64.le_iff_toNat_le.mp (UInt64.not_lt.mp h))]

/-- **All that one pass can do.** An admission finds the word within the tolerance, and
moves it on by the emission interval from there or from its own time, whichever is
later. -/
theorem attempt_cases (currentTat : UInt64) (spurious : Bool) (ht : InRange limiter t) :
    attempt t currentTat spurious limiter = (.returned false, limiter) ∨
    attempt t currentTat spurious limiter = (.retry limiter.tatNs, limiter) ∨
    ∃ newTat, attempt t currentTat spurious limiter =
        (.returned true, { limiter with tatNs := newTat }) ∧
      limiter.tatNs.toNat ≤ t.toNat + limiter.toleranceNs.toNat ∧
      newTat.toNat = max t.toNat limiter.tatNs.toNat + limiter.emissionIntervalNs.toNat := by
  by_cases hlate : currentTat > t ∧ currentTat - t > limiter.toleranceNs
  · exact Or.inl (if_pos hlate)
  have hwithin : currentTat.toNat ≤ t.toNat + limiter.toleranceNs.toNat := by
    by_contra hgt
    have hlt : t < currentTat := UInt64.lt_iff_toNat_lt.mpr (by omega)
    apply hlate
    refine ⟨hlt, UInt64.lt_iff_toNat_lt.mpr ?_⟩
    rw [UInt64.toNat_sub_of_le _ _ (UInt64.le_of_lt hlt)]
    omega
  by_cases hsame : limiter.tatNs = currentTat ∧ spurious = false
  · refine Or.inr (Or.inr ⟨_, (if_neg hlate).trans (if_pos hsame), hsame.1 ▸ hwithin, ?_⟩)
    rw [hsame.1]
    unfold InRange at ht
    rw [UInt64.toNat_add, toNat_later, Nat.mod_eq_of_lt]
    omega
  · exact Or.inr (Or.inl ((if_neg hlate).trans (if_neg hsame)))

/-! ### One step of a run -/

/-- The time that a call in flight has sampled. -/
def Allow.time : Allow → Option UInt64
  | .idle => none
  | .sampled t => some t
  | .loaded t _ => some t

/-- What a step does to the word and to the calls that have returned. -/
inductive Effect (s s' : State ι) : Prop where
  | silent (hlimiter : s'.limiter = s.limiter) (hreturned : s'.returned = s.returned)
  | rejected (t : UInt64) (hlimiter : s'.limiter = s.limiter)
      (hreturned : s'.returned = s.returned ++ [(t, false)])
  | admitted (t newTat : UInt64) (hlimiter : s'.limiter = { s.limiter with tatNs := newTat })
      (hreturned : s'.returned = s.returned ++ [(t, true)])
      (hwithin : s.limiter.tatNs.toNat ≤ t.toNat + s.limiter.toleranceNs.toNat)
      (hnew : newTat.toNat =
        max t.toNat s.limiter.tatNs.toNat + s.limiter.emissionIntervalNs.toNat)

/-- Every call in flight has a time in range. -/
def InFlight (s : State ι) : Prop :=
  ∀ i t, (s.allow i).time = some t → InRange s.limiter t

variable {s : State ι} {action : Action ι}

theorem step_effect [DecidableEq ι] (hin : InFlight s) (action : Action ι) :
    Effect s (step s action) := by
  cases action with
  | sample i t =>
      simp only [step]
      cases s.allow i <;> exact .silent rfl rfl
  | load i =>
      simp only [step]
      cases s.allow i <;> exact .silent rfl rfl
  | exchange i spurious =>
      simp only [step]
      cases hpc : s.allow i with
      | idle => exact .silent rfl rfl
      | sampled t => exact .silent rfl rfl
      | loaded t currentTat =>
          have ht : InRange s.limiter t := hin i t (by rw [hpc]; rfl)
          rcases attempt_cases currentTat spurious ht with h | h | ⟨newTat, h, hwithin, hnew⟩
          · simp only [h]
            exact .rejected t rfl rfl
          · simp only [h]
            exact .silent rfl rfl
          · simp only [h]
            exact .admitted t newTat rfl rfl hwithin hnew

/-- The intervals never change. -/
theorem Effect.intervals {s' : State ι} (h : Effect s s') :
    s'.limiter.emissionIntervalNs = s.limiter.emissionIntervalNs ∧
      s'.limiter.toleranceNs = s.limiter.toleranceNs := by
  cases h with
  | silent hlimiter => rw [hlimiter]; exact ⟨rfl, rfl⟩
  | rejected _ hlimiter => rw [hlimiter]; exact ⟨rfl, rfl⟩
  | admitted _ _ hlimiter => rw [hlimiter]; exact ⟨rfl, rfl⟩

theorem Effect.inRange_iff {s' : State ι} (h : Effect s s') (t : UInt64) :
    InRange s'.limiter t ↔ InRange s.limiter t := by
  obtain ⟨hemission, htolerance⟩ := h.intervals
  unfold InRange
  rw [hemission, htolerance]

/-- The word never falls. -/
theorem Effect.tat_le {s' : State ι} (h : Effect s s') :
    s.limiter.tatNs ≤ s'.limiter.tatNs := by
  rw [UInt64.le_iff_toNat_le]
  cases h with
  | silent hlimiter => rw [hlimiter]
  | rejected _ hlimiter => rw [hlimiter]
  | admitted t newTat hlimiter _ _ hnew =>
      rw [hlimiter]
      show s.limiter.tatNs.toNat ≤ newTat.toNat
      omega

/-- A step moves one thread, which keeps the time of its call, ends it, or samples one. -/
theorem allow_step [DecidableEq ι] (s : State ι) (action : Action ι) :
    ∃ i pc, (step s action).allow = Function.update s.allow i pc ∧
      (pc.time = (s.allow i).time ∨ pc.time = none ∨
        ∃ t, pc.time = some t ∧ action = .sample i t) := by
  have hstay (i : ι) : ∃ i' pc, s.allow = Function.update s.allow i' pc ∧
      (pc.time = (s.allow i').time ∨ pc.time = none ∨
        ∃ t, pc.time = some t ∧ action = .sample i' t) :=
    ⟨i, s.allow i, (Function.update_eq_self i s.allow).symm, Or.inl rfl⟩
  cases action with
  | sample i t =>
      simp only [step]
      cases s.allow i with
      | idle => exact ⟨i, .sampled t, rfl, Or.inr (Or.inr ⟨t, rfl, rfl⟩)⟩
      | sampled _ => exact hstay i
      | loaded _ _ => exact hstay i
  | load i =>
      simp only [step]
      cases hpc : s.allow i with
      | idle => exact hstay i
      | sampled t => exact ⟨i, .loaded t s.limiter.tatNs, rfl, Or.inl (by rw [hpc]; rfl)⟩
      | loaded _ _ => exact hstay i
  | exchange i spurious =>
      simp only [step]
      cases hpc : s.allow i with
      | idle => exact hstay i
      | sampled _ => exact hstay i
      | loaded t currentTat =>
          dsimp only
          rcases attempt t currentTat spurious s.limiter with ⟨_ | newTat, limiter⟩
          · exact ⟨i, .idle, rfl, Or.inr (Or.inl rfl)⟩
          · exact ⟨i, .loaded t newTat, rfl, Or.inl (by rw [hpc]; rfl)⟩

/-- The time of a call in flight is the one it sampled, in this step or before. -/
theorem time_step [DecidableEq ι] {j : ι} {u : UInt64}
    (h : ((step s action).allow j).time = some u) :
    (s.allow j).time = some u ∨ action = .sample j u := by
  obtain ⟨i, pc, hallow, hpc⟩ := allow_step s action
  rw [hallow] at h
  by_cases hji : j = i
  · subst hji
    rw [Function.update_self] at h
    rcases hpc with hsame | hnone | ⟨t, ht, haction⟩
    · exact Or.inl (hsame ▸ h)
    · exact absurd (hnone.symm.trans h) (by simp)
    · obtain rfl := Option.some.inj (ht.symm.trans h)
      exact Or.inr haction
  · rw [Function.update_of_ne hji] at h
    exact Or.inl h

theorem InFlight.step [DecidableEq ι] (hin : InFlight s)
    (hclock : ∀ i t, action = .sample i t → InRange s.limiter t) :
    InFlight (step s action) := by
  intro j u hj
  rw [(step_effect hin action).inRange_iff]
  rcases time_step hj with hbefore | hnow
  · exact hin j u hbefore
  · exact hclock j u hnow

/-! ### Whole runs -/

variable {a b n : ℕ}

/-- Once `n + 1` calls of the window have been admitted the word has moved `n + 1`
intervals past the start of the window, and it was no later than the tolerance past
its end when the last of them came. -/
def WindowInv (a b : ℕ) (s : State ι) : Prop :=
  ∀ n, admittedIn a b s = n + 1 → a ≤ b ∧
    a + n * s.limiter.emissionIntervalNs.toNat ≤ b + s.limiter.toleranceNs.toNat ∧
    a + (n + 1) * s.limiter.emissionIntervalNs.toNat ≤ s.limiter.tatNs.toNat

theorem admittedIn_append {s' : State ι} {t : UInt64} {allowed : Bool}
    (h : s'.returned = s.returned ++ [(t, allowed)]) :
    admittedIn a b s' = admittedIn a b s +
      if allowed = true ∧ a ≤ t.toNat ∧ t.toNat ≤ b then 1 else 0 := by
  unfold admittedIn
  rw [h, List.countP_append, List.countP_singleton]
  congr 1
  simp [and_assoc]

theorem WindowInv.effect {s' : State ι} (W : WindowInv a b s) (h : Effect s s') :
    WindowInv a b s' := by
  obtain ⟨hemission, htolerance⟩ := h.intervals
  have hmono := UInt64.le_iff_toNat_le.mp h.tat_le
  intro n hn
  rw [hemission, htolerance]
  -- an event that is no admission of the window only moves the word forward
  have hkeep : admittedIn a b s' = admittedIn a b s → a ≤ b ∧
      a + n * s.limiter.emissionIntervalNs.toNat ≤ b + s.limiter.toleranceNs.toNat ∧
      a + (n + 1) * s.limiter.emissionIntervalNs.toNat ≤ s'.limiter.tatNs.toNat := by
    intro heq
    obtain ⟨hab, hend, hstart⟩ := W n (heq ▸ hn)
    exact ⟨hab, hend, Nat.le_trans hstart hmono⟩
  cases h with
  | silent _ hreturned => exact hkeep (by rw [admittedIn, hreturned]; rfl)
  | rejected t _ hreturned => exact hkeep (by rw [admittedIn_append hreturned]; simp)
  | admitted t newTat hlimiter hreturned hwithin hnew =>
      have hcount := admittedIn_append (a := a) (b := b) hreturned
      by_cases hin : a ≤ t.toNat ∧ t.toNat ≤ b
      · rw [if_pos ⟨rfl, hin⟩] at hcount
        have htat : s'.limiter.tatNs.toNat =
            max t.toNat s.limiter.tatNs.toNat + s.limiter.emissionIntervalNs.toNat := by
          rw [hlimiter]
          exact hnew
        rw [htat]
        cases n with
        | zero => omega
        | succ n =>
            obtain ⟨hab, hend, hstart⟩ := W n (by omega)
            rw [Nat.add_mul (n + 1) 1, Nat.one_mul]
            omega
      · rw [if_neg (fun h => hin h.2)] at hcount
        exact hkeep hcount

/-- The bound on the admissions of a window that the invariant gives. -/
theorem WindowInv.admittedIn_le (W : WindowInv a b s)
    (hT : 1 ≤ s.limiter.emissionIntervalNs.toNat) :
    admittedIn a b s ≤
      1 + (b - a + s.limiter.toleranceNs.toNat) / s.limiter.emissionIntervalNs.toNat := by
  cases hn : admittedIn a b s with
  | zero => exact Nat.zero_le _
  | succ n =>
      obtain ⟨hab, hend, -⟩ := W n hn
      have hdiv : n ≤ (b - a + s.limiter.toleranceNs.toNat) /
          s.limiter.emissionIntervalNs.toNat := by
        rw [Nat.le_div_iff_mul_le hT]
        omega
      omega

/-- What every run from a limiter with idle threads keeps. -/
structure RunInv (limiter : GcraRateLimiter) (s : State ι) : Prop where
  inFlight : InFlight s
  emission_eq : s.limiter.emissionIntervalNs = limiter.emissionIntervalNs
  tolerance_eq : s.limiter.toleranceNs = limiter.toleranceNs
  tat_le : limiter.tatNs ≤ s.limiter.tatNs
  window : ∀ a b, WindowInv a b s

theorem RunInv.step [DecidableEq ι] (R : RunInv limiter s)
    (hclock : ∀ i t, action = .sample i t → InRange limiter t) :
    RunInv limiter (step s action) := by
  have heffect := step_effect R.inFlight action
  obtain ⟨hemission, htolerance⟩ := heffect.intervals
  refine ⟨R.inFlight.step fun i t hsample => ?_, hemission.trans R.emission_eq,
    htolerance.trans R.tolerance_eq, UInt64.le_trans R.tat_le heffect.tat_le,
    fun a b => (R.window a b).effect heffect⟩
  unfold InRange
  rw [R.emission_eq, R.tolerance_eq]
  exact hclock i t hsample

theorem RunInv.foldl [DecidableEq ι] (actions : List (Action ι)) :
    ∀ {s : State ι}, RunInv limiter s →
      (∀ i t, Action.sample i t ∈ actions → InRange limiter t) →
      RunInv limiter (actions.foldl GcraRateLimiter.step s) := by
  induction actions with
  | nil => exact fun R _ => R
  | cons action actions ih =>
      intro s R hclock
      apply ih (R.step fun i t h => hclock i t (h ▸ List.mem_cons_self))
      exact fun i t h => hclock i t (List.mem_cons_of_mem _ h)

theorem runInv_initial (limiter : GcraRateLimiter) :
    RunInv limiter (initial limiter : State ι) where
  inFlight := by simp [InFlight, initial, Allow.time]
  emission_eq := rfl
  tolerance_eq := rfl
  tat_le := UInt64.le_refl _
  window := by simp [WindowInv, admittedIn, initial]

theorem run_append [DecidableEq ι] (limiter : GcraRateLimiter) (before after : List (Action ι)) :
    run limiter (before ++ after) = after.foldl step (run limiter before) :=
  List.foldl_append

/-- **Admissions are bounded in every window.** For any number of threads and any
interleaving of their steps, with any spurious failures, as long as no sum wraps:
at most `1 + (b - a + tolerance) / interval` calls with a time between `a` and `b`
are admitted. The word never falls. -/
theorem allow_window_bound [DecidableEq ι] (limiter : GcraRateLimiter)
    (hT : 1 ≤ limiter.emissionIntervalNs) (actions : List (Action ι))
    (hclock : ∀ i t, Action.sample i t ∈ actions →
      t.toNat + limiter.toleranceNs.toNat + limiter.emissionIntervalNs.toNat < 2 ^ 64) :
    (∀ a b, admittedIn a b (run limiter actions) ≤
      1 + (b - a + limiter.toleranceNs.toNat) / limiter.emissionIntervalNs.toNat) ∧
    ∀ before after, actions = before ++ after →
      (run limiter before).limiter.tatNs ≤ (run limiter actions).limiter.tatNs := by
  constructor
  · intro a b
    have R : RunInv limiter (run limiter actions) :=
      RunInv.foldl actions (runInv_initial limiter) hclock
    have hbound := (R.window a b).admittedIn_le (by
      rw [R.emission_eq]
      exact UInt64.le_iff_toNat_le.mp hT)
    rwa [R.emission_eq, R.tolerance_eq] at hbound
  · rintro before after rfl
    have R : RunInv limiter (run limiter before) :=
      RunInv.foldl before (runInv_initial limiter)
        fun i t h => hclock i t (List.mem_append_left _ h)
    -- the rest of the run, counted from where the first part ends
    have hrest : RunInv (run limiter before).limiter (run limiter before) :=
      ⟨R.inFlight, rfl, rfl, UInt64.le_refl _, R.window⟩
    rw [run_append]
    apply (RunInv.foldl after hrest _).tat_le
    intro i t h
    unfold InRange
    rw [R.emission_eq, R.tolerance_eq]
    exact hclock i t (List.mem_append_right _ h)

/-- Two threads, one of which retries after the other's exchange: both are admitted
within a tolerance of one interval. -/
theorem allow_window_bound_two :
    (∀ a b, admittedIn a b (run ⟨10, 10, 0⟩ [.sample 0 (5 : UInt64), .sample 1 6, .load 0, .load 1,
      .exchange 1 false, .exchange 0 false, .exchange (0 : ℕ) false]) ≤ 1 + (b - a + 10) / 10) ∧
    ∀ before after, [.sample 0 (5 : UInt64), .sample 1 6, .load 0, .load 1,
        .exchange 1 false, .exchange 0 false, .exchange (0 : ℕ) false] = before ++ after →
      (run ⟨10, 10, 0⟩ before).limiter.tatNs ≤
        (run ⟨10, 10, 0⟩ [.sample 0 (5 : UInt64), .sample 1 6, .load 0, .load 1,
          .exchange 1 false, .exchange 0 false, .exchange (0 : ℕ) false]).limiter.tatNs :=
  allow_window_bound ⟨10, 10, 0⟩ (by decide) _ (by
    intro i t h
    simp only [List.mem_cons, Action.sample.injEq, reduceCtorEq, List.not_mem_nil, or_false] at h
    rcases h with ⟨-, rfl⟩ | ⟨-, rfl⟩ <;> decide)

end GcraRateLimiter

end Netsim.Network
