import Netsim.Foundation.Amortization
import Netsim.Foundation.Linearizability
import Netsim.Network.GcraLeakyBucket

/-!
# Concurrent calls of the rate limiter

`allow` is linearizable: whatever the interleaving of the threads and the spurious
failures, the answers are those of calls that are served one at a time, each at an
instant between the reading of its clock and its return (`allow_linearizable`). A call
that is admitted takes effect at its exchange. One that is refused took effect when it
loaded the word that was too far ahead, perhaps long before it returns; the word may
since have moved on. `effects` says so of every step.

The loop is lock-free: a thread passes through it once for each return, once for each
spurious failure, and otherwise only because a call of another thread has been admitted
(`passes_le`).
-/

namespace Netsim.Network

namespace GcraRateLimiter

open Foundation

variable {ι : Type*} [DecidableEq ι]

/-- What a step shows of the calls: the reading of the clock, and the return. -/
def events (s : State ι) : Action ι → List (Mark ι UInt64 Bool)
  | .sample i t =>
      match s.allow i with
      | .idle => [.invoke i t]
      | _ => []
  | .load _ => []
  | .exchange i spurious =>
      match s.allow i with
      | .loaded t currentTat =>
          match (attempt t currentTat spurious s.limiter).1 with
          | .returned allowed => [.respond i allowed]
          | .retry _ => []
      | _ => []

/-- The loaded word is ahead of the call's time by more than the tolerance. -/
def TooEarly (limiter : GcraRateLimiter) (t currentTat : UInt64) : Prop :=
  currentTat > t ∧ currentTat - t > limiter.toleranceNs

instance (limiter : GcraRateLimiter) (t currentTat : UInt64) :
    Decidable (TooEarly limiter t currentTat) := inferInstanceAs (Decidable (_ ∧ _))

/-- A load commits the call when the loaded word refuses it. -/
def loadEffects (i : ι) (limiter : GcraRateLimiter) (t : UInt64) :
    List (Mark ι UInt64 Bool) :=
  if TooEarly limiter t limiter.tatNs then [.commit i] else []

/-- What a step does for the calls. An exchange that succeeds is the commit of its call; one
that fails loads the word again. -/
def effects (s : State ι) : Action ι → List (Mark ι UInt64 Bool)
  | .sample i t =>
      match s.allow i with
      | .idle => [.invoke i t]
      | _ => []
  | .load i =>
      match s.allow i with
      | .sampled t => loadEffects i s.limiter t
      | _ => []
  | .exchange i spurious =>
      match s.allow i with
      | .loaded t currentTat =>
          match (attempt t currentTat spurious s.limiter).1 with
          | .returned true => [.commit i, .respond i true]
          | .returned false => [.respond i false]
          | .retry _ => loadEffects i s.limiter t
      | _ => []

/-- A call is decided by the load of a word that refuses it. -/
def Allow.phase (limiter : GcraRateLimiter) : Allow → Phase UInt64 Bool
  | .idle => .idle
  | .sampled t => .pending t
  | .loaded t currentTat => if TooEarly limiter t currentTat then .decided false else .pending t

theorem serve_tooEarly {limiter : GcraRateLimiter} {t : UInt64}
    (h : TooEarly limiter t limiter.tatNs) : serve limiter t = (false, limiter) := if_pos h

theorem serve_not_tooEarly {limiter : GcraRateLimiter} {t : UInt64}
    (h : ¬ TooEarly limiter t limiter.tatNs) : (serve limiter t).1 = true :=
  congrArg Prod.fst (if_neg h)

theorem serve_toleranceNs (limiter : GcraRateLimiter) (t : UInt64) :
    (serve limiter t).2.toleranceNs = limiter.toleranceNs := by
  unfold serve
  split_ifs <;> rfl

/-- The atomic limiter that a state stands for. -/
def atomicOf (s : State ι) : Atomic ι UInt64 Bool GcraRateLimiter :=
  ⟨fun i => (s.allow i).phase s.limiter, s.limiter⟩

variable {i : ι} {t : UInt64}

/-- A step moves one thread and perhaps the word. -/
theorem atomicOf_update (s : State ι) (i : ι) (pc : Allow) (returned : List (UInt64 × Bool))
    {limiter : GcraRateLimiter} (htolerance : limiter.toleranceNs = s.limiter.toleranceNs) :
    atomicOf ⟨limiter, Function.update s.allow i pc, returned⟩ =
      ⟨Function.update (atomicOf s).phase i (pc.phase s.limiter), limiter⟩ := by
  have hphase : ∀ pc : Allow, pc.phase limiter = pc.phase s.limiter := by
    intro pc
    cases pc with
    | loaded t currentTat =>
        exact if_congr (by unfold TooEarly; rw [htolerance]) rfl rfl
    | _ => rfl
  unfold atomicOf
  congr 1
  funext j
  dsimp only
  rw [hphase, Function.update_apply, Function.update_apply]
  split_ifs <;> rfl

/-- A load decides the call if the word refuses it, and leaves it pending otherwise. -/
theorem accepts_load {A : Atomic ι UInt64 Bool GcraRateLimiter}
    (hpending : A.phase i = .pending t) :
    Atomic.Accepts serve A (loadEffects i A.object t)
      ⟨Function.update A.phase i ((Allow.loaded t A.object.tatNs).phase A.object), A.object⟩ := by
  unfold loadEffects
  by_cases hearly : TooEarly A.object t A.object.tatNs
  · rw [Allow.phase, if_pos hearly, if_pos hearly]
    exact .commit hpending (serve_tooEarly hearly)
  · rw [Allow.phase, if_neg hearly, if_neg hearly]
    exact .stay hpending

/-- **One step** of the threads is its marks of the atomic limiter. -/
theorem step_accepts (s : State ι) (action : Action ι) :
    Atomic.Accepts serve (atomicOf s) (effects s action) (atomicOf (step s action)) := by
  cases action with
  | sample i t =>
      simp only [effects, step]
      cases hpc : s.allow i with
      | idle =>
          have hidle : (atomicOf s).phase i = .idle := by simp only [atomicOf, hpc, Allow.phase]
          rw [atomicOf_update s i _ _ rfl]
          exact .single (.invoke t hidle)
      | _ => exact .nil _
  | load i =>
      simp only [effects, step]
      cases hpc : s.allow i with
      | sampled t =>
          have hpending : (atomicOf s).phase i = .pending t := by
            simp only [atomicOf, hpc, Allow.phase]
          dsimp only
          rw [atomicOf_update s i _ _ rfl]
          exact accepts_load hpending
      | _ => exact .nil _
  | exchange i spurious =>
      simp only [effects, step]
      cases hpc : s.allow i with
      | loaded t currentTat =>
          dsimp only
          by_cases hearly : TooEarly s.limiter t currentTat
          · -- decided when the word was loaded
            have hdecided : (atomicOf s).phase i = .decided false := by
              simp only [atomicOf, hpc, Allow.phase, if_pos hearly]
            have hattempt : attempt t currentTat spurious s.limiter =
                (.returned false, s.limiter) := if_pos hearly
            rw [hattempt]
            dsimp only
            rw [atomicOf_update s i _ _ rfl]
            exact .single (.respond hdecided)
          · have hpending : (atomicOf s).phase i = .pending t := by
              simp only [atomicOf, hpc, Allow.phase, if_neg hearly]
            by_cases hsame : s.limiter.tatNs = currentTat ∧ spurious = false
            · -- the exchange is the commit
              obtain ⟨rfl, rfl⟩ := hsame
              have hserve : serve s.limiter t = (true, (serve s.limiter t).2) :=
                Prod.ext (serve_not_tooEarly hearly) rfl
              rw [attempt_loaded, serve_not_tooEarly hearly]
              dsimp only
              rw [atomicOf_update s i _ _ (serve_toleranceNs s.limiter t)]
              exact .commit_respond hpending hserve
            · have hattempt : attempt t currentTat spurious s.limiter =
                  (.retry s.limiter.tatNs, s.limiter) := (if_neg hearly).trans (if_neg hsame)
              rw [hattempt]
              dsimp only
              rw [atomicOf_update s i _ _ rfl]
              exact accepts_load hpending
      | _ => exact .nil _

omit [DecidableEq ι] in
theorem filter_loadEffects (i : ι) (limiter : GcraRateLimiter) (t : UInt64) :
    (loadEffects i limiter t).filter Mark.visible = [] := by
  unfold loadEffects
  split_ifs <;> rfl

omit [DecidableEq ι] in
theorem filter_effects (s : State ι) (action : Action ι) :
    (effects s action).filter Mark.visible = events s action := by
  cases action with
  | sample i t =>
      simp only [effects, events]
      cases s.allow i <;> rfl
  | load i =>
      simp only [effects, events]
      cases s.allow i with
      | sampled t => exact filter_loadEffects i s.limiter t
      | _ => rfl
  | exchange i spurious =>
      simp only [effects, events]
      cases s.allow i with
      | loaded t currentTat =>
          dsimp only
          rcases (attempt t currentTat spurious s.limiter).1 with ⟨_ | _⟩ | _
          · rfl
          · rfl
          · exact filter_loadEffects i s.limiter t
      | _ => rfl

/-- **`allow` is linearizable**, for any number of threads, any interleaving of their
steps, any readings of the clock and any spurious failures. An atomic limiter goes through
the marks of the run, in which an admitted call takes effect at its exchange and a refused
one at the load of the word that refuses it, and holds the same word at the end. No sum has
to stay in range. -/
theorem allow_linearizable (limiter : GcraRateLimiter) (actions : List (Action ι)) :
    (∃ A, Atomic.Accepts serve (Atomic.initial limiter)
        (history step effects (initial limiter) actions) A ∧
      A.object = (actions.foldl step (initial limiter)).limiter) ∧
    (history step effects (initial limiter) actions).filter Mark.visible =
      history step events (initial limiter) actions ∧
    Linearizable serve limiter (history step events (initial limiter) actions) := by
  have hstep (s : State ι) (action : Action ι) (A : Atomic ι UInt64 Bool GcraRateLimiter)
      (hA : A = atomicOf s) : ∃ A', Atomic.Accepts serve A (effects s action) A' ∧
        A' = atomicOf (step s action) := by
    subst hA
    exact ⟨_, step_accepts s action, rfl⟩
  have hinit : Atomic.initial limiter = atomicOf (initial limiter : State ι) := rfl
  obtain ⟨A, haccepts, rfl⟩ := accepts_history hstep actions hinit
  have hvisible : (history step effects (initial limiter) actions).filter Mark.visible =
      history step events (initial limiter) actions := filter_history filter_effects _ actions
  refine ⟨⟨_, haccepts, rfl⟩, hvisible, ?_⟩
  rw [← hvisible]
  exact linearizable_of_accepts haccepts

/-- Thread 1 is admitted first, so the exchange of thread 0 fails, and loads the word that
refuses it. -/
example : history step effects (initial ⟨10, 0, 0⟩) [.sample 0 5, .sample 1 5, .load 0, .load 1,
      .exchange 1 false, .exchange 0 false, .exchange 0 false] =
    [.invoke 0 5, .invoke 1 5, .commit 1, .respond 1 true, .commit 0, .respond 0 false] := rfl

/-! ### Passes of the loop -/

def Allow.isLoaded : Allow → Bool
  | .loaded _ _ => true
  | _ => false

/-- Passes of the loop by thread `i`. -/
def passes (i : ι) (s : State ι) : Action ι → ℕ
  | .exchange j _ => if j = i ∧ (s.allow j).isLoaded = true then 1 else 0
  | _ => 0

/-- The exchange fails although the word is the one that was loaded. -/
def spuriousFailures (i : ι) (s : State ι) : Action ι → ℕ
  | .exchange j true =>
      match s.allow j with
      | .loaded t currentTat =>
          if j = i ∧ ¬ TooEarly s.limiter t currentTat ∧ s.limiter.tatNs = currentTat then 1 else 0
      | _ => 0
  | _ => 0

def returns (i : ι) (s : State ι) (action : Action ι) : ℕ :=
  ((events s action).filterMap Mark.response).countP fun r => r.1 = i

def admissionsOfOthers (i : ι) (s : State ι) (action : Action ι) : ℕ :=
  ((events s action).filterMap Mark.response).countP fun r => r.1 ≠ i ∧ r.2 = true

/-- The thread has loaded a word that is no longer there. -/
def stale (i : ι) (s : State ι) : ℕ :=
  match s.allow i with
  | .loaded _ currentTat => if s.limiter.tatNs = currentTat then 0 else 1
  | _ => 0

omit [DecidableEq ι] in
theorem stale_le_one (s : State ι) : stale i s ≤ 1 := by
  unfold stale
  split
  · split_ifs <;> omega
  · omega

/-- What another thread does leaves a thread's word as stale as it was, unless it moves
the word. -/
theorem stale_other {j : ι} (hij : i ≠ j) (s : State ι) (limiter : GcraRateLimiter) (pc : Allow)
    (returned : List (UInt64 × Bool)) (htat : limiter.tatNs = s.limiter.tatNs) :
    stale i ⟨limiter, Function.update s.allow j pc, returned⟩ = stale i s := by
  unfold stale
  dsimp only
  rw [Function.update_of_ne hij, htat]

theorem stale_self (limiter : GcraRateLimiter) (allow : ι → Allow) (returned : List (UInt64 × Bool))
    {pc : Allow} (hpc : ∀ t currentTat, pc = .loaded t currentTat → limiter.tatNs = currentTat) :
    stale i ⟨limiter, Function.update allow i pc, returned⟩ = 0 := by
  unfold stale
  dsimp only
  rw [Function.update_self]
  cases pc with
  | loaded t currentTat => exact if_pos (hpc t currentTat rfl)
  | _ => rfl

/-- The clock and the load cost nothing, and leave the thread with the present word. -/
theorem stale_step_le (i : ι) (s : State ι) (action : Action ι)
    (haction : ∀ j spurious, action ≠ .exchange j spurious) :
    stale i (step s action) ≤ stale i s := by
  cases action with
  | sample j t =>
      simp only [step]
      cases s.allow j with
      | idle =>
          rcases eq_or_ne i j with rfl | hij
          · exact Nat.le_trans (Nat.le_of_eq (stale_self _ _ _ (by simp))) (Nat.zero_le _)
          · exact Nat.le_of_eq (stale_other hij s _ _ _ rfl)
      | _ => exact Nat.le_refl _
  | load j =>
      simp only [step]
      cases s.allow j with
      | sampled t =>
          rcases eq_or_ne i j with rfl | hij
          · exact Nat.le_trans (Nat.le_of_eq (stale_self _ _ _ (by simp))) (Nat.zero_le _)
          · exact Nat.le_of_eq (stale_other hij s _ _ _ rfl)
      | _ => exact Nat.le_refl _
  | exchange j spurious => exact absurd rfl (haction j spurious)

/-- What a pass can come to, whether or not the sums wrap. -/
theorem attempt_outcome (t currentTat : UInt64) (spurious : Bool) (limiter : GcraRateLimiter) :
    (attempt t currentTat spurious limiter = (.returned false, limiter)) ∨
    (∃ newTat, attempt t currentTat spurious limiter =
      (.returned true, { limiter with tatNs := newTat })) ∨
    (¬ TooEarly limiter t currentTat ∧ ¬ (limiter.tatNs = currentTat ∧ spurious = false) ∧
      attempt t currentTat spurious limiter = (.retry limiter.tatNs, limiter)) := by
  by_cases hearly : TooEarly limiter t currentTat
  · exact Or.inl (if_pos hearly)
  · by_cases hsame : limiter.tatNs = currentTat ∧ spurious = false
    · exact Or.inr (Or.inl ⟨_, (if_neg hearly).trans (if_pos hsame)⟩)
    · exact Or.inr (Or.inr ⟨hearly, hsame, (if_neg hearly).trans (if_neg hsame)⟩)

/-- A pass is paid for by its return, by its spurious failure, or by the exchange of
another thread that made the word stale. -/
theorem passes_step (i : ι) (s : State ι) (action : Action ι) :
    passes i s action + stale i (step s action) ≤
      returns i s action + spuriousFailures i s action + admissionsOfOthers i s action +
        stale i s := by
  cases action with
  | sample j t =>
      have hstale := stale_step_le i s (.sample j t) (by simp)
      simp only [passes]
      omega
  | load j =>
      have hstale := stale_step_le i s (.load j) (by simp)
      simp only [passes]
      omega
  | exchange j spurious =>
      cases hpc : s.allow j with
      | loaded t currentTat =>
          simp only [passes, returns, admissionsOfOthers, events, step, hpc, Allow.isLoaded,
            and_true]
          rcases attempt_outcome t currentTat spurious s.limiter with
            h | ⟨newTat, h⟩ | ⟨hlate, hmoved, h⟩
          · -- refused
            rw [h]
            dsimp only
            rcases eq_or_ne i j with rfl | hij
            · rw [stale_self _ _ _ (by simp)]
              simp [Mark.response]
              omega
            · rw [stale_other hij s _ _ _ rfl, if_neg hij.symm]
              omega
          · -- admitted: the word of the other threads may be stale now
            rw [h]
            dsimp only
            rcases eq_or_ne i j with rfl | hij
            · rw [stale_self _ _ _ (by simp)]
              simp [Mark.response]
              omega
            · rw [if_neg hij.symm, Nat.zero_add]
              refine (stale_le_one _).trans ?_
              simp [Mark.response, hij.symm]
              omega
          · -- the present word is loaded
            rw [h]
            dsimp only
            rcases eq_or_ne i j with rfl | hij
            · rw [stale_self _ _ _ (by simp)]
              by_cases hword : s.limiter.tatNs = currentTat
              · have hspurious : spurious = true := by
                  simpa using fun h => hmoved ⟨hword, h⟩
                simp [spuriousFailures, hspurious, hpc, hlate, hword]
              · simp [stale, hpc, hword]
            · rw [stale_other hij s _ _ _ rfl, if_neg hij.symm]
              omega
      | idle =>
          simp only [passes, step, hpc, Allow.isLoaded]
          simp
      | sampled _ =>
          simp only [passes, step, hpc, Allow.isLoaded]
          simp

/-- **`allow` is lock-free.** In every run a thread passes through the loop at most once
for each of its returns, each of its spurious failures and each call of another thread
that is admitted. -/
theorem passes_le (limiter : GcraRateLimiter) (actions : List (Action ι)) (i : ι) :
    total step (passes i) (initial limiter) actions ≤
      total step (returns i) (initial limiter) actions +
        total step (spuriousFailures i) (initial limiter) actions +
        total step (admissionsOfOthers i) (initial limiter) actions := by
  have hpaid := total_le_of_potential (stale i) (passes_step i) (initial limiter) actions
  have hfresh : stale i (initial limiter : State ι) = 0 := rfl
  rw [total_add, total_add, hfresh] at hpaid
  omega

end GcraRateLimiter

end Netsim.Network
