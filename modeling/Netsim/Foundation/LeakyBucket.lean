import Mathlib.Algebra.Order.Group.MinMax
import Mathlib.Tactic.Abel

/-!
# Two forms of one rate control

Virtual scheduling keeps one instant, the theoretical arrival time. The
continuous-state leaky bucket keeps a level, which falls at unit rate, and the
instant of the last arrival it let pass. At every instant from the present one on
the theoretical arrival time lies ahead by the level that is left, so the two
decide alike, on any ordered commutative group of instants.
-/

namespace Foundation

variable {σ τ α : Type*}

/-- The answers of a machine to a list of inputs. -/
def decisions (step : σ → α → Bool × σ) : σ → List α → List Bool
  | _, [] => []
  | s, a :: as => (step s a).1 :: decisions step (step s a).2 as

theorem length_decisions (step : σ → α → Bool × σ) (s : σ) (as : List α) :
    (decisions step s as).length = as.length := by
  induction as generalizing s with
  | nil => rfl
  | cons a as ih => exact congrArg Nat.succ (ih _)

/-- Machines that answer alike and stay related give the same answers. The relation
may depend on the inputs that are left. -/
theorem decisions_eq_of_simulation {step : σ → α → Bool × σ} {step' : τ → α → Bool × τ}
    {R : List α → σ → τ → Prop}
    (hstep : ∀ a as s s', R (a :: as) s s' →
      (step s a).1 = (step' s' a).1 ∧ R as (step s a).2 (step' s' a).2) :
    ∀ (as : List α) {s : σ} {s' : τ}, R as s s' → decisions step s as = decisions step' s' as := by
  intro as
  induction as with
  | nil => exact fun _ => rfl
  | cons a as ih =>
      intro s s' h
      obtain ⟨hanswer, hnext⟩ := hstep a as s s' h
      unfold decisions
      rw [hanswer, ih hnext]

variable {G : Type*} [AddCommGroup G] [LinearOrder G]

/-- Virtual scheduling: an arrival is refused when it is early by more than `tau`. -/
def schedule (T tau tat t : G) : Bool × G :=
  if tau < tat - t then (false, tat) else (true, max t tat + T)

/-- The continuous-state leaky bucket. -/
structure LeakyBucket (G : Type*) where
  level : G
  lastAccepted : G

namespace LeakyBucket

/-- The level just before an arrival at `t`. -/
def levelAt (b : LeakyBucket G) (t : G) : G := max 0 (b.level - (t - b.lastAccepted))

def arrive (T tau : G) (b : LeakyBucket G) (t : G) : Bool × LeakyBucket G :=
  if tau < b.levelAt t then (false, b) else (true, ⟨b.levelAt t + T, t⟩)

/-- From the instant `now` on, `tat` and the bucket say the same. -/
def Agrees (now tat : G) (b : LeakyBucket G) : Prop :=
  max now tat = max now (b.lastAccepted + b.level)

variable {T tau tat t now : G} {b : LeakyBucket G}

theorem Agrees.mono (h : Agrees now tat b) (ht : now ≤ t) : Agrees t tat b := by
  unfold Agrees at h ⊢
  rw [← max_eq_left ht, max_assoc, max_assoc, h]

variable [IsOrderedAddMonoid G]

/-- The level is the distance to the theoretical arrival time. -/
theorem Agrees.levelAt (h : Agrees t tat b) : b.levelAt t = max 0 (tat - t) := by
  have hlevel : b.level - (t - b.lastAccepted) = b.lastAccepted + b.level - t := by abel
  unfold LeakyBucket.levelAt
  unfold Agrees at h
  rw [hlevel, ← sub_self t, max_sub_sub_right, max_sub_sub_right, h]

/-- **One arrival** is answered alike, and leaves the two in agreement. -/
theorem Agrees.arrive (htau : 0 ≤ tau) (h : Agrees t tat b) :
    (schedule T tau tat t).1 = (b.arrive T tau t).1 ∧
      Agrees t (schedule T tau tat t).2 (b.arrive T tau t).2 := by
  have hiff : tau < b.levelAt t ↔ tau < tat - t := by
    rw [h.levelAt, lt_max_iff, or_iff_right (not_lt.mpr htau)]
  unfold schedule LeakyBucket.arrive
  by_cases hlate : tau < tat - t
  · rw [if_pos hlate, if_pos (hiff.mpr hlate)]
    exact ⟨rfl, h⟩
  · rw [if_neg hlate, if_neg (mt hiff.mp hlate)]
    refine ⟨rfl, ?_⟩
    -- the new level is measured from `t`
    have hnew : max t tat = t + b.levelAt t := by
      rw [h.levelAt, ← max_add_add_left, add_zero, add_sub_cancel]
    unfold Agrees
    dsimp only
    rw [hnew, add_assoc]

/-- **Virtual scheduling is the leaky bucket.** -/
theorem decisions_schedule_eq (htau : 0 ≤ tau) (h : Agrees now tat b) {ts : List G}
    (hts : (now :: ts).Pairwise (· ≤ ·)) :
    decisions (schedule T tau) tat ts = decisions (LeakyBucket.arrive T tau) b ts := by
  refine decisions_eq_of_simulation
    (R := fun ts tat b => ∃ now, (now :: ts).Pairwise (· ≤ ·) ∧ Agrees now tat b)
    (fun t ts tat b => ?_) ts ⟨now, hts, h⟩
  rintro ⟨now, hts, h⟩
  have hnow : now ≤ t := (List.pairwise_cons.mp hts).1 t List.mem_cons_self
  obtain ⟨hanswer, hagrees⟩ := Agrees.arrive (T := T) htau (h.mono hnow)
  exact ⟨hanswer, t, hts.of_cons, hagrees⟩

end LeakyBucket

variable [IsOrderedAddMonoid G]

/-- **A burst.** Of arrivals at one instant, when `k` intervals are booked beyond it, those
are let pass that find at most `b` intervals booked. -/
theorem decisions_schedule_replicate {T t : G} (hT : 0 < T) {b : ℕ} (n : ℕ) :
    ∀ {tat : G} {k room : ℕ}, max t tat = t + k • T → k + room = b + 1 →
      decisions (schedule T (b • T)) tat (List.replicate n t) =
        List.replicate (min n room) true ++ List.replicate (n - room) false := by
  induction n with
  | zero => simp [decisions]
  | succ n ih =>
      intro tat k room hbooked hroom
      rw [List.replicate_succ, decisions, schedule]
      cases room with
      | zero =>
          obtain rfl : k = b + 1 := hroom
          have hahead : t < t + (b + 1) • T := lt_add_of_pos_right t (nsmul_pos hT (by omega))
          have htat : tat = t + (b + 1) • T := by
            rcases max_choice t tat with h | h
            · exact absurd (h.symm.trans hbooked) hahead.ne
            · exact h.symm.trans hbooked
          have hrefuse : b • T < tat - t := by
            rw [htat, add_sub_cancel_left]
            exact nsmul_lt_nsmul_left hT (Nat.lt_succ_self b)
          rw [if_pos hrefuse, ih hbooked (Nat.add_zero (b + 1))]
          simp [List.replicate_succ]
      | succ room =>
          have hpass : ¬ b • T < tat - t := by
            have hle : tat ≤ t + k • T := hbooked ▸ le_max_right t tat
            have hmono : k • T ≤ b • T := nsmul_le_nsmul_left hT.le (by omega)
            rw [not_lt, sub_le_iff_le_add']
            exact hle.trans (add_le_add_right hmono t)
          have hnext : max t (t + k • T + T) = t + (k + 1) • T := by
            rw [succ_nsmul, ← add_assoc, add_assoc]
            exact max_eq_right (le_add_of_nonneg_right
              (add_nonneg (nsmul_nonneg hT.le k) hT.le))
          rw [if_neg hpass, hbooked, ih hnext (show k + 1 + room = b + 1 by omega),
            Nat.succ_min_succ, Nat.add_sub_add_right, List.replicate_succ]
          rfl

end Foundation
