import Mathlib.Tactic.LinearCombination
import Mathlib.Tactic.Ring

/-!
# Holt's linear method

Double exponential smoothing over a field: a state is a level and a trend, and a reading
moves both. The readings of a line keep a state that is on the line. What the method
makes of a state off the line is linear in the two deviations, and unless the level is
smoothed away (`alpha = 1`) the deviations determine those before them, so that a start
off the line is never made good.
-/

namespace Foundation

variable {K : Type*} [Field K] {a c alpha beta : K} {n : ℕ} {s : K × K}

/-- One reading `y`, with the smoothing factors of level and trend. -/
def holt (alpha beta y : K) (s : K × K) : K × K :=
  let level := alpha * y + (1 - alpha) * (s.1 + s.2)
  (level, beta * (level - s.1) + (1 - beta) * s.2)

/-- The point of the line `a + c * n`. -/
def linePoint (a c : K) (n : ℕ) : K := a + c * n

/-- Level and trend are those of the line at `n`. -/
def OnLine (a c : K) (n : ℕ) (s : K × K) : Prop := s = (linePoint a c n, c)

theorem linePoint_succ (a c : K) (n : ℕ) : linePoint a c (n + 1) = linePoint a c n + c := by
  unfold linePoint
  push_cast
  ring

theorem onLine_iff : OnLine a c n s ↔ s.1 - linePoint a c n = 0 ∧ s.2 - c = 0 := by
  rw [sub_eq_zero, sub_eq_zero]
  exact Prod.ext_iff

/-- The deviations after a reading of the line, from those before. -/
theorem holt_sub (a c alpha beta : K) (n : ℕ) (s : K × K) :
    (holt alpha beta (linePoint a c (n + 1)) s).1 - linePoint a c (n + 1) =
        (1 - alpha) * ((s.1 - linePoint a c n) + (s.2 - c)) ∧
      (holt alpha beta (linePoint a c (n + 1)) s).2 - c =
        (1 - beta) * (s.2 - c) +
          beta * ((1 - alpha) * (s.2 - c) - alpha * (s.1 - linePoint a c n)) := by
  rw [linePoint_succ]
  unfold holt
  constructor
  · ring
  · ring

/-- A line is followed. -/
theorem OnLine.holt (h : OnLine a c n s) :
    OnLine a c (n + 1) (Foundation.holt alpha beta (linePoint a c (n + 1)) s) := by
  obtain ⟨hlevel, htrend⟩ := onLine_iff.mp h
  obtain ⟨hlevel', htrend'⟩ := holt_sub a c alpha beta n s
  rw [onLine_iff, hlevel', htrend', hlevel, htrend]
  constructor
  · ring
  · ring

/-- **A line is not found.** Unless the level is smoothed away, a state is on the line
only after one that was. -/
theorem onLine_of_holt (halpha : alpha ≠ 1)
    (h : OnLine a c (n + 1) (holt alpha beta (linePoint a c (n + 1)) s)) : OnLine a c n s := by
  obtain ⟨hlevel, htrend⟩ := onLine_iff.mp h
  obtain ⟨hlevel', htrend'⟩ := holt_sub a c alpha beta n s
  rw [hlevel'] at hlevel
  rw [htrend'] at htrend
  have hsum : (s.1 - linePoint a c n) + (s.2 - c) = 0 :=
    (mul_eq_zero.mp hlevel).resolve_left (sub_ne_zero.mpr (Ne.symm halpha))
  have hfirst : s.1 - linePoint a c n = 0 := by
    linear_combination (1 - alpha * beta) * hsum - htrend
  refine onLine_iff.mpr ⟨hfirst, ?_⟩
  rw [hfirst, zero_add] at hsum
  exact hsum

theorem holt_onLine_iff (halpha : alpha ≠ 1) :
    OnLine a c (n + 1) (holt alpha beta (linePoint a c (n + 1)) s) ↔ OnLine a c n s :=
  ⟨onLine_of_holt halpha, OnLine.holt⟩

/-- The states that the readings of the line after `n` lead to. -/
def followLine (alpha beta a c : K) (n : ℕ) (s : K × K) : ℕ → K × K
  | 0 => s
  | k + 1 => holt alpha beta (linePoint a c (n + k + 1)) (followLine alpha beta a c n s k)

/-- A level that is not smoothed is right after one reading, but a trend of the first two
readings that stands for a later one is corrected by too much. -/
theorem followLine_one (a c beta : K) (n k : ℕ) :
    followLine 1 beta a c (n + 1) (linePoint a c n, c) (k + 1) =
      (linePoint a c (n + 1 + k + 1), c + (1 - beta) ^ k * (beta * c)) := by
  induction k with
  | zero =>
      unfold followLine holt
      refine Prod.ext ?_ ?_
      · dsimp only
        ring
      · simp only [followLine, linePoint_succ]
        ring
  | succ k ih =>
      have hnext : linePoint a c (n + 1 + (k + 1) + 1) = linePoint a c (n + 1 + k + 1) + c :=
        linePoint_succ a c _
      rw [followLine, ih]
      unfold holt
      refine Prod.ext ?_ ?_
      · dsimp only
        ring
      · dsimp only
        rw [hnext]
        ring

/-- **A late start.** When level and trend of one point are taken for those of the next,
no later state is on the line, unless the line is level or nothing is smoothed. -/
theorem followLine_onLine_iff (halpha : alpha ≠ 0) (hbeta : beta ≠ 0) (k : ℕ) :
    OnLine a c (n + 1 + k + 1)
        (followLine alpha beta a c (n + 1) (linePoint a c n, c) (k + 1)) ↔
      c = 0 ∨ alpha = 1 ∧ beta = 1 ∧ k ≠ 0 := by
  by_cases hone : alpha = 1
  · subst hone
    have htrend : (1 - beta) ^ k * (beta * c) = 0 ↔ c = 0 ∨ beta = 1 ∧ k ≠ 0 := by
      rw [mul_eq_zero, mul_eq_zero, or_iff_right hbeta, pow_eq_zero_iff', sub_eq_zero, or_comm,
        eq_comm (a := 1)]
    rw [followLine_one, onLine_iff, sub_self, add_sub_cancel_left, htrend]
    simp
  · have hstart : ∀ k, OnLine a c (n + 1 + k)
        (followLine alpha beta a c (n + 1) (linePoint a c n, c) k) ↔ c = 0 := by
      intro k
      induction k with
      | zero =>
          rw [onLine_iff]
          simp [followLine, linePoint_succ]
      | succ k ih => exact (holt_onLine_iff hone).trans ih
    rw [or_iff_left (fun h => hone h.1)]
    exact hstart (k + 1)

end Foundation
