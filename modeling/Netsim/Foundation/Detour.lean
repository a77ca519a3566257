import Mathlib.Dynamics.PeriodicPts.Defs
import Netsim.Foundation.WeightedDigraph

/-!
# Shortest-path forwarding with one node that deviates

Every node forwards along an edge of a shortest path to `d`, except for one node `s`,
which hands everything to some node `h`. What becomes of it depends on two costs: that of
the ways from `h` to `d` around `s`, and that of the ways through `s`. If those through
`s` are longer, nothing comes back and `d` is reached; if one of them is shorter, what
`s` sends returns to `s`, and `d` is never reached.
-/

namespace Foundation

universe u

variable {V : Type u} {E : WeightedDigraph V} {f : V → V} {a s d v : V} {n m w x p q : ℕ}

/-- The edges that do not leave `s`. -/
def around (s : V) (E : WeightedDigraph V) : WeightedDigraph V :=
  fun u v c => E u v c ∧ u ≠ s

/-- Away from `s`, and within the bound `B`, the edge taken is the first of a shortest path
to `d`. -/
structure ShortestExcept (E : WeightedDigraph V) (f : V → V) (s d : V) (B : ℕ) : Prop where
  step : ∀ u w, u ≠ s → u ≠ d → w < B → IsDist E u d w →
    ∃ c x, 1 ≤ c ∧ E u (f u) c ∧ IsDist E (f u) d x ∧ c + x = w

/-- A walk goes around `s`, or through it. -/
theorem Walk.around_or_through (s : V) (h : Walk E a v n w) :
    Walk (around s E) a v n w ∨
      ∃ m k p q, Walk E a s m p ∧ Walk E s v k q ∧ p + q = w := by
  induction h with
  | nil => exact Or.inl Walk.nil
  | @snoc u v n w c hwalk he ih =>
      by_cases hu : u = s
      · subst hu
        exact Or.inr ⟨n, 1, w, c, hwalk, Walk.single he, rfl⟩
      · rcases ih with haround | ⟨m, k, p, q, hp, hq, rfl⟩
        · exact Or.inl (haround.snoc ⟨he, hu⟩)
        · exact Or.inr ⟨m, k + 1, p, q + c, hp, hq.snoc he, (Nat.add_assoc p q c).symm⟩

theorem Walk.cons {b : V} {c : ℕ} (he : E a b c) (h : Walk E b v n w) :
    Walk E a v (1 + n) (c + w) :=
  (Walk.single he).append h

namespace ShortestExcept

variable {B : ℕ}

/-- If going through `s` is shorter, `s` is reached before `d`. -/
theorem returns (F : ShortestExcept E f s d B) : ∀ (w : ℕ) (u : V), w < B → IsDist E u d w →
    (∃ m k p q, Walk E u s m p ∧ Walk E s d k q ∧
      ∀ l y, Walk (around s E) u d l y → p + q < y) →
    ∃ n, f^[n] u = s ∧ ∀ i, i < n → f^[i] u ≠ d := by
  intro w
  induction w using Nat.strong_induction_on with
  | _ w ih =>
      intro u hB hw hshort
      obtain ⟨m, k, p, q, hp, hq, hround⟩ := hshort
      by_cases hus : u = s
      · exact ⟨0, hus, fun i hi => absurd hi (Nat.not_lt_zero i)⟩
      have hud : u ≠ d := by
        rintro rfl
        exact Nat.not_lt_zero _ (hround 0 0 Walk.nil)
      obtain ⟨c, x, hc, he, hx, hsum⟩ := F.step u w hus hud hB hw
      have hle : w ≤ p + q := hw.le (hp.append hq)
      have hlonger (l y : ℕ) (h : Walk (around s E) (f u) d l y) : x < y := by
        have hlt := hround (1 + l) (c + y) (Walk.cons ⟨he, hus⟩ h)
        omega
      -- the shortest path from the next node is not one around `s`
      obtain ⟨l, hl⟩ := hx.walk
      obtain ⟨m', k', p', q', hp', hq', hpq⟩ :=
        (hl.around_or_through s).resolve_left fun h => (hlonger l x h).false
      obtain ⟨n, hn, hne⟩ := ih x (by omega) (f u) (by omega) hx
        ⟨m', k', p', q', hp', hq', fun l y h => hpq ▸ hlonger l y h⟩
      refine ⟨n + 1, hn, fun i hi => ?_⟩
      cases i with
      | zero => exact hud
      | succ i => exact hne i (by omega)

end ShortestExcept

end Foundation
