import Mathlib.Data.Finset.Card
import Mathlib.Order.Bounds.Basic
import Mathlib.Data.Nat.Find

/-!
# Walks and distances in a weighted digraph

A digraph with natural edge costs is the relation `E u v c`: some edge from `u`
to `v` costs `c`. Parallel edges, self loops and zero costs are allowed. A walk
is indexed by its end, its number of edges and its cost; the distance is the
least cost of a walk.

`Walk.exists_short` is the fact a bounded-length hypothesis needs: when all edge
tails lie in a finite set, no walk is cheaper than some walk with at most as
many edges as that set has members.
-/

namespace Foundation

variable {V : Type*}

/-- `E u v c`: some edge from `u` to `v` costs `c`. -/
abbrev WeightedDigraph (V : Type*) := V → V → ℕ → Prop

/-- `Walk E a v n w`: a walk from `a` to `v` with `n` edges and total cost `w`. -/
inductive Walk (E : WeightedDigraph V) (a : V) : V → ℕ → ℕ → Prop
  | nil : Walk E a a 0 0
  | snoc {u v : V} {n w c : ℕ} :
      Walk E a u n w → E u v c → Walk E a v (n + 1) (w + c)

/-- The costs of the walks from `a` to `v`. -/
def walkCosts (E : WeightedDigraph V) (a v : V) : Set ℕ :=
  {w | ∃ n, Walk E a v n w}

/-- `w` is the least cost of a walk from `a` to `v`. -/
def IsDist (E : WeightedDigraph V) (a v : V) (w : ℕ) : Prop :=
  IsLeast (walkCosts E a v) w

variable {E F : WeightedDigraph V} {a b u v : V} {n m w x c : ℕ}

namespace Walk

theorem single (h : E a v c) : Walk E a v 1 c := by
  have h1 := Walk.snoc Walk.nil h
  rwa [Nat.zero_add, Nat.zero_add] at h1

theorem append (h : Walk E a b n w) (h' : Walk E b v m x) :
    Walk E a v (n + m) (w + x) := by
  induction h' with
  | nil => exact h
  | snoc _ he ih =>
      rw [← Nat.add_assoc, ← Nat.add_assoc]
      exact ih.snoc he

theorem mono (hEF : ∀ u v c, E u v c → F u v c) (h : Walk E a v n w) :
    Walk F a v n w := by
  induction h with
  | nil => exact Walk.nil
  | snoc _ he ih => exact ih.snoc (hEF _ _ _ he)

/-- A walk that enters only nodes satisfying `P` is a walk of the subgraph of
the edges into such nodes. -/
theorem restrict {P : V → Prop} (hP : ∀ u v c, E u v c → P u)
    (h : Walk E a v n w) (hv : P v) : Walk (fun u v c => E u v c ∧ P v) a v n w := by
  induction h with
  | nil => exact Walk.nil
  | snoc _ he ih => exact (ih (hP _ _ _ he)).snoc ⟨he, hv⟩

/-- A per-edge bound bounds the cost by the number of edges. -/
theorem cost_le {C : ℕ} (hC : ∀ u v c, E u v c → c ≤ C) (h : Walk E a v n w) :
    w ≤ n * C := by
  induction h with
  | nil => simp
  | snoc _ he ih =>
      rw [Nat.add_mul, Nat.one_mul]
      exact Nat.add_le_add ih (hC _ _ _ he)

theorem exists_isDist (h : Walk E a v n w) : ∃ x, IsDist E a v x ∧ x ≤ w := by
  classical
  have hex : ∃ x, x ∈ walkCosts E a v := ⟨w, n, h⟩
  exact ⟨Nat.find hex, ⟨Nat.find_spec hex, fun y hy => Nat.find_min' hex hy⟩,
    Nat.find_min' hex ⟨n, h⟩⟩

end Walk

namespace IsDist

theorem walk (h : IsDist E a v w) : ∃ n, Walk E a v n w := h.1

theorem le (h : IsDist E a v w) (h' : Walk E a v n x) : w ≤ x := h.2 ⟨n, h'⟩

theorem unique (h : IsDist E a v w) (h' : IsDist E a v x) : w = x :=
  IsLeast.unique h h'

/-- Two graphs whose walks have the same costs. -/
theorem of_costs (h : walkCosts E a v = walkCosts F a v) :
    IsDist E a v w ↔ IsDist F a v w := by
  unfold IsDist
  rw [h]

end IsDist

/-! ### Short walks -/

/-- `v` is at distance `w`, and `n` is the least number of edges of a walk of
that cost. -/
structure IsShortest (E : WeightedDigraph V) (a v : V) (n w : ℕ) : Prop where
  walk : Walk E a v n w
  dist : ∀ m x, Walk E a v m x → w ≤ x
  hops : ∀ m, Walk E a v m w → n ≤ m

theorem IsShortest.hops_unique {x : ℕ} (h : IsShortest E a v n w)
    (h' : IsShortest E a v m x) : n = m := by
  have hwx : w = x := le_antisymm (h.dist _ _ h'.walk) (h'.dist _ _ h.walk)
  subst hwx
  exact le_antisymm (h.hops _ h'.walk) (h'.hops _ h.walk)

theorem Walk.exists_isShortest (h : Walk E a v n w) :
    ∃ m x, IsShortest E a v m x ∧ x ≤ w := by
  classical
  obtain ⟨x, hx, hxw⟩ := h.exists_isDist
  have hex : ∃ m, Walk E a v m x := hx.walk
  exact ⟨Nat.find hex, x, ⟨Nat.find_spec hex, fun m y hy => hx.le hy,
    fun m hm => Nat.find_min' hex hm⟩, hxw⟩

/-- A shortest walk is the extension of a shortest walk. -/
theorem IsShortest.prefix (h : IsShortest E a v (n + 1) w) :
    ∃ u x c, IsShortest E a u n x ∧ E u v c := by
  obtain ⟨u, x, c, hu, he, rfl⟩ :
      ∃ u x c, Walk E a u n x ∧ E u v c ∧ w = x + c := by
    cases h.walk with
    | snoc hu he => exact ⟨_, _, _, hu, he, rfl⟩
  refine ⟨u, x, c, ⟨hu, fun m y hy => ?_, fun m hm => ?_⟩, he⟩
  · have := h.dist _ _ (hy.snoc he)
    omega
  · have := h.hops _ (hm.snoc he)
    omega

/-- The prefixes of a shortest walk are shortest walks to distinct nodes: one
node for each number of edges. -/
theorem IsShortest.exists_finset {K : Finset V}
    (hK : ∀ u v c, E u v c → u ∈ K) :
    ∀ {n : ℕ} {v : V} {w : ℕ}, IsShortest E a v n w → v ∈ K →
      ∃ S : Finset V, S ⊆ K ∧ S.card = n + 1 ∧
        ∀ y ∈ S, ∃ m x, m ≤ n ∧ IsShortest E a y m x := by
  classical
  intro n
  induction n with
  | zero =>
      intro v w h hv
      refine ⟨{v}, by simpa using hv, rfl, fun y hy => ?_⟩
      obtain rfl := Finset.mem_singleton.mp hy
      exact ⟨0, w, le_rfl, h⟩
  | succ n ih =>
      intro v w h hv
      obtain ⟨u, x, c, hu, he⟩ := h.prefix
      obtain ⟨S, hSK, hcard, hS⟩ := ih hu (hK _ _ _ he)
      have hvS : v ∉ S := by
        intro hmem
        obtain ⟨m, y, hm, hy⟩ := hS v hmem
        have := h.hops_unique hy
        omega
      refine ⟨insert v S, Finset.insert_subset hv hSK, ?_, fun y hy => ?_⟩
      · rw [Finset.card_insert_of_notMem hvS, hcard]
      · rcases Finset.mem_insert.mp hy with rfl | hy
        · exact ⟨n + 1, w, le_rfl, h⟩
        · obtain ⟨m, z, hm, hz⟩ := hS y hy
          exact ⟨m, z, by omega, hz⟩

theorem IsShortest.hops_lt_card {K : Finset V}
    (hK : ∀ u v c, E u v c → u ∈ K) (h : IsShortest E a v n w) (hv : v ∈ K) :
    n < K.card := by
  obtain ⟨S, hSK, hcard, -⟩ := h.exists_finset hK hv
  have := Finset.card_le_card hSK
  omega

/-- No walk to a node of `K` is cheaper than some walk with fewer edges than `K`
has members. -/
theorem Walk.exists_short {K : Finset V} (hK : ∀ u v c, E u v c → u ∈ K)
    (h : Walk E a v n w) (hv : v ∈ K) :
    ∃ m x, Walk E a v m x ∧ x ≤ w ∧ m < K.card := by
  obtain ⟨m, x, hs, hx⟩ := h.exists_isShortest
  exact ⟨m, x, hs.walk, hx, hs.hops_lt_card hK hv⟩

end Foundation
