import Mathlib.Algebra.Group.Nat.Defs
import Netsim.Foundation.WeightedDigraph
import Netsim.Network.Router

/-!
# What route computation is given: the effective graph

The abstract reading of the inputs of `compute_routes`: a weighted digraph in
which the source's edges towards neighbours with an Open breaker cost 999999 and
every other edge its listed cost, in unbounded arithmetic.

Two conditions on it tie the 32-bit code to this reading. `NoOverflow` bounds the
walks of at most `|V|` edges. `NoLossyWrap` is weaker and exact about the damage:
a wrapped sum may occur, but not one below the true distance of the node it is
offered to.
-/

namespace Netsim.Network

open Foundation

/-- The breaker towards `v` reports Open at `now`. -/
def reportsOpen (now : ℤ) (breakers : Breakers) (v : NodeId) : Bool :=
  (breakers.find v).any (fun b => b.reported now = .Open)

def effectiveCost (now : ℤ) (r : Router) (u v : NodeId) (originalCost : UInt32) : UInt32 :=
  if u = r.id ∧ reportsOpen now r.linkBreakers v = true then 999999 else originalCost

/-- The edges with their effective costs. -/
def effectiveGraph (now : ℤ) (r : Router) (graph : TopologyGraph) : WeightedDigraph NodeId :=
  fun u v c => ∃ neighbours originalCost, graph.find u = some neighbours ∧
    (v, originalCost) ∈ neighbours ∧ c = (effectiveCost now r u v originalCost).toNat

/-- The edges into nodes that are keys of the graph. -/
def keyedGraph (now : ℤ) (r : Router) (graph : TopologyGraph) : WeightedDigraph NodeId :=
  fun u v c => effectiveGraph now r graph u v c ∧ v ∈ graph.keys

/-- Adjacency lists mention only nodes that have an adjacency list. -/
def ClosedGraph (graph : TopologyGraph) : Prop :=
  ∀ u neighbours v c, graph.find u = some neighbours → (v, c) ∈ neighbours → v ∈ graph.keys

/-- Every walk of at most `|V|` edges from the source costs less than `2^32`. -/
def NoOverflow (now : ℤ) (r : Router) (graph : TopologyGraph) : Prop :=
  ∀ v n w, Walk (effectiveGraph now r graph) r.id v n w → n ≤ graph.keys.length → w < 2 ^ 32

/-- For every edge out of a node at distance below `2^32 - 1`, the 32-bit sum of
that distance and the edge's cost is not below the true distance of its head. -/
def NoLossyWrap (now : ℤ) (r : Router) (graph : TopologyGraph) : Prop :=
  ∀ u w v c, IsDist (effectiveGraph now r graph) r.id u w → w < 2 ^ 32 - 1 →
    effectiveGraph now r graph u v c → v ∈ graph.keys →
    ∃ n x, Walk (effectiveGraph now r graph) r.id v n x ∧ x ≤ (w + c) % 2 ^ 32

variable {now : ℤ} {r : Router} {graph : TopologyGraph} {u v : NodeId} {c n w : ℕ}

theorem effectiveGraph_tail (h : effectiveGraph now r graph u v c) : u ∈ graph.keys := by
  obtain ⟨neighbours, _, hfind, -⟩ := h
  rw [UnorderedMap.mem_keys, hfind]
  rfl

theorem effectiveGraph_lt (h : effectiveGraph now r graph u v c) : c < 2 ^ 32 := by
  obtain ⟨_, _, -, -, rfl⟩ := h
  exact UInt32.toNat_lt _

theorem effectiveGraph_iff : effectiveGraph now r graph u v c ↔
    ∃ e ∈ (graph.find u).getD [], e.1 = v ∧ c = (effectiveCost now r u e.1 e.2).toNat := by
  constructor
  · rintro ⟨neighbours, originalCost, hfind, hmem, rfl⟩
    exact ⟨(v, originalCost), by rw [hfind]; exact hmem, rfl, rfl⟩
  · rintro ⟨⟨x, originalCost⟩, hmem, rfl, rfl⟩
    cases hfind : graph.find u with
    | none => rw [hfind] at hmem; simp at hmem
    | some neighbours =>
        rw [hfind] at hmem
        exact ⟨neighbours, originalCost, hfind, hmem, rfl⟩

instance : Decidable (effectiveGraph now r graph u v c) := decidable_of_iff' _ effectiveGraph_iff

theorem closedGraph_iff : ClosedGraph graph ↔
    ∀ p ∈ graph.toPairs, ∀ e ∈ p.2, e.1 ∈ graph.keys := by
  constructor
  · rintro hc ⟨u, neighbours⟩ hp ⟨v, c⟩ he
    exact hc u neighbours v c (UnorderedMap.mem_toPairs.mp hp) he
  · intro h u neighbours v c hfind hmem
    exact h (u, neighbours) (UnorderedMap.mem_toPairs.mpr hfind) (v, c) hmem

instance : Decidable (ClosedGraph graph) := decidable_of_iff' _ closedGraph_iff

theorem ClosedGraph.head (hc : ClosedGraph graph) (h : effectiveGraph now r graph u v c) :
    v ∈ graph.keys := by
  obtain ⟨neighbours, originalCost, hfind, hmem, -⟩ := h
  exact hc u neighbours v originalCost hfind hmem

/-- On a closed graph nothing but keys can be reached. -/
theorem ClosedGraph.walk_mem (hc : ClosedGraph graph)
    (h : Walk (effectiveGraph now r graph) u v n w) (hu : u ∈ graph.keys) : v ∈ graph.keys := by
  cases h with
  | nil => exact hu
  | snoc _ he => exact hc.head he

/-- Walks to a key never leave the keys. -/
theorem walk_keyed_iff {a : NodeId} (hv : v ∈ graph.keys) :
    Walk (keyedGraph now r graph) a v n w ↔ Walk (effectiveGraph now r graph) a v n w :=
  ⟨fun h => h.mono (fun _ _ _ he => he.1),
    fun h => h.restrict (fun _ _ _ he => effectiveGraph_tail he) hv⟩

theorem isDist_keyed_iff {a : NodeId} (hv : v ∈ graph.keys) :
    IsDist (keyedGraph now r graph) a v w ↔ IsDist (effectiveGraph now r graph) a v w := by
  apply IsDist.of_costs
  ext x
  exact exists_congr (fun m => walk_keyed_iff hv)

/-- Dijkstra never adds beyond a walk of at most `|V|` edges, so bounding those
excludes every wrap. -/
theorem NoOverflow.sum_lt (h : NoOverflow now r graph)
    (hd : IsDist (effectiveGraph now r graph) r.id u w)
    (he : effectiveGraph now r graph u v c) : w + c < 2 ^ 32 := by
  obtain ⟨n, hn⟩ := hd.walk
  obtain ⟨m, x, hm, hx, hlt⟩ := hn.exists_short (K := graph.keys.toFinset)
    (fun _ _ _ he => List.mem_toFinset.mpr (effectiveGraph_tail he))
    (List.mem_toFinset.mpr (effectiveGraph_tail he))
  have hwx : w ≤ x := hd.le hm
  have hcard := List.toFinset_card_le graph.keys
  have := h v (m + 1) (x + c) (hm.snoc he) (by omega)
  omega

theorem NoOverflow.noLossyWrap (h : NoOverflow now r graph) : NoLossyWrap now r graph := by
  intro u w v c hd _ he _
  obtain ⟨n, hn⟩ := hd.walk
  exact ⟨n + 1, w + c, hn.snoc he, by rw [Nat.mod_eq_of_lt (h.sum_lt hd he)]⟩

/-- A per-edge bound that keeps `|V|` edges below `2^32`. -/
theorem noOverflow_of_cost_le {C : ℕ}
    (hC : ∀ p ∈ graph.toPairs, ∀ e ∈ p.2, (effectiveCost now r p.1 e.1 e.2).toNat ≤ C)
    (hlt : graph.keys.length * C < 2 ^ 32) : NoOverflow now r graph := by
  have hedge : ∀ u v c, effectiveGraph now r graph u v c → c ≤ C := by
    rintro u v c ⟨neighbours, originalCost, hfind, hmem, rfl⟩
    exact hC (u, neighbours) (UnorderedMap.mem_toPairs.mpr hfind) (v, originalCost) hmem
  intro v n w hw hn
  calc w ≤ n * C := hw.cost_le hedge
    _ ≤ graph.keys.length * C := Nat.mul_le_mul_right C hn
    _ < 2 ^ 32 := hlt

end Netsim.Network
