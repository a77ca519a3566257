import Netsim.Network.ShortestRoutes

/-!
# Routes to nodes without an adjacency list

A node that is mentioned by an adjacency list but has none itself is not
initialised, so the subscript that first reads its distance inserts 0 and no
relaxation improves on that. It ends up in the table with metric 0 and itself as
next hop, whatever the way to it costs. This module says exactly when the table
nevertheless holds real routes only.
-/

namespace Netsim.Network

open Foundation

variable {iter : IterationOrder (NodeId × UInt32)} {now : ℤ} {r : Router}
  {graph : TopologyGraph} {nodeToIp : UnorderedMap NodeId IPv4Address}
  {nodeToMask : UnorderedMap NodeId SubnetMask} {st : RelaxState} {v d h : NodeId}
  {S : List NodeId}

/-- The entry for `d` is realised: its next hop is a neighbour of the source, and
some path through that edge costs its metric. -/
def Realised (now : ℤ) (r : Router) (graph : TopologyGraph) (d : NodeId)
    (e : RoutingTableEntry) : Prop :=
  ∃ c n w, effectiveGraph now r graph r.id e.nextHopId c ∧
    Walk (effectiveGraph now r graph) e.nextHopId d n w ∧ e.metric.toNat = c + w

/-- A reached node has an edge to `v`. -/
def Mentioned (now : ℤ) (r : Router) (graph : TopologyGraph) (v : NodeId) : Prop :=
  ∃ u n w c, Walk (effectiveGraph now r graph) r.id u n w ∧ w < 2 ^ 32 - 1 ∧
    effectiveGraph now r graph u v c

theorem FinalLabels.nextHop_unkeyed (F : FinalLabels now r graph S st)
    (hst : Returns (relaxAll now r graph) st) (hv : v ∉ graph.keys) :
    Returns (nextHop now r graph v) v := by
  rw [nextHop_returns_iff hst]
  apply parentWalk_of_none
  by_contra hp
  exact hv (F.sound.parent_keyed v (Option.ne_none_iff_isSome.mp hp))

/-- The entries of keys are realised on every graph. -/
theorem FinalLabels.realised (F : FinalLabels now r graph S st)
    (hst : Returns (relaxAll now r graph) st) {totalCost : UInt32} {e : RoutingTableEntry}
    (hd : d ∈ graph.keys) (hdr : d ≠ r.id) (hfind : st.distances.find d = some totalCost)
    (hlt : totalCost < 999999) (hh : Returns (nextHop now r graph d) h)
    (hentry : entryFor nodeToIp nodeToMask d totalCost h = some e) :
    Realised now r graph d e := by
  obtain ⟨rfl, rfl⟩ := entryFor_fields hentry
  have hlt' : e.metric.toNat < 999999 := UInt32.lt_iff_toNat_lt.mp hlt
  have hval : (st.distances.val d).toNat = e.metric.toNat := by
    rw [UnorderedMap.val, hfind, Option.getD_some]
  have hdist := (F.isDist_iff hd (by omega)).mpr hval
  obtain ⟨h', c, x, hh', hc, -, hx, hsum⟩ := F.nextHop_split hst hd hdr hdist (by omega)
  obtain rfl := hh'.unique hh
  obtain ⟨n, hn⟩ := hx.walk
  exact ⟨c, n, x, hc.1, hn, hsum.symm⟩

/-- **When the table holds real routes only.** On any graph without overflow the
call returns, and its entries are all realised exactly when every mentioned node
without an adjacency list whose address and mask are known is a neighbour of the
source at effective cost 0. -/
theorem computeRoutes_realised_iff (iter : IterationOrder (NodeId × UInt32)) (now : ℤ)
    (r : Router) (graph : TopologyGraph) (nodeToIp : UnorderedMap NodeId IPv4Address)
    (nodeToMask : UnorderedMap NodeId SubnetMask) (hno : NoOverflow now r graph) :
    ∃ r' routes,
      Computed iter now r graph nodeToIp nodeToMask r' routes ∧
      ((∀ d e, (d, e) ∈ routes → Realised now r graph d e) ↔
        ∀ v, v ∉ graph.keys → (nodeToIp.find v).isSome → (nodeToMask.find v).isSome →
          Mentioned now r graph v → effectiveGraph now r graph r.id v 0) := by
  by_cases hr : r.id ∈ graph.keys
  · obtain ⟨st, S, routes, hst, F, hroutes, -, hmem⟩ :=
      routes_of_noLossyWrap iter nodeToIp nodeToMask hno.noLossyWrap hr
    refine ⟨_, routes, computed_of_destinationRoutes hroutes, ?_, ?_⟩
    · intro hreal v hv hip hmask hment
      obtain ⟨ip, hip⟩ := Option.isSome_iff_exists.mp hip
      obtain ⟨mask, hmask⟩ := Option.isSome_iff_exists.mp hmask
      have hvr : v ≠ r.id := fun heq => hv (heq ▸ hr)
      -- the phantom: metric 0, and the destination as its own next hop
      obtain ⟨c, n, w, he, hw, hsum⟩ :=
        hreal v ⟨⟨ip.toU32 &&& mask.toU32⟩, mask, v, "eth0", 0⟩ ((hmem _ _).mpr
          ⟨hvr, 0, v, (F.find_unkeyed hv).mpr hment, by decide, F.nextHop_unkeyed hst hv,
            entryFor_eq_some.mpr ⟨by rw [hip]; rfl, ip, mask, hip, hmask, rfl⟩⟩)
      have hc : c = 0 := by
        change (0 : UInt32).toNat = c + w at hsum
        rw [UInt32.toNat_zero] at hsum
        omega
      exact hc ▸ he
    · intro hcond d e hde
      obtain ⟨hne, totalCost, h, hfind, hlt, hh, hentry⟩ := (hmem d e).mp hde
      by_cases hd : d ∈ graph.keys
      · exact F.realised hst hd hne hfind hlt hh hentry
      · have hzero : totalCost = 0 := by
          have hval := F.sound.unkeyed d hd
          rwa [UnorderedMap.val, hfind, Option.getD_some] at hval
        obtain rfl := hh.unique (F.nextHop_unkeyed hst hd)
        obtain ⟨-, ip, mask, hip, hmask, rfl⟩ := entryFor_eq_some.mp hentry
        have he := hcond h hd (by rw [hip]; rfl) (by rw [hmask]; rfl)
          ((F.find_unkeyed hd).mp (hzero ▸ hfind))
        exact ⟨0, 0, 0, he, Walk.nil, by rw [hzero]; rfl⟩
  · refine ⟨_, [], computed_of_destinationRoutes (destinationRoutes_of_unkeyed hr), ?_⟩
    apply iff_of_true (fun d e hde => absurd hde List.not_mem_nil)
    rintro v - - - ⟨u, n, w, c, hw, -, he⟩
    obtain rfl := walk_of_unkeyed hr hw
    exact absurd (effectiveGraph_tail he) hr

/-- A chain of three routers in which the last has no adjacency list. -/
def leafChain : TopologyGraph := UnorderedMap.ofPairs [(1, [(2, 5)]), (2, [(3, 7)])]

theorem leafChain_noOverflow : NoOverflow 0 (routerWithId 1) leafChain :=
  noOverflow_of_cost_le (C := 7) (by decide +kernel) (by decide +kernel)

theorem computeRoutes_realised_iff_leafChain :
    ∃ r' routes,
      Computed (IterationOrder.stored _) 0 (routerWithId 1) leafChain triangleIp triangleMask
        r' routes ∧
      ((∀ d e, (d, e) ∈ routes → Realised 0 (routerWithId 1) leafChain d e) ↔
        ∀ v, v ∉ leafChain.keys → (triangleIp.find v).isSome → (triangleMask.find v).isSome →
          Mentioned 0 (routerWithId 1) leafChain v →
            effectiveGraph 0 (routerWithId 1) leafChain 1 v 0) :=
  computeRoutes_realised_iff (IterationOrder.stored _) 0 (routerWithId 1) leafChain triangleIp
    triangleMask leafChain_noOverflow

/-- Router 1 gets a route of metric 0 to router 3 with next hop 3, at cost 12 and
two hops away. -/
theorem leafChain_phantom :
    NoOverflow 0 (routerWithId 1) leafChain ∧
    ∃ r' routes e,
      Computed (IterationOrder.stored _) 0 (routerWithId 1) leafChain triangleIp triangleMask
        r' routes ∧
      (3, e) ∈ routes ∧ e.nextHopId = 3 ∧ e.metric = 0 ∧
      ¬ Realised 0 (routerWithId 1) leafChain 3 e := by
  have hrun : (destinationRoutes (IterationOrder.stored _) 0 (routerWithId 1) leafChain
      triangleIp triangleMask 8).map Prod.fst = some
        [(3, ⟨⟨0x0A000300⟩, ⟨0xFFFFFF00⟩, 3, "eth0", 0⟩),
          (2, ⟨⟨0x0A000200⟩, ⟨0xFFFFFF00⟩, 2, "eth0", 5⟩)] := by
    decide +kernel
  obtain ⟨⟨routes, breakers⟩, hrun, rfl⟩ := Option.map_eq_some_iff.mp hrun
  refine ⟨leafChain_noOverflow, _, _, _,
    computed_of_destinationRoutes (destinationRoutes_mono.returns hrun),
    List.mem_cons_self, rfl, rfl, ?_⟩
  rintro ⟨c, n, w, he, -⟩
  obtain ⟨e, hmem, heq, -⟩ := effectiveGraph_iff.mp he
  have hnone : ∀ e ∈ (leafChain.find 1).getD [], e.1 ≠ 3 := by decide +kernel
  exact hnone e hmem heq

end Netsim.Network
