import Netsim.Network.RouteTable

/-!
# The table holds the shortest routes

On a closed graph `IsRoute` says which entry the table has for a destination, in
terms of distances in the effective graph; `destinationRoutes_spec` is that the
code produces exactly those entries. Completeness of the table, the correctness
of next hops, and what happens on graphs that are not closed follow.
-/

namespace Netsim.Network

open Foundation

variable {iter : IterationOrder (NodeId × UInt32)} {now : ℤ} {r : Router}
  {graph : TopologyGraph} {nodeToIp : UnorderedMap NodeId IPv4Address}
  {nodeToMask : UnorderedMap NodeId SubnetMask} {st : RelaxState} {u v d h : NodeId}
  {S : List NodeId} {n w c : ℕ} {e : RoutingTableEntry}

/-- The parent walk from a key below the cap finds a first hop of a shortest
path, and the distance splits at that hop. -/
theorem FinalLabels.nextHop_split (F : FinalLabels now r graph S st)
    (hst : Returns (relaxAll now r graph) st) (hd : d ∈ graph.keys) (hdr : d ≠ r.id)
    (hw : IsDist (effectiveGraph now r graph) r.id d w) (hlt : w < 2 ^ 32 - 1) :
    ∃ h c x, Returns (nextHop now r graph d) h ∧
      IsLeast {c | effectiveGraph now r graph r.id h c} c ∧
      IsDist (effectiveGraph now r graph) r.id h c ∧
      IsDist (effectiveGraph now r graph) h d x ∧ c + x = w := by
  have hval := (F.isDist_iff hd hlt).mp hw
  obtain ⟨h, c, n, x, hh, hhk, he, hdh, hwalk, hsplit⟩ := F.firstHop hd hdr (by omega)
  have hdist : IsDist (effectiveGraph now r graph) r.id h c :=
    (F.isDist_iff hhk (by omega)).mpr hdh
  refine ⟨h, c, x, (nextHop_returns_iff hst).mpr (parentWalk_of_firstHop hh),
    ⟨he, fun c' he' => hdist.le (Walk.single he')⟩, hdist, ⟨⟨n, hwalk⟩, ?_⟩, by omega⟩
  -- a cheaper walk from the hop would make a cheaper walk from the source
  rintro x' ⟨m, hm⟩
  have := hw.le ((Walk.single he).append hm)
  omega

theorem FinalLabels.walk_returns (F : FinalLabels now r graph S st) (dest : NodeId)
    (totalCost : UInt32) (hfind : st.distances.find dest = some totalCost)
    (hdr : dest ≠ r.id) (hlt : totalCost < 999999) :
    ∃ h, Returns (fun fuel => whileFuel (parentStep r.id st.parent) fuel dest) h := by
  by_cases hk : dest ∈ graph.keys
  · have hval : st.distances.val dest = totalCost := by
      rw [UnorderedMap.val, hfind, Option.getD_some]
    have hlt' : totalCost.toNat < 999999 := UInt32.lt_iff_toNat_lt.mp hlt
    obtain ⟨h, _, _, _, hh, -⟩ := F.firstHop hk hdr (by rw [hval]; omega)
    exact ⟨h, parentWalk_of_firstHop hh⟩
  · refine ⟨dest, parentWalk_of_none ?_⟩
    by_contra hp
    exact hk (F.sound.parent_keyed dest (Option.ne_none_iff_isSome.mp hp))

/-- What the loop and the table loop leave behind, on any graph. -/
theorem routes_of_noLossyWrap (iter : IterationOrder (NodeId × UInt32))
    (nodeToIp : UnorderedMap NodeId IPv4Address) (nodeToMask : UnorderedMap NodeId SubnetMask)
    (H : NoLossyWrap now r graph) (hr : r.id ∈ graph.keys) :
    ∃ st S routes, Returns (relaxAll now r graph) st ∧ FinalLabels now r graph S st ∧
      Returns (destinationRoutes iter now r graph nodeToIp nodeToMask)
        (routes, st.linkBreakers) ∧
      (routes.map Prod.fst).Nodup ∧
      ∀ dest e, (dest, e) ∈ routes ↔ dest ≠ r.id ∧ ∃ totalCost h,
        st.distances.find dest = some totalCost ∧ totalCost < 999999 ∧
        Returns (nextHop now r graph dest) h ∧
        entryFor nodeToIp nodeToMask dest totalCost h = some e := by
  obtain ⟨st, hst⟩ := relaxAll_returns now hr
  obtain ⟨S, F⟩ := finalLabels H hr hst
  obtain ⟨routes, hroutes⟩ :=
    destinationRoutes_returns iter nodeToIp nodeToMask hr hst F.walk_returns
  exact ⟨st, S, routes, hst, F, hroutes⟩

/-! ### Closed graphs -/

/-- `e` is the entry the table holds for `d`. -/
structure IsRoute (now : ℤ) (r : Router) (graph : TopologyGraph)
    (nodeToIp : UnorderedMap NodeId IPv4Address)
    (nodeToMask : UnorderedMap NodeId SubnetMask) (d : NodeId)
    (e : RoutingTableEntry) : Prop where
  ne_source : d ≠ r.id
  dist : IsDist (effectiveGraph now r graph) r.id d e.metric.toNat
  below : e.metric.toNat < 999999
  hop : Returns (nextHop now r graph d) e.nextHopId
  entry : entryFor nodeToIp nodeToMask d e.metric e.nextHopId = some e

theorem entryFor_fields {totalCost : UInt32}
    (h : entryFor nodeToIp nodeToMask d totalCost u = some e) :
    e.metric = totalCost ∧ e.nextHopId = u := by
  obtain ⟨-, _, _, -, -, rfl⟩ := entryFor_eq_some.mp h
  exact ⟨rfl, rfl⟩

/-- Nothing but itself can be reached from a node that is not a key. -/
theorem walk_of_unkeyed {a : NodeId} (ha : a ∉ graph.keys)
    (hw : Walk (effectiveGraph now r graph) a v n w) : v = a := by
  induction hw with
  | nil => rfl
  | snoc _ he ih =>
      subst ih
      exact absurd (effectiveGraph_tail he) ha

/-- **The routes of a closed graph.** -/
theorem destinationRoutes_spec (iter : IterationOrder (NodeId × UInt32))
    (nodeToIp : UnorderedMap NodeId IPv4Address) (nodeToMask : UnorderedMap NodeId SubnetMask)
    (hclosed : ClosedGraph graph) (H : NoLossyWrap now r graph) :
    ∃ routes breakers,
      Returns (destinationRoutes iter now r graph nodeToIp nodeToMask) (routes, breakers) ∧
      (routes.map Prod.fst).Nodup ∧
      ∀ d e, (d, e) ∈ routes ↔ IsRoute now r graph nodeToIp nodeToMask d e := by
  by_cases hr : r.id ∈ graph.keys
  · obtain ⟨st, S, routes, hst, F, hroutes, hnodup, hmem⟩ :=
      routes_of_noLossyWrap iter nodeToIp nodeToMask H hr
    refine ⟨routes, st.linkBreakers, hroutes, hnodup, fun d e => ?_⟩
    rw [hmem]
    constructor
    · rintro ⟨hne, totalCost, h, hfind, hlt, hh, hentry⟩
      obtain ⟨rfl, rfl⟩ := entryFor_fields hentry
      have hlt' : e.metric.toNat < 999999 := UInt32.lt_iff_toNat_lt.mp hlt
      have hdk : d ∈ graph.keys := by
        by_contra hdk
        have hval := F.sound.unkeyed d hdk
        rw [UnorderedMap.val, hfind, Option.getD_some] at hval
        rw [hval] at hfind
        obtain ⟨_, _, _, _, _, _, he⟩ := (F.find_unkeyed hdk).mp hfind
        exact hdk (hclosed.head he)
      refine ⟨hne, (F.isDist_iff hdk (by omega)).mpr ?_, hlt', hh, hentry⟩
      rw [UnorderedMap.val, hfind, Option.getD_some]
    · rintro ⟨hne, hdist, hbelow, hh, hentry⟩
      obtain ⟨n, hn⟩ := hdist.walk
      have hdk : d ∈ graph.keys := hclosed.walk_mem hn hr
      have hval := (F.isDist_iff hdk (by omega)).mp hdist
      refine ⟨hne, e.metric, e.nextHopId, ?_, UInt32.lt_iff_toNat_lt.mpr hbelow, hh, hentry⟩
      rw [F.find_keyed hdk, UInt32.toNat_inj.mp hval]
  · refine ⟨[], r.linkBreakers, destinationRoutes_of_unkeyed hr, List.nodup_nil, fun d e => ?_⟩
    simp only [List.not_mem_nil, false_iff]
    rintro ⟨hne, hdist, -⟩
    obtain ⟨n, hn⟩ := hdist.walk
    exact hne (walk_of_unkeyed hr hn)

/-- On a closed graph a destination below the cut-off has a next hop, one edge
away from the source and on a shortest path. -/
theorem nextHop_spec (hclosed : ClosedGraph graph) (H : NoLossyWrap now r graph)
    (hdr : d ≠ r.id) (hw : IsDist (effectiveGraph now r graph) r.id d w)
    (hlt : w < 2 ^ 32 - 1) :
    ∃ h c x, Returns (nextHop now r graph d) h ∧
      IsLeast {c | effectiveGraph now r graph r.id h c} c ∧
      IsDist (effectiveGraph now r graph) r.id h c ∧
      IsDist (effectiveGraph now r graph) h d x ∧ c + x = w := by
  obtain ⟨n, hn⟩ := hw.walk
  have hr : r.id ∈ graph.keys := by
    by_contra hr
    exact hdr (walk_of_unkeyed hr hn)
  obtain ⟨st, hst⟩ := relaxAll_returns now hr
  obtain ⟨S, F⟩ := finalLabels H hr hst
  exact F.nextHop_split hst (hclosed.walk_mem hn hr) hdr hw hlt

/-- A destination within the cut-off has an entry once the addresses are known. -/
theorem exists_isRoute (hdr : d ≠ r.id) (hw : IsDist (effectiveGraph now r graph) r.id d w)
    (hlt : w < 999999) (hip : (nodeToIp.find d).isSome) (hmask : (nodeToMask.find d).isSome)
    (hh : Returns (nextHop now r graph d) h) (hhip : (nodeToIp.find h).isSome) :
    ∃ e, IsRoute now r graph nodeToIp nodeToMask d e := by
  obtain ⟨ip, hip⟩ := Option.isSome_iff_exists.mp hip
  obtain ⟨mask, hmask⟩ := Option.isSome_iff_exists.mp hmask
  have hword : (UInt32.ofNat w).toNat = w := UInt32.toNat_ofNat_of_lt' (by
    show w < 2 ^ 32
    omega)
  refine ⟨⟨⟨ip.toU32 &&& mask.toU32⟩, mask, h, "eth0", UInt32.ofNat w⟩, hdr, ?_, ?_, hh, ?_⟩
  · show IsDist _ _ _ (UInt32.ofNat w).toNat
    rw [hword]
    exact hw
  · show (UInt32.ofNat w).toNat < 999999
    rw [hword]
    exact hlt
  · exact entryFor_eq_some.mpr ⟨hhip, ip, mask, hip, hmask, rfl⟩

/-- **Exactness and completeness.** On a closed graph without overflow the table
is, for any previous table and any iteration order, one entry for each
destination within the cut-off whose addresses are known, with its distance as
metric. -/
theorem computeRoutes_exact (iter : IterationOrder (NodeId × UInt32)) (now : ℤ) (r : Router)
    (graph : TopologyGraph) (nodeToIp : UnorderedMap NodeId IPv4Address)
    (nodeToMask : UnorderedMap NodeId SubnetMask)
    (hclosed : ClosedGraph graph) (hno : NoOverflow now r graph) :
    ∃ r' routes,
      Computed iter now r graph nodeToIp nodeToMask r' routes ∧
      (routes.map Prod.fst).Nodup ∧
      (∀ d, d ∈ routes.map Prod.fst ↔
        d ≠ r.id ∧ (∃ w, IsDist (effectiveGraph now r graph) r.id d w ∧ w < 999999) ∧
        (nodeToIp.find d).isSome ∧ (nodeToMask.find d).isSome ∧
        ∃ h, Returns (nextHop now r graph d) h ∧ (nodeToIp.find h).isSome) ∧
      (∀ d e, (d, e) ∈ routes →
        IsDist (effectiveGraph now r graph) r.id d e.metric.toNat ∧
        nodeToMask.find d = some e.mask ∧
        (∃ ip, nodeToIp.find d = some ip ∧
          e.destinationSubnet.toU32 = ip.toU32 &&& e.mask.toU32) ∧
        Returns (nextHop now r graph d) e.nextHopId) ∧
      (r.id ∉ graph.keys → r'.routingTable = []) := by
  obtain ⟨routes, breakers, hroutes, hnodup, hmem⟩ :=
    destinationRoutes_spec iter nodeToIp nodeToMask hclosed hno.noLossyWrap
  refine ⟨_, routes, computed_of_destinationRoutes hroutes, hnodup, ?_, ?_, ?_⟩
  · intro d
    rw [List.mem_map]
    constructor
    · rintro ⟨⟨d, e⟩, hde, rfl⟩
      have R := (hmem d e).mp hde
      obtain ⟨hip, ip, mask, hfind, hmask, -⟩ := entryFor_eq_some.mp R.entry
      exact ⟨R.ne_source, ⟨_, R.dist, R.below⟩, by rw [hfind]; rfl, by rw [hmask]; rfl,
        e.nextHopId, R.hop, hip⟩
    · rintro ⟨hne, ⟨w, hw, hlt⟩, hip, hmask, h, hh, hhip⟩
      obtain ⟨e, R⟩ := exists_isRoute hne hw hlt hip hmask hh hhip
      exact ⟨(d, e), (hmem d e).mpr R, rfl⟩
  · intro d e hde
    have R := (hmem d e).mp hde
    obtain ⟨-, ip, mask, hfind, hmask, he⟩ := entryFor_eq_some.mp R.entry
    refine ⟨R.dist, ?_, ⟨ip, hfind, ?_⟩, R.hop⟩
    · rw [hmask, he]
    · rw [he]
  · intro hr
    have hempty : Returns (destinationRoutes iter now r graph nodeToIp nodeToMask)
        ([], r.linkBreakers) := destinationRoutes_of_unkeyed hr
    rw [← (Prod.mk.inj (hempty.unique hroutes)).1]
    rfl

/-! The three-router topology of `controller.cpp`'s routing tests, for concrete
instances. -/

def triangle : TopologyGraph :=
  UnorderedMap.ofPairs [(1, [(2, 1), (3, 10)]), (2, [(1, 1), (3, 2)]), (3, [(1, 10), (2, 2)])]

def triangleIp : UnorderedMap NodeId IPv4Address :=
  UnorderedMap.ofPairs [(1, ⟨0x0A000101⟩), (2, ⟨0x0A000201⟩), (3, ⟨0x0A000301⟩)]

def triangleMask : UnorderedMap NodeId SubnetMask :=
  UnorderedMap.ofPairs [(1, ⟨0xFFFFFF00⟩), (2, ⟨0xFFFFFF00⟩), (3, ⟨0xFFFFFF00⟩)]

def routerWithId (id : NodeId) : Router := ⟨id, [], ∅⟩

/-- Router 1 after three failures in a row on its link to router 2. -/
def routerWithOpenLink : Router :=
  recordLinkFailure 0 2 (recordLinkFailure 0 2 (recordLinkFailure 0 2 (routerWithId 1)))

theorem triangle_closed : ClosedGraph triangle := by decide +kernel

theorem triangle_noOverflow : NoOverflow 0 (routerWithId 1) triangle :=
  noOverflow_of_cost_le (C := 10) (by decide +kernel) (by decide +kernel)

theorem triangle_noOverflow_open : NoOverflow 0 routerWithOpenLink triangle :=
  noOverflow_of_cost_le (C := 999999) (by decide +kernel) (by decide +kernel)

theorem computeRoutes_exact_triangle :
    ∃ r' routes,
      Computed (IterationOrder.stored _) 0 (routerWithId 1) triangle triangleIp triangleMask
        r' routes ∧
      (routes.map Prod.fst).Nodup := by
  obtain ⟨r', routes, hr', hnodup, -⟩ :=
    computeRoutes_exact (IterationOrder.stored _) 0 (routerWithId 1) triangle triangleIp
      triangleMask triangle_closed triangle_noOverflow
  exact ⟨r', routes, hr', hnodup⟩

example : (computeRoutes (IterationOrder.stored _) 0 (routerWithId 1) triangle triangleIp
    triangleMask 8).map (fun r => (lookupRoute r ⟨0x0A000364⟩, r.routingTable.map (·.metric))) =
      some ((true, 2), [3, 1]) := by
  decide +kernel

/-- **Next hops are real.** Every table entry's next hop is where the parent walk
from its destination stops, a neighbour of the source, and the first node of a
shortest path. -/
theorem computeRoutes_nextHop (iter : IterationOrder (NodeId × UInt32)) (now : ℤ) (r : Router)
    (graph : TopologyGraph) (nodeToIp : UnorderedMap NodeId IPv4Address)
    (nodeToMask : UnorderedMap NodeId SubnetMask)
    (hclosed : ClosedGraph graph) (hno : NoOverflow now r graph) :
    ∃ r' routes,
      Computed iter now r graph nodeToIp nodeToMask r' routes ∧
      ∀ d e, (d, e) ∈ routes →
        Returns (nextHop now r graph d) e.nextHopId ∧
        ∃ c x, IsLeast {c | effectiveGraph now r graph r.id e.nextHopId c} c ∧
          IsDist (effectiveGraph now r graph) e.nextHopId d x ∧ c + x = e.metric.toNat := by
  obtain ⟨routes, breakers, hroutes, -, hmem⟩ :=
    destinationRoutes_spec iter nodeToIp nodeToMask hclosed hno.noLossyWrap
  refine ⟨_, routes, computed_of_destinationRoutes hroutes, fun d e hde => ?_⟩
  have R := (hmem d e).mp hde
  have hbelow := R.below
  obtain ⟨h, c, x, hh, hc, -, hx, hsum⟩ :=
    nextHop_spec hclosed hno.noLossyWrap R.ne_source R.dist (by omega)
  obtain rfl := hh.unique R.hop
  exact ⟨R.hop, c, x, hc, hx, hsum⟩

theorem computeRoutes_nextHop_triangle :
    ∃ r' routes,
      Computed (IterationOrder.stored _) 0 (routerWithId 1) triangle triangleIp triangleMask
        r' routes ∧
      ∀ d e, (d, e) ∈ routes → Returns (nextHop 0 (routerWithId 1) triangle d) e.nextHopId := by
  obtain ⟨r', routes, hr', hhop⟩ :=
    computeRoutes_nextHop (IterationOrder.stored _) 0 (routerWithId 1) triangle triangleIp
      triangleMask triangle_closed triangle_noOverflow
  exact ⟨r', routes, hr', fun d e hde => (hhop d e hde).1⟩

end Netsim.Network
