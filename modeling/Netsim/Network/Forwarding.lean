import Mathlib.Data.Finset.Card
import Netsim.Network.ShortestRoutes

/-!
# Hop-by-hop forwarding

A network of routers that have all computed their tables on the same topology,
with no Open breaker. A packet is forwarded by longest-prefix lookup at every
router it reaches. Each hop lowers the shortest cost to the destination, which
all routers measure on the same graph, so forwarding delivers and never visits a
router twice (`RoutedNetwork.delivers`).
-/

namespace Netsim.Network

open Foundation

variable {now : ℤ} {r : Router} {graph : TopologyGraph}
  {nodeToIp : UnorderedMap NodeId IPv4Address} {nodeToMask : UnorderedMap NodeId SubnetMask}
  {u v d s : NodeId} {c w : ℕ} {e e' : RoutingTableEntry} {dip : IPv4Address}

/-! ### What a lookup finds -/

/-- An entry's subnet contains the address. -/
abbrev Matches (dip : IPv4Address) (e : RoutingTableEntry) : Prop :=
  sameSubnet dip e.destinationSubnet e.mask = true

theorem lookupStep_of_not_matches {st : LookupState} (h : ¬ Matches dip e) :
    lookupStep dip st e = st := if_neg h

theorem lookupStep_new {st : LookupState} (h : Matches dip e)
    (hnew : st.routeFound = true → st.longestPrefix < e.mask.toPrefixLength) :
    lookupStep dip st e = ⟨true, e.nextHopId, e.mask.toPrefixLength⟩ := by
  have hcond : (!st.routeFound || decide (e.mask.toPrefixLength > st.longestPrefix)) = true := by
    cases hfound : st.routeFound with
    | false => rfl
    | true => simpa using hnew hfound
  unfold lookupStep
  rw [if_pos h]
  exact if_pos hcond

theorem lookupStep_keep {st : LookupState} (hfound : st.routeFound = true)
    (hle : ¬ st.longestPrefix < e.mask.toPrefixLength) : lookupStep dip st e = st := by
  by_cases h : Matches dip e
  · unfold lookupStep
    rw [if_pos h]
    apply if_neg
    rw [hfound]
    simpa using hle
  · exact lookupStep_of_not_matches h

/-- Once the best entry has been seen, the others change nothing. -/
theorem foldl_lookupStep_best (l : List RoutingTableEntry)
    (hbest : ∀ e' ∈ l, Matches dip e' → e' = e ∨ e'.mask.toPrefixLength < e.mask.toPrefixLength) :
    l.foldl (lookupStep dip) ⟨true, e.nextHopId, e.mask.toPrefixLength⟩ =
      ⟨true, e.nextHopId, e.mask.toPrefixLength⟩ := by
  induction l with
  | nil => rfl
  | cons e' l ih =>
      have hstep : lookupStep dip ⟨true, e.nextHopId, e.mask.toPrefixLength⟩ e' =
          ⟨true, e.nextHopId, e.mask.toPrefixLength⟩ := by
        by_cases hmatch : Matches dip e'
        · apply lookupStep_keep rfl
          rcases hbest e' List.mem_cons_self hmatch with rfl | hlt
          · exact UInt8.lt_irrefl _
          · exact UInt8.lt_asymm hlt
        · exact lookupStep_of_not_matches hmatch
      rw [List.foldl_cons, hstep]
      exact ih fun x hx => hbest x (List.mem_cons_of_mem _ hx)

/-- **A lookup finds the matching entry of longest prefix.** -/
theorem foldl_lookupStep {l : List RoutingTableEntry} (hmem : e ∈ l) (he : Matches dip e)
    (hbest : ∀ e' ∈ l, Matches dip e' → e' = e ∨ e'.mask.toPrefixLength < e.mask.toPrefixLength) :
    ∀ st : LookupState,
      (st.routeFound = true → st.longestPrefix < e.mask.toPrefixLength) →
      l.foldl (lookupStep dip) st = ⟨true, e.nextHopId, e.mask.toPrefixLength⟩ := by
  induction l with
  | nil => simp at hmem
  | cons e' l ih =>
      intro st hst
      have hbest' := fun x hx => hbest x (List.mem_cons_of_mem _ hx)
      by_cases heq : e' = e
      · subst heq
        rw [List.foldl_cons, lookupStep_new he hst]
        exact foldl_lookupStep_best l hbest'
      · apply ih ((List.mem_cons.mp hmem).resolve_left (Ne.symm heq)) hbest' _
        by_cases hmatch : Matches dip e'
        · have hlt := (hbest e' List.mem_cons_self hmatch).resolve_left heq
          by_cases hnew : st.routeFound = true → st.longestPrefix < e'.mask.toPrefixLength
          · rw [lookupStep_new hmatch hnew]
            exact fun _ => hlt
          · obtain ⟨hfound, hle⟩ := Classical.not_imp.mp hnew
            rw [lookupStep_keep hfound hle]
            exact hst
        · rw [lookupStep_of_not_matches hmatch]
          exact hst

theorem lookupRoute_eq (hmem : e ∈ r.routingTable) (he : Matches dip e)
    (hbest : ∀ e' ∈ r.routingTable, Matches dip e' →
      e' = e ∨ e'.mask.toPrefixLength < e.mask.toPrefixLength) :
    lookupRoute r dip = (true, e.nextHopId) := by
  unfold lookupRoute
  rw [foldl_lookupStep hmem he hbest ⟨false, 0, 0⟩ (by simp)]

/-! ### The graph all routers share -/

/-- The links with their listed costs. -/
def linkGraph (graph : TopologyGraph) : WeightedDigraph NodeId :=
  fun u v c => ∃ neighbours cost, graph.find u = some neighbours ∧
    (v, cost) ∈ neighbours ∧ c = cost.toNat

/-- With no Open breaker the effective costs are the listed ones, at every
router. -/
theorem effectiveGraph_eq_linkGraph (h : ∀ v, reportsOpen now r.linkBreakers v = false) :
    effectiveGraph now r graph = linkGraph graph := by
  have hcost : ∀ u v cost, effectiveCost now r u v cost = cost := by
    intro u v cost
    rw [effectiveCost, h v, if_neg (by simp)]
  unfold effectiveGraph linkGraph
  simp only [hcost]

/-- A destination has one entry. -/
theorem IsRoute.unique (R : IsRoute now r graph nodeToIp nodeToMask d e)
    (R' : IsRoute now r graph nodeToIp nodeToMask d e') : e = e' := by
  have hmetric : e.metric = e'.metric := UInt32.toNat_inj.mp (R.dist.unique R'.dist)
  have hhop : e.nextHopId = e'.nextHopId := R.hop.unique R'.hop
  have hentry := R.entry
  rw [hmetric, hhop, R'.entry] at hentry
  exact (Option.some.inj hentry).symm

/-! ### Networks -/

/-- A node's subnet: its address under its mask, and the mask. -/
def subnetOf (nodeToIp : UnorderedMap NodeId IPv4Address)
    (nodeToMask : UnorderedMap NodeId SubnetMask) (v : NodeId) : Option (UInt32 × SubnetMask) :=
  match nodeToIp.find v, nodeToMask.find v with
  | some ip, some mask => some (ip.toU32 &&& mask.toU32, mask)
  | _, _ => none

/-- Routers with the ids of the nodes of a topology, each of which has computed
its table on it: with its own clock, iteration order and previous table. -/
structure RoutedNetwork where
  graph : TopologyGraph
  nodeToIp : UnorderedMap NodeId IPv4Address
  nodeToMask : UnorderedMap NodeId SubnetMask
  iter : NodeId → IterationOrder (NodeId × UInt32)
  now : NodeId → ℤ
  before : NodeId → Router
  router : NodeId → Router
  closed : ClosedGraph graph
  cost_pos : ∀ u v c, linkGraph graph u v c → 1 ≤ c
  addressed : ∀ v ∈ graph.keys, (nodeToIp.find v).isSome
  masked : ∀ v ∈ graph.keys, ∃ mask, nodeToMask.find v = some mask ∧ mask.Contiguous
  distinct : ∀ u ∈ graph.keys, ∀ v ∈ graph.keys,
    subnetOf nodeToIp nodeToMask u = subnetOf nodeToIp nodeToMask v → u = v
  id_eq : ∀ s ∈ graph.keys, (before s).id = s
  noneOpen : ∀ s ∈ graph.keys, ∀ v, reportsOpen (now s) (before s).linkBreakers v = false
  noOverflow : ∀ s ∈ graph.keys, NoOverflow (now s) (before s) graph
  computed : ∀ s ∈ graph.keys, Returns
    (computeRoutes (iter s) (now s) (before s) graph nodeToIp nodeToMask) (router s)

namespace RoutedNetwork

variable {N : RoutedNetwork}

/-- The subnet of `v` contains the address. -/
def Covers (N : RoutedNetwork) (dip : IPv4Address) (v : NodeId) : Prop :=
  ∃ p, subnetOf N.nodeToIp N.nodeToMask v = some p ∧ dip.toU32 &&& p.2.toU32 = p.1

def maskLength (N : RoutedNetwork) (v : NodeId) : ℕ :=
  (N.nodeToMask.find v).elim 0 fun mask => mask.toPrefixLength.toNat

/-- One hop: the router a lookup at `s` hands the packet to. -/
def forward (N : RoutedNetwork) (dip : IPv4Address) (s : NodeId) : NodeId :=
  (lookupRoute (N.router s) dip).2

theorem effectiveGraph_eq (hs : s ∈ N.graph.keys) :
    effectiveGraph (N.now s) (N.before s) N.graph = linkGraph N.graph :=
  effectiveGraph_eq_linkGraph (N.noneOpen s hs)

/-- Of two nodes whose subnets contain an address, one has the longer mask. -/
theorem maskLength_ne (hu : u ∈ N.graph.keys) (hv : v ∈ N.graph.keys) (huv : u ≠ v)
    (hcu : N.Covers dip u) (hcv : N.Covers dip v) : N.maskLength u ≠ N.maskLength v := by
  intro hlen
  obtain ⟨ipu, hipu⟩ := Option.isSome_iff_exists.mp (N.addressed u hu)
  obtain ⟨ipv, hipv⟩ := Option.isSome_iff_exists.mp (N.addressed v hv)
  obtain ⟨mu, hmu, hcontu⟩ := N.masked u hu
  obtain ⟨mv, hmv, hcontv⟩ := N.masked v hv
  have hsu : subnetOf N.nodeToIp N.nodeToMask u = some (ipu.toU32 &&& mu.toU32, mu) := by
    rw [subnetOf, hipu, hmu]
  have hsv : subnetOf N.nodeToIp N.nodeToMask v = some (ipv.toU32 &&& mv.toU32, mv) := by
    rw [subnetOf, hipv, hmv]
  have hmask : mu = mv := by
    apply hcontu.eq_of_prefixLength hcontv
    unfold maskLength at hlen
    rw [hmu, hmv] at hlen
    exact UInt8.toNat_inj.mp hlen
  obtain ⟨p, hp, hpu⟩ := hcu
  obtain ⟨q, hq, hqv⟩ := hcv
  obtain rfl := Option.some.inj (hsu.symm.trans hp)
  obtain rfl := Option.some.inj (hsv.symm.trans hq)
  dsimp only at hpu hqv
  refine huv (N.distinct u hu v hv ?_)
  rw [hsu, hsv, ← hpu, ← hqv, hmask]

/-- An entry matches what its destination's subnet contains. -/
theorem matches_iff (R : IsRoute now r graph N.nodeToIp N.nodeToMask v e) :
    Matches dip e ↔ N.Covers dip v := by
  obtain ⟨-, ip, mask, hip, hmask, he⟩ := entryFor_eq_some.mp R.entry
  have hsubnet : subnetOf N.nodeToIp N.nodeToMask v = some (ip.toU32 &&& mask.toU32, mask) := by
    rw [subnetOf, hip, hmask]
  rw [he]
  unfold Matches sameSubnet Covers
  rw [hsubnet, beq_iff_eq, UInt32.and_assoc, UInt32.and_self]
  constructor
  · exact fun h => ⟨_, rfl, h⟩
  · rintro ⟨p, hp, h⟩
    obtain rfl := Option.some.inj hp
    exact h

theorem maskLength_eq (R : IsRoute now r graph N.nodeToIp N.nodeToMask v e) :
    N.maskLength v = e.mask.toPrefixLength.toNat := by
  obtain ⟨-, ip, mask, -, hmask, he⟩ := entryFor_eq_some.mp R.entry
  rw [maskLength, hmask, he]
  rfl

/-- **One lookup.** A router that has computed its table on the network's topology, with
whatever links Open, hands a packet to the first router of a path that is shortest with
the costs it sees. -/
theorem lookup_computed {iter : IterationOrder (NodeId × UInt32)} {r' : Router}
    (hd : d ∈ N.graph.keys) (hcov : N.Covers dip d)
    (hlong : ∀ v ∈ N.graph.keys, N.Covers dip v → N.maskLength v ≤ N.maskLength d)
    (hr : r.id ∈ N.graph.keys) (hoverflow : NoOverflow now r N.graph)
    (hcomputed : Returns (computeRoutes iter now r N.graph N.nodeToIp N.nodeToMask) r')
    (hdr : d ≠ r.id) (hw : IsDist (effectiveGraph now r N.graph) r.id d w) (hlt : w < 999999) :
    ∃ h c x, lookupRoute r' dip = (true, h) ∧ Returns (nextHop now r N.graph d) h ∧
      effectiveGraph now r N.graph r.id h c ∧ IsDist (effectiveGraph now r N.graph) h d x ∧
      c + x = w := by
  have hno := hoverflow.noLossyWrap
  obtain ⟨routes, breakers, hroutes, -, hmem⟩ :=
    destinationRoutes_spec iter N.nodeToIp N.nodeToMask N.closed hno
  have htable : r'.routingTable = routes.map Prod.snd := by
    rw [← (computed_of_destinationRoutes hroutes).returns.unique hcomputed]
  obtain ⟨h, c, x, hh, hc, -, hx, hsum⟩ := nextHop_spec N.closed hno hdr hw (by omega)
  have hhk : h ∈ N.graph.keys := N.closed.head hc.1
  obtain ⟨mask, hmask, -⟩ := N.masked d hd
  obtain ⟨e, R⟩ := exists_isRoute hdr hw hlt (N.addressed d hd) (by rw [hmask]; rfl) hh
    (N.addressed h hhk)
  have hlookup : lookupRoute r' dip = (true, e.nextHopId) := by
    apply lookupRoute_eq
    · rw [htable]
      exact List.mem_map.mpr ⟨(d, e), (hmem d e).mpr R, rfl⟩
    · exact (matches_iff R).mpr hcov
    · rintro e' he' hmatch
      rw [htable] at he'
      obtain ⟨⟨v, e'⟩, hve, rfl⟩ := List.mem_map.mp he'
      have R' := (hmem v e').mp hve
      by_cases hvd : v = d
      · subst hvd
        exact Or.inl (R'.unique R)
      · -- another destination that matches has the shorter mask
        obtain ⟨n, hn⟩ := R'.dist.walk
        have hvk : v ∈ N.graph.keys := N.closed.walk_mem hn hr
        have hcv : N.Covers dip v := (matches_iff R').mp hmatch
        have hle := hlong v hvk hcv
        have hne := maskLength_ne hvk hd hvd hcv hcov
        rw [maskLength_eq R', maskLength_eq R] at hle hne
        refine Or.inr (UInt8.lt_iff_toNat_lt.mpr ?_)
        show e'.mask.toPrefixLength.toNat < e.mask.toPrefixLength.toNat
        omega
  rw [R.hop.unique hh] at hlookup
  exact ⟨h, c, x, hlookup, hh, hc.1, hx, hsum⟩

/-- At a router within reach of the destination the lookup succeeds and leads along a
link of a shortest path. -/
theorem forward_shortest (hd : d ∈ N.graph.keys) (hcov : N.Covers dip d)
    (hlong : ∀ v ∈ N.graph.keys, N.Covers dip v → N.maskLength v ≤ N.maskLength d)
    (hs : s ∈ N.graph.keys) (hsd : s ≠ d) (hw : IsDist (linkGraph N.graph) s d w)
    (hlt : w < 999999) :
    (lookupRoute (N.router s) dip).1 = true ∧ ∃ c x, linkGraph N.graph s (N.forward dip s) c ∧
      IsDist (linkGraph N.graph) (N.forward dip s) d x ∧ c + x = w := by
  have hid := N.id_eq s hs
  have heff := effectiveGraph_eq hs
  obtain ⟨h, c, x, hlookup, -, hc, hx, hsum⟩ := lookup_computed hd hcov hlong
    (by rw [hid]; exact hs) (N.noOverflow s hs) (N.computed s hs) (by rw [hid]; exact hsd.symm)
    (by rw [heff, hid]; exact hw) hlt
  rw [heff] at hc hx
  rw [hid] at hc
  unfold forward
  rw [hlookup]
  exact ⟨rfl, c, x, hc, hx, hsum⟩

/-- **One hop.** At a router within reach of the destination the lookup succeeds
and leads to a router from which the destination is strictly closer. -/
theorem forward_closer (hd : d ∈ N.graph.keys) (hcov : N.Covers dip d)
    (hlong : ∀ v ∈ N.graph.keys, N.Covers dip v → N.maskLength v ≤ N.maskLength d)
    (hs : s ∈ N.graph.keys) (hsd : s ≠ d) (hw : IsDist (linkGraph N.graph) s d w)
    (hlt : w < 999999) :
    (lookupRoute (N.router s) dip).1 = true ∧ N.forward dip s ∈ N.graph.keys ∧
      ∃ x, x < w ∧ IsDist (linkGraph N.graph) (N.forward dip s) d x := by
  obtain ⟨hfound, c, x, hc, hx, hsum⟩ := forward_shortest hd hcov hlong hs hsd hw hlt
  have hpos := N.cost_pos s _ c hc
  refine ⟨hfound, ?_, x, by omega, hx⟩
  rw [← effectiveGraph_eq hs] at hc
  exact N.closed.head hc

/-- **Forwarding delivers.** For an address and the node whose subnet contains it
with the longest mask: from any router with a path below the cut-off, forwarding
reaches the node in fewer hops than there are nodes, every lookup on the way
succeeds, and no router is visited twice. -/
theorem delivers (N : RoutedNetwork) (dip : IPv4Address) (d s : NodeId) (m w : ℕ)
    (hd : d ∈ N.graph.keys) (hcov : N.Covers dip d)
    (hlong : ∀ v ∈ N.graph.keys, N.Covers dip v → N.maskLength v ≤ N.maskLength d)
    (hs : s ∈ N.graph.keys) (hw : Walk (linkGraph N.graph) s d m w) (hlt : w < 999999) :
    ∃ n, n ≤ N.graph.keys.length - 1 ∧ (N.forward dip)^[n] s = d ∧
      (∀ i, i < n → (lookupRoute (N.router ((N.forward dip)^[i] s)) dip).1 = true) ∧
      ∀ i j, i < j → j ≤ n → (N.forward dip)^[i] s ≠ (N.forward dip)^[j] s := by
  obtain ⟨x, hx, hxw⟩ := hw.exists_isDist
  obtain ⟨n, hn, hne, hD, hinj⟩ := iterate_reaches (f := N.forward dip) (d := d)
    (fun s x => s ∈ N.graph.keys ∧ x < 999999 ∧ IsDist (linkGraph N.graph) s d x)
    (fun s x y hx hy => hx.2.2.unique hy.2.2) (by
      rintro s x ⟨hs, hx, hdist⟩ hsd
      obtain ⟨-, hk, y, hy, hdist'⟩ := forward_closer hd hcov hlong hs hsd hdist hx
      exact ⟨y, hy, hk, by omega, hdist'⟩)
    x s ⟨hs, by omega, hx⟩
  refine ⟨n, ?_, hn, ?_, hinj⟩
  · -- the routers visited are distinct nodes
    have hcard : (Finset.range (n + 1)).card ≤ N.graph.keys.toFinset.card := by
      apply Finset.card_le_card_of_injOn (fun i => (N.forward dip)^[i] s)
      · intro i hi
        obtain ⟨y, -, hk, -⟩ := hD i (Nat.le_of_lt_succ (Finset.mem_range.mp hi))
        exact List.mem_toFinset.mpr hk
      · intro i hi j hj heq
        have hi := Nat.le_of_lt_succ (Finset.mem_range.mp hi)
        have hj := Nat.le_of_lt_succ (Finset.mem_range.mp hj)
        rcases Nat.lt_trichotomy i j with hij | hij | hij
        · exact absurd heq (hinj i j hij hj)
        · exact hij
        · exact absurd heq.symm (hinj j i hij hi)
    rw [Finset.card_range] at hcard
    have := List.toFinset_card_le N.graph.keys
    omega
  · intro i hi
    obtain ⟨y, -, hk, hy, hdist⟩ := hD i hi.le
    exact (forward_closer hd hcov hlong hk (hne i hi) hdist hy).1

end RoutedNetwork

/-- The triangle with all three tables computed. -/
def triangleNetwork : RoutedNetwork where
  graph := triangle
  nodeToIp := triangleIp
  nodeToMask := triangleMask
  iter _ := IterationOrder.stored _
  now _ := 0
  before := routerWithId
  router s := (computeRoutes (IterationOrder.stored _) 0 (routerWithId s) triangle triangleIp
    triangleMask 8).getD (routerWithId s)
  closed := triangle_closed
  cost_pos := by
    have hpos : ∀ p ∈ triangle.toPairs, ∀ e ∈ p.2, 1 ≤ e.2.toNat := by decide +kernel
    rintro u v c ⟨neighbours, cost, hfind, hmem, rfl⟩
    exact hpos (u, neighbours) (UnorderedMap.mem_toPairs.mpr hfind) (v, cost) hmem
  addressed := by decide +kernel
  masked := by
    have hmask : ∀ v ∈ triangle.keys, triangleMask.find v = some ⟨0xFFFFFF00⟩ := by
      decide +kernel
    exact fun v hv => ⟨_, hmask v hv, 24, by decide +kernel⟩
  distinct := by decide +kernel
  id_eq _ _ := rfl
  noneOpen _ _ _ := rfl
  noOverflow := by
    have hcost : ∀ s ∈ triangle.keys, ∀ p ∈ triangle.toPairs, ∀ e ∈ p.2,
        (effectiveCost 0 (routerWithId s) p.1 e.1 e.2).toNat ≤ 10 := by decide +kernel
    exact fun s hs => noOverflow_of_cost_le (hcost s hs) (by decide +kernel)
  computed := by
    have hrun : ∀ s ∈ triangle.keys, (computeRoutes (IterationOrder.stored _) 0 (routerWithId s)
        triangle triangleIp triangleMask 8).isSome := by decide +kernel
    intro s hs
    obtain ⟨r', hr'⟩ := Option.isSome_iff_exists.mp (hrun s hs)
    rw [hr', Option.getD_some]
    exact (destinationRoutes_mono.map _).returns hr'

theorem delivers_triangle :
    ∃ n, n ≤ 2 ∧ (triangleNetwork.forward ⟨0x0A000364⟩)^[n] 1 = 3 := by
  have hmasks : ∀ v ∈ triangle.keys, triangleNetwork.maskLength v ≤
      triangleNetwork.maskLength 3 := by decide +kernel
  obtain ⟨n, hn, hreach, -⟩ := triangleNetwork.delivers ⟨0x0A000364⟩ 3 1 1 10
    (by decide +kernel) ⟨(0x0A000300, ⟨0xFFFFFF00⟩), by decide +kernel, by decide +kernel⟩
    (fun v hv _ => hmasks v hv) (by decide +kernel)
    (Walk.single ⟨[(2, 1), (3, 10)], 10, by decide +kernel, by decide, rfl⟩) (by decide)
  exact ⟨n, hn, hreach⟩

end Netsim.Network
