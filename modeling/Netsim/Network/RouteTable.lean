import Netsim.Network.SettledRounds

/-!
# From final labels to the routing table

What the relaxation loop leaves behind (`FinalLabels`), what the backward parent
walk finds in it, and which entries the table loop then pushes. The walk is the
one place where `compute_routes` may fail to return; everything about the table
is stated for a walk that does.
-/

namespace Netsim.Network

open Foundation

variable {iter : IterationOrder (NodeId × UInt32)} {now : ℤ} {r : Router}
  {graph : TopologyGraph} {nodeToIp : UnorderedMap NodeId IPv4Address}
  {nodeToMask : UnorderedMap NodeId SubnetMask} {st : RelaxState} {u v d h : NodeId}
  {parent : UnorderedMap NodeId NodeId} {source : NodeId}

/-! ### The labels at the end of the loop -/

/-- The loop has run dry with the invariant intact. -/
structure FinalLabels (now : ℤ) (r : Router) (graph : TopologyGraph) (S : List NodeId)
    (st : RelaxState) : Prop extends RoundInv now r graph ∅ S st where
  drained : st.minHeap.items = []

theorem finalLabels (H : NoLossyWrap now r graph) (hr : r.id ∈ graph.keys)
    (hst : Returns (relaxAll now r graph) st) : ∃ S, FinalLabels now r graph S st := by
  obtain ⟨N, hN⟩ := hst
  have hinv := whileFuel_invariant (fun st => ∃ S, RoundInv now r graph ∅ S st)
    (fun _ _ ⟨_, I⟩ h => I.round H h) ⟨[], roundInv_init hr⟩ (hN N le_rfl)
  obtain ⟨⟨S, I⟩, hexit⟩ := hinv
  exact ⟨S, I, relaxRound_eq_none.mp hexit⟩

namespace FinalLabels

variable {S : List NodeId}

theorem queue_empty (F : FinalLabels now r graph S st) : (labels graph st).queue = ∅ := by
  ext p
  simp [labels, F.drained]

/-- The distances below the cap are exact. -/
theorem isDist_iff (F : FinalLabels now r graph S st) (hv : v ∈ graph.keys) {w : ℕ}
    (hw : w < 2 ^ 32 - 1) :
    IsDist (effectiveGraph now r graph) r.id v w ↔ (st.distances.val v).toNat = w := by
  rw [← isDist_keyed_iff hv, F.settling.isDist_iff F.queue_empty hw, labels_dist hv]

theorem mem_settled_iff (F : FinalLabels now r graph S st) (hu : u ∈ graph.keys) :
    u ∈ S ↔ ∃ n w, Walk (effectiveGraph now r graph) r.id u n w ∧ w < 2 ^ 32 - 1 := by
  constructor
  · intro h
    obtain ⟨n, hn⟩ := F.settling.walk h
    exact ⟨n, _, (walk_keyed_iff hu).mp hn, F.settling.below u h⟩
  · rintro ⟨n, w, hwalk, hw⟩
    obtain ⟨x, hx, hxw⟩ := hwalk.exists_isDist
    have hval := (F.isDist_iff hu (by omega)).mp hx
    exact F.settling.mem_of_lt F.queue_empty (by rw [labels_dist hu]; omega)

/-- A node that is not a key is in the distances, at 0, exactly when a reached
node has an edge to it. -/
theorem find_unkeyed (F : FinalLabels now r graph S st) (hv : v ∉ graph.keys) :
    st.distances.find v = some 0 ↔ ∃ u n w c, Walk (effectiveGraph now r graph) r.id u n w ∧
      w < 2 ^ 32 - 1 ∧ effectiveGraph now r graph u v c := by
  have hval := F.sound.unkeyed v hv
  have hsome : st.distances.find v = some 0 ↔ (st.distances.find v).isSome := by
    unfold UnorderedMap.val at hval
    cases hfind : st.distances.find v with
    | none => simp
    | some x =>
        rw [hfind, Option.getD_some] at hval
        simp [hval]
  rw [hsome]
  constructor
  · intro h
    obtain ⟨u, hu, c, he⟩ := F.touched v hv h
    obtain ⟨n, w, hwalk, hw⟩ := (F.mem_settled_iff (effectiveGraph_tail he)).mp hu
    exact ⟨u, n, w, c, hwalk, hw, he⟩
  · rintro ⟨u, n, w, c, hwalk, hw, he⟩
    have hu := (F.mem_settled_iff (effectiveGraph_tail he)).mpr ⟨n, w, hwalk, hw⟩
    exact (F.touches u hu v hv c he).resolve_left (by simp)

theorem find_keyed (F : FinalLabels now r graph S st) (hv : v ∈ graph.keys) :
    st.distances.find v = some (st.distances.val v) := by
  obtain ⟨x, hx⟩ := Option.isSome_iff_exists.mp (F.sound.keyed v hv)
  rw [UnorderedMap.val, hx, Option.getD_some]

/-- The parent walk of a reached key stops at a child of the source, and the
label splits at that child. -/
theorem firstHop (F : FinalLabels now r graph S st) (hv : v ∈ graph.keys) (hvr : v ≠ r.id)
    (hlt : (st.distances.val v).toNat < 2 ^ 32 - 1) :
    ∃ h c n w, FirstHop st.parent.find r.id v h ∧ h ∈ graph.keys ∧
      effectiveGraph now r graph r.id h c ∧ (st.distances.val h).toNat = c ∧
      Walk (effectiveGraph now r graph) h v n w ∧ (st.distances.val v).toNat = c + w := by
  have hvS := F.settling.mem_of_lt F.queue_empty (v := v) (by rw [labels_dist hv]; exact hlt)
  obtain ⟨h, c, n, w, hh, he, hw, hdh, hdv⟩ := F.settling.tree.firstHop F.settling.source hvS hvr
  rw [labels_dist he.2] at hdh
  rw [labels_dist hv] at hdv
  exact ⟨h, c, n, w, hh, he.2, he.1, hdh, hw.mono (fun _ _ _ h => h.1), hdv⟩

end FinalLabels

/-! ### The parent walk -/

theorem parentWalk_of_firstHop (H : FirstHop parent.find source v h) :
    Returns (fun fuel => whileFuel (parentStep source parent) fuel v) h := by
  suffices hn : ∃ n, whileFuel (parentStep source parent) n v = some h by
    obtain ⟨n, hn⟩ := hn
    exact (whileFuel_mono _ _).returns hn
  induction H with
  | child hp => exact ⟨1, whileFuel_exit (by simp [parentStep, hp]) 0⟩
  | @up u v h hp hu _ ih =>
      obtain ⟨n, hn⟩ := ih
      have hstep : parentStep source parent v = some u := by simp [parentStep, hp, hu]
      exact ⟨n + 1, by rw [whileFuel_step hstep]; exact hn⟩

/-- A node without a parent is its own next hop. -/
theorem parentWalk_of_none (hp : parent.find v = none) :
    Returns (fun fuel => whileFuel (parentStep source parent) fuel v) v :=
  (whileFuel_mono _ _).returns (whileFuel_exit (n := 0) (by simp [parentStep, hp]))

/-- The next hop `compute_routes` chooses for `dest`. -/
def nextHop (now : ℤ) (r : Router) (graph : TopologyGraph) (dest : NodeId) (fuel : ℕ) :
    Option NodeId :=
  (relaxAll now r graph fuel).bind fun st => whileFuel (parentStep r.id st.parent) fuel dest

theorem nextHop_returns_iff (hst : Returns (relaxAll now r graph) st) :
    Returns (nextHop now r graph d) h ↔
      Returns (fun fuel => whileFuel (parentStep r.id st.parent) fuel d) h := by
  obtain ⟨N, hN⟩ := hst
  constructor
  · rintro ⟨M, hM⟩
    refine ⟨max N M, fun n hn => ?_⟩
    have h1 := hM n (le_trans (le_max_right N M) hn)
    unfold nextHop at h1
    rw [hN n (le_trans (le_max_left N M) hn), Option.bind_some] at h1
    exact h1
  · intro hh
    exact Returns.bind (g := fun n st => whileFuel (parentStep r.id st.parent) n d) ⟨N, hN⟩ hh

/-! ### The table loop -/

/-- The entry pushed for `dest` when the walk stops at `current`. -/
def entryFor (nodeToIp : UnorderedMap NodeId IPv4Address)
    (nodeToMask : UnorderedMap NodeId SubnetMask) (dest : NodeId) (totalCost : UInt32)
    (current : NodeId) : Option RoutingTableEntry :=
  match nodeToIp.find current, nodeToIp.find dest, nodeToMask.find dest with
  | some _, some destIp, some destMask =>
      some ⟨⟨destIp.toU32 &&& destMask.toU32⟩, destMask, current, "eth0", totalCost⟩
  | _, _, _ => none

theorem entryFor_eq_some {totalCost : UInt32} {current : NodeId} {e : RoutingTableEntry} :
    entryFor nodeToIp nodeToMask d totalCost current = some e ↔
      (nodeToIp.find current).isSome ∧ ∃ destIp destMask, nodeToIp.find d = some destIp ∧
        nodeToMask.find d = some destMask ∧
        e = ⟨⟨destIp.toU32 &&& destMask.toU32⟩, destMask, current, "eth0", totalCost⟩ := by
  unfold entryFor
  cases nodeToIp.find current <;> cases nodeToIp.find d <;> cases nodeToMask.find d <;>
    simp [eq_comm]

theorem not_skipped {totalCost : UInt32} :
    ¬ (d = source ∨ totalCost ≥ 999999) ↔ d ≠ source ∧ totalCost < 999999 := by
  rw [not_or, ge_iff_le, UInt32.not_le]

/-- What one iteration of the table loop does, given where the walk stops. -/
theorem routeFor_returns (nodeToIp : UnorderedMap NodeId IPv4Address)
    (nodeToMask : UnorderedMap NodeId SubnetMask) (totalCost : UInt32) {current : NodeId}
    (hwalk : Returns (fun fuel => whileFuel (parentStep source parent) fuel d) current) :
    Returns (routeFor source parent nodeToIp nodeToMask d totalCost)
      (if d = source ∨ totalCost ≥ 999999 then none
        else entryFor nodeToIp nodeToMask d totalCost current) := by
  unfold routeFor
  split_ifs with hskip
  · exact Returns.const none
  · exact hwalk.map _

theorem routeFor_returns_skip {totalCost : UInt32} (h : d = source ∨ totalCost ≥ 999999) :
    Returns (routeFor source parent nodeToIp nodeToMask d totalCost) none := by
  unfold routeFor
  simp only [if_pos h]
  exact Returns.const none

/-- The table loop over any list, when each of its iterations returns. -/
theorem routesFor_returns (l : List (NodeId × UInt32))
    (hl : ∀ p ∈ l, ∃ o, Returns (routeFor source parent nodeToIp nodeToMask p.1 p.2) o) :
    ∃ routes, Returns (routesFor source parent nodeToIp nodeToMask l) routes ∧
      (routes.map Prod.fst).Sublist (l.map Prod.fst) ∧
      ∀ dest e, (dest, e) ∈ routes ↔ ∃ totalCost, (dest, totalCost) ∈ l ∧
        Returns (routeFor source parent nodeToIp nodeToMask dest totalCost) (some e) := by
  induction l with
  | nil => exact ⟨[], Returns.const [], List.Sublist.refl _, by simp⟩
  | cons p l ih =>
      obtain ⟨dest, totalCost⟩ := p
      obtain ⟨routes, hroutes, hsub, hmem⟩ := ih (fun q hq => hl q (List.mem_cons_of_mem _ hq))
      obtain ⟨o, ho⟩ := hl (dest, totalCost) List.mem_cons_self
      have hret : Returns (routesFor source parent nodeToIp nodeToMask ((dest, totalCost) :: l))
          (pushEntry dest o routes) :=
        Returns.bind (g := fun n o =>
          (routesFor source parent nodeToIp nodeToMask l n).map (pushEntry dest o))
          ho (hroutes.map (pushEntry dest o))
      refine ⟨_, hret, ?_, fun dest' e => ?_⟩
      · cases o with
        | none => exact hsub.cons _
        | some e => exact hsub.cons_cons _
      · have hhead : (∃ c, (dest', c) ∈ (dest, totalCost) :: l ∧
            Returns (routeFor source parent nodeToIp nodeToMask dest' c) (some e)) ↔
            (dest' = dest ∧ o = some e) ∨ (dest', e) ∈ routes := by
          rw [hmem]
          constructor
          · rintro ⟨c, hc, hc'⟩
            rcases List.mem_cons.mp hc with heq | hc
            · obtain ⟨rfl, rfl⟩ := Prod.mk.inj heq
              exact Or.inl ⟨rfl, ho.unique hc'⟩
            · exact Or.inr ⟨c, hc, hc'⟩
          · rintro (⟨rfl, rfl⟩ | ⟨c, hc, hc'⟩)
            · exact ⟨totalCost, List.mem_cons_self, ho⟩
            · exact ⟨c, List.mem_cons_of_mem _ hc, hc'⟩
        rw [hhead]
        cases o with
        | none => simp [pushEntry]
        | some e' => simp [pushEntry, eq_comm]

theorem destinationRoutes_of_unkeyed (hr : r.id ∉ graph.keys) :
    Returns (destinationRoutes iter now r graph nodeToIp nodeToMask) ([], r.linkBreakers) := by
  unfold destinationRoutes
  simp only [if_pos (source_keyed_iff.mpr hr)]
  exact Returns.const _

/-- The destination of an entry decides it: `d` gets the entry of its final
distance, or none. -/
theorem destinationRoutes_returns (iter : IterationOrder (NodeId × UInt32))
    (nodeToIp : UnorderedMap NodeId IPv4Address) (nodeToMask : UnorderedMap NodeId SubnetMask)
    (hr : r.id ∈ graph.keys)
    (hst : Returns (relaxAll now r graph) st)
    (hwalk : ∀ dest totalCost, st.distances.find dest = some totalCost → dest ≠ r.id →
      totalCost < 999999 →
        ∃ h, Returns (fun fuel => whileFuel (parentStep r.id st.parent) fuel dest) h) :
    ∃ routes, Returns (destinationRoutes iter now r graph nodeToIp nodeToMask)
        (routes, st.linkBreakers) ∧
      (routes.map Prod.fst).Nodup ∧
      ∀ dest e, (dest, e) ∈ routes ↔ dest ≠ r.id ∧ ∃ totalCost h,
        st.distances.find dest = some totalCost ∧ totalCost < 999999 ∧
        Returns (nextHop now r graph dest) h ∧
        entryFor nodeToIp nodeToMask dest totalCost h = some e := by
  have hmemPairs : ∀ dest totalCost, (dest, totalCost) ∈ iter.order st.distances.toPairs ↔
      st.distances.find dest = some totalCost := by
    intro dest totalCost
    rw [(iter.perm _).mem_iff, UnorderedMap.mem_toPairs]
  have hone : ∀ p ∈ iter.order st.distances.toPairs,
      ∃ o, Returns (routeFor r.id st.parent nodeToIp nodeToMask p.1 p.2) o := by
    rintro ⟨dest, totalCost⟩ hp
    by_cases hskip : dest = r.id ∨ totalCost ≥ 999999
    · exact ⟨none, routeFor_returns_skip hskip⟩
    · rw [not_skipped] at hskip
      obtain ⟨h, hh⟩ := hwalk dest totalCost ((hmemPairs _ _).mp hp) hskip.1 hskip.2
      exact ⟨_, routeFor_returns nodeToIp nodeToMask totalCost hh⟩
  obtain ⟨routes, hroutes, hsub, hmem⟩ := routesFor_returns _ hone
  refine ⟨routes, ?_, ?_, fun dest e => ?_⟩
  · unfold destinationRoutes
    simp only [if_neg (fun h => source_keyed_iff.mp h hr)]
    exact Returns.bind (g := fun n st => (routesFor r.id st.parent nodeToIp nodeToMask
      (iter.order st.distances.toPairs) n).map fun routes => (routes, st.linkBreakers))
      hst (hroutes.map fun routes => (routes, st.linkBreakers))
  · refine hsub.nodup (((iter.perm _).map Prod.fst).nodup_iff.mpr ?_)
    rw [UnorderedMap.map_fst_toPairs]
    exact UnorderedMap.keys_nodup _
  · rw [hmem]
    constructor
    · rintro ⟨totalCost, hp, hret⟩
      by_cases hskip : dest = r.id ∨ totalCost ≥ 999999
      · exact absurd ((routeFor_returns_skip hskip).unique hret) (by simp)
      · have hfind := (hmemPairs _ _).mp hp
        obtain ⟨hne, hlt⟩ := not_skipped.mp hskip
        obtain ⟨h, hh⟩ := hwalk dest totalCost hfind hne hlt
        have heq := (routeFor_returns nodeToIp nodeToMask totalCost hh).unique hret
        rw [if_neg hskip] at heq
        exact ⟨hne, totalCost, h, hfind, hlt, (nextHop_returns_iff hst).mpr hh, heq⟩
    · rintro ⟨hne, totalCost, h, hfind, hlt, hh, hentry⟩
      have hret := routeFor_returns nodeToIp nodeToMask totalCost
        ((nextHop_returns_iff hst).mp hh)
      rw [if_neg (not_skipped.mpr ⟨hne, hlt⟩), hentry] at hret
      exact ⟨totalCost, (hmemPairs _ _).mpr hfind, hret⟩

/-- A call of `compute_routes` returns `r'`, and `routes` are the entries of its
table with the destinations they were pushed for. -/
structure Computed (iter : IterationOrder (NodeId × UInt32)) (now : ℤ) (r : Router)
    (graph : TopologyGraph) (nodeToIp : UnorderedMap NodeId IPv4Address)
    (nodeToMask : UnorderedMap NodeId SubnetMask) (r' : Router)
    (routes : List (NodeId × RoutingTableEntry)) : Prop where
  returns : Returns (computeRoutes iter now r graph nodeToIp nodeToMask) r'
  tagged : Returns (destinationRoutes iter now r graph nodeToIp nodeToMask)
    (routes, r'.linkBreakers)
  table : r'.routingTable = routes.map Prod.snd

theorem computed_of_destinationRoutes {routes : List (NodeId × RoutingTableEntry)}
    {breakers : Breakers}
    (h : Returns (destinationRoutes iter now r graph nodeToIp nodeToMask) (routes, breakers)) :
    Computed iter now r graph nodeToIp nodeToMask
      { r with routingTable := routes.map Prod.snd, linkBreakers := breakers } routes :=
  ⟨h.map _, h, rfl⟩

theorem routeFor_of_mem {l : List (NodeId × UInt32)} {fuel : ℕ}
    {routes : List (NodeId × RoutingTableEntry)} {e : RoutingTableEntry}
    (h : routesFor source parent nodeToIp nodeToMask l fuel = some routes)
    (hmem : (d, e) ∈ routes) :
    ∃ totalCost, (d, totalCost) ∈ l ∧
      routeFor source parent nodeToIp nodeToMask d totalCost fuel = some (some e) := by
  induction l generalizing routes with
  | nil =>
      obtain rfl := Option.some.inj h
      simp at hmem
  | cons p l ih =>
      obtain ⟨o, ho, hrest⟩ := Option.bind_eq_some_iff.mp h
      obtain ⟨rest, hl, rfl⟩ := Option.map_eq_some_iff.mp hrest
      have hold : (d, e) ∈ rest → ∃ totalCost, (d, totalCost) ∈ p :: l ∧
          routeFor source parent nodeToIp nodeToMask d totalCost fuel = some (some e) := by
        intro hmem
        obtain ⟨totalCost, hin, hone⟩ := ih hl hmem
        exact ⟨totalCost, List.mem_cons_of_mem _ hin, hone⟩
      cases o with
      | none => exact hold hmem
      | some e' =>
          rcases List.mem_cons.mp hmem with heq | hmem
          · obtain ⟨rfl, rfl⟩ := Prod.mk.inj heq
            exact ⟨p.2, List.mem_cons_self, ho⟩
          · exact hold hmem

/-- Whatever the topology, a destination in the table is not the source, and its
address and mask are known. -/
theorem Computed.known {r' : Router} {routes : List (NodeId × RoutingTableEntry)}
    (h : Computed iter now r graph nodeToIp nodeToMask r' routes)
    (hd : d ∈ routes.map Prod.fst) :
    d ≠ r.id ∧ (nodeToIp.find d).isSome ∧ (nodeToMask.find d).isSome := by
  obtain ⟨⟨d, e⟩, hde, rfl⟩ := List.mem_map.mp hd
  obtain ⟨N, hN⟩ := h.tagged
  have hrun := hN N le_rfl
  unfold destinationRoutes at hrun
  split_ifs at hrun with hsource
  · obtain ⟨rfl, -⟩ := Prod.mk.inj (Option.some.inj hrun)
    simp at hde
  · obtain ⟨st, -, hrun⟩ := Option.bind_eq_some_iff.mp hrun
    obtain ⟨routes, hroutes, heq⟩ := Option.map_eq_some_iff.mp hrun
    obtain ⟨rfl, -⟩ := Prod.mk.inj heq
    obtain ⟨totalCost, -, hone⟩ := routeFor_of_mem hroutes hde
    unfold routeFor at hone
    split_ifs at hone with hskip
    · simp at hone
    · obtain ⟨current, -, hentry⟩ := Option.map_eq_some_iff.mp hone
      obtain ⟨-, ip, mask, hip, hmask, -⟩ := entryFor_eq_some.mp hentry
      exact ⟨(not_skipped.mp hskip).1, by rw [hip]; rfl, by rw [hmask]; rfl⟩

/-! ### More fuel changes no answer -/

theorem routeFor_mono (dest : NodeId) (totalCost : UInt32) :
    FuelMono (routeFor source parent nodeToIp nodeToMask dest totalCost) := by
  unfold routeFor
  split_ifs
  · exact FuelMono.const _
  · exact (whileFuel_mono _ _).map _

theorem routesFor_mono (l : List (NodeId × UInt32)) :
    FuelMono (routesFor source parent nodeToIp nodeToMask l) := by
  induction l with
  | nil => exact FuelMono.const (some [])
  | cons p l ih =>
      exact FuelMono.bind (g := fun n o =>
          (routesFor source parent nodeToIp nodeToMask l n).map (pushEntry p.1 o))
        (routeFor_mono p.1 p.2) (fun o => ih.map (pushEntry p.1 o))

theorem relaxAll_mono : FuelMono (relaxAll now r graph) :=
  whileFuel_mono _ _

theorem destinationRoutes_mono :
    FuelMono (destinationRoutes iter now r graph nodeToIp nodeToMask) := by
  unfold destinationRoutes
  split_ifs
  · exact FuelMono.const _
  · exact FuelMono.bind (g := fun n st => (routesFor r.id st.parent nodeToIp nodeToMask
        (iter.order st.distances.toPairs) n).map fun routes => (routes, st.linkBreakers))
      relaxAll_mono (fun st => (routesFor_mono _).map _)

/-! ### When the table loop hangs -/

theorem routeFor_isSome_of_routesFor {l : List (NodeId × UInt32)} {fuel : ℕ}
    (h : (routesFor source parent nodeToIp nodeToMask l fuel).isSome) :
    ∀ p ∈ l, (routeFor source parent nodeToIp nodeToMask p.1 p.2 fuel).isSome := by
  induction l with
  | nil => simp
  | cons q l ih =>
      obtain ⟨routes, hroutes⟩ := Option.isSome_iff_exists.mp h
      obtain ⟨o, ho, hrest⟩ := Option.bind_eq_some_iff.mp hroutes
      obtain ⟨rest, hrest, -⟩ := Option.map_eq_some_iff.mp hrest
      intro p hp
      rcases List.mem_cons.mp hp with rfl | hp
      · rw [ho]
        rfl
      · exact ih (by rw [hrest]; rfl) p hp

/-- One destination whose parent walk never stops keeps the whole call from
returning. -/
theorem computeRoutes_diverges (hr : r.id ∈ graph.keys)
    (hst : Returns (relaxAll now r graph) st) {totalCost : UInt32}
    (hfind : st.distances.find d = some totalCost) (hdr : d ≠ r.id) (hlt : totalCost < 999999)
    (hdiv : ∀ fuel, whileFuel (parentStep r.id st.parent) fuel d = none) (fuel : ℕ) :
    computeRoutes iter now r graph nodeToIp nodeToMask fuel = none := by
  by_contra hne
  obtain ⟨r', hr'⟩ := Option.ne_none_iff_exists'.mp hne
  obtain ⟨p, hp, -⟩ := Option.map_eq_some_iff.mp hr'
  unfold destinationRoutes at hp
  rw [if_neg (fun h => source_keyed_iff.mp h hr)] at hp
  obtain ⟨st', hst', hp⟩ := Option.bind_eq_some_iff.mp hp
  obtain rfl := (relaxAll_mono.returns hst').unique hst
  obtain ⟨routes, hroutes, -⟩ := Option.map_eq_some_iff.mp hp
  have hmem : (d, totalCost) ∈ iter.order st'.distances.toPairs := by
    rw [(iter.perm _).mem_iff, UnorderedMap.mem_toPairs]
    exact hfind
  have hsome := routeFor_isSome_of_routesFor (by rw [hroutes]; rfl) _ hmem
  unfold routeFor at hsome
  rw [if_neg (not_skipped.mpr ⟨hdr, hlt⟩), hdiv fuel] at hsome
  simp at hsome

end Netsim.Network
