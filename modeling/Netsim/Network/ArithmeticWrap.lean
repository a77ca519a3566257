import Netsim.Network.ShortestRoutes

/-!
# What wrapped sums do

`current_dist + cost` is a 32-bit sum. `NoLossyWrap` is exactly the condition
under which the relaxation loop ends with the true distances
(`exactLabels_iff`); the parent walks then stop and an Open link is never a next
hop. Where a wrapped sum undercuts a true distance both can fail: two nodes may
end up as each other's parent, and a cost near `2^32` behind an Open link can
cancel its penalty.
-/

namespace Netsim.Network

open Foundation

variable {iter : IterationOrder (NodeId × UInt32)} {now : ℤ} {r : Router}
  {graph : TopologyGraph} {nodeToIp : UnorderedMap NodeId IPv4Address}
  {nodeToMask : UnorderedMap NodeId SubnetMask} {st st' : RelaxState} {u v x : NodeId}
  {d originalCost : UInt32} {P : List (NodeId × UInt32)}

/-! ### What the loop does for arbitrary costs

Whatever wraps, an edge that was scanned with the final label of its tail offers
its head no improvement. -/

/-- No heap entry is below its node's label. A node whose label is below the cap
has an entry with that label, or its edges offer no improvement, apart from the
edges `P` of the node `x` being scanned. -/
structure Covered (now : ℤ) (r : Router) (graph : TopologyGraph) (x : NodeId)
    (P : List (NodeId × UInt32)) (st : RelaxState) : Prop where
  sound : Sound now r graph st
  heap_le : ∀ q ∈ st.minHeap.items, st.distances.val q.2 ≤ q.1
  scanned : ∀ u neighbours, graph.find u = some neighbours →
    st.distances.val u < uint32Max → (st.distances.val u, u) ∈ st.minHeap.items ∨
      ∀ e ∈ neighbours, (u = x ∧ e ∈ P) ∨
        st.distances.val e.1 ≤ st.distances.val u + effectiveCost now r u e.1 e.2

theorem covered_init (hr : r.id ∈ graph.keys) :
    Covered now r graph r.id [] (initRelax r graph) where
  sound := sound_init hr
  heap_le := by
    intro q hq
    obtain rfl := List.mem_singleton.mp hq
    rw [UnorderedMap.val, find_initRelax, if_pos rfl]
    exact UInt32.le_refl _
  scanned := by
    intro u neighbours hfind hlt
    rw [UnorderedMap.val, find_initRelax] at hlt ⊢
    have huk : u ∈ graph.keys := by rw [UnorderedMap.mem_keys, hfind]; rfl
    split_ifs at hlt ⊢ with hur
    · subst hur
      exact Or.inl List.mem_cons_self
    · exact absurd hlt (by decide)

namespace Covered

/-- An edge that improves its head. Should a wrapped sum relabel the scanned node itself,
its new entry covers it. -/
theorem improve {newDist : UInt32} (C : Covered now r graph x ((v, originalCost) :: P) st)
    (hx : st.distances.val x = d ∨ (st.distances.val x, x) ∈ st.minHeap.items)
    (hnew : d + effectiveCost now r x v originalCost = newDist)
    (hlt : newDist < st.distances.val v)
    (hsound : Sound now r graph (improved now r.id x st v originalCost newDist)) :
    Covered now r graph x P (improved now r.id x st v originalCost newDist) ∧
      ((improved now r.id x st v originalCost newDist).distances.val x = d ∨
        ((improved now r.id x st v originalCost newDist).distances.val x, x) ∈
          (improved now r.id x st v originalCost newDist).minHeap.items) := by
  have hval := @val_improved now st x v originalCost r.id newDist
  have hheap : ∀ q, q ∈ (improved now r.id x st v originalCost newDist).minHeap.items ↔
      q = (newDist, v) ∨ q ∈ st.minHeap.items := fun q => MinHeap.mem_push
  have hle : ∀ y, (improved now r.id x st v originalCost newDist).distances.val y ≤
      st.distances.val y := by
    intro y
    rw [hval]
    split_ifs with hy
    · subst hy
      exact UInt32.le_of_lt hlt
    · exact UInt32.le_refl _
  refine ⟨⟨hsound, ?_, ?_⟩, ?_⟩
  · intro q hq
    rcases (hheap q).mp hq with rfl | hq
    · rw [hval, if_pos rfl]
      exact UInt32.le_refl _
    · exact UInt32.le_trans (hle q.2) (C.heap_le q hq)
  · intro u neighbours hfind hlt'
    by_cases huv : u = v
    · exact Or.inl ((hheap _).mpr (Or.inl (by rw [hval, if_pos huv, huv])))
    rw [hval u, if_neg huv] at hlt' ⊢
    by_cases hq : (st.distances.val u, u) ∈ st.minHeap.items
    · exact Or.inl ((hheap _).mpr (Or.inr hq))
    refine Or.inr fun e he => ?_
    rcases ((C.scanned u neighbours hfind hlt').resolve_left hq) e he with
      ⟨rfl, hmem⟩ | hdone
    · rcases List.mem_cons.mp hmem with rfl | hmem
      · apply Or.inr
        rw [hval, if_pos rfl, hx.resolve_right hq, hnew]
        exact UInt32.le_refl _
      · exact Or.inl ⟨rfl, hmem⟩
    · exact Or.inr (UInt32.le_trans (hle e.1) hdone)
  · by_cases hxv : x = v
    · exact Or.inr ((hheap _).mpr (Or.inl (by rw [hval, if_pos hxv, hxv])))
    · rw [hval x, if_neg hxv]
      exact hx.imp id fun hq => (hheap _).mpr (Or.inr hq)

theorem scan (C : Covered now r graph x ((v, originalCost) :: P) st)
    (hx : st.distances.val x = d ∨ (st.distances.val x, x) ∈ st.minHeap.items)
    (hlt : ¬d + effectiveCost now r x v originalCost < st.distances.val v)
    (hsound : Sound now r graph (unimproved now r.id x st v originalCost)) :
    Covered now r graph x P (unimproved now r.id x st v originalCost) ∧
      ((unimproved now r.id x st v originalCost).distances.val x = d ∨
        ((unimproved now r.id x st v originalCost).distances.val x, x) ∈
          (unimproved now r.id x st v originalCost).minHeap.items) := by
  have hval := @val_unimproved now st x v originalCost r.id
  refine ⟨⟨hsound, fun q hq => hval q.2 ▸ C.heap_le q hq, ?_⟩, hval x ▸ hx⟩
  intro u neighbours hfind hlt'
  simp only [hval] at hlt' ⊢
  by_cases hq : (st.distances.val u, u) ∈ st.minHeap.items
  · exact Or.inl hq
  refine Or.inr fun e he => ?_
  rcases ((C.scanned u neighbours hfind hlt').resolve_left hq) e he with ⟨rfl, hmem⟩ | hdone
  · rcases List.mem_cons.mp hmem with rfl | hmem
    · apply Or.inr
      rw [hx.resolve_right hq]
      exact UInt32.not_lt.mp hlt
    · exact Or.inl ⟨rfl, hmem⟩
  · exact Or.inr hdone

theorem edge {e : NodeId × UInt32} (C : Covered now r graph x (e :: P) st)
    (hx : st.distances.val x = d ∨ (st.distances.val x, x) ∈ st.minHeap.items) :
    Covered now r graph x P (relaxEdge now r.id x d st e) ∧
      ((relaxEdge now r.id x d st e).distances.val x = d ∨
        ((relaxEdge now r.id x d st e).distances.val x, x) ∈
          (relaxEdge now r.id x d st e).minHeap.items) := by
  obtain ⟨v, originalCost⟩ := e
  have hsound := C.sound.relaxEdge x v d originalCost
  rw [relaxEdge_eq C.sound.breakers] at hsound ⊢
  split_ifs at hsound ⊢ with hlt
  · exact C.improve hx rfl hlt hsound
  · exact C.scan hx hlt hsound

theorem edges : ∀ (P : List (NodeId × UInt32)) {st : RelaxState}, Covered now r graph x P st →
    (st.distances.val x = d ∨ (st.distances.val x, x) ∈ st.minHeap.items) →
    Covered now r graph x [] (P.foldl (relaxEdge now r.id x d) st) := by
  intro P
  induction P with
  | nil => exact fun C _ => C
  | cons e P ih =>
      intro st C hx
      obtain ⟨C', hx'⟩ := C.edge hx
      exact ih C' hx'

theorem round (C : Covered now r graph x [] st)
    (h : relaxRound now r.id graph st = some st') : ∃ x', Covered now r graph x' [] st' := by
  obtain ⟨d, u, minHeap, hitems, -, hcases⟩ := relaxRound_cases h
  have hsound := C.sound.popped hitems
  have hval : ∀ y, (popped st u minHeap).distances.val y = st.distances.val y :=
    fun y => UnorderedMap.val_at' _ _ _
  have hheap : ∀ q ∈ (popped st u minHeap).minHeap.items,
      (popped st u minHeap).distances.val q.2 ≤ q.1 := by
    intro q hq
    rw [hval]
    exact C.heap_le q (by rw [hitems]; exact List.mem_cons_of_mem _ hq)
  have hkeep : ∀ y, (st.distances.val y, y) ∈ st.minHeap.items →
      (st.distances.val y, y) ∈ minHeap.items ∨ (st.distances.val u = d ∧ y = u) := by
    intro y hy
    rw [hitems] at hy
    rcases List.mem_cons.mp hy with heq | hy
    · obtain ⟨hd, rfl⟩ := Prod.mk.inj heq
      exact Or.inr ⟨hd, rfl⟩
    · exact Or.inl hy
  rcases hcases with ⟨hstale, rfl⟩ | ⟨-, hnone, -⟩ | ⟨hcur, neighbours, hfind, rfl⟩
  · refine ⟨x, hsound, hheap, fun y nb hy hlt => ?_⟩
    simp only [hval] at hlt ⊢
    rcases C.scanned y nb hy hlt with hq | hdone
    · refine Or.inl ((hkeep y hq).resolve_right ?_)
      rintro ⟨hd, -⟩
      rw [hd] at hstale
      exact UInt32.lt_irrefl d hstale
    · exact Or.inr hdone
  · rw [UnorderedMap.find_eq_none] at hnone
    exact absurd (C.sound.heap_keyed (d, u) (by rw [hitems]; exact List.mem_cons_self)) hnone
  · have hd : st.distances.val u = d :=
      UInt32.le_antisymm (C.heap_le (d, u) (by rw [hitems]; exact List.mem_cons_self))
        (UInt32.not_lt.mp hcur)
    refine ⟨u, edges neighbours ⟨hsound, hheap, fun y nb hy hlt => ?_⟩ (Or.inl ((hval u).trans hd))⟩
    simp only [hval] at hlt ⊢
    rcases C.scanned y nb hy hlt with hq | hdone
    · apply (hkeep y hq).imp id
      rintro ⟨-, rfl⟩ e he
      obtain rfl := Option.some.inj (hfind.symm.trans hy)
      exact Or.inl ⟨rfl, he⟩
    · exact Or.inr fun e he => Or.inr ((hdone e he).resolve_left (by simp))

end Covered

/-- At the end no edge offers an improvement, in 32-bit arithmetic. -/
theorem relaxAll_relaxed (hr : r.id ∈ graph.keys) (hst : Returns (relaxAll now r graph) st)
    {c : ℕ} (he : effectiveGraph now r graph u v c) (hlt : st.distances.val u < uint32Max) :
    (st.distances.val v).toNat ≤ ((st.distances.val u).toNat + c) % 2 ^ 32 := by
  obtain ⟨N, hN⟩ := hst
  obtain ⟨⟨x, C⟩, hexit⟩ := whileFuel_invariant (fun st => ∃ x, Covered now r graph x [] st)
    (fun _ _ ⟨_, C⟩ h => C.round h) ⟨r.id, covered_init hr⟩ (hN N le_rfl)
  have hempty := relaxRound_eq_none.mp hexit
  obtain ⟨neighbours, originalCost, hfind, hmem, rfl⟩ := he
  rcases C.scanned u neighbours hfind hlt with hq | hdone
  · rw [hempty] at hq
    exact absurd hq List.not_mem_nil
  · have hle := (hdone _ hmem).resolve_left (fun h => List.not_mem_nil h.2)
    rw [UInt32.le_iff_toNat_le, UInt32.toNat_add] at hle
    exact hle

/-! ### The exact boundary -/

/-- The loop ends with the distances of the keys, where they are below the cap. -/
def ExactLabels (now : ℤ) (r : Router) (graph : TopologyGraph) : Prop :=
  ∃ st, Returns (relaxAll now r graph) st ∧ ∀ v ∈ graph.keys, ∀ w, w < 2 ^ 32 - 1 →
    (IsDist (effectiveGraph now r graph) r.id v w ↔ (st.distances.val v).toNat = w)

/-- **`NoLossyWrap` is exact.** The labels come out right if and only if no sum
wraps below a true distance. -/
theorem exactLabels_iff (hr : r.id ∈ graph.keys) :
    ExactLabels now r graph ↔ NoLossyWrap now r graph := by
  constructor
  · rintro ⟨st, hst, hexact⟩ u w v c hw hlt he hv
    have hval := (hexact u (effectiveGraph_tail he) w hlt).mp hw
    have hle := relaxAll_relaxed hr hst he (by
      rw [UInt32.lt_iff_toNat_lt, hval]
      exact hlt)
    rw [hval] at hle
    have hc := effectiveGraph_lt he
    by_cases hmax : (st.distances.val v).toNat < 2 ^ 32 - 1
    · obtain ⟨n, hn⟩ := ((hexact v hv _ hmax).mpr rfl).walk
      exact ⟨n, _, hn, hle⟩
    · -- the sum is the cap itself, which no wrapped sum can be
      obtain ⟨n, hn⟩ := hw.walk
      exact ⟨n + 1, w + c, hn.snoc he, by omega⟩
  · intro H
    obtain ⟨st, hst⟩ := relaxAll_returns now hr
    obtain ⟨S, F⟩ := finalLabels H hr hst
    exact ⟨st, hst, fun v hv w hw => F.isDist_iff hv hw⟩

/-! ### Termination of the whole call -/

/-- **Both loops stop** when no sum wraps below a true distance: the relaxation
loop, the parent walk of every destination the table loop looks at, and with them
the call. -/
theorem computeRoutes_terminates (iter : IterationOrder (NodeId × UInt32)) (now : ℤ) (r : Router)
    (graph : TopologyGraph) (nodeToIp : UnorderedMap NodeId IPv4Address)
    (nodeToMask : UnorderedMap NodeId SubnetMask) (H : NoLossyWrap now r graph) :
    (r.id ∈ graph.keys → ∃ st, Returns (relaxAll now r graph) st ∧
      ∀ dest totalCost, st.distances.find dest = some totalCost → dest ≠ r.id →
        totalCost < 999999 →
          ∃ h, Returns (fun fuel => whileFuel (parentStep r.id st.parent) fuel dest) h) ∧
    ∃ r', Returns (computeRoutes iter now r graph nodeToIp nodeToMask) r' := by
  constructor
  · intro hr
    obtain ⟨st, hst⟩ := relaxAll_returns now hr
    obtain ⟨S, F⟩ := finalLabels H hr hst
    exact ⟨st, hst, F.walk_returns⟩
  · by_cases hr : r.id ∈ graph.keys
    · obtain ⟨st, S, routes, -, -, hroutes, -⟩ :=
        routes_of_noLossyWrap iter nodeToIp nodeToMask H hr
      exact ⟨_, (computed_of_destinationRoutes hroutes).returns⟩
    · exact ⟨_, (computed_of_destinationRoutes (destinationRoutes_of_unkeyed hr)).returns⟩

theorem computeRoutes_terminates_triangle :
    ∃ r', Returns (computeRoutes (IterationOrder.stored _) 0 (routerWithId 1) triangle triangleIp
      triangleMask) r' :=
  (computeRoutes_terminates (IterationOrder.stored _) 0 (routerWithId 1) triangle triangleIp
    triangleMask triangle_noOverflow.noLossyWrap).2

/-- Routers 2 and 3 joined by links at the cost of a link that is down. -/
def downPair : TopologyGraph :=
  UnorderedMap.ofPairs [(1, [(2, 2)]), (2, [(3, 4294967295)]), (3, [(2, 4294967295)])]

/-- Each of the two sums wraps to one less than the label it started from, and
the two routers end up as each other's parent: the walk from router 2 never
meets the source. -/
theorem downPair_diverges :
    ClosedGraph downPair ∧ ∀ fuel, computeRoutes (IterationOrder.stored _) 0 (routerWithId 1)
      downPair triangleIp triangleMask fuel = none := by
  have hrun : (relaxAll 0 (routerWithId 1) downPair 8).map (fun st =>
      (st.distances.find 2, st.parent.find 2, st.parent.find 3)) =
        some (some 0, some 3, some 2) := by
    decide +kernel
  obtain ⟨st, hst, heq⟩ := Option.map_eq_some_iff.mp hrun
  obtain ⟨hfind, h⟩ := Prod.mk.inj heq
  obtain ⟨hp2, hp3⟩ := Prod.mk.inj h
  refine ⟨by decide +kernel, computeRoutes_diverges (by decide +kernel)
    (relaxAll_mono.returns hst) hfind (by decide) (by decide) fun fuel => ?_⟩
  refine whileFuel_diverges (fun current => current = 2 ∨ current = 3) ?_ fuel (Or.inl rfl)
  rintro current (rfl | rfl)
  · exact ⟨3, by simp [parentStep, hp2, routerWithId], Or.inr rfl⟩
  · exact ⟨2, by simp [parentStep, hp3, routerWithId], Or.inl rfl⟩

/-! ### Open links -/

/-- **An Open link is never used** when no sum wraps below a true distance: an
entry through it would cost at least the penalty, which the cut-off excludes. -/
theorem computeRoutes_avoids_open (iter : IterationOrder (NodeId × UInt32)) (now : ℤ) (r : Router)
    (graph : TopologyGraph) (nodeToIp : UnorderedMap NodeId IPv4Address)
    (nodeToMask : UnorderedMap NodeId SubnetMask) (hclosed : ClosedGraph graph)
    (H : NoLossyWrap now r graph) {r' : Router}
    (hr' : Returns (computeRoutes iter now r graph nodeToIp nodeToMask) r') :
    ∀ e ∈ r'.routingTable, reportsOpen now r.linkBreakers e.nextHopId = false := by
  obtain ⟨routes, breakers, hroutes, -, hmem⟩ :=
    destinationRoutes_spec iter nodeToIp nodeToMask hclosed H
  obtain rfl := (computed_of_destinationRoutes hroutes).returns.unique hr'
  intro e he
  obtain ⟨⟨d, e⟩, hde, rfl⟩ := List.mem_map.mp he
  have R := (hmem d e).mp hde
  have hbelow := R.below
  obtain ⟨h, c, x, hh, hc, -, -, hsum⟩ := nextHop_spec hclosed H R.ne_source R.dist (by omega)
  obtain rfl := hh.unique R.hop
  obtain ⟨_, originalCost, -, -, hcost⟩ := hc.1
  rw [Bool.eq_false_iff]
  intro hopen
  rw [effectiveCost, if_pos ⟨rfl, hopen⟩] at hcost
  change c = 999999 at hcost
  show False
  omega

theorem computeRoutes_avoids_open_triangle :
    reportsOpen 0 routerWithOpenLink.linkBreakers 2 = true ∧
    ∃ r', Returns (computeRoutes (IterationOrder.stored _) 0 routerWithOpenLink triangle triangleIp
        triangleMask) r' ∧
      ∀ e ∈ r'.routingTable, reportsOpen 0 routerWithOpenLink.linkBreakers e.nextHopId = false := by
  obtain ⟨routes, breakers, hroutes, -⟩ := destinationRoutes_spec (IterationOrder.stored _)
    triangleIp triangleMask triangle_closed triangle_noOverflow_open.noLossyWrap
  have hret := (computed_of_destinationRoutes hroutes).returns
  exact ⟨by decide +kernel, _, hret, computeRoutes_avoids_open (IterationOrder.stored _) 0
    routerWithOpenLink triangle triangleIp triangleMask triangle_closed
    triangle_noOverflow_open.noLossyWrap hret⟩

/-- A link whose cost makes up, modulo `2^32`, for the penalty before it. -/
def penaltyBack : TopologyGraph :=
  UnorderedMap.ofPairs [(1, [(2, 1)]), (2, [(3, 4293967302)]), (3, [])]

/-- `999999 + 4293967302` wraps to 5, below the cut-off, and router 3 gets a
route over the Open link. -/
theorem penaltyBack_uses_open :
    ClosedGraph penaltyBack ∧ reportsOpen 0 routerWithOpenLink.linkBreakers 2 = true ∧
    ∃ r' e, Returns (computeRoutes (IterationOrder.stored _) 0 routerWithOpenLink penaltyBack
        triangleIp triangleMask) r' ∧
      e ∈ r'.routingTable ∧ e.nextHopId = 2 ∧ e.metric = 5 := by
  have hrun : (destinationRoutes (IterationOrder.stored _) 0 routerWithOpenLink penaltyBack
      triangleIp triangleMask 8).map Prod.fst =
        some [(3, ⟨⟨0x0A000300⟩, ⟨0xFFFFFF00⟩, 2, "eth0", 5⟩)] := by
    decide +kernel
  obtain ⟨⟨routes, breakers⟩, hrun, rfl⟩ := Option.map_eq_some_iff.mp hrun
  exact ⟨by decide +kernel, by decide +kernel, _, _,
    (computed_of_destinationRoutes (destinationRoutes_mono.returns hrun)).returns,
    List.mem_singleton.mpr rfl, rfl, rfl⟩

end Netsim.Network
