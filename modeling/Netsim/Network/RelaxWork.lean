import Netsim.Network.LookupOrder

/-!
# The work of a route computation

The heap holds an entry for every improvement, and outdated entries are dropped when they
come up. No entry is there twice, and a settled node has none that is up to date, so the
edges of a node are scanned once (`Rounds.budget`): the loop takes at most one round for
each link and one for the source, and the walk to a next hop at most one step for each node
(`computeRoutes_work`).
-/

namespace Netsim.Network

open Foundation

variable {now : ℤ} {r : Router} {graph : TopologyGraph} {st st' : RelaxState}
  {u v : NodeId} {d originalCost : UInt32} {S : List NodeId} {P : Set (NodeId × NodeId × ℕ)}
  {neighbours : List (NodeId × UInt32)}

/-- The number of links of a node, and of a graph. -/
def degree (graph : TopologyGraph) (u : NodeId) : ℕ := ((graph.find u).getD []).length

def links (graph : TopologyGraph) : ℕ := ∑ u ∈ graph.keys.toFinset, degree graph u

/-- The heap once the nodes of `S` are settled. -/
structure Queue (S : List NodeId) (st : RelaxState) : Prop where
  nodup : st.minHeap.items.Nodup
  outdated : ∀ u ∈ S, (st.distances.val u, u) ∉ st.minHeap.items

namespace Queue

theorem push (Q : Queue S st) (I : RoundInv now r graph P S st) (hvS : v ∉ S)
    (hvk : v ∈ graph.keys) {newDist : UInt32} (hlt : newDist < st.distances.val v) :
    Queue S (improved now r.id u st v originalCost newDist) where
  nodup := by
    refine ((MinHeap.perm_push _ _).nodup_iff).mpr (List.nodup_cons.mpr ⟨fun hmem => ?_, Q.nodup⟩)
    have hle := (I.settling.queue_le newDist.toNat v ⟨_, hmem, rfl⟩).1
    rw [labels_dist hvk] at hle
    rw [UInt32.lt_iff_toNat_lt] at hlt
    omega
  outdated := by
    intro x hx
    have hxv : x ≠ v := fun heq => hvS (heq ▸ hx)
    rw [val_improved, if_neg hxv]
    show _ ∉ (st.minHeap.push (newDist, v)).items
    rw [MinHeap.mem_push, not_or]
    exact ⟨fun heq => hxv (Prod.mk.inj heq).2, Q.outdated x hx⟩

theorem unimproved (Q : Queue S st) : Queue S (unimproved now r.id u st v originalCost) where
  nodup := Q.nodup
  outdated := by
    intro x hx
    rw [val_unimproved]
    exact Q.outdated x hx

theorem tail (Q : Queue S st) {minHeap : MinHeap pathNodeLe}
    (hitems : st.minHeap.items = (d, u) :: minHeap.items) :
    Queue S (popped st u minHeap) where
  nodup := (List.nodup_cons.mp (hitems ▸ Q.nodup)).2
  outdated := by
    intro x hx hmem
    simp only [popped, UnorderedMap.val_at'] at hmem
    exact Q.outdated x hx (by rw [hitems]; exact List.mem_cons_of_mem _ hmem)

/-- The node that comes up is settled: its entry was there once. -/
theorem settle (Q : Queue S st) {minHeap : MinHeap pathNodeLe}
    (hitems : st.minHeap.items = (d, u) :: minHeap.items) (hd : st.distances.val u = d) :
    Queue (u :: S) (popped st u minHeap) where
  nodup := (Q.tail hitems).nodup
  outdated := by
    intro x hx
    rcases List.mem_cons.mp hx with rfl | hx
    · simp only [popped, UnorderedMap.val_at', hd]
      exact (List.nodup_cons.mp (hitems ▸ Q.nodup)).1
    · exact (Q.tail hitems).outdated x hx

/-- One edge adds one entry at most. -/
theorem edge (Q : Queue S st) (H : NoLossyWrap now r graph) (I : RoundInv now r graph P S st)
    (hu : u ∈ S) (hd : st.distances.val u = d) (hfind : graph.find u = some neighbours)
    (hmem : (v, originalCost) ∈ neighbours) :
    Queue S (relaxEdge now r.id u d st (v, originalCost)) ∧
      (relaxEdge now r.id u d st (v, originalCost)).minHeap.items.length ≤
        st.minHeap.items.length + 1 := by
  have he : effectiveGraph now r graph u v (effectiveCost now r u v originalCost).toNat :=
    ⟨neighbours, originalCost, hfind, hmem, rfl⟩
  rw [relaxEdge_eq I.sound.breakers]
  split_ifs with hlt
  · have hvk : v ∈ graph.keys := I.sound.mem_of_lt hlt
    have hsum := I.sum_exact H hu hd he hlt
    have hvS : v ∉ S := by
      apply I.settling.notMem_of_improves hu ⟨he, hvk⟩
      rw [labels_dist hvk, labels_dist (effectiveGraph_tail he), hd, ← hsum]
      exact UInt32.lt_iff_toNat_lt.mp hlt
    exact ⟨Q.push I hvS hvk hlt, (MinHeap.length_push _ _).le⟩
  · exact ⟨Q.unimproved, Nat.le_succ _⟩

/-- All edges of a settled node. -/
theorem edges (H : NoLossyWrap now r graph) (hfind : graph.find u = some neighbours)
    (hu : u ∈ S) : ∀ (rest : List (NodeId × UInt32)) {st : RelaxState},
      (∀ e ∈ rest, e ∈ neighbours) → st.distances.val u = d →
      RoundInv now r graph (RoundInv.owed now r u rest) S st → Queue S st →
      Queue S (rest.foldl (relaxEdge now r.id u d) st) ∧
        (rest.foldl (relaxEdge now r.id u d) st).minHeap.items.length ≤
          st.minHeap.items.length + rest.length := by
  intro rest
  induction rest with
  | nil => exact fun {st} _ _ _ Q => ⟨Q, le_rfl⟩
  | cons e rest ih =>
      obtain ⟨v, originalCost⟩ := e
      intro st hsub hd I Q
      have hmem := hsub (v, originalCost) List.mem_cons_self
      obtain ⟨I', hd'⟩ := I.edge H hu hd hfind hmem
      obtain ⟨Q', hlen⟩ := Q.edge H I hu hd hfind hmem
      have I'' : RoundInv now r graph (RoundInv.owed now r u rest) S
          (relaxEdge now r.id u d st (v, originalCost)) := by
        apply I'.mono
        rintro p ⟨⟨e', he', rfl⟩, hne⟩
        rcases List.mem_cons.mp he' with rfl | he'
        · exact absurd rfl hne
        · exact ⟨e', he', rfl⟩
      obtain ⟨Q'', hlen'⟩ := ih (fun e' he' => hsub e' (List.mem_cons_of_mem _ he')) hd' I'' Q'
      rw [List.foldl_cons, List.length_cons]
      exact ⟨Q'', by omega⟩

theorem init (r : Router) (graph : TopologyGraph) : Queue [] (initRelax r graph) where
  nodup := List.nodup_singleton _
  outdated := fun _ hu => absurd hu List.not_mem_nil

end Queue

/-! ### The rounds -/

/-- The links of the nodes that are still to be scanned. -/
def unscanned (graph : TopologyGraph) (S : List NodeId) : ℕ :=
  ∑ u ∈ graph.keys.toFinset \ S.toFinset, degree graph u

theorem unscanned_cons (hu : u ∈ graph.keys) (huS : u ∉ S) :
    degree graph u + unscanned graph (u :: S) = unscanned graph S := by
  have hmem : u ∈ graph.keys.toFinset \ S.toFinset := by simp [hu, huS]
  unfold unscanned
  rw [List.toFinset_cons, Finset.sdiff_insert, Finset.add_sum_erase _ _ hmem]

/-- The node whose links the next round scans; it scans none for an outdated entry. -/
def scanned (graph : TopologyGraph) (st : RelaxState) : Option NodeId :=
  match st.minHeap.items with
  | [] => none
  | (currentDist, u) :: _ =>
      if currentDist > st.distances.val u then none else (graph.find u).map fun _ => u

/-- The loop after `k` rounds, with the nodes whose links it has scanned. -/
inductive Rounds (now : ℤ) (r : Router) (graph : TopologyGraph) :
    ℕ → List NodeId → RelaxState → Prop where
  | start : Rounds now r graph 0 [] (initRelax r graph)
  | round {k : ℕ} {S : List NodeId} {st st' : RelaxState} (before : Rounds now r graph k S st)
      (h : relaxRound now r.id graph st = some st') :
      Rounds now r graph (k + 1) ((scanned graph st).toList ++ S) st'

/-- The states of the loop, those between two links of a node included. -/
inductive Visits (now : ℤ) (r : Router) (graph : TopologyGraph) : RelaxState → Prop where
  | rounds {k : ℕ} {S : List NodeId} {st : RelaxState} (h : Rounds now r graph k S st) :
      Visits now r graph st
  | links {k : ℕ} {S : List NodeId} {st : RelaxState} {u : NodeId} {currentDist : UInt32}
      {minHeap : MinHeap pathNodeLe} {done rest : List (NodeId × UInt32)}
      (h : Rounds now r graph k S st)
      (hitems : st.minHeap.items = (currentDist, u) :: minHeap.items)
      (hcur : ¬ currentDist > st.distances.val u) (hfind : graph.find u = some (done ++ rest)) :
      Visits now r graph (done.foldl (relaxEdge now r.id u currentDist) (popped st u minHeap))

/-- What is left to do: the entries of the heap, and the links of the nodes that are not in
`S`. -/
structure Budget (now : ℤ) (r : Router) (graph : TopologyGraph) (k : ℕ) (S : List NodeId)
    (st : RelaxState) : Prop where
  settled : RoundInv now r graph ∅ S st
  queue : Queue S st
  nodup : S.Nodup
  left : st.minHeap.items.length + unscanned graph S ≤ k

theorem budget_init (hr : r.id ∈ graph.keys) :
    Budget now r graph (links graph + 1) [] (initRelax r graph) where
  settled := roundInv_init hr
  queue := Queue.init r graph
  nodup := List.nodup_nil
  left := by
    show 1 + unscanned graph [] ≤ links graph + 1
    unfold unscanned links
    rw [List.toFinset_nil, Finset.sdiff_empty, Nat.add_comm]

namespace Budget

variable {k : ℕ} {minHeap : MinHeap pathNodeLe}

/-- An up-to-date entry is that of a node which has not been scanned. -/
theorem notMem (B : Budget now r graph k S st)
    (hitems : st.minHeap.items = (d, u) :: minHeap.items) (hcur : ¬ d > st.distances.val u) :
    st.distances.val u = d ∧ u ∉ S := by
  have hd := B.settled.top_current hitems hcur
  refine ⟨hd, fun huS => B.queue.outdated u huS ?_⟩
  rw [hd, hitems]
  exact List.mem_cons_self

/-- All links of the node that has come up. -/
theorem scan (H : NoLossyWrap now r graph) (B : Budget now r graph k S st)
    (hitems : st.minHeap.items = (d, u) :: minHeap.items)
    (hmin : ∀ q ∈ minHeap.items, pathNodeLe (d, u) q) (hcur : ¬ d > st.distances.val u)
    (hfind : graph.find u = some neighbours) :
    RoundInv now r graph ∅ (u :: S)
        (neighbours.foldl (relaxEdge now r.id u d) (popped st u minHeap)) ∧
      Queue (u :: S) (neighbours.foldl (relaxEdge now r.id u d) (popped st u minHeap)) ∧
      (neighbours.foldl (relaxEdge now r.id u d) (popped st u minHeap)).minHeap.items.length ≤
        minHeap.items.length + neighbours.length := by
  obtain ⟨hd, huS⟩ := B.notMem hitems hcur
  have hd' : (popped st u minHeap).distances.val u = d := by
    simp only [popped, UnorderedMap.val_at']
    exact hd
  have I' := B.settled.popSettle hitems hmin huS hd hfind
  have hQ := Queue.edges H hfind List.mem_cons_self neighbours (fun _ he => he) hd' I'
    (B.queue.settle hitems hd)
  exact ⟨RoundInv.edges H hfind List.mem_cons_self neighbours (fun _ he => he) hd' I', hQ⟩

/-- A round takes an entry off the heap; those that it adds are paid for by the links of
the node that it scans. -/
theorem round (H : NoLossyWrap now r graph) (B : Budget now r graph k S st)
    (h : relaxRound now r.id graph st = some st') :
    ∃ j, j < k ∧ Budget now r graph j ((scanned graph st).toList ++ S) st' := by
  obtain ⟨d, u, minHeap, hitems, hmin, hcases⟩ := relaxRound_cases h
  have huk : u ∈ graph.keys :=
    B.settled.sound.heap_keyed (d, u) (by rw [hitems]; exact List.mem_cons_self)
  have hlen : st.minHeap.items.length = minHeap.items.length + 1 := by
    rw [hitems, List.length_cons]
  have hleft := B.left
  unfold scanned
  rw [hitems]
  dsimp only
  rcases hcases with ⟨hstale, rfl⟩ | ⟨-, hnone, -⟩ | ⟨hcur, neighbours, hfind, rfl⟩
  · rw [if_pos hstale]
    exact ⟨minHeap.items.length + unscanned graph S, by omega,
      B.settled.pop hitems huk (Or.inr hstale), B.queue.tail hitems, B.nodup, le_rfl⟩
  · rw [UnorderedMap.find_eq_none] at hnone
    exact absurd huk hnone
  · obtain ⟨I', Q', hpushed⟩ := B.scan H hitems hmin hcur hfind
    have huS : u ∉ S := (B.notMem hitems hcur).2
    have hscanned := unscanned_cons huk huS
    have hdegree : degree graph u = neighbours.length := by
      unfold degree
      rw [hfind, Option.getD_some]
    rw [if_neg hcur, hfind]
    change ∃ j, j < k ∧ Budget now r graph j (u :: S) _
    exact ⟨_, by omega, I', Q', List.nodup_cons.mpr ⟨huS, B.nodup⟩, le_rfl⟩

end Budget

theorem relaxAll_isSome (H : NoLossyWrap now r graph) (hr : r.id ∈ graph.keys) :
    (relaxAll now r graph (links graph + 2)).isSome := by
  apply whileFuel_within (fun k st => ∃ S, Budget now r graph k S st)
  · rintro k st st' ⟨S, B⟩ h
    obtain ⟨j, hj, B'⟩ := B.round H h
    exact ⟨j, hj, _, B'⟩
  · exact ⟨[], budget_init hr⟩

/-- The rounds so far and what is left make up the budget. -/
theorem Rounds.budget {k : ℕ} (H : NoLossyWrap now r graph) (hr : r.id ∈ graph.keys)
    (R : Rounds now r graph k S st) : ∃ j, j + k ≤ links graph + 1 ∧ Budget now r graph j S st := by
  induction R with
  | start => exact ⟨links graph + 1, le_rfl, budget_init hr⟩
  | round before h ih =>
      obtain ⟨j, hj, B⟩ := ih
      obtain ⟨i, hi, B'⟩ := B.round H h
      exact ⟨i, by omega, B'⟩

/-- Entries are only added while links are scanned. -/
theorem nodup_of_relaxEdges {now : ℤ} {source : NodeId} (rest : List (NodeId × UInt32)) :
    ∀ {st : RelaxState}, (rest.foldl (relaxEdge now source u d) st).minHeap.items.Nodup →
      st.minHeap.items.Nodup := by
  induction rest with
  | nil => exact fun h => h
  | cons e rest ih =>
      obtain ⟨v, originalCost⟩ := e
      intro st h
      have hedge := ih h
      unfold relaxEdge at hedge
      dsimp only at hedge
      split_ifs at hedge
      · exact (List.nodup_cons.mp ((MinHeap.perm_push _ _).nodup_iff.mp hedge)).2
      · exact hedge

/-- No entry is there twice. -/
theorem Visits.nodup (H : NoLossyWrap now r graph) (hr : r.id ∈ graph.keys)
    (h : Visits now r graph st) : st.minHeap.items.Nodup := by
  cases h with
  | rounds R =>
      obtain ⟨j, -, B⟩ := R.budget H hr
      exact B.queue.nodup
  | @links _ _ st u d minHeap done rest R hitems hcur hfind =>
      obtain ⟨j, -, B⟩ := R.budget H hr
      have hmin : ∀ q ∈ minHeap.items, pathNodeLe (d, u) q :=
        (List.pairwise_cons.mp (hitems ▸ st.minHeap.sorted)).1
      obtain ⟨-, Q, -⟩ := B.scan H hitems hmin hcur hfind
      have hall := Q.nodup
      rw [List.foldl_append] at hall
      exact nodup_of_relaxEdges rest hall

/-! ### The walks -/

/-- A walk that stops does so within as many steps as there are nodes. -/
theorem parentWalk_isSome (hsound : Sound now r graph st) {h : NodeId}
    (hwalk : Returns (fun fuel => whileFuel (parentStep r.id st.parent) fuel v) h) :
    (whileFuel (parentStep r.id st.parent) (graph.keys.length + 1) v).isSome := by
  have hkeyed : ∀ x y, parentStep r.id st.parent x = some y → x ∈ graph.keys.toFinset := by
    intro x y hstep
    apply List.mem_toFinset.mpr
    apply hsound.parent_keyed
    unfold parentStep at hstep
    cases hp : st.parent.find x with
    | none => simp [hp] at hstep
    | some p => rfl
  apply whileFuel_isSome_mono _ (Nat.succ_le_succ (List.toFinset_card_le graph.keys))
  rw [whileFuel_within_card hkeyed hwalk]
  rfl

theorem routesFor_isSome {source : NodeId} {parent : UnorderedMap NodeId NodeId}
    {nodeToIp : UnorderedMap NodeId IPv4Address} {nodeToMask : UnorderedMap NodeId SubnetMask}
    {fuel : ℕ} (l : List (NodeId × UInt32))
    (h : ∀ p ∈ l, (routeFor source parent nodeToIp nodeToMask p.1 p.2 fuel).isSome) :
    (routesFor source parent nodeToIp nodeToMask l fuel).isSome := by
  induction l with
  | nil => rfl
  | cons p l ih =>
      obtain ⟨hp, hl⟩ := List.forall_mem_cons.mp h
      obtain ⟨entry, hentry⟩ := Option.isSome_iff_exists.mp hp
      obtain ⟨routes, hroutes⟩ := Option.isSome_iff_exists.mp (ih hl)
      rw [routesFor, hentry, Option.bind_some, hroutes]
      rfl

/-- Each walk to a next hop, once the labels are final. -/
theorem nextHopWalk_isSome (H : NoLossyWrap now r graph) (hr : r.id ∈ graph.keys) {fuel : ℕ}
    (hst : relaxAll now r graph fuel = some st) {dest : NodeId} {totalCost : UInt32}
    (hfind : st.distances.find dest = some totalCost) (hne : dest ≠ r.id)
    (hlt : totalCost < 999999) :
    (whileFuel (parentStep r.id st.parent) (graph.keys.length + 1) dest).isSome := by
  obtain ⟨S, F⟩ := finalLabels H hr (relaxAll_mono.returns hst)
  obtain ⟨h, hwalk⟩ := F.walk_returns dest totalCost hfind hne hlt
  exact parentWalk_isSome F.sound hwalk

/-- **The work of a call.** When no sum wraps below a distance, no node is scanned twice and
no entry is in the heap twice; the relaxation loop takes at most one round more than there
are links, every walk to a next hop at most as many steps as there are nodes, and so the
call returns. -/
theorem computeRoutes_work (iter : IterationOrder (NodeId × UInt32)) (now : ℤ) (r : Router)
    (graph : TopologyGraph) (nodeToIp : UnorderedMap NodeId IPv4Address)
    (nodeToMask : UnorderedMap NodeId SubnetMask) (H : NoLossyWrap now r graph) :
    (r.id ∈ graph.keys →
      (∀ k S st, Rounds now r graph k S st → S.Nodup ∧ k ≤ links graph + 1) ∧
      (∀ st, Visits now r graph st → st.minHeap.items.Nodup) ∧
      (relaxAll now r graph (links graph + 2)).isSome ∧
      ∀ fuel st, relaxAll now r graph fuel = some st → ∀ dest totalCost,
        st.distances.find dest = some totalCost → dest ≠ r.id → totalCost < 999999 →
          (whileFuel (parentStep r.id st.parent) (graph.keys.length + 1) dest).isSome) ∧
      (computeRoutes iter now r graph nodeToIp nodeToMask
        (max (links graph + 2) (graph.keys.length + 1))).isSome := by
  constructor
  · intro hr
    refine ⟨fun k S st R => ?_, fun st h => h.nodup H hr, relaxAll_isSome H hr,
      fun fuel st hst dest totalCost => nextHopWalk_isSome H hr hst⟩
    obtain ⟨j, hj, B⟩ := R.budget H hr
    exact ⟨B.nodup, by omega⟩
  by_cases hr : r.id ∈ graph.keys
  swap
  · exact Option.isSome_iff_exists.mpr ⟨_, computeRoutes_eq_some.mpr (Or.inl ⟨hr, rfl⟩)⟩
  obtain ⟨st, hst⟩ := Option.isSome_iff_exists.mp
    (whileFuel_isSome_mono (relaxAll_isSome H hr) (le_max_left _ (graph.keys.length + 1)))
  have hroutes : (routesFor r.id st.parent nodeToIp nodeToMask (iter.order st.distances.toPairs)
      (max (links graph + 2) (graph.keys.length + 1))).isSome := by
    apply routesFor_isSome
    rintro ⟨dest, totalCost⟩ hp
    unfold routeFor
    split_ifs with hskip
    · rfl
    · obtain ⟨hne, hlt⟩ := not_skipped.mp hskip
      have hfind := UnorderedMap.mem_toPairs.mp ((iter.perm _).mem_iff.mp hp)
      rw [Option.isSome_map]
      exact whileFuel_isSome_mono (nextHopWalk_isSome H hr hst hfind hne hlt) (le_max_right _ _)
  obtain ⟨routes, hroutes⟩ := Option.isSome_iff_exists.mp hroutes
  exact Option.isSome_iff_exists.mpr
    ⟨_, computeRoutes_eq_some.mpr (Or.inr ⟨hr, st, routes, hst, hroutes, rfl⟩)⟩

theorem computeRoutes_work_triangle :
    (computeRoutes (IterationOrder.stored _) 0 (routerWithId 1) triangle triangleIp triangleMask
      8).isSome :=
  (computeRoutes_work (IterationOrder.stored _) 0 (routerWithId 1) triangle triangleIp
    triangleMask triangle_noOverflow.noLossyWrap).2

end Netsim.Network
