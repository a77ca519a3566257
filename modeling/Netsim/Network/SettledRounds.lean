import Netsim.Network.Relaxation

/-!
# The relaxation loop is label setting

Under `NoLossyWrap` the loop of `compute_routes` refines the label-setting
algorithm of `Foundation.LabelSetting` on the edges between keys. A wrapped sum
is never accepted: towards a settled node it is no improvement, and towards an
unsettled node it would lie below the node being scanned, which no walk does.

Nodes that are not keys sit outside the algorithm: they read as distance 0, are
never improved, and enter the distances when an edge towards them is scanned.
-/

namespace Netsim.Network

open Foundation

variable {now : ℤ} {r : Router} {graph : TopologyGraph} {st st' : RelaxState}
  {u v : NodeId} {d originalCost : UInt32} {S : List NodeId}
  {P : Set (NodeId × NodeId × ℕ)} {neighbours : List (NodeId × UInt32)}

/-- A loop state read as labels: nodes that are not keys count as not reached. -/
def labels (graph : TopologyGraph) (st : RelaxState) : Labels NodeId where
  dist v := if v ∈ graph.keys then (st.distances.val v).toNat else 2 ^ 32 - 1
  parent v := st.parent.find v
  queue := {p | ∃ q ∈ st.minHeap.items, p = (q.1.toNat, q.2)}

theorem labels_dist (hv : v ∈ graph.keys) :
    (labels graph st).dist v = (st.distances.val v).toNat := if_pos hv

theorem labels_improved (hv : v ∈ graph.keys) (newDist : UInt32) :
    labels graph (improved now r.id u st v originalCost newDist) =
      (labels graph st).relabel u v newDist.toNat := by
  ext x
  · show (if x ∈ graph.keys then _ else _) = Function.update (labels graph st).dist v _ x
    by_cases hx : x = v
    · subst hx
      simp [hv, improved, UnorderedMap.val_set]
    · rw [Function.update_of_ne hx]
      simp [labels, improved, UnorderedMap.val_set, hx]
  · show (st.parent.set v u).find x = some _ ↔ Function.update (labels graph st).parent v _ x = _
    by_cases hx : x = v
    · subst hx
      simp
    · rw [Function.update_of_ne hx, UnorderedMap.find_set_ne _ hx]
      rfl
  · obtain ⟨k, y⟩ := x
    show (∃ q ∈ (st.minHeap.push (newDist, v)).items, (k, y) = (q.1.toNat, q.2)) ↔
      (k, y) = (newDist.toNat, v) ∨ ∃ q ∈ st.minHeap.items, (k, y) = (q.1.toNat, q.2)
    simp only [MinHeap.mem_push]
    constructor
    · rintro ⟨q, rfl | hq, heq⟩
      · exact Or.inl heq
      · exact Or.inr ⟨q, hq, heq⟩
    · rintro (heq | ⟨q, hq, heq⟩)
      · exact ⟨_, Or.inl rfl, heq⟩
      · exact ⟨q, Or.inr hq, heq⟩

theorem labels_unimproved :
    labels graph (unimproved now r.id u st v originalCost) = labels graph st := by
  unfold labels unimproved
  simp only [UnorderedMap.val_at']

theorem labels_popped (minHeap : MinHeap pathNodeLe) :
    labels graph (popped st u minHeap) =
      { labels graph st with queue := {p | ∃ q ∈ minHeap.items, p = (q.1.toNat, q.2)} } := by
  unfold labels popped
  simp only [UnorderedMap.val_at']

/-- The invariant of the loop, with `pending` edges still owed inside a round and
the settled nodes `S`. -/
structure RoundInv (now : ℤ) (r : Router) (graph : TopologyGraph)
    (pending : Set (NodeId × NodeId × ℕ)) (S : List NodeId) (st : RelaxState) : Prop where
  sound : Sound now r graph st
  settling : Settling (keyedGraph now r graph) r.id (2 ^ 32 - 1) pending S (labels graph st)
  touched : ∀ v, v ∉ graph.keys → (st.distances.find v).isSome →
    ∃ u ∈ S, ∃ c, effectiveGraph now r graph u v c
  touches : ∀ u ∈ S, ∀ v, v ∉ graph.keys → ∀ c, effectiveGraph now r graph u v c →
    (u, v, c) ∈ pending ∨ (st.distances.find v).isSome

theorem roundInv_init (hr : r.id ∈ graph.keys) :
    RoundInv now r graph ∅ [] (initRelax r graph) where
  sound := sound_init hr
  settling := by
    apply settling_init (by omega)
    · rw [labels_dist hr, UnorderedMap.val, find_initRelax, if_pos rfl]
      rfl
    · intro v hv
      show (if v ∈ graph.keys then _ else _) = _
      split_ifs with hvk
      · rw [UnorderedMap.val, find_initRelax, if_neg hv, if_pos hvk]
        rfl
      · rfl
    · ext p
      show (∃ q ∈ [((0 : UInt32), r.id)], p = (q.1.toNat, q.2)) ↔ p = (0, r.id)
      simp
  touched := by
    intro v hv h
    have hvr : v ≠ r.id := fun heq => hv (heq ▸ hr)
    rw [find_initRelax, if_neg hvr, if_neg hv] at h
    simp at h
  touches := by simp

namespace RoundInv

theorem mono (I : RoundInv now r graph P S st) {P' : Set (NodeId × NodeId × ℕ)}
    (h : P ⊆ P') : RoundInv now r graph P' S st :=
  { I with settling := I.settling.mono h
           touches := fun u hu v hv c he => (I.touches u hu v hv c he).imp (@h _) id }

/-- **No accepted sum wraps.** -/
theorem sum_exact (H : NoLossyWrap now r graph) (I : RoundInv now r graph P S st)
    (hu : u ∈ S) (hd : st.distances.val u = d)
    (he : effectiveGraph now r graph u v (effectiveCost now r u v originalCost).toNat)
    (hlt : d + effectiveCost now r u v originalCost < st.distances.val v) :
    (d + effectiveCost now r u v originalCost).toNat =
      d.toNat + (effectiveCost now r u v originalCost).toNat := by
  have huk : u ∈ graph.keys := effectiveGraph_tail he
  have hvk : v ∈ graph.keys := I.sound.mem_of_lt hlt
  have hlu : (labels graph st).dist u = d.toNat := by rw [labels_dist huk, hd]
  have hdist : IsDist (effectiveGraph now r graph) r.id u d.toNat := by
    rw [← isDist_keyed_iff huk, ← hlu]
    exact I.settling.isDist hu
  obtain ⟨n, x, hwalk, hx⟩ := H u d.toNat v _ hdist
    (by rw [← hlu]; exact I.settling.below u hu) he hvk
  have hwalk' := (walk_keyed_iff hvk).mpr hwalk
  rw [UInt32.lt_iff_toNat_lt, UInt32.toNat_add, ← labels_dist hvk] at hlt
  rw [UInt32.toNat_add]
  have hvS : v ∉ S := by
    intro hvS
    have := I.settling.exact v hvS n x hwalk'
    omega
  have hfar := I.settling.far u hu v hvS n x hwalk'
  have hc := effectiveGraph_lt he
  omega

/-- An edge that improves its head pays its debt and leaves the scanned node's label
alone. -/
theorem improve (H : NoLossyWrap now r graph) (I : RoundInv now r graph P S st)
    (hu : u ∈ S) (hd : st.distances.val u = d)
    (he : effectiveGraph now r graph u v (effectiveCost now r u v originalCost).toNat)
    (hlt : d + effectiveCost now r u v originalCost < st.distances.val v)
    (hsound : Sound now r graph
      (improved now r.id u st v originalCost (d + effectiveCost now r u v originalCost))) :
    RoundInv now r graph (P \ {(u, v, (effectiveCost now r u v originalCost).toNat)}) S
        (improved now r.id u st v originalCost (d + effectiveCost now r u v originalCost)) ∧
      (improved now r.id u st v originalCost
        (d + effectiveCost now r u v originalCost)).distances.val u = d := by
  have huk : u ∈ graph.keys := effectiveGraph_tail he
  have hlu : (labels graph st).dist u = d.toNat := by rw [labels_dist huk, hd]
  have hsum := I.sum_exact H hu hd he hlt
  have hvk : v ∈ graph.keys := I.sound.mem_of_lt hlt
  have himp : (labels graph st).dist u + (effectiveCost now r u v originalCost).toNat <
      (labels graph st).dist v := by
    rw [labels_dist hvk, hlu, ← hsum]
    exact UInt32.lt_iff_toNat_lt.mp hlt
  have hvS : v ∉ S := I.settling.notMem_of_improves hu ⟨he, hvk⟩ himp
  have huv : u ≠ v := fun h => hvS (h ▸ hu)
  refine ⟨⟨hsound, ?_, ?_, ?_⟩, ?_⟩
  · rw [labels_improved hvk, hsum, ← hlu]
    exact I.settling.relax hu ⟨he, hvk⟩ himp
  · intro x hx h
    have hxv : x ≠ v := fun h => hx (h ▸ hvk)
    rw [find_improved, if_neg hxv] at h
    exact I.touched x hx h
  · intro y hy x hx c hc
    have hxv : x ≠ v := fun h => hx (h ▸ hvk)
    rw [find_improved, if_neg hxv]
    refine (I.touches y hy x hx c hc).imp (fun h => ⟨h, ?_⟩) id
    rintro heq
    exact hxv (congrArg (fun p => p.2.1) heq)
  · rw [val_improved, if_neg huv]
    exact hd

/-- So does an edge that improves nothing; its head may enter the distances. -/
theorem scan (I : RoundInv now r graph P S st) (hu : u ∈ S) (hd : st.distances.val u = d)
    (he : effectiveGraph now r graph u v (effectiveCost now r u v originalCost).toNat)
    (hlt : ¬d + effectiveCost now r u v originalCost < st.distances.val v)
    (hsound : Sound now r graph (unimproved now r.id u st v originalCost)) :
    RoundInv now r graph (P \ {(u, v, (effectiveCost now r u v originalCost).toNat)}) S
        (unimproved now r.id u st v originalCost) ∧
      (unimproved now r.id u st v originalCost).distances.val u = d := by
  have hlu : (labels graph st).dist u = d.toNat := by rw [labels_dist (effectiveGraph_tail he), hd]
  refine ⟨⟨hsound, ?_, ?_, ?_⟩, ?_⟩
  · rw [labels_unimproved]
    by_cases hvk : v ∈ graph.keys
    · apply I.settling.scan
      rw [labels_dist hvk, hlu]
      rw [UInt32.lt_iff_toNat_lt, UInt32.toNat_add] at hlt
      have := Nat.mod_le (d.toNat + (effectiveCost now r u v originalCost).toNat) (2 ^ 32)
      omega
    · -- the edge leaves the keys, so label setting never owed it
      refine { I.settling with relaxed := fun x hx y k hk => ?_ }
      refine (I.settling.relaxed x hx y k hk).imp (fun h => ⟨h, ?_⟩) id
      intro heq
      have hyv : y = v := congrArg (fun p => p.2.1) heq
      exact hvk (hyv ▸ hk.2)
  · intro x hx h
    by_cases hxv : x = v
    · exact ⟨u, hu, _, hxv ▸ he⟩
    · rw [find_unimproved, if_neg hxv] at h
      exact I.touched x hx h
  · intro y hy x hx c hc
    rw [find_unimproved]
    by_cases hxv : x = v
    · exact Or.inr (by rw [if_pos hxv]; rfl)
    · rw [if_neg hxv]
      refine (I.touches y hy x hx c hc).imp (fun h => ⟨h, ?_⟩) id
      rintro heq
      exact hxv (congrArg (fun p => p.2.1) heq)
  · rw [val_unimproved]
    exact hd

/-- Scanning one edge pays its debt and leaves the scanned node's label alone. -/
theorem edge (H : NoLossyWrap now r graph) (I : RoundInv now r graph P S st)
    (hu : u ∈ S) (hd : st.distances.val u = d) (hfind : graph.find u = some neighbours)
    (hmem : (v, originalCost) ∈ neighbours) :
    RoundInv now r graph (P \ {(u, v, (effectiveCost now r u v originalCost).toNat)}) S
        (relaxEdge now r.id u d st (v, originalCost)) ∧
      (relaxEdge now r.id u d st (v, originalCost)).distances.val u = d := by
  have he : effectiveGraph now r graph u v (effectiveCost now r u v originalCost).toNat :=
    ⟨neighbours, originalCost, hfind, hmem, rfl⟩
  have hsound := I.sound.relaxEdge u v d originalCost
  rw [relaxEdge_eq I.sound.breakers] at hsound ⊢
  split_ifs at hsound ⊢ with hlt
  · exact I.improve H hu hd he hlt hsound
  · exact I.scan hu hd he hlt hsound

/-- The edges of `u` still to be scanned. -/
def owed (now : ℤ) (r : Router) (u : NodeId) (edges : List (NodeId × UInt32)) :
    Set (NodeId × NodeId × ℕ) :=
  {p | ∃ e ∈ edges, p = (u, e.1, (effectiveCost now r u e.1 e.2).toNat)}

/-- Scanning all edges of a settled node pays all its debts. -/
theorem edges (H : NoLossyWrap now r graph) (hfind : graph.find u = some neighbours)
    (hu : u ∈ S) : ∀ (rest : List (NodeId × UInt32)) {st : RelaxState},
      (∀ e ∈ rest, e ∈ neighbours) → st.distances.val u = d →
      RoundInv now r graph (owed now r u rest) S st →
      RoundInv now r graph ∅ S (rest.foldl (relaxEdge now r.id u d) st) := by
  intro rest
  induction rest with
  | nil =>
      intro st _ _ I
      apply I.mono
      rintro p ⟨e, he, -⟩
      simp at he
  | cons e rest ih =>
      intro st hsub hd I
      obtain ⟨I', hd'⟩ := I.edge H hu hd hfind (hsub e List.mem_cons_self)
      refine ih (fun e' he' => hsub e' (List.mem_cons_of_mem _ he')) hd' (I'.mono ?_)
      rintro p ⟨⟨e', he', rfl⟩, hne⟩
      rcases List.mem_cons.mp he' with rfl | he'
      · exact absurd rfl hne
      · exact ⟨e', he', rfl⟩

/-- Taking the top entry off the heap, when no unsettled node needs it. -/
theorem pop (I : RoundInv now r graph P S st) {minHeap : MinHeap pathNodeLe}
    (hitems : st.minHeap.items = (d, u) :: minHeap.items)
    (huk : u ∈ graph.keys)
    (hneed : u ∈ S ∨ st.distances.val u < d) :
    RoundInv now r graph P S (popped st u minHeap) where
  sound := I.sound.popped hitems
  settling := by
    rw [labels_popped]
    apply I.settling.dequeue
    · rintro p ⟨q, hq, rfl⟩
      exact ⟨q, by rw [hitems]; exact List.mem_cons_of_mem _ hq, rfl⟩
    · intro v hv hlt
      obtain ⟨q, hq, heq⟩ := I.settling.queued v hv hlt
      rw [hitems] at hq
      rcases List.mem_cons.mp hq with rfl | hq
      · -- the entry taken off would be the one that carries `u`'s label
        obtain ⟨hdist, rfl⟩ := Prod.mk.inj heq
        rcases hneed with huS | hstale
        · exact absurd huS hv
        · rw [labels_dist huk] at hdist
          rw [UInt32.lt_iff_toNat_lt] at hstale
          exact absurd hdist hstale.ne
      · exact ⟨q, hq, heq⟩
  touched := by
    intro v hv h
    have hvu : v ≠ u := fun heq => hv (heq ▸ huk)
    simp only [popped, UnorderedMap.find_at', if_neg hvu] at h
    exact I.touched v hv h
  touches := by
    intro y hy v hv c he
    have hvu : v ≠ u := fun heq => hv (heq ▸ huk)
    simp only [popped, UnorderedMap.find_at', if_neg hvu]
    exact I.touches y hy v hv c he

/-- Taking off an entry that carries its node's label settles that node. -/
theorem popSettle (I : RoundInv now r graph ∅ S st) {minHeap : MinHeap pathNodeLe}
    (hitems : st.minHeap.items = (d, u) :: minHeap.items)
    (hmin : ∀ q ∈ minHeap.items, pathNodeLe (d, u) q) (huS : u ∉ S)
    (hd : st.distances.val u = d) (hfind : graph.find u = some neighbours) :
    RoundInv now r graph (owed now r u neighbours) (u :: S) (popped st u minHeap) := by
  have huk : u ∈ graph.keys := by rw [UnorderedMap.mem_keys, hfind]; rfl
  have hlu : (labels graph st).dist u = d.toNat := by rw [labels_dist huk, hd]
  have howed : ∀ v c, effectiveGraph now r graph u v c → (u, v, c) ∈ owed now r u neighbours := by
    rintro v c ⟨nb, oc, hnb, hmem, rfl⟩
    obtain rfl := Option.some.inj (hfind.symm.trans hnb)
    exact ⟨(v, oc), hmem, rfl⟩
  refine ⟨I.sound.popped hitems, ?_, ?_, ?_⟩
  · rw [labels_popped]
    apply I.settling.settle huS
    · exact ⟨(d, u), by rw [hitems]; exact List.mem_cons_self, by rw [hlu]⟩
    · rintro k v ⟨q, hq, heq⟩
      obtain ⟨rfl, rfl⟩ := Prod.mk.inj heq
      rw [hlu]
      rw [hitems] at hq
      rcases List.mem_cons.mp hq with rfl | hq
      · exact le_rfl
      · have := pathNodeLe_iff.mp (hmin q hq)
        dsimp only at this
        omega
    · rintro p ⟨q, hq, rfl⟩
      exact ⟨q, by rw [hitems]; exact List.mem_cons_of_mem _ hq, rfl⟩
    · rintro v hvu ⟨q, hq, heq⟩
      rw [hitems] at hq
      rcases List.mem_cons.mp hq with rfl | hq
      · exact absurd (Prod.mk.inj heq).2 hvu
      · exact ⟨q, hq, heq⟩
    · exact fun v c he => howed v c he.1
  · intro v hv h
    have hvu : v ≠ u := fun heq => hv (heq ▸ huk)
    simp only [popped, UnorderedMap.find_at', if_neg hvu] at h
    obtain ⟨y, hy, c, he⟩ := I.touched v hv h
    exact ⟨y, List.mem_cons_of_mem _ hy, c, he⟩
  · intro y hy v hv c he
    have hvu : v ≠ u := fun heq => hv (heq ▸ huk)
    simp only [popped, UnorderedMap.find_at', if_neg hvu]
    rcases List.mem_cons.mp hy with rfl | hy
    · exact Or.inl (howed v c he)
    · exact Or.inr ((I.touches y hy v hv c he).resolve_left (by simp))

/-- An entry on top that is not stale carries its node's label. -/
theorem top_current (I : RoundInv now r graph P S st) {minHeap : MinHeap pathNodeLe}
    (hitems : st.minHeap.items = (d, u) :: minHeap.items)
    (hcur : ¬ st.distances.val u < d) : st.distances.val u = d := by
  have htop : (d, u) ∈ st.minHeap.items := by rw [hitems]; exact List.mem_cons_self
  have huk : u ∈ graph.keys := I.sound.heap_keyed _ htop
  have hle := (I.settling.queue_le d.toNat u ⟨(d, u), htop, rfl⟩).1
  rw [labels_dist huk] at hle
  rw [UInt32.lt_iff_toNat_lt] at hcur
  exact UInt32.toNat_inj.mp (by omega)

/-- The label of such an entry is the distance. -/
theorem top_isDist (I : RoundInv now r graph ∅ S st) {minHeap : MinHeap pathNodeLe}
    (hitems : st.minHeap.items = (d, u) :: minHeap.items)
    (hmin : ∀ q ∈ minHeap.items, pathNodeLe (d, u) q)
    (hcur : ¬ st.distances.val u < d) (hfind : graph.find u = some neighbours) :
    IsDist (effectiveGraph now r graph) r.id u d.toNat := by
  have huk : u ∈ graph.keys := by rw [UnorderedMap.mem_keys, hfind]; rfl
  have hd := I.top_current hitems hcur
  have hlu : (labels graph st).dist u = d.toNat := by rw [labels_dist huk, hd]
  rw [← isDist_keyed_iff huk, ← hlu]
  by_cases huS : u ∈ S
  · exact I.settling.isDist huS
  · have hsettled := (I.popSettle hitems hmin huS hd hfind).settling
    rw [labels_popped] at hsettled
    exact hsettled.isDist List.mem_cons_self

/-- **One round** keeps the invariant, for a possibly longer list of settled
nodes. -/
theorem round (H : NoLossyWrap now r graph) (I : RoundInv now r graph ∅ S st)
    (h : relaxRound now r.id graph st = some st') :
    ∃ S', RoundInv now r graph ∅ S' st' := by
  obtain ⟨d, u, minHeap, hitems, hmin, hcases⟩ := relaxRound_cases h
  have huk : u ∈ graph.keys :=
    I.sound.heap_keyed (d, u) (by rw [hitems]; exact List.mem_cons_self)
  rcases hcases with ⟨hstale, rfl⟩ | ⟨-, hnone, -⟩ | ⟨hcur, neighbours, hfind, rfl⟩
  · exact ⟨S, I.pop hitems huk (Or.inr hstale)⟩
  · rw [UnorderedMap.find_eq_none] at hnone
    exact absurd huk hnone
  · have hd := I.top_current hitems hcur
    have hd' : (popped st u minHeap).distances.val u = d := by
      simp only [popped, UnorderedMap.val_at']
      exact hd
    by_cases huS : u ∈ S
    · -- a duplicate of the entry that settled `u`: every edge is already relaxed
      have I' := (I.pop hitems huk (Or.inl huS)).mono (Set.empty_subset (owed now r u neighbours))
      exact ⟨S, edges H hfind huS neighbours (fun _ he => he) hd' I'⟩
    · have I' := I.popSettle hitems hmin huS hd hfind
      exact ⟨u :: S, edges H hfind List.mem_cons_self neighbours (fun _ he => he) hd' I'⟩

end RoundInv

end Netsim.Network
