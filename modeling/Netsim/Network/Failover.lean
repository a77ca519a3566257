import Netsim.Network.ShortestRoutes

/-!
# Failover is link removal

A run of `compute_routes` with Open links is compared with a run, all breakers
Closed, on the graph without those links. The first may label a node at 999999 or
more through an Open link where the second has no label or another one. Below
that bound the two runs agree on labels, parents and heap entries (`Agree`), and
they proceed in lockstep while their common top is below it; rounds at or above
it touch nothing below (`Agree.round_left`). So they push the same entries.
-/

namespace Netsim.Network

open Foundation

variable {now now' : ℤ} {r r' : Router} {graph graph' : TopologyGraph}
  {nodeToIp : UnorderedMap NodeId IPv4Address}
  {nodeToMask : UnorderedMap NodeId SubnetMask} {A A' B B' : RelaxState} {u v d h : NodeId}
  {dist originalCost : UInt32} {S : List NodeId}

/-- The graph without the source's links towards neighbours that report Open. -/
def withoutOpenLinks (now : ℤ) (r : Router) (graph : TopologyGraph) : TopologyGraph :=
  match graph.find r.id with
  | some neighbours =>
      graph.set r.id (neighbours.filter fun e => !reportsOpen now r.linkBreakers e.1)
  | none => graph

/-- Every breaker is in the state Closed. -/
def AllClosed (r : Router) : Prop :=
  ∀ v b, r.linkBreakers.find v = some b → b.state = .Closed

/-- Whether the link from `u` along `e` is left in `withoutOpenLinks`. -/
def keepsLink (now : ℤ) (r : Router) (u : NodeId) (e : NodeId × UInt32) : Bool :=
  !(decide (u = r.id) && reportsOpen now r.linkBreakers e.1)

theorem find_withoutOpenLinks (u : NodeId) : (withoutOpenLinks now r graph).find u =
    (graph.find u).map (List.filter (keepsLink now r u)) := by
  have hother : u ≠ r.id → (graph.find u).map (List.filter (keepsLink now r u)) =
      graph.find u := by
    intro hu
    have hall : keepsLink now r u = fun _ => true := by
      ext e
      simp [keepsLink, hu]
    rw [hall]
    cases graph.find u <;> simp
  unfold withoutOpenLinks
  cases hfind : graph.find r.id with
  | none =>
      by_cases hu : u = r.id
      · rw [hu, hfind, Option.map_none]
      · exact (hother hu).symm
  | some neighbours =>
      by_cases hu : u = r.id
      · subst hu
        show (graph.set r.id _).find r.id = _
        rw [UnorderedMap.find_set_self, hfind, Option.map_some]
        have hkeep : keepsLink now r r.id = fun e => !reportsOpen now r.linkBreakers e.1 := by
          ext e
          simp [keepsLink]
        rw [hkeep]
      · show (graph.set r.id _).find u = _
        rw [UnorderedMap.find_set_ne _ hu, hother hu]

theorem mem_keys_withoutOpenLinks :
    v ∈ (withoutOpenLinks now r graph).keys ↔ v ∈ graph.keys := by
  rw [UnorderedMap.mem_keys, UnorderedMap.mem_keys, find_withoutOpenLinks, Option.isSome_map]

theorem reportsOpen_of_allClosed (hC : AllClosed r') (v : NodeId) :
    reportsOpen now' r'.linkBreakers v = false := by
  unfold reportsOpen
  cases hfind : r'.linkBreakers.find v with
  | none => rfl
  | some b =>
      have hb := hC v b hfind
      have hreported : b.reported now' = b.state :=
        CircuitBreaker.reported_of_ne_open (by simp [hb])
      simp [hreported, hb]

/-- A link that is left costs the same in both runs. -/
theorem effectiveCost_of_keepsLink (hC : AllClosed r') {e : NodeId × UInt32}
    (he : keepsLink now r u e = true) :
    effectiveCost now' r' u e.1 e.2 = effectiveCost now r u e.1 e.2 := by
  have hopen : ¬ (u = r.id ∧ reportsOpen now r.linkBreakers e.1 = true) := by
    rintro ⟨hu, ho⟩
    simp [keepsLink, hu, ho] at he
  rw [effectiveCost, effectiveCost, reportsOpen_of_allClosed hC, if_neg (by simp), if_neg hopen]

theorem effectiveGraph_withoutOpenLinks (hC : AllClosed r') {c : ℕ}
    (h : effectiveGraph now' r' (withoutOpenLinks now r graph) u v c) :
    effectiveGraph now r graph u v c := by
  obtain ⟨neighbours', originalCost, hfind, hmem, rfl⟩ := h
  rw [find_withoutOpenLinks] at hfind
  obtain ⟨neighbours, hnb, rfl⟩ := Option.map_eq_some_iff.mp hfind
  obtain ⟨hmem, hkeep⟩ := List.mem_filter.mp hmem
  exact ⟨neighbours, originalCost, hnb, hmem,
    congrArg UInt32.toNat (effectiveCost_of_keepsLink hC hkeep)⟩

theorem closedGraph_withoutOpenLinks (now : ℤ) (r : Router) (hclosed : ClosedGraph graph) :
    ClosedGraph (withoutOpenLinks now r graph) := by
  intro u neighbours' v c hfind hmem
  rw [find_withoutOpenLinks] at hfind
  obtain ⟨neighbours, hnb, rfl⟩ := Option.map_eq_some_iff.mp hfind
  exact mem_keys_withoutOpenLinks.mpr
    (hclosed u neighbours v c hnb (List.mem_of_mem_filter hmem))

theorem noOverflow_withoutOpenLinks (now' : ℤ) (hid : r'.id = r.id) (hC : AllClosed r')
    (hno : NoOverflow now r graph) : NoOverflow now' r' (withoutOpenLinks now r graph) := by
  have hperm : (withoutOpenLinks now r graph).keys.Perm graph.keys :=
    (List.perm_ext_iff_of_nodup (UnorderedMap.keys_nodup _) (UnorderedMap.keys_nodup _)).mpr
      (fun _ => mem_keys_withoutOpenLinks)
  intro v n w hw hn
  rw [hid] at hw
  exact hno v n w (hw.mono fun _ _ _ he => effectiveGraph_withoutOpenLinks hC he)
    (hperm.length_eq ▸ hn)

/-! ### The two runs below the cut-off -/

/-- A heap entry below the cut-off. -/
def low (q : PathNode) : Bool := decide (q.1 < 999999)

/-- Two loop states agree below the cut-off. -/
structure Agree (A B : RelaxState) : Prop where
  labels : ∀ v, A.distances.val v < 999999 ∨ B.distances.val v < 999999 →
    A.distances.val v = B.distances.val v ∧ A.parent.find v = B.parent.find v
  heap : (A.minHeap.items.filter low).Perm (B.minHeap.items.filter low)

theorem low_of_le (a b : PathNode) (hab : pathNodeLe a b) (hb : low b = true) :
    low a = true := by
  rw [pathNodeLe_iff] at hab
  unfold low at hb ⊢
  rw [decide_eq_true_eq, UInt32.lt_iff_toNat_lt] at hb ⊢
  omega

namespace Agree

theorem symm (ag : Agree A B) : Agree B A :=
  ⟨fun v hv => ⟨(ag.labels v hv.symm).1.symm, (ag.labels v hv.symm).2.symm⟩, ag.heap.symm⟩

/-- Reading a distance and dropping an entry that is not below the cut-off. -/
theorem popped_left (ag : Agree A B) {minHeap : MinHeap pathNodeLe}
    (hitems : A.minHeap.items = (dist, u) :: minHeap.items) (hhigh : ¬ dist < 999999) :
    Agree (popped A u minHeap) B where
  labels v := by
    simp only [popped, UnorderedMap.val_at']
    exact ag.labels v
  heap := by
    have hlow : ¬ low (dist, u) = true := by simpa [low] using hhigh
    have hheap := ag.heap
    rw [hitems, List.filter_cons_of_neg hlow] at hheap
    exact hheap

/-- An edge scanned by one run alone, offering at least the cut-off. -/
theorem edge_left (ag : Agree A B) (hA : Sound now r graph A)
    (hhigh : dist + effectiveCost now r u v originalCost < A.distances.val v →
      ¬ dist + effectiveCost now r u v originalCost < 999999) :
    Agree (relaxEdge now r.id u dist A (v, originalCost)) B := by
  rw [relaxEdge_eq hA.breakers]
  split_ifs with hlt
  · replace hhigh := hhigh hlt
    generalize dist + effectiveCost now r u v originalCost = newDist at hlt hhigh ⊢
    refine ⟨fun y hy => ?_, ?_⟩
    · simp only [val_improved, parent_improved] at hy ⊢
      by_cases hyv : y = v
      · -- the node was, and stays, at or above the cut-off in both runs
        subst hyv
        rw [if_pos rfl] at hy
        have hB := hy.resolve_left hhigh
        rw [(ag.labels y (Or.inr hB)).1] at hlt
        rw [UInt32.lt_iff_toNat_lt] at hlt hB hhigh
        omega
      · rw [if_neg hyv] at hy ⊢
        rw [if_neg hyv]
        exact ag.labels y hy
    · have hlow : ¬ low (newDist, v) = true := by simpa [low] using hhigh
      have hpush := (MinHeap.perm_push A.minHeap (newDist, v)).filter low
      rw [List.filter_cons_of_neg hlow] at hpush
      exact hpush.trans ag.heap
  · refine ⟨fun y => ?_, ag.heap⟩
    rw [val_unimproved]
    exact ag.labels y

/-- The same offer made by both runs. -/
theorem edge (ag : Agree A B) (hA : Sound now r graph A) (hB : Sound now' r' graph' B)
    (hcost : effectiveCost now' r' u v originalCost = effectiveCost now r u v originalCost) :
    Agree (relaxEdge now r.id u dist A (v, originalCost))
      (relaxEdge now' r'.id u dist B (v, originalCost)) := by
  by_cases hnew : dist + effectiveCost now r u v originalCost < 999999
  · have hiff : dist + effectiveCost now r u v originalCost < A.distances.val v ↔
        dist + effectiveCost now r u v originalCost < B.distances.val v := by
      by_cases hv : A.distances.val v < 999999 ∨ B.distances.val v < 999999
      · rw [(ag.labels v hv).1]
      · rw [not_or, UInt32.not_lt, UInt32.not_lt] at hv
        rw [UInt32.lt_iff_toNat_lt] at hnew ⊢
        rw [UInt32.lt_iff_toNat_lt]
        rw [UInt32.le_iff_toNat_le, UInt32.le_iff_toNat_le] at hv
        omega
    rw [relaxEdge_eq hA.breakers, relaxEdge_eq hB.breakers, hcost]
    generalize dist + effectiveCost now r u v originalCost = newDist at hnew hiff ⊢
    by_cases hlt : newDist < A.distances.val v
    · rw [if_pos hlt, if_pos (hiff.mp hlt)]
      refine ⟨fun y hy => ?_, ?_⟩
      · simp only [val_improved, parent_improved] at hy ⊢
        by_cases hyv : y = v
        · simp only [if_pos hyv, and_self]
        · simp only [if_neg hyv] at hy ⊢
          exact ag.labels y hy
      · have hlow : low (newDist, v) = true := by simpa [low] using hnew
        have hpushA := (MinHeap.perm_push A.minHeap (newDist, v)).filter low
        have hpushB := (MinHeap.perm_push B.minHeap (newDist, v)).filter low
        rw [List.filter_cons_of_pos hlow] at hpushA hpushB
        exact (hpushA.trans (ag.heap.cons _)).trans hpushB.symm
    · rw [if_neg hlt, if_neg (fun h => hlt (hiff.mpr h))]
      refine ⟨fun y => ?_, ag.heap⟩
      rw [val_unimproved, val_unimproved]
      exact ag.labels y
  · have hone : Agree (relaxEdge now r.id u dist A (v, originalCost)) B :=
      ag.edge_left hA (fun _ => hnew)
    exact (hone.symm.edge_left hB (fun _ => by rw [hcost]; exact hnew)).symm

/-- The edges of a common top: the run with Open links scans some that the other
does not have, and they offer at least the penalty. -/
theorem edges (keep : NodeId × UInt32 → Bool)
    (hkeep : ∀ e, keep e = true → effectiveCost now' r' u e.1 e.2 = effectiveCost now r u e.1 e.2)
    (hdrop : ∀ e, ¬ keep e = true → ¬ dist + effectiveCost now r u e.1 e.2 < 999999) :
    ∀ (neighbours : List (NodeId × UInt32)) {A B : RelaxState}, Agree A B →
      Sound now r graph A → Sound now' r' graph' B →
      Agree (neighbours.foldl (relaxEdge now r.id u dist) A)
        ((neighbours.filter keep).foldl (relaxEdge now' r'.id u dist) B) := by
  intro neighbours
  induction neighbours with
  | nil => exact fun ag _ _ => ag
  | cons e neighbours ih =>
      intro A B ag hA hB
      by_cases he : keep e = true
      · rw [List.filter_cons_of_pos he]
        exact ih (ag.edge hA hB (hkeep e he)) (hA.relaxEdge u e.1 dist e.2)
          (hB.relaxEdge u e.1 dist e.2)
      · rw [List.filter_cons_of_neg he]
        exact ih (ag.edge_left hA (fun _ => hdrop e he)) (hA.relaxEdge u e.1 dist e.2) hB

/-- Edges scanned by one run alone, none of which offers less than the cut-off. -/
theorem edges_left : ∀ (neighbours : List (NodeId × UInt32)) {A : RelaxState}, Agree A B →
    Sound now r graph A →
    (∀ e ∈ neighbours, ¬ dist + effectiveCost now r u e.1 e.2 < 999999) →
    Agree (neighbours.foldl (relaxEdge now r.id u dist) A) B := by
  intro neighbours
  induction neighbours with
  | nil => exact fun ag _ _ => ag
  | cons e neighbours ih =>
      intro A ag hA hhigh
      apply ih (ag.edge_left hA fun _ => hhigh e List.mem_cons_self)
      · exact hA.relaxEdge u e.1 dist e.2
      · exact fun e' he' => hhigh e' (List.mem_cons_of_mem _ he')

/-- A round at or above the cut-off touches nothing below it. -/
theorem round_left (hno : NoOverflow now r graph) (I : RoundInv now r graph ∅ S A)
    (ag : Agree A B) (hhigh : ∀ q ∈ A.minHeap.items, ¬ low q = true)
    (h : relaxRound now r.id graph A = some A') : Agree A' B := by
  obtain ⟨dist, u, minHeap, hitems, hmin, hcases⟩ := relaxRound_cases h
  have htop : (dist, u) ∈ A.minHeap.items := by rw [hitems]; exact List.mem_cons_self
  have hdist : ¬ dist < 999999 := by simpa [low] using hhigh _ htop
  have ag' : Agree (popped A u minHeap) B := ag.popped_left hitems hdist
  rcases hcases with ⟨-, rfl⟩ | ⟨-, -, rfl⟩ | ⟨hcur, neighbours, hfind, rfl⟩
  · exact ag'
  · exact ag'
  · have hu := I.top_isDist hitems hmin hcur hfind
    apply ag'.edges_left neighbours (I.sound.popped hitems)
    intro e he hlt
    have hedge : effectiveGraph now r graph u e.1 (effectiveCost now r u e.1 e.2).toNat :=
      ⟨neighbours, e.2, hfind, he, rfl⟩
    -- the sum does not wrap, so it is no less than `dist`
    have hsum := hno.sum_lt hu hedge
    rw [UInt32.lt_iff_toNat_lt] at hdist hlt
    rw [UInt32.toNat_add, Nat.mod_eq_of_lt hsum] at hlt
    omega

/-- A link that is not left costs the penalty. -/
theorem sum_of_not_keepsLink {e : NodeId × UInt32} (he : ¬ keepsLink now r u e = true)
    (hdist : dist < 999999) : ¬ dist + effectiveCost now r u e.1 e.2 < 999999 := by
  have hopen : u = r.id ∧ reportsOpen now r.linkBreakers e.1 = true := by
    simpa [keepsLink] using he
  rw [effectiveCost, if_pos hopen]
  rw [UInt32.lt_iff_toNat_lt] at hdist ⊢
  rw [UInt32.toNat_add]
  change dist.toNat < 999999 at hdist
  show ¬ (dist.toNat + 999999) % 2 ^ 32 < 999999
  omega

/-- A round below the cut-off is a round of both runs. -/
theorem round_both (hC : AllClosed r') (hA : Sound now r graph A)
    (hB : Sound now' r' (withoutOpenLinks now r graph) B) (ag : Agree A B)
    (hlow : ∃ q ∈ A.minHeap.items, low q = true)
    (h : relaxRound now r.id graph A = some A')
    (h' : relaxRound now' r'.id (withoutOpenLinks now r graph) B = some B') : Agree A' B' := by
  obtain ⟨dist, u, heapA, hitemsA, hmin, hcasesA⟩ := relaxRound_cases h
  obtain ⟨dist', u', heapB, hitemsB, -, hcasesB⟩ := relaxRound_cases h'
  have htop : low (dist, u) = true := by
    obtain ⟨q, hq, hqlow⟩ := hlow
    rw [hitemsA] at hq
    rcases List.mem_cons.mp hq with rfl | hq
    · exact hqlow
    · exact low_of_le _ q (hmin q hq) hqlow
  have hdist : dist < 999999 := by simpa [low] using htop
  obtain ⟨l, hl, hperm⟩ : ∃ l, B.minHeap.items = (dist, u) :: l ∧
      (heapA.items.filter low).Perm (l.filter low) :=
    MinHeap.top_congr low_of_le ag.heap hitemsA htop
  obtain ⟨heq, rfl⟩ := List.cons.inj (hitemsB.symm.trans hl)
  obtain ⟨rfl, rfl⟩ := Prod.mk.inj heq
  have ag' : Agree (popped A u' heapA) (popped B u' heapB) := by
    refine ⟨fun v => ?_, hperm⟩
    simp only [popped, UnorderedMap.val_at']
    exact ag.labels v
  have hcur : A.distances.val u' < dist' ↔ B.distances.val u' < dist' := by
    constructor
    · intro hlt
      rw [← (ag.labels u' (Or.inl (UInt32.lt_trans hlt hdist))).1]
      exact hlt
    · intro hlt
      rw [(ag.labels u' (Or.inr (UInt32.lt_trans hlt hdist))).1]
      exact hlt
  have huk : u' ∈ graph.keys :=
    hA.heap_keyed (dist', u') (by rw [hitemsA]; exact List.mem_cons_self)
  rcases hcasesA with ⟨hstale, rfl⟩ | ⟨-, hnone, -⟩ | ⟨hcurA, neighbours, hfind, rfl⟩
  · rcases hcasesB with ⟨-, rfl⟩ | ⟨-, -, rfl⟩ | ⟨hcurB, -⟩
    · exact ag'
    · exact ag'
    · exact absurd (hcur.mp hstale) hcurB
  · rw [UnorderedMap.find_eq_none] at hnone
    exact absurd huk hnone
  · rcases hcasesB with ⟨hstale, -⟩ | ⟨-, hnone, -⟩ | ⟨-, neighbours', hfind', rfl⟩
    · exact absurd (hcur.mpr hstale) hcurA
    · rw [UnorderedMap.find_eq_none, mem_keys_withoutOpenLinks] at hnone
      exact absurd huk hnone
    · rw [find_withoutOpenLinks, hfind, Option.map_some] at hfind'
      obtain rfl := Option.some.inj hfind'
      exact ag'.edges (keepsLink now r u') (fun e => effectiveCost_of_keepsLink hC)
        (fun e he => sum_of_not_keepsLink he hdist) neighbours (hA.popped hitemsA)
        (hB.popped hitemsB)

end Agree

/-! ### The two loops end alike -/

theorem agree_init (hid : r'.id = r.id) :
    Agree (initRelax r graph) (initRelax r' (withoutOpenLinks now r graph)) where
  labels v _ := by
    refine ⟨?_, rfl⟩
    rw [UnorderedMap.val, UnorderedMap.val, find_initRelax, find_initRelax, hid]
    simp only [mem_keys_withoutOpenLinks]
  heap := by
    show (List.filter low [((0 : UInt32), r.id)]).Perm (List.filter low [((0 : UInt32), r'.id)])
    rw [hid]

theorem agree_final (hid : r'.id = r.id) (hC : AllClosed r') (hno : NoOverflow now r graph)
    (hr : r.id ∈ graph.keys) (hA : Returns (relaxAll now r graph) A)
    (hB : Returns (relaxAll now' r' (withoutOpenLinks now r graph)) B) : Agree A B := by
  have hno' := noOverflow_withoutOpenLinks now' hid hC hno
  have hr' : r'.id ∈ (withoutOpenLinks now r graph).keys :=
    mem_keys_withoutOpenLinks.mpr (hid ▸ hr)
  obtain ⟨n, hn⟩ := hA
  obtain ⟨m, hm⟩ := hB
  refine (whileFuel_related (fun A B => (∃ S, RoundInv now r graph ∅ S A) ∧
      (∃ S, RoundInv now' r' (withoutOpenLinks now r graph) ∅ S B) ∧ Agree A B) ?_
    ⟨⟨[], roundInv_init hr⟩, ⟨[], roundInv_init hr'⟩, agree_init hid⟩
    (hn n le_rfl) (hm m le_rfl)).2.2
  rintro A B ⟨⟨S, I⟩, ⟨S', J⟩, ag⟩
  by_cases hlow : ∃ q ∈ A.minHeap.items, low q = true
  · -- the tops are the same entry, and both runs move
    obtain ⟨q, hq, hqlow⟩ := hlow
    have hqB : q ∈ B.minHeap.items :=
      List.mem_of_mem_filter (ag.heap.mem_iff.mp (List.mem_filter.mpr ⟨hq, hqlow⟩))
    obtain ⟨A', hA'⟩ := exists_relaxRound now r.id graph hq
    obtain ⟨B', hB'⟩ := exists_relaxRound now' r'.id (withoutOpenLinks now r graph) hqB
    exact Or.inr (Or.inr (Or.inr ⟨A', B', hA', hB', I.round hno.noLossyWrap hA',
      J.round hno'.noLossyWrap hB',
      ag.round_both hC I.sound J.sound ⟨q, hq, hqlow⟩ hA' hB'⟩))
  · -- neither run has an entry below the cut-off: they move one at a time
    have hhighA : ∀ q ∈ A.minHeap.items, ¬ low q = true := fun q hq h => hlow ⟨q, hq, h⟩
    have hhighB : ∀ q ∈ B.minHeap.items, ¬ low q = true := by
      intro q hq h
      exact hhighA q (List.mem_of_mem_filter
        (ag.heap.mem_iff.mpr (List.mem_filter.mpr ⟨hq, h⟩))) h
    cases hfA : relaxRound now r.id graph A with
    | some A' =>
        exact Or.inr (Or.inl ⟨A', rfl, I.round hno.noLossyWrap hfA, ⟨S', J⟩,
          ag.round_left hno I hhighA hfA⟩)
    | none =>
        cases hfB : relaxRound now' r'.id (withoutOpenLinks now r graph) B with
        | some B' =>
            exact Or.inr (Or.inr (Or.inl ⟨B', rfl, ⟨S, I⟩, J.round hno'.noLossyWrap hfB,
              (ag.symm.round_left hno' J hhighB hfB).symm⟩))
        | none => exact Or.inl ⟨rfl, rfl⟩

/-! ### The two tables -/

/-- Agreeing final labels give a key the same parent walk. -/
theorem FinalLabels.firstHop_agree (F : FinalLabels now r graph S A) (ag : Agree A B)
    (H : FirstHop A.parent.find r.id d h) (hd : d ∈ graph.keys) (hdr : d ≠ r.id)
    (hlt : A.distances.val d < 999999) : FirstHop B.parent.find r.id d h := by
  have hlow : ∀ x, (labels graph A).dist x < 999999 → A.distances.val x < 999999 := by
    intro x hx
    unfold labels at hx
    dsimp only at hx
    split_ifs at hx
    · exact UInt32.lt_iff_toNat_lt.mpr hx
    · omega
  have hlt' : (A.distances.val d).toNat < 999999 := UInt32.lt_iff_toNat_lt.mp hlt
  have hdlt : (labels graph A).dist d < 999999 := by
    rw [labels_dist hd]
    exact hlt'
  have hdS : d ∈ S := F.settling.mem_of_lt F.queue_empty (by omega)
  refine H.congr (fun x => x ∈ S ∧ x ≠ r.id ∧ (labels graph A).dist x < 999999)
    (fun x hx => (ag.labels x (Or.inl (hlow x hx.2.2))).2) ?_ ⟨hdS, hdr, hdlt⟩
  rintro x u ⟨hxS, hxr, hx⟩ hp hur
  obtain ⟨huS, hle⟩ := F.settling.tree.parent_mem hxS hxr hp
  exact ⟨huS, hur, by omega⟩

/-- An entry of one run is an entry of the other. -/
theorem IsRoute.of_agree {e : RoutingTableEntry} {S' : List NodeId} (hid : r'.id = r.id)
    (hkeys : ∀ v, v ∈ graph.keys → v ∈ graph'.keys)
    (hA : Returns (relaxAll now r graph) A) (F : FinalLabels now r graph S A)
    (hB : Returns (relaxAll now' r' graph') B) (F' : FinalLabels now' r' graph' S' B)
    (ag : Agree A B) (hd : d ∈ graph.keys) (R : IsRoute now r graph nodeToIp nodeToMask d e) :
    IsRoute now' r' graph' nodeToIp nodeToMask d e := by
  have hbelow := R.below
  have hval := (F.isDist_iff hd (by omega)).mp R.dist
  have hlt : A.distances.val d < 999999 := by
    rw [UInt32.lt_iff_toNat_lt, hval]
    exact hbelow
  obtain ⟨h, _, _, _, hh, -⟩ := F.firstHop hd R.ne_source (by omega)
  obtain rfl := ((nextHop_returns_iff hA).mpr (parentWalk_of_firstHop hh)).unique R.hop
  have hh' := F.firstHop_agree ag hh hd R.ne_source hlt
  rw [← hid] at hh'
  refine ⟨hid ▸ R.ne_source, ?_, hbelow,
    (nextHop_returns_iff hB).mpr (parentWalk_of_firstHop hh'), R.entry⟩
  rw [F'.isDist_iff (hkeys d hd) (by omega), ← (ag.labels d (Or.inl hlt)).1]
  exact hval

theorem isRoute_withoutOpenLinks {e : RoutingTableEntry} (hid : r'.id = r.id)
    (hC : AllClosed r') (hclosed : ClosedGraph graph) (hno : NoOverflow now r graph) :
    IsRoute now r graph nodeToIp nodeToMask d e ↔
      IsRoute now' r' (withoutOpenLinks now r graph) nodeToIp nodeToMask d e := by
  have hno' := noOverflow_withoutOpenLinks now' hid hC hno
  have hclosed' := closedGraph_withoutOpenLinks now r hclosed
  by_cases hr : r.id ∈ graph.keys
  · have hr' : r'.id ∈ (withoutOpenLinks now r graph).keys :=
      mem_keys_withoutOpenLinks.mpr (hid ▸ hr)
    obtain ⟨A, hA⟩ := relaxAll_returns now hr
    obtain ⟨B, hB⟩ := relaxAll_returns now' hr'
    obtain ⟨S, F⟩ := finalLabels hno.noLossyWrap hr hA
    obtain ⟨S', F'⟩ := finalLabels hno'.noLossyWrap hr' hB
    have ag := agree_final hid hC hno hr hA hB
    constructor
    · intro R
      obtain ⟨n, hn⟩ := R.dist.walk
      exact R.of_agree hid (fun _ => mem_keys_withoutOpenLinks.mpr) hA F hB F' ag
        (hclosed.walk_mem hn hr)
    · intro R
      obtain ⟨n, hn⟩ := R.dist.walk
      exact R.of_agree hid.symm (fun _ => mem_keys_withoutOpenLinks.mp) hB F' hA F ag.symm
        (hclosed'.walk_mem hn hr')
  · have hr' : r'.id ∉ (withoutOpenLinks now r graph).keys :=
      fun h => hr (hid ▸ mem_keys_withoutOpenLinks.mp h)
    constructor
    · intro R
      obtain ⟨n, hn⟩ := R.dist.walk
      exact absurd (walk_of_unkeyed hr hn) R.ne_source
    · intro R
      obtain ⟨n, hn⟩ := R.dist.walk
      exact absurd (walk_of_unkeyed hr' hn) R.ne_source

/-- **Failover equals link removal.** On a closed graph without overflow the
table equals, up to order, the table computed with all breakers Closed on the
graph without the Open links. A destination that has a route while all breakers
are Closed loses it only if no path below the cut-off avoids the Open links, or
the address of the next hop that the graph without them gives it is unknown. -/
theorem computeRoutes_failover (iter iter' : IterationOrder (NodeId × UInt32)) (now now' : ℤ)
    (r r' : Router) (graph : TopologyGraph) (nodeToIp : UnorderedMap NodeId IPv4Address)
    (nodeToMask : UnorderedMap NodeId SubnetMask) (hid : r'.id = r.id) (hC : AllClosed r')
    (hclosed : ClosedGraph graph) (hno : NoOverflow now r graph) :
    ∃ rO routes rC routesC,
      Computed iter now r graph nodeToIp nodeToMask rO routes ∧
      Computed iter' now' r' (withoutOpenLinks now r graph) nodeToIp nodeToMask rC routesC ∧
      rO.routingTable.Perm rC.routingTable ∧
      ∀ d r₀ routes₀, Computed iter' now' r' graph nodeToIp nodeToMask r₀ routes₀ →
        d ∈ routes₀.map Prod.fst → d ∉ routes.map Prod.fst →
        (∀ n w, Walk (effectiveGraph now' r' (withoutOpenLinks now r graph)) r'.id d n w →
          999999 ≤ w) ∨
        ∃ h, Returns (nextHop now' r' (withoutOpenLinks now r graph) d) h ∧
          nodeToIp.find h = none := by
  have hno' := noOverflow_withoutOpenLinks now' hid hC hno
  have hclosed' := closedGraph_withoutOpenLinks now r hclosed
  obtain ⟨routes, breakers, hroutes, hnodup, hmem⟩ :=
    destinationRoutes_spec iter nodeToIp nodeToMask hclosed hno.noLossyWrap
  obtain ⟨routesC, breakersC, hroutesC, hnodupC, hmemC⟩ :=
    destinationRoutes_spec iter' nodeToIp nodeToMask hclosed' hno'.noLossyWrap
  have hsame : ∀ d e, (d, e) ∈ routes ↔ (d, e) ∈ routesC := by
    intro d e
    rw [hmem, hmemC]
    exact isRoute_withoutOpenLinks hid hC hclosed hno
  have hperm : routes.Perm routesC :=
    (List.perm_ext_iff_of_nodup hnodup.of_map hnodupC.of_map).mpr fun ⟨d, e⟩ => hsame d e
  refine ⟨_, routes, _, routesC, computed_of_destinationRoutes hroutes,
    computed_of_destinationRoutes hroutesC, hperm.map Prod.snd, ?_⟩
  intro d r₀ routes₀ h₀ hd₀ hd
  obtain ⟨hdr, hip, hmask⟩ := h₀.known hd₀
  by_cases hpath : ∃ n w, Walk (effectiveGraph now' r' (withoutOpenLinks now r graph)) r'.id d n w ∧
      w < 999999
  · obtain ⟨n, w, hw, hlt⟩ := hpath
    obtain ⟨x, hx, hxw⟩ := hw.exists_isDist
    obtain ⟨h, _, _, hh, -⟩ := nextHop_spec hclosed' hno'.noLossyWrap hdr hx (by omega)
    refine Or.inr ⟨h, hh, ?_⟩
    by_contra hhip
    obtain ⟨e, R⟩ := exists_isRoute hdr hx (by omega) hip hmask hh
      (Option.ne_none_iff_isSome.mp hhip)
    exact hd (List.mem_map.mpr ⟨(d, e), (hsame d e).mpr ((hmemC d e).mpr R), rfl⟩)
  · exact Or.inl fun n w hw => by
      by_contra hlt
      exact hpath ⟨n, w, hw, by omega⟩

theorem computeRoutes_failover_triangle :
    ∃ rO routes rC routesC,
      Computed (IterationOrder.stored _) 0 routerWithOpenLink triangle triangleIp triangleMask
        rO routes ∧
      Computed (IterationOrder.stored _) 0 (routerWithId 1)
        (withoutOpenLinks 0 routerWithOpenLink triangle) triangleIp triangleMask rC routesC ∧
      rO.routingTable.Perm rC.routingTable := by
  obtain ⟨rO, routes, rC, routesC, hO, hC, hperm, -⟩ :=
    computeRoutes_failover (IterationOrder.stored _) (IterationOrder.stored _) 0 0
      routerWithOpenLink (routerWithId 1) triangle triangleIp triangleMask rfl
      (fun v b h => by simp [routerWithId] at h) triangle_closed triangle_noOverflow_open
  exact ⟨rO, routes, rC, routesC, hO, hC, hperm⟩

/-- Two equal ways from router 1 to router 4, through 2 and through 3. -/
def diamond : TopologyGraph :=
  UnorderedMap.ofPairs [(1, [(2, 1), (3, 1)]), (2, [(4, 1)]), (3, [(4, 1)]), (4, [])]

/-- Addresses for all but router 3. -/
def diamondIp : UnorderedMap NodeId IPv4Address :=
  UnorderedMap.ofPairs [(1, ⟨0x0A000101⟩), (2, ⟨0x0A000201⟩), (4, ⟨0x0A000401⟩)]

def diamondMask : UnorderedMap NodeId SubnetMask :=
  UnorderedMap.ofPairs [(1, ⟨0xFFFFFF00⟩), (2, ⟨0xFFFFFF00⟩), (4, ⟨0xFFFFFF00⟩)]

/-- Router 4 loses its route when the link to router 2 opens, though the path
through router 3 costs 2: the table loop skips a next hop without an address. -/
theorem diamond_loses_route :
    ClosedGraph diamond ∧ NoOverflow 0 routerWithOpenLink diamond ∧
    ∃ r₀ routes₀ rO routes,
      Computed (IterationOrder.stored _) 0 (routerWithId 1) diamond diamondIp diamondMask
        r₀ routes₀ ∧
      Computed (IterationOrder.stored _) 0 routerWithOpenLink diamond diamondIp diamondMask
        rO routes ∧
      4 ∈ routes₀.map Prod.fst ∧ 4 ∉ routes.map Prod.fst ∧
      Walk (effectiveGraph 0 (routerWithId 1) (withoutOpenLinks 0 routerWithOpenLink diamond))
        1 4 2 2 := by
  have hrun₀ : (destinationRoutes (IterationOrder.stored _) 0 (routerWithId 1) diamond
      diamondIp diamondMask 8).map (fun p => p.1.map Prod.fst) = some [4, 2] := by
    decide +kernel
  have hrun : (destinationRoutes (IterationOrder.stored _) 0 routerWithOpenLink diamond
      diamondIp diamondMask 8).map (fun p => p.1.map Prod.fst) = some [] := by
    decide +kernel
  obtain ⟨⟨routes₀, _⟩, hrun₀, hdests₀⟩ := Option.map_eq_some_iff.mp hrun₀
  obtain ⟨⟨routes, _⟩, hrun, hdests⟩ := Option.map_eq_some_iff.mp hrun
  refine ⟨by decide +kernel, noOverflow_of_cost_le (C := 999999) (by decide +kernel)
    (by decide +kernel), _, routes₀, _, routes,
    computed_of_destinationRoutes (destinationRoutes_mono.returns hrun₀),
    computed_of_destinationRoutes (destinationRoutes_mono.returns hrun), ?_, ?_, ?_⟩
  · rw [show routes₀.map Prod.fst = [4, 2] from hdests₀]
    decide
  · rw [show routes.map Prod.fst = [] from hdests]
    decide
  · exact (Walk.single (v := 3) (c := 1) (by decide +kernel)).snoc (c := 1) (by decide +kernel)

end Netsim.Network
