import Mathlib.Algebra.BigOperators.Group.Finset.Basic
import Mathlib.Algebra.Order.BigOperators.Group.Finset
import Netsim.Foundation.LabelSetting
import Netsim.Network.EffectiveGraph

/-!
# The relaxation loop

The loop of `compute_routes` for arbitrary costs, wrapping sums included. One
relaxed edge improves a label or leaves all labels alone (`relaxEdge_eq`), and
one round drops a stale entry or scans the edges of a node (`relaxRound_cases`).

`Sound` is what every state of the loop satisfies. With it a potential falls in
each round, so the loop stops on every input (`relaxAll_returns`).
-/

namespace Netsim.Network

open Foundation

variable {now : ℤ} {r : Router} {graph : TopologyGraph} {st st' : RelaxState}
  {u v : NodeId} {d originalCost : UInt32}

/-! ### One relaxed edge -/

theorem linkCost_fst (source : NodeId) (breakers : Breakers) :
    (linkCost now source u v originalCost breakers).1 =
      if u = source ∧ reportsOpen now breakers v = true then 999999 else originalCost := by
  unfold linkCost reportsOpen
  by_cases hu : u = source
  · cases hb : breakers.find v with
    | none => simp [hu]
    | some b =>
        simp only [hu, if_true, true_and, Option.any_some, decide_eq_true_eq]
        rfl
  · simp [hu]

/-- Querying a breaker changes what no breaker reports. -/
theorem reportsOpen_linkCost (source : NodeId) (breakers : Breakers) (x : NodeId) :
    reportsOpen now (linkCost now source u v originalCost breakers).2 x =
      reportsOpen now breakers x := by
  unfold linkCost
  split_ifs with hu
  · cases hb : breakers.find v with
    | none => rfl
    | some b =>
        show reportsOpen now (breakers.set v (b.getState now).2) x = _
        unfold reportsOpen
        rw [UnorderedMap.find_set]
        split_ifs with hx
        · subst hx
          simp [hb, CircuitBreaker.reported_getState]
        · rfl
  · rfl

/-- The state after an improving edge. -/
def improved (now : ℤ) (source u : NodeId) (st : RelaxState) (v : NodeId)
    (originalCost newDist : UInt32) : RelaxState where
  distances := (st.distances.at' v).2.set v newDist
  parent := st.parent.set v u
  minHeap := st.minHeap.push (newDist, v)
  linkBreakers := (linkCost now source u v originalCost st.linkBreakers).2

/-- The state after an edge that does not improve its head. -/
def unimproved (now : ℤ) (source u : NodeId) (st : RelaxState) (v : NodeId)
    (originalCost : UInt32) : RelaxState :=
  { st with distances := (st.distances.at' v).2
            linkBreakers := (linkCost now source u v originalCost st.linkBreakers).2 }

theorem relaxEdge_eq
    (hb : ∀ x, reportsOpen now st.linkBreakers x = reportsOpen now r.linkBreakers x) :
    relaxEdge now r.id u d st (v, originalCost) =
      if d + effectiveCost now r u v originalCost < st.distances.val v then
        improved now r.id u st v originalCost (d + effectiveCost now r u v originalCost)
      else unimproved now r.id u st v originalCost := by
  have hcost : (linkCost now r.id u v originalCost st.linkBreakers).1 =
      effectiveCost now r u v originalCost := by
    rw [linkCost_fst, effectiveCost, hb v]
  unfold relaxEdge
  simp only [hcost, UnorderedMap.at'_fst]
  rfl

theorem find_improved (source : NodeId) (newDist : UInt32) (y : NodeId) :
    (improved now source u st v originalCost newDist).distances.find y =
      if y = v then some newDist else st.distances.find y := by
  simp only [improved, UnorderedMap.find_set, UnorderedMap.find_at']
  split_ifs <;> rfl

theorem val_improved (source : NodeId) (newDist : UInt32) (y : NodeId) :
    (improved now source u st v originalCost newDist).distances.val y =
      if y = v then newDist else st.distances.val y := by
  simp only [improved, UnorderedMap.val_set, UnorderedMap.val_at']

theorem parent_improved (source : NodeId) (newDist : UInt32) (y : NodeId) :
    (improved now source u st v originalCost newDist).parent.find y =
      if y = v then some u else st.parent.find y :=
  UnorderedMap.find_set _ _ _ _

theorem find_unimproved (source y : NodeId) :
    (unimproved now source u st v originalCost).distances.find y =
      if y = v then some (st.distances.val v) else st.distances.find y := by
  simp only [unimproved, UnorderedMap.find_at']

theorem val_unimproved (source y : NodeId) :
    (unimproved now source u st v originalCost).distances.val y = st.distances.val y := by
  simp only [unimproved, UnorderedMap.val_at']

/-! ### What holds whatever the costs -/

/-- The facts about the loop state that no wrapped sum can break. -/
structure Sound (now : ℤ) (r : Router) (graph : TopologyGraph) (st : RelaxState) : Prop where
  keyed : ∀ v ∈ graph.keys, (st.distances.find v).isSome
  unkeyed : ∀ v, v ∉ graph.keys → st.distances.val v = 0
  parent_keyed : ∀ v, (st.parent.find v).isSome → v ∈ graph.keys
  heap_keyed : ∀ q ∈ st.minHeap.items, q.2 ∈ graph.keys
  breakers : ∀ v, reportsOpen now st.linkBreakers v = reportsOpen now r.linkBreakers v

theorem find_initDistances (graph : TopologyGraph) (v : NodeId) :
    (initDistances graph).find v = if v ∈ graph.keys then some uint32Max else none := by
  suffices h : ∀ (l : List NodeId) (m : UnorderedMap NodeId UInt32),
      (l.foldl (fun distances node => distances.set node uint32Max) m).find v =
        if v ∈ l then some uint32Max else m.find v from h graph.keys ∅
  intro l
  induction l with
  | nil => intro m; simp
  | cons a l ih =>
      intro m
      rw [List.foldl_cons, ih, UnorderedMap.find_set]
      by_cases hl : v ∈ l
      · simp [hl]
      · by_cases ha : v = a <;> simp [hl, ha]

theorem source_keyed_iff : (initDistances graph).find r.id = none ↔ r.id ∉ graph.keys := by
  rw [find_initDistances]
  split_ifs with h <;> simp [h]

theorem find_initRelax (v : NodeId) : (initRelax r graph).distances.find v =
    if v = r.id then some 0 else if v ∈ graph.keys then some uint32Max else none := by
  show ((initDistances graph).set r.id 0).find v = _
  rw [UnorderedMap.find_set, find_initDistances]

theorem sound_init (hr : r.id ∈ graph.keys) : Sound now r graph (initRelax r graph) where
  keyed := by
    intro v hv
    rw [find_initRelax]
    split_ifs <;> rfl
  unkeyed := by
    intro v hv
    have hvr : v ≠ r.id := fun h => hv (h ▸ hr)
    rw [UnorderedMap.val, find_initRelax, if_neg hvr, if_neg hv]
    rfl
  parent_keyed := by intro v h; simp [initRelax] at h
  heap_keyed := by
    intro q hq
    obtain rfl := List.mem_singleton.mp hq
    exact hr
  breakers := fun _ => rfl

/-- Only keys are ever improved: an uninitialised node reads as distance 0. -/
theorem Sound.mem_of_lt (S : Sound now r graph st) (hlt : d < st.distances.val v) :
    v ∈ graph.keys := by
  by_contra hv
  rw [S.unkeyed v hv] at hlt
  simp [UInt32.lt_iff_toNat_lt] at hlt

theorem Sound.relaxEdge (S : Sound now r graph st) (u v : NodeId) (d originalCost : UInt32) :
    Sound now r graph (relaxEdge now r.id u d st (v, originalCost)) := by
  rw [relaxEdge_eq S.breakers]
  split_ifs with hlt
  · have hv := S.mem_of_lt hlt
    refine ⟨?_, ?_, ?_, ?_, ?_⟩
    · intro x hx
      rw [find_improved]
      split_ifs
      · rfl
      · exact S.keyed x hx
    · intro x hx
      have hxv : x ≠ v := fun h => hx (h ▸ hv)
      rw [val_improved, if_neg hxv]
      exact S.unkeyed x hx
    · intro x hx
      rw [parent_improved] at hx
      split_ifs at hx with hxv
      · exact hxv ▸ hv
      · exact S.parent_keyed x hx
    · intro q hq
      rcases MinHeap.mem_push.mp hq with rfl | hq
      · exact hv
      · exact S.heap_keyed q hq
    · intro x
      rw [← S.breakers x]
      exact reportsOpen_linkCost r.id st.linkBreakers x
  · refine ⟨?_, ?_, S.parent_keyed, S.heap_keyed, ?_⟩
    · intro x hx
      rw [find_unimproved]
      split_ifs
      · rfl
      · exact S.keyed x hx
    · intro x hx
      rw [val_unimproved]
      exact S.unkeyed x hx
    · intro x
      rw [← S.breakers x]
      exact reportsOpen_linkCost r.id st.linkBreakers x

/-! ### One round -/

/-- The state once the top entry, for node `u`, is off the heap and `distances[u]`
has been read. -/
def popped (st : RelaxState) (u : NodeId) (minHeap : MinHeap pathNodeLe) : RelaxState :=
  { st with distances := (st.distances.at' u).2, minHeap := minHeap }

theorem relaxRound_eq_none {source : NodeId} :
    relaxRound now source graph st = none ↔ st.minHeap.items = [] := by
  unfold relaxRound
  rw [← MinHeap.pop_eq_none]
  cases hpop : st.minHeap.pop with
  | none => simp
  | some p =>
      simp only [reduceCtorEq, iff_false]
      split
      · simp
      · split <;> simp

theorem exists_relaxRound (now : ℤ) (source : NodeId) (graph : TopologyGraph) {q : PathNode}
    (hq : q ∈ st.minHeap.items) : ∃ st', relaxRound now source graph st = some st' := by
  apply Option.ne_none_iff_exists'.mp
  intro hnone
  rw [relaxRound_eq_none.mp hnone] at hq
  exact List.not_mem_nil hq

/-- All a round can do: drop a stale entry, or scan the edges of the node on top. -/
theorem relaxRound_cases {source : NodeId} (h : relaxRound now source graph st = some st') :
    ∃ d u minHeap, st.minHeap.items = (d, u) :: minHeap.items ∧
      (∀ q ∈ minHeap.items, pathNodeLe (d, u) q) ∧
      ((st.distances.val u < d ∧ st' = popped st u minHeap) ∨
       (¬ st.distances.val u < d ∧ graph.find u = none ∧ st' = popped st u minHeap) ∨
       (¬ st.distances.val u < d ∧ ∃ neighbours, graph.find u = some neighbours ∧
          st' = neighbours.foldl (relaxEdge now source u d) (popped st u minHeap))) := by
  unfold relaxRound at h
  cases hpop : st.minHeap.pop with
  | none => rw [hpop] at h; simp at h
  | some p =>
      obtain ⟨⟨d, u⟩, minHeap⟩ := p
      refine ⟨d, u, minHeap, MinHeap.items_of_pop hpop, MinHeap.pop_le hpop, ?_⟩
      rw [hpop] at h
      simp only [UnorderedMap.at'_fst] at h
      split at h
      · rename_i hlt
        exact Or.inl ⟨hlt, (Option.some.inj h).symm⟩
      · rename_i hlt
        cases hfind : graph.find u with
        | none =>
            rw [hfind] at h
            exact Or.inr (Or.inl ⟨hlt, rfl, (Option.some.inj h).symm⟩)
        | some neighbours =>
            rw [hfind] at h
            exact Or.inr (Or.inr ⟨hlt, neighbours, rfl, (Option.some.inj h).symm⟩)

theorem Sound.popped (S : Sound now r graph st) {minHeap : MinHeap pathNodeLe}
    (hitems : st.minHeap.items = (d, u) :: minHeap.items) :
    Sound now r graph (popped st u minHeap) where
  keyed := by
    intro x hx
    simp only [Network.popped, UnorderedMap.find_at']
    split_ifs
    · rfl
    · exact S.keyed x hx
  unkeyed := by
    intro x hx
    simp only [Network.popped, UnorderedMap.val_at']
    exact S.unkeyed x hx
  parent_keyed := S.parent_keyed
  heap_keyed := fun q hq => S.heap_keyed q (by rw [hitems]; exact List.mem_cons_of_mem _ hq)
  breakers := S.breakers

theorem Sound.foldl (edges : List (NodeId × UInt32)) :
    ∀ {st : RelaxState}, Sound now r graph st →
      Sound now r graph (edges.foldl (Network.relaxEdge now r.id u d) st) := by
  induction edges with
  | nil => exact fun S => S
  | cons e edges ih => exact fun S => ih (S.relaxEdge u e.1 d e.2)

theorem Sound.round (S : Sound now r graph st)
    (h : relaxRound now r.id graph st = some st') : Sound now r graph st' := by
  obtain ⟨d, u, minHeap, hitems, -, ⟨-, rfl⟩ | ⟨-, -, rfl⟩ | ⟨-, neighbours, -, rfl⟩⟩ :=
    relaxRound_cases h
  · exact S.popped hitems
  · exact S.popped hitems
  · exact Sound.foldl neighbours (S.popped hitems)

/-! ### Termination for arbitrary 32-bit costs

A relabelling lowers the sum of the labels and adds one heap entry, so their
total never rises, and a round takes one entry off. -/

/-- The labels of the keys and the heap entries, together. -/
def potential (graph : TopologyGraph) (st : RelaxState) : ℕ :=
  ∑ v ∈ graph.keys.toFinset, (st.distances.val v).toNat + st.minHeap.items.length

theorem Sound.potential_relaxEdge (S : Sound now r graph st) (u v : NodeId)
    (d originalCost : UInt32) :
    potential graph (Network.relaxEdge now r.id u d st (v, originalCost)) ≤
      potential graph st := by
  rw [relaxEdge_eq S.breakers]
  split_ifs with hlt
  · have hv : v ∈ graph.keys.toFinset := List.mem_toFinset.mpr (S.mem_of_lt hlt)
    have hsum : ∑ x ∈ graph.keys.toFinset, ((improved now r.id u st v originalCost
          (d + effectiveCost now r u v originalCost)).distances.val x).toNat <
        ∑ x ∈ graph.keys.toFinset, (st.distances.val x).toNat := by
      apply Finset.sum_lt_sum
      · intro x _
        simp only [improved, UnorderedMap.val_set, UnorderedMap.val_at']
        split_ifs with hx
        · subst hx
          exact (UInt32.lt_iff_toNat_lt.mp hlt).le
        · exact le_rfl
      · refine ⟨v, hv, ?_⟩
        simp only [improved, UnorderedMap.val_set]
        exact UInt32.lt_iff_toNat_lt.mp hlt
    have hlen := MinHeap.length_push st.minHeap (d + effectiveCost now r u v originalCost, v)
    unfold potential
    show _ + (st.minHeap.push _).items.length ≤ _
    omega
  · simp [potential, unimproved]

theorem Sound.potential_foldl (edges : List (NodeId × UInt32)) :
    ∀ {st : RelaxState}, Sound now r graph st →
      potential graph (edges.foldl (Network.relaxEdge now r.id u d) st) ≤
        potential graph st := by
  induction edges with
  | nil => exact fun _ => le_rfl
  | cons e edges ih =>
      exact fun S => (ih (S.relaxEdge u e.1 d e.2)).trans (S.potential_relaxEdge u e.1 d e.2)

theorem potential_popped {minHeap : MinHeap pathNodeLe}
    (hitems : st.minHeap.items = (d, u) :: minHeap.items) :
    potential graph (popped st u minHeap) < potential graph st := by
  simp [potential, popped, hitems]

theorem Sound.potential_round (S : Sound now r graph st)
    (h : relaxRound now r.id graph st = some st') :
    potential graph st' < potential graph st := by
  obtain ⟨d, u, minHeap, hitems, -, ⟨-, rfl⟩ | ⟨-, -, rfl⟩ | ⟨-, neighbours, -, rfl⟩⟩ :=
    relaxRound_cases h
  · exact potential_popped hitems
  · exact potential_popped hitems
  · exact lt_of_le_of_lt (Sound.potential_foldl neighbours (S.popped hitems))
      (potential_popped hitems)

/-- **The relaxation loop always terminates.** -/
theorem relaxAll_returns (now : ℤ) (hr : r.id ∈ graph.keys) :
    ∃ st, Returns (relaxAll now r graph) st :=
  whileFuel_returns (Sound now r graph) (potential graph)
    (fun _ _ S h => ⟨S.round h, S.potential_round h⟩) (sound_init hr)

end Netsim.Network
