import Netsim.Network.ArpCache

/-!
# The two halves of the ARP cache

The list and the map of `network/arp.cpp` refer to each other: a node of the list names
a key of the map, and the entry of a key holds an iterator to its node. Every operation
changes both. `Representation` is what holds of the two between operations, and
`run_representation` that every run keeps it and that no call leaves the defined
accesses. An iterator whose node is gone has no node with its number in the list.
-/

namespace Netsim.Network

open Foundation
open LruCache (Op Event)

namespace ArpCache

/-- The list holds the keys of the map, the last touched first, and every entry of the
map points at the node of its own key. -/
structure Representation (log : List (Event String String)) (c : ArpCache) : Prop where
  keys_perm : (c.usageList.map UsageNode.key).Perm c.cacheMap.keys
  keys_nodup : (c.usageList.map UsageNode.key).Nodup
  ids_nodup : (c.usageList.map UsageNode.id).Nodup
  position : ∀ ip node, c.cacheMap.find ip = some node →
    ∃ n ∈ c.usageList, n.id = node.listPosition ∧ n.key = ip
  size_le : c.cacheMap.size ≤ c.capacityLimit
  touched : ∀ n ∈ c.usageList, 0 < LruCache.lastTouch n.key log
  recency : c.usageList.Pairwise fun m n =>
    LruCache.lastTouch n.key log < LruCache.lastTouch m.key log

variable {capacity : ℕ} {ops : List (Op String String)} {c : ArpCache}
  {log : List (Event String String)} {a : LruCache String String}

/-- The invariant is what the abstract cache beside a run says of its two halves. -/
theorem RunInv.representation (I : RunInv capacity ops c log a) : Representation log c where
  keys_perm := I.refines.keys_eq ▸ I.refines.keys_perm
  keys_nodup := I.refines.keys_eq.symm ▸ a.keys_nodup
  ids_nodup := I.refines.ids_nodup
  position := fun ip node h => ⟨_, I.refines.position ip node h, rfl, rfl⟩
  size_le := by
    rw [I.refines.size_eq, I.refines.capacity_eq]
    exact a.bounded
  touched := by
    intro n hn
    have hkey : n.key ∈ a.keys := I.refines.keys_eq ▸ List.mem_map_of_mem hn
    rcases Option.isSome_iff_exists.mp (LruCache.find_isSome.mpr hkey) with ⟨mac, hfind⟩
    exact LruCache.lastTouch_pos (I.explains.value _ _ hfind ▸ rfl)
  recency := by
    have hkeys := I.explains.stack.pairwise_lastTouch a.keys_nodup
    rw [← I.refines.keys_eq] at hkeys
    exact List.pairwise_map.mp hkeys

/-- Where the invariant holds, a cache that evicts has something to evict. -/
theorem Representation.usageList_ne_nil (R : Representation log c) (hpos : 0 < c.capacityLimit)
    (hfull : c.capacityLimit ≤ c.cacheMap.size) : c.usageList ≠ [] := by
  intro hnil
  have hlength := R.keys_perm.length_eq
  rw [hnil, List.map_nil, List.length_nil] at hlength
  have hsize : c.cacheMap.size = 0 := hlength.symm
  rw [hsize] at hfull
  exact absurd hpos (Nat.not_lt.mpr hfull)

/-- **The list and the map stay in step.** Every sequence of calls is defined, after it
the representation invariant holds, an eviction finds a node at the back of the list,
and every further call is defined: it meets neither a dangling iterator nor an empty
list. -/
theorem run_representation (capacity : ℕ) (hcapacity : 1 ≤ capacity)
    (ops : List (Op String String)) :
    ∃ c log, run capacity ops = some (c, log) ∧ c.capacityLimit = capacity ∧
      Representation log c ∧
      (c.capacityLimit ≤ c.cacheMap.size → c.usageList ≠ []) ∧
      ∀ op, (step (c, log) op).isSome := by
  obtain ⟨c, log, a, hrun, I⟩ := run_inv hcapacity ops
  have hlimit : c.capacityLimit = capacity := I.refines.capacity_eq.trans I.capacity_eq
  refine ⟨c, log, hrun, hlimit, I.representation, ?_, fun op => ?_⟩
  · exact I.representation.usageList_ne_nil (hlimit ▸ hcapacity)
  · obtain ⟨c', hstep, -⟩ := step_refines I.refines log op
    rw [hstep]
    rfl

/-- A cache for one address, which the second put evicts and an invalidation empties. -/
theorem run_representation_one :
    ∃ c log, run 1 [.put "10.0.0.1" "5E", .put "10.0.0.2" "5F", .get "10.0.0.2",
        .invalidate "10.0.0.2"] = some (c, log) ∧ c.capacityLimit = 1 ∧
      Representation log c ∧
      (c.capacityLimit ≤ c.cacheMap.size → c.usageList ≠ []) ∧
      ∀ op, (step (c, log) op).isSome :=
  run_representation 1 (by decide) _

end ArpCache

end Netsim.Network
