import Netsim.Foundation.LruCache
import Netsim.Foundation.UnorderedMap

/-!
# The ARP cache

`network/arp.hpp` and `arp.cpp`: a list of the addresses in the order of their use,
and a hash map from an address to its hardware address and to its place in the list.
The places are iterators. A node of the list keeps its identity when it is spliced
to the front, so an iterator is modelled by the number of its node; an access through
one whose node is gone, or to the back of an empty list, is undefined and gives `none`.

The cache refines the abstract LRU cache (`step_refines`), hence it never comes to
such an access and its contents are those that the stack distances give.
-/

namespace Netsim.Network

open Foundation

/-- A node of `usage_list`. -/
structure UsageNode where
  id : ℕ
  key : String
deriving DecidableEq, Repr

structure CacheNode where
  macAddress : String
  listPosition : ℕ
deriving DecidableEq, Repr

/-- `allocated` counts the nodes that the list has ever made. -/
structure ArpCache where
  capacityLimit : ℕ
  usageList : List UsageNode
  cacheMap : UnorderedMap String CacheNode
  allocated : ℕ

/-- `usage_list.splice(usage_list.begin(), usage_list, position)`. -/
def spliceFront (position : ℕ) (l : List UsageNode) : Option (List UsageNode) :=
  (l.find? (·.id = position)).map fun node => node :: l.eraseP (·.id = position)

/-- `usage_list.erase(position)`. -/
def eraseAt (position : ℕ) (l : List UsageNode) : Option (List UsageNode) :=
  (l.find? (·.id = position)).map fun _ => l.eraseP (·.id = position)

namespace ArpCache

/-- The constructor; `none` is the `std::invalid_argument`. -/
def make (maxCapacity : ℕ) : Option ArpCache :=
  if maxCapacity = 0 then none else some ⟨maxCapacity, [], ∅, 0⟩

def get (ip : String) (c : ArpCache) : Option ((Bool × String) × ArpCache) :=
  match c.cacheMap.find ip with
  | none => some ((false, ""), c)
  | some node => do
      let usageList ← spliceFront node.listPosition c.usageList
      pure ((true, node.macAddress), { c with usageList := usageList })

/-- The eviction of `put`: what the back of the list names goes from both. -/
def evict (c : ArpCache) : Option ArpCache :=
  c.usageList.getLast?.map fun node =>
    { c with cacheMap := c.cacheMap.erase node.key, usageList := c.usageList.dropLast }

/-- The capacity check of `put`. -/
def makeRoom (c : ArpCache) : Option ArpCache :=
  if c.cacheMap.size ≥ c.capacityLimit then c.evict else some c

/-- The insertion of `put`. -/
def enter (ip mac : String) (c : ArpCache) : ArpCache :=
  { c with
    usageList := ⟨c.allocated, ip⟩ :: c.usageList
    cacheMap := c.cacheMap.set ip ⟨mac, c.allocated⟩
    allocated := c.allocated + 1 }

def put (ip mac : String) (c : ArpCache) : Option ArpCache :=
  match c.cacheMap.find ip with
  | some node => do
      let usageList ← spliceFront node.listPosition c.usageList
      pure { c with
        cacheMap := c.cacheMap.set ip { node with macAddress := mac }
        usageList := usageList }
  | none => c.makeRoom.map (enter ip mac)

def invalidate (ip : String) (c : ArpCache) : Option (Bool × ArpCache) :=
  match c.cacheMap.find ip with
  | none => some (false, c)
  | some node => do
      let usageList ← eraseAt node.listPosition c.usageList
      pure (true, { c with usageList := usageList, cacheMap := c.cacheMap.erase ip })

def contains (c : ArpCache) (ip : String) : Prop := (c.cacheMap.find ip).isSome

/-! ### Runs -/

open LruCache (Op Event)

/-- One call, logged with what it answered. -/
def step (s : ArpCache × List (Event String String)) :
    Op String String → Option (ArpCache × List (Event String String))
  | .put ip mac => (s.1.put ip mac).map fun c => (c, .put ip mac :: s.2)
  | .get ip =>
      (s.1.get ip).map fun r =>
        (r.2, (if r.1.1 = true then .hit ip r.1.2 else .miss ip) :: s.2)
  | .invalidate ip => (s.1.invalidate ip).map fun r => (r.2, .invalidate ip :: s.2)

def run (maxCapacity : ℕ) (ops : List (Op String String)) :
    Option (ArpCache × List (Event String String)) :=
  (make maxCapacity).bind fun c => ops.foldlM step (c, [])

/-! ### Refinement -/

/-- The list holds the keys of the abstract cache in their order, and every entry of the
map knows where its key stands. -/
structure Refines (c : ArpCache) (a : LruCache String String) : Prop where
  capacity_eq : c.capacityLimit = a.capacity
  keys_eq : c.usageList.map UsageNode.key = a.keys
  ids_nodup : (c.usageList.map UsageNode.id).Nodup
  ids_lt : ∀ node ∈ c.usageList, node.id < c.allocated
  mac_eq : ∀ ip, (c.cacheMap.find ip).map CacheNode.macAddress = a.find ip
  position : ∀ ip node, c.cacheMap.find ip = some node →
    ⟨node.listPosition, ip⟩ ∈ c.usageList

variable {c : ArpCache} {a : LruCache String String} {ip mac : String} {node : CacheNode}

theorem Refines.find_eq_none (R : Refines c a) (h : c.cacheMap.find ip = none) :
    a.find ip = none := by
  rw [← R.mac_eq, h]
  rfl

theorem Refines.notMem_keys (R : Refines c a) (h : c.cacheMap.find ip = none) : ip ∉ a.keys := by
  rw [← LruCache.find_isSome, R.find_eq_none h]
  exact Bool.false_ne_true

theorem Refines.find_eq_some (R : Refines c a) (h : c.cacheMap.find ip = some node) :
    a.find ip = some node.macAddress := by
  rw [← R.mac_eq, h]
  rfl

theorem Refines.keys_perm (R : Refines c a) : a.keys.Perm c.cacheMap.keys := by
  rw [List.perm_ext_iff_of_nodup a.keys_nodup c.cacheMap.keys_nodup]
  intro ip
  rw [UnorderedMap.mem_keys, ← LruCache.find_isSome, ← R.mac_eq, Option.isSome_map]

/-- The map has as many entries as the list has nodes. -/
theorem Refines.size_eq (R : Refines c a) : c.cacheMap.size = a.keys.length :=
  R.keys_perm.length_eq.symm

/-- Where an iterator of the map points. -/
theorem Refines.focus (R : Refines c a) (h : c.cacheMap.find ip = some node) :
    ∃ newer older, c.usageList = newer ++ ⟨node.listPosition, ip⟩ :: older ∧
      (∀ n ∈ newer, n.id ≠ node.listPosition) ∧
      a.keys.erase ip = (newer ++ older).map UsageNode.key := by
  obtain ⟨newer, older, hlist⟩ := List.append_of_mem (R.position ip node h)
  refine ⟨newer, older, hlist, fun n hn hid => ?_, ?_⟩
  · have hids := R.ids_nodup
    rw [hlist, List.map_append, List.nodup_append] at hids
    exact hids.2.2 n.id (List.mem_map_of_mem hn) node.listPosition
      (by simp) hid
  · have hkeys := R.keys_eq
    rw [hlist, List.map_append, List.map_cons] at hkeys
    have hnodup := a.keys_nodup
    rw [← hkeys, List.nodup_append] at hnodup
    have hip : ip ∉ newer.map UsageNode.key := fun hmem =>
      hnodup.2.2 ip hmem ip List.mem_cons_self rfl
    rw [← hkeys, List.erase_append_right _ hip, List.erase_cons_head, List.map_append]

theorem spliceFront_eq {newer older : List UsageNode} {n : UsageNode}
    (h : ∀ m ∈ newer, m.id ≠ n.id) :
    spliceFront n.id (newer ++ n :: older) = some (n :: (newer ++ older)) := by
  have hnone : newer.find? (·.id = n.id) = none := by simpa using h
  unfold spliceFront
  rw [List.find?_append, hnone, List.eraseP_append_right _ (by simpa using h)]
  simp

theorem eraseAt_eq {newer older : List UsageNode} {n : UsageNode}
    (h : ∀ m ∈ newer, m.id ≠ n.id) :
    eraseAt n.id (newer ++ n :: older) = some (newer ++ older) := by
  have hnone : newer.find? (·.id = n.id) = none := by simpa using h
  unfold eraseAt
  rw [List.find?_append, hnone, List.eraseP_append_right _ (by simpa using h)]
  simp

/-- A splice puts the address on top of both caches; its entry keeps its place. -/
theorem Refines.promote (R : Refines c a) (h : c.cacheMap.find ip = some node) (mac : String) :
    ∃ usageList, spliceFront node.listPosition c.usageList = some usageList ∧
      ∀ cacheMap : UnorderedMap String CacheNode,
        (∀ j, cacheMap.find j =
          if j = ip then some { node with macAddress := mac } else c.cacheMap.find j) →
        Refines { c with usageList := usageList, cacheMap := cacheMap } (a.put ip mac) := by
  obtain ⟨newer, older, hlist, hnewer, hkeys⟩ := R.focus h
  have hip : ip ∈ a.keys := LruCache.find_isSome.mp (R.find_eq_some h ▸ rfl)
  have hperm : (⟨node.listPosition, ip⟩ :: (newer ++ older)).Perm c.usageList :=
    hlist ▸ List.perm_middle.symm
  refine ⟨⟨node.listPosition, ip⟩ :: (newer ++ older), ?_, fun cacheMap hmap => ?_⟩
  · rw [hlist]
    exact spliceFront_eq (n := ⟨node.listPosition, ip⟩) hnewer
  constructor
  · exact R.capacity_eq.trans (LruCache.capacity_put a ip mac).symm
  · rw [LruCache.keys_put_of_mem hip, hkeys]
    rfl
  · exact (hperm.map UsageNode.id).nodup_iff.mpr R.ids_nodup
  · exact fun n hn => R.ids_lt n (hperm.mem_iff.mp hn)
  · intro j
    rw [LruCache.find_put_of_mem hip, hmap]
    split_ifs
    · rfl
    · exact R.mac_eq j
  · intro j n hj
    rw [hmap] at hj
    split_ifs at hj with hjip
    · obtain rfl := Option.some.inj hj
      exact hjip ▸ List.mem_cons_self
    · exact hperm.mem_iff.mpr (R.position j n hj)

theorem Refines.get (R : Refines c a) (ip : String) :
    (c.cacheMap.find ip = none ∧ c.get ip = some ((false, ""), c)) ∨
      ∃ node c', c.cacheMap.find ip = some node ∧
        c.get ip = some ((true, node.macAddress), c') ∧ Refines c' (a.put ip node.macAddress) := by
  cases hfind : c.cacheMap.find ip with
  | none => exact Or.inl ⟨rfl, by simp only [ArpCache.get, hfind]⟩
  | some node =>
      obtain ⟨usageList, hsplice, hrefines⟩ := R.promote hfind node.macAddress
      refine Or.inr ⟨node, { c with usageList := usageList }, rfl, ?_, hrefines c.cacheMap ?_⟩
      · simp only [ArpCache.get, hfind, hsplice, Option.bind_eq_bind, Option.bind_some]
        rfl
      · intro j
        split_ifs with hj
        · rw [hj, hfind]
        · rfl

/-- The entries that an eviction leaves are those that the abstract cache keeps. -/
theorem Refines.makeRoom (R : Refines c a) :
    ∃ c', c.makeRoom = some c' ∧
      c'.capacityLimit = c.capacityLimit ∧ c'.allocated = c.allocated ∧
      c'.usageList.Sublist c.usageList ∧
      c'.usageList.map UsageNode.key = a.makeRoom.keys ∧
      (∀ ip, (c'.cacheMap.find ip).map CacheNode.macAddress = a.makeRoom.lookup ip) ∧
      ∀ ip node, c'.cacheMap.find ip = some node →
        ⟨node.listPosition, ip⟩ ∈ c'.usageList := by
  rw [ArpCache.makeRoom, R.size_eq, R.capacity_eq]
  rcases Nat.lt_or_ge a.keys.length a.capacity with hlt | hfull
  · rw [if_neg (Nat.not_le.mpr hlt), LruCache.makeRoom_of_lt hlt]
    exact ⟨c, rfl, R.capacity_eq, rfl, List.Sublist.refl _, R.keys_eq, R.mac_eq, R.position⟩
  · obtain ⟨older, oldest, hkeys, herase, hroom⟩ := LruCache.makeRoom_of_full hfull
    rw [if_pos hfull, hroom, herase]
    obtain ⟨l, l', hlist, hl, hl'⟩ := List.map_eq_append_iff.mp (R.keys_eq.trans hkeys)
    obtain ⟨last, rfl, hlast⟩ := List.map_eq_singleton_iff.mp hl'
    refine ⟨{ c with cacheMap := c.cacheMap.erase oldest, usageList := l }, ?_, R.capacity_eq,
      rfl, ?_, hl, fun ip => ?_, fun ip node hip => ?_⟩
    · simp [evict, hlist, hlast]
    · rw [hlist]
      exact List.sublist_append_left _ _
    · show ((c.cacheMap.erase oldest).find ip).map CacheNode.macAddress = _
      rw [UnorderedMap.find_erase]
      split_ifs with hold
      · rw [hold, AList.lookup_erase]
        rfl
      · rw [AList.lookup_erase_ne hold]
        exact R.mac_eq ip
    · rw [UnorderedMap.find_erase] at hip
      split_ifs at hip with hold
      have hmem := R.position ip node hip
      rw [hlist, List.mem_append, List.mem_singleton] at hmem
      exact hmem.resolve_right fun h => hold (hlast ▸ congrArg UsageNode.key h)

theorem Refines.put (R : Refines c a) (ip mac : String) :
    ∃ c', c.put ip mac = some c' ∧ Refines c' (a.put ip mac) := by
  cases hfind : c.cacheMap.find ip with
  | some node =>
      obtain ⟨usageList, hsplice, hrefines⟩ := R.promote hfind mac
      refine ⟨_, ?_, hrefines (c.cacheMap.set ip { node with macAddress := mac })
        fun j => UnorderedMap.find_set ..⟩
      simp only [ArpCache.put, hfind, hsplice, Option.bind_eq_bind, Option.bind_some]
      rfl
  | none =>
      have hip := R.notMem_keys hfind
      obtain ⟨room, hroom, hcapacity, hallocated, hsublist, hkeys, hmac, hposition⟩ := R.makeRoom
      have hnot : ip ∉ a.makeRoom.keys := by
        rw [← hkeys]
        exact fun h => hip (R.keys_eq ▸ (hsublist.map UsageNode.key).subset h)
      have hlt : ∀ n ∈ room.usageList, n.id < room.allocated := fun n hn =>
        hallocated ▸ R.ids_lt n (hsublist.subset hn)
      refine ⟨room.enter ip mac, by simp only [ArpCache.put, hfind, hroom, Option.map_some], ?_⟩
      constructor
      · exact (hcapacity.trans R.capacity_eq).trans (LruCache.capacity_put a ip mac).symm
      · rw [LruCache.keys_put_of_notMem hip, List.erase_of_not_mem hnot, ← hkeys]
        rfl
      · -- the new node is none of those that were allocated before
        refine List.nodup_cons.mpr ⟨fun h => ?_, R.ids_nodup.sublist (hsublist.map UsageNode.id)⟩
        obtain ⟨n, hn, hid⟩ := List.mem_map.mp h
        exact Nat.ne_of_lt (hlt n hn) hid
      · intro n hn
        rcases List.mem_cons.mp hn with rfl | hn
        · exact Nat.lt_succ_self _
        · exact Nat.lt_succ_of_lt (hlt n hn)
      · intro j
        rw [LruCache.find_put_of_notMem hip, enter, UnorderedMap.find_set]
        split_ifs
        · rfl
        · exact hmac j
      · intro j n hj
        rw [enter, UnorderedMap.find_set] at hj
        split_ifs at hj with hjip
        · obtain rfl := Option.some.inj hj
          exact hjip ▸ List.mem_cons_self
        · exact List.mem_cons_of_mem _ (hposition j n hj)

theorem Refines.invalidate (R : Refines c a) (ip : String) :
    ∃ r, c.invalidate ip = some r ∧ Refines r.2 (a.invalidate ip) := by
  cases hfind : c.cacheMap.find ip with
  | none =>
      refine ⟨(false, c), by simp only [ArpCache.invalidate, hfind], ?_⟩
      rw [LruCache.invalidate_of_notMem (R.notMem_keys hfind)]
      exact R
  | some node =>
      obtain ⟨newer, older, hlist, hnewer, hkeys⟩ := R.focus hfind
      have hsublist : (newer ++ older).Sublist c.usageList :=
        hlist ▸ (List.Sublist.refl newer).append (List.sublist_cons_self _ _)
      refine ⟨(true, { c with
        usageList := newer ++ older, cacheMap := c.cacheMap.erase ip }), ?_, ?_⟩
      · have herase : eraseAt node.listPosition c.usageList = some (newer ++ older) := by
          rw [hlist]
          exact eraseAt_eq (n := ⟨node.listPosition, ip⟩) hnewer
        simp only [ArpCache.invalidate, hfind, herase, Option.bind_eq_bind, Option.bind_some]
        rfl
      constructor
      · exact R.capacity_eq
      · rw [LruCache.keys_invalidate, hkeys]
      · exact R.ids_nodup.sublist (hsublist.map UsageNode.id)
      · exact fun n hn => R.ids_lt n (hsublist.subset hn)
      · intro j
        rw [LruCache.find_invalidate, UnorderedMap.find_erase]
        split_ifs
        · rfl
        · exact R.mac_eq j
      · intro j n hj
        rw [UnorderedMap.find_erase] at hj
        split_ifs at hj with hjip
        have hmem := R.position j n hj
        rw [hlist, List.mem_append, List.mem_cons] at hmem
        rw [List.mem_append]
        refine hmem.imp id fun h => h.resolve_left fun heq => ?_
        exact hjip (congrArg UsageNode.key heq)

/-- **The cache refines the LRU cache.** Each call is defined, is logged as the same
event and leaves corresponding caches. -/
theorem step_refines (R : Refines c a) (log : List (Event String String))
    (op : Op String String) :
    ∃ c', step (c, log) op = some (c', (a.step op).1 :: log) ∧ Refines c' (a.step op).2 := by
  cases op with
  | put ip mac =>
      obtain ⟨c', hput, hrefines⟩ := R.put ip mac
      exact ⟨c', by simp only [step, hput, Option.map_some, LruCache.step], hrefines⟩
  | get ip =>
      rcases R.get ip with ⟨hfind, hget⟩ | ⟨node, c', hfind, hget, hrefines⟩
      · refine ⟨c, ?_, ?_⟩
        · simp [step, hget, LruCache.step, LruCache.get_of_find_eq_none (R.find_eq_none hfind)]
        · simpa [LruCache.step, LruCache.get_of_find_eq_none (R.find_eq_none hfind)] using R
      · refine ⟨c', ?_, ?_⟩
        · simp [step, hget, LruCache.step, LruCache.get_of_find (R.find_eq_some hfind)]
        · simpa [LruCache.step, LruCache.get_of_find (R.find_eq_some hfind)] using hrefines
  | invalidate ip =>
      obtain ⟨r, hinvalidate, hrefines⟩ := R.invalidate ip
      exact ⟨r.2, by simp only [step, hinvalidate, Option.map_some, LruCache.step], hrefines⟩

/-! ### Whole runs -/

/-- A run of the cache has an abstract cache beside it that its log explains. -/
structure RunInv (capacity : ℕ) (ops : List (Op String String)) (c : ArpCache)
    (log : List (Event String String)) (a : LruCache String String) : Prop where
  refines : Refines c a
  explains : LruCache.Explains log a
  capacity_eq : a.capacity = capacity
  invalidated : ∀ ip, .invalidate ip ∈ log → .invalidate ip ∈ ops

theorem run_concat (capacity : ℕ) (ops : List (Op String String)) (op : Op String String) :
    run capacity (ops ++ [op]) = (run capacity ops).bind fun s => step s op := by
  unfold run
  cases make capacity with
  | none => rfl
  | some c => simp [List.foldlM_append]

theorem run_inv {capacity : ℕ} (hcapacity : 1 ≤ capacity) (ops : List (Op String String)) :
    ∃ c log a, run capacity ops = some (c, log) ∧ RunInv capacity ops c log a := by
  induction ops using List.reverseRecOn with
  | nil =>
      refine ⟨⟨capacity, [], ∅, 0⟩, [], .empty capacity hcapacity, ?_, ?_⟩
      · simp [run, make, Nat.ne_of_gt hcapacity]
      · exact ⟨⟨rfl, rfl, List.nodup_nil, by simp, by simp [LruCache.find, LruCache.empty],
          by simp⟩, LruCache.explains_empty capacity hcapacity, rfl, by simp⟩
  | append_singleton ops op ih =>
      obtain ⟨c, log, a, hrun, I⟩ := ih
      obtain ⟨c', hstep, hrefines⟩ := step_refines I.refines log op
      refine ⟨c', (a.step op).1 :: log, (a.step op).2, ?_, hrefines, I.explains.step op, ?_, ?_⟩
      · rw [run_concat, hrun, Option.bind_some, hstep]
      · exact (LruCache.capacity_step a op).trans I.capacity_eq
      · intro ip hip
        rw [List.mem_append, List.mem_singleton]
        rcases List.mem_cons.mp hip with heq | hlog
        · exact Or.inr (LruCache.eq_invalidate_of_step heq.symm).symm
        · exact Or.inl (I.invalidated ip hlog)

/-- **`ArpCache` is an LRU cache.** On every run all calls are defined; a get that hits
returns the hardware address of the latest put; an address stays while it has been put,
has not been invalidated since its last touch and fewer than `capacity` others have been
touched since; and in runs without invalidation it is there only then. -/
theorem arpCache_lru (capacity : ℕ) (hcapacity : 1 ≤ capacity) (ops : List (Op String String)) :
    ∃ c log, run capacity ops = some (c, log) ∧
      (∀ ip, ∃ found mac c', c.get ip = some ((found, mac), c') ∧
        (found = true ↔ c.contains ip) ∧
        (found = true → LruCache.latestPut ip log = some mac)) ∧
      (∀ ip, (LruCache.latestPut ip log).isSome → ¬ LruCache.InvalidatedSince ip log →
        (LruCache.touchedSince ip log).card < capacity → c.contains ip) ∧
      ((∀ ip, .invalidate ip ∉ ops) → ∀ ip, c.contains ip ↔
        (LruCache.latestPut ip log).isSome ∧
          (LruCache.touchedSince ip log).card < capacity) := by
  obtain ⟨c, log, a, hrun, I⟩ := run_inv hcapacity ops
  have hcontains : ∀ ip, c.contains ip ↔ ip ∈ a.keys := by
    intro ip
    rw [← LruCache.find_isSome, ← I.refines.mac_eq, Option.isSome_map]
    rfl
  refine ⟨c, log, hrun, fun ip => ?_, fun ip hput hvalid hlt => ?_, fun hops ip => ?_⟩
  · rcases I.refines.get ip with ⟨hfind, hget⟩ | ⟨node, c', hfind, hget, -⟩
    · refine ⟨false, "", c, hget, ?_, fun h => Bool.noConfusion h⟩
      simp [contains, hfind]
    · refine ⟨true, node.macAddress, c', hget, ?_, fun _ => ?_⟩
      · simp [contains, hfind]
      · exact I.explains.value ip _ (I.refines.find_eq_some hfind)
  · rw [hcontains]
    exact I.explains.mem_keys hput hvalid (I.capacity_eq.symm ▸ hlt)
  · rw [hcontains, ← I.capacity_eq]
    exact I.explains.mem_keys_iff fun i hi => hops i (I.invalidated i hi)

/-- The four-step run of the tests, with an invalidation after it. -/
theorem arpCache_lru_two :
    ∃ c log, run 2 [.put "10.0.0.1" "5E", .put "10.0.0.2" "5F", .get "10.0.0.1",
        .put "10.0.0.3" "60", .invalidate "10.0.0.1"] = some (c, log) ∧
      (∀ ip, ∃ found mac c', c.get ip = some ((found, mac), c') ∧
        (found = true ↔ c.contains ip) ∧
        (found = true → LruCache.latestPut ip log = some mac)) ∧
      (∀ ip, (LruCache.latestPut ip log).isSome → ¬ LruCache.InvalidatedSince ip log →
        (LruCache.touchedSince ip log).card < 2 → c.contains ip) ∧
      ((∀ ip, .invalidate ip ∉ [Op.put "10.0.0.1" "5E", .put "10.0.0.2" "5F", .get "10.0.0.1",
          .put "10.0.0.3" "60", .invalidate "10.0.0.1"]) → ∀ ip, c.contains ip ↔
        (LruCache.latestPut ip log).isSome ∧ (LruCache.touchedSince ip log).card < 2) :=
  arpCache_lru 2 (by decide) _

end ArpCache

end Netsim.Network
