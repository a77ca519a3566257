import Mathlib.Data.List.AList
import Mathlib.Data.Finset.Card

/-!
# Least recently used caches

The abstract cache keeps its entries in the order of their last use, the newest
first, and gives up the last one when a new key needs room. Its meaning is told
from the log of what happened to it: which keys have been touched since a key was
last touched. A key stays as long as they are fewer than the capacity, and in runs
without invalidation no longer (`StackInv.mem_iff`).
-/

namespace Foundation

universe u v

/-- Distinct keys, newest use first, never more than the capacity. -/
structure LruCache (K : Type u) (V : Type v) where
  capacity : ℕ
  entries : AList fun _ : K => V
  capacity_pos : 0 < capacity
  bounded : entries.keys.length ≤ capacity

namespace LruCache

variable {K : Type u} {V : Type v}

inductive Op (K : Type u) (V : Type v) where
  | put (k : K) (x : V)
  | get (k : K)
  | invalidate (k : K)

/-- What an operation turned out to be. -/
inductive Event (K : Type u) (V : Type v) where
  | put (k : K) (x : V)
  | hit (k : K) (x : V)
  | miss (k : K)
  | invalidate (k : K)
deriving DecidableEq, Repr

def keys (c : LruCache K V) : List K := c.entries.keys

theorem keys_nodup (c : LruCache K V) : c.keys.Nodup := c.entries.keys_nodup

def empty (capacity : ℕ) (h : 0 < capacity) : LruCache K V := ⟨capacity, ∅, h, Nat.zero_le _⟩

variable [DecidableEq K]

def find (c : LruCache K V) (k : K) : Option V := c.entries.lookup k

theorem find_isSome {c : LruCache K V} {k : K} : (c.find k).isSome ↔ k ∈ c.keys :=
  AList.lookup_isSome

/-- The entries that stay when a new key comes. -/
def makeRoom (c : LruCache K V) : AList fun _ : K => V :=
  if c.capacity ≤ c.keys.length then
    match c.keys.getLast? with
    | some k => c.entries.erase k
    | none => c.entries
  else c.entries

theorem makeRoom_of_lt {c : LruCache K V} (h : c.keys.length < c.capacity) :
    c.makeRoom = c.entries := if_neg (Nat.not_le.mpr h)

/-- In a full cache there is a last key, and it goes. -/
theorem makeRoom_of_full {c : LruCache K V} (h : c.capacity ≤ c.keys.length) :
    ∃ older oldest, c.keys = older ++ [oldest] ∧ c.makeRoom = c.entries.erase oldest ∧
      c.makeRoom.keys = older := by
  rcases List.eq_nil_or_concat c.keys with hnil | ⟨older, oldest, hkeys⟩
  · rw [hnil] at h
    exact absurd c.capacity_pos (Nat.not_lt.mpr h)
  · rw [List.concat_eq_append] at hkeys
    have hroom : c.makeRoom = c.entries.erase oldest := by
      unfold makeRoom
      rw [if_pos h, hkeys, List.getLast?_concat]
    have hnotMem : oldest ∉ older := by
      have hnodup := c.keys_nodup
      rw [hkeys, List.nodup_append] at hnodup
      exact fun hmem => hnodup.2.2 oldest hmem oldest (List.mem_singleton_self _) rfl
    refine ⟨older, oldest, hkeys, hroom, ?_⟩
    rw [hroom, AList.keys_erase]
    show c.keys.erase oldest = older
    rw [hkeys, List.erase_append_right _ hnotMem, List.erase_cons_head, List.append_nil]

theorem length_makeRoom_lt (c : LruCache K V) : c.makeRoom.keys.length < c.capacity := by
  rcases Nat.lt_or_ge c.keys.length c.capacity with hlt | hfull
  · rw [makeRoom_of_lt hlt]
    exact hlt
  · obtain ⟨older, oldest, hkeys, -, holder⟩ := makeRoom_of_full hfull
    have hlength := congrArg List.length hkeys
    rw [List.length_append, List.length_singleton] at hlength
    rw [holder, ← Nat.succ_le_iff, Nat.succ_eq_add_one, ← hlength]
    exact c.bounded

/-- Use `k`, which has an entry: it moves to the front. -/
def promote (c : LruCache K V) (k : K) (x : V) (h : k ∈ c.keys) : LruCache K V where
  capacity := c.capacity
  entries := c.entries.insert k x
  capacity_pos := c.capacity_pos
  bounded := by
    rw [AList.keys_insert, List.length_cons, List.length_erase_add_one]
    · exact c.bounded
    · exact h

/-- Enter a key that has no entry. -/
def enter (c : LruCache K V) (k : K) (x : V) : LruCache K V where
  capacity := c.capacity
  entries := c.makeRoom.insert k x
  capacity_pos := c.capacity_pos
  bounded := by
    rw [AList.keys_insert, List.length_cons]
    exact Nat.lt_of_le_of_lt List.length_erase_le c.length_makeRoom_lt

def put (c : LruCache K V) (k : K) (x : V) : LruCache K V :=
  if h : k ∈ c.keys then c.promote k x h else c.enter k x

def get (c : LruCache K V) (k : K) : Option V × LruCache K V :=
  if h : k ∈ c.keys then
    let x := (c.find k).get (find_isSome.mpr h)
    (some x, c.promote k x h)
  else (none, c)

def invalidate (c : LruCache K V) (k : K) : LruCache K V where
  capacity := c.capacity
  entries := c.entries.erase k
  capacity_pos := c.capacity_pos
  bounded := by
    rw [AList.keys_erase]
    exact Nat.le_trans List.length_erase_le c.bounded

/-- One operation, and the event it is logged as. -/
def step (c : LruCache K V) : Op K V → Event K V × LruCache K V
  | .put k x => (.put k x, c.put k x)
  | .get k =>
      match c.get k with
      | (some x, c) => (.hit k x, c)
      | (none, c) => (.miss k, c)
  | .invalidate k => (.invalidate k, c.invalidate k)

/-! ### What a log says, latest event first -/

def Event.touched : Event K V → Option K
  | .put k _ => some k
  | .hit k _ => some k
  | .miss _ => none
  | .invalidate _ => none

/-- The value of the latest put of a key. -/
def latestPut (k : K) : List (Event K V) → Option V
  | [] => none
  | .put j x :: log => if j = k then some x else latestPut k log
  | _ :: log => latestPut k log

/-- The other keys that have been touched since a key's last touch. -/
def touchedSince (k : K) : List (Event K V) → Finset K
  | [] => ∅
  | e :: log =>
      match e.touched with
      | some j => if j = k then ∅ else insert j (touchedSince k log)
      | none => touchedSince k log

/-- The number of the event that touched a key last, from one on. -/
def lastTouch (k : K) : List (Event K V) → ℕ
  | [] => 0
  | e :: log => if e.touched = some k then log.length + 1 else lastTouch k log

/-- A key has been invalidated since its last touch. -/
def InvalidatedSince (k : K) : List (Event K V) → Prop
  | [] => False
  | e :: log => e.touched ≠ some k ∧ (e = .invalidate k ∨ InvalidatedSince k log)

/-- The keys used more recently than `k`. -/
def newer (k : K) (l : List K) : List K := l.takeWhile (· ≠ k)

@[simp] theorem newer_cons_self (k : K) (l : List K) : newer k (k :: l) = [] := by
  simp [newer]

theorem newer_cons_of_ne {j k : K} (h : j ≠ k) (l : List K) :
    newer k (j :: l) = j :: newer k l := by
  simp [newer, h]

theorem newer_append_of_mem {k : K} {l : List K} (h : k ∈ l) (l' : List K) :
    newer k (l ++ l') = newer k l := by
  induction l with
  | nil => simp at h
  | cons j l ih =>
      rw [List.cons_append]
      by_cases hj : j = k
      · subst hj
        simp
      · rw [newer_cons_of_ne hj, newer_cons_of_ne hj,
          ih ((List.mem_cons.mp h).resolve_left (Ne.symm hj))]

theorem newer_concat_self {k : K} {l : List K} (h : k ∉ l) : newer k (l ++ [k]) = l := by
  induction l with
  | nil => simp
  | cons j l ih =>
      rw [List.mem_cons, not_or] at h
      rw [List.cons_append, newer_cons_of_ne (Ne.symm h.1), ih h.2]

theorem newer_erase {j k : K} (h : j ≠ k) (l : List K) :
    newer k (l.erase j) = (newer k l).erase j := by
  induction l with
  | nil => rfl
  | cons i l ih =>
      by_cases hij : i = j
      · subst hij
        rw [newer_cons_of_ne h, List.erase_cons_head, List.erase_cons_head]
      · rw [List.erase_cons_tail (by simpa using hij)]
        by_cases hik : i = k
        · subst hik
          simp
        · rw [newer_cons_of_ne hik, newer_cons_of_ne hik, ih,
            List.erase_cons_tail (by simpa using hij)]

theorem newer_sublist (k : K) (l : List K) : (newer k l).Sublist l := List.takeWhile_sublist _

theorem notMem_newer_self (k : K) (l : List K) : k ∉ newer k l := by
  induction l with
  | nil => exact List.not_mem_nil
  | cons j l ih =>
      by_cases hj : j = k
      · subst hj
        simp
      · rw [newer_cons_of_ne hj, List.mem_cons, not_or]
        exact ⟨Ne.symm hj, ih⟩

/-- In a list without repetitions everything that stands before a key is newer. -/
theorem pairwise_newer {l : List K} (hl : l.Nodup) : l.Pairwise fun i k => i ∈ newer k l := by
  induction l with
  | nil => exact List.Pairwise.nil
  | cons j l ih =>
      rcases List.nodup_cons.mp hl with ⟨hj, hl⟩
      have hne : ∀ k ∈ l, j ≠ k := fun k hk h => hj (h ▸ hk)
      refine List.pairwise_cons.mpr ⟨fun k hk => ?_, ?_⟩
      · rw [newer_cons_of_ne (hne k hk)]
        exact List.mem_cons_self
      · refine (ih hl).imp_of_mem fun _ hk hi => ?_
        rw [newer_cons_of_ne (hne _ hk)]
        exact List.mem_cons_of_mem _ hi

/-! ### The stack of keys and the log -/

variable {n : ℕ} {l : List K} {log : List (Event K V)} {e : Event K V} {j k : K}

omit [DecidableEq K] in
theorem InvalidatedSince.of_ne (he : e.touched = some j) (h : j ≠ k)
    (hlog : InvalidatedSince k log) : InvalidatedSince k (e :: log) :=
  ⟨fun hk => h (Option.some.inj (he.symm.trans hk)), Or.inr hlog⟩

omit [DecidableEq K] in
theorem not_invalidatedSince (hlog : ∀ i, .invalidate i ∉ log) (k : K) :
    ¬ InvalidatedSince k log := by
  induction log with
  | nil => exact id
  | cons e log ih =>
      rintro ⟨-, rfl | h⟩
      · exact hlog k List.mem_cons_self
      · exact ih (fun i hi => hlog i (List.mem_cons_of_mem _ hi)) h

theorem touchedSince_cons_self (he : e.touched = some k) : touchedSince k (e :: log) = ∅ := by
  simp [touchedSince, he]

theorem touchedSince_cons_of_ne (he : e.touched = some j) (h : j ≠ k) :
    touchedSince k (e :: log) = insert j (touchedSince k log) := by
  simp [touchedSince, he, h]

theorem latestPut_cons_of_ne (he : e.touched = some j) (h : j ≠ k) :
    latestPut k (e :: log) = latestPut k log := by
  cases e with
  | put i x =>
      obtain rfl := Option.some.inj he
      simp [latestPut, h]
  | hit i x => rfl
  | miss i => rfl
  | invalidate i => rfl

theorem lastTouch_cons_self (he : e.touched = some k) :
    lastTouch k (e :: log) = log.length + 1 := if_pos he

theorem lastTouch_cons_of_ne (he : e.touched ≠ some k) :
    lastTouch k (e :: log) = lastTouch k log := if_neg he

theorem lastTouch_le (k : K) (log : List (Event K V)) : lastTouch k log ≤ log.length := by
  induction log with
  | nil => exact Nat.le_refl 0
  | cons e log ih =>
      by_cases he : e.touched = some k
      · rw [lastTouch_cons_self he, List.length_cons]
      · rw [lastTouch_cons_of_ne he]
        exact Nat.le_succ_of_le ih

/-- A key that has been touched since `k` was has the later last touch. -/
theorem lastTouch_lt (hj : j ∈ touchedSince k log) : lastTouch k log < lastTouch j log := by
  induction log with
  | nil => simp [touchedSince] at hj
  | cons e log ih =>
      by_cases hk : e.touched = some k
      · simp [touchedSince_cons_self hk] at hj
      · rw [lastTouch_cons_of_ne hk]
        by_cases hej : e.touched = some j
        · rw [lastTouch_cons_self hej]
          exact Nat.lt_succ_of_le (lastTouch_le k log)
        · rw [lastTouch_cons_of_ne hej]
          apply ih
          cases he : e.touched with
          | none => simpa [touchedSince, he] using hj
          | some i =>
              have hik : i ≠ k := fun h => hk (he.trans (congrArg some h))
              rw [touchedSince_cons_of_ne he hik, Finset.mem_insert] at hj
              exact hj.resolve_left fun h => hej (he.trans (congrArg some h.symm))

/-- A key that was put has been touched. -/
theorem lastTouch_pos (h : (latestPut k log).isSome) : 0 < lastTouch k log := by
  induction log with
  | nil => simp [latestPut] at h
  | cons e log ih =>
      by_cases he : e.touched = some k
      · rw [lastTouch_cons_self he]
        exact Nat.succ_pos _
      · rw [lastTouch_cons_of_ne he]
        apply ih
        cases e with
        | put j x =>
            have hj : j ≠ k := fun hj => he (congrArg some hj)
            simpa [latestPut, hj] using h
        | hit j x => exact h
        | miss j => exact h
        | invalidate j => exact h

/-- The keys above `k` have been touched since it was, and without invalidations they
are all of those; a key that was put and has gone was pushed out by as many keys as
there is room for. -/
structure StackInv (n : ℕ) (l : List K) (log : List (Event K V)) : Prop where
  touched : ∀ k ∈ l, ∀ i ∈ newer k l, i ∈ touchedSince k log
  above : (∀ i, .invalidate i ∉ log) → ∀ k ∈ l, ∀ i ∈ touchedSince k log, i ∈ newer k l
  evicted : ∀ k ∉ l, (latestPut k log).isSome → ¬ InvalidatedSince k log →
    n ≤ (touchedSince k log).card

theorem stackInv_nil (n : ℕ) : StackInv n ([] : List K) ([] : List (Event K V)) where
  touched := by simp
  above := by simp
  evicted := by simp [latestPut]

/-- `j` is put on top of keys `m` that were there, in the same order; a key that goes
has been pushed out. -/
theorem StackInv.push {m : List K} (I : StackInv n l log) (he : e.touched = some j)
    (hkept : ∀ k ∈ m, k ∈ l ∧ j ≠ k ∧ ∀ i, i ∈ newer k m ↔ i ∈ newer k l ∧ i ≠ j)
    (hgone : ∀ k ∈ l, k ∉ m → j ≠ k → n ≤ (insert j (touchedSince k log)).card) :
    StackInv n (j :: m) (e :: log) := by
  refine ⟨fun k hk i hi => ?_, fun hlog k hk i hi => ?_, fun k hk hput hvalid => ?_⟩
  · rcases List.mem_cons.mp hk with rfl | hkm
    · simp at hi
    · obtain ⟨hkl, hjk, hnewer⟩ := hkept k hkm
      rw [touchedSince_cons_of_ne he hjk, Finset.mem_insert]
      rw [newer_cons_of_ne hjk, List.mem_cons, hnewer] at hi
      exact hi.imp id fun h => I.touched k hkl i h.1
  · rcases List.mem_cons.mp hk with rfl | hkm
    · simp [touchedSince_cons_self he] at hi
    · obtain ⟨hkl, hjk, hnewer⟩ := hkept k hkm
      rw [touchedSince_cons_of_ne he hjk, Finset.mem_insert] at hi
      rw [newer_cons_of_ne hjk, List.mem_cons, hnewer]
      have hbefore : ∀ i, .invalidate i ∉ log := fun i h => hlog i (List.mem_cons_of_mem _ h)
      by_cases hij : i = j
      · exact Or.inl hij
      · exact Or.inr ⟨I.above hbefore k hkl i (hi.resolve_left hij), hij⟩
  · rw [List.mem_cons, not_or] at hk
    have hjk : j ≠ k := Ne.symm hk.1
    rw [touchedSince_cons_of_ne he hjk]
    by_cases hkl : k ∈ l
    · exact hgone k hkl hk.2 hjk
    · rw [latestPut_cons_of_ne he hjk] at hput
      apply Nat.le_trans (I.evicted k hkl hput fun h => hvalid (.of_ne he hjk h))
      exact Finset.card_le_card (Finset.subset_insert _ _)

/-- A touch that evicts nothing. -/
theorem StackInv.touch (I : StackInv n l log) (hl : l.Nodup) (he : e.touched = some j) :
    StackInv n (j :: l.erase j) (e :: log) := by
  apply I.push he
  · intro k hk
    obtain ⟨hkj, hkl⟩ := (hl.mem_erase_iff).mp hk
    refine ⟨hkl, Ne.symm hkj, fun i => ?_⟩
    rw [newer_erase (Ne.symm hkj), (hl.sublist (newer_sublist k l)).mem_erase_iff]
    exact and_comm
  · intro k hkl hkm hjk
    exact absurd ((List.mem_erase_of_ne (Ne.symm hjk)).mpr hkl) hkm

/-- A touch of a new key that pushes the oldest one out of a full cache. -/
theorem StackInv.touch_full {older : List K} {oldest : K}
    (I : StackInv n (older ++ [oldest]) log) (hl : (older ++ [oldest]).Nodup)
    (hn : older.length + 1 = n) (hj : j ∉ older ++ [oldest]) (he : e.touched = some j) :
    StackInv n (j :: older) (e :: log) := by
  have holdest : oldest ∉ older := fun h =>
    (List.nodup_append.mp hl).2.2 oldest h oldest (List.mem_singleton_self _) rfl
  have hjolder : j ∉ older := fun h => hj (List.mem_append_left _ h)
  apply I.push he
  · intro k hk
    refine ⟨List.mem_append_left _ hk, fun h => hjolder (h ▸ hk), fun i => ?_⟩
    rw [newer_append_of_mem hk]
    refine ⟨fun hi => ⟨hi, fun h => ?_⟩, And.left⟩
    exact hjolder (h ▸ (newer_sublist k older).subset hi)
  · intro k hkl hkm _
    -- all the keys that stay were above the one that goes
    obtain rfl : k = oldest :=
      List.mem_singleton.mp ((List.mem_append.mp hkl).resolve_left hkm)
    have hsubset : insert j older.toFinset ⊆ insert j (touchedSince k log) := by
      apply Finset.insert_subset_insert
      intro i hi
      apply I.touched k hkl i
      rw [newer_concat_self holdest]
      exact List.mem_toFinset.mp hi
    apply Nat.le_trans (Nat.le_of_eq _) (Finset.card_le_card hsubset)
    rw [Finset.card_insert_of_notMem (fun h => hjolder (List.mem_toFinset.mp h)),
      List.toFinset_card_of_nodup (List.nodup_append.mp hl).1, hn]

theorem StackInv.miss (I : StackInv n l log) (k : K) : StackInv n l (.miss k :: log) where
  touched := I.touched
  above := fun hlog => I.above fun i h => hlog i (List.mem_cons_of_mem _ h)
  evicted := fun k hk hput hvalid =>
    I.evicted k hk hput fun h => hvalid ⟨by simp [Event.touched], Or.inr h⟩

theorem StackInv.invalidate (I : StackInv n l log) (hl : l.Nodup) (j : K) :
    StackInv n (l.erase j) (.invalidate j :: log) where
  touched := by
    intro k hk i hi
    obtain ⟨hkj, hkl⟩ := (hl.mem_erase_iff).mp hk
    rw [newer_erase (Ne.symm hkj)] at hi
    exact I.touched k hkl i (List.mem_of_mem_erase hi)
  above := fun hlog => absurd List.mem_cons_self (hlog j)
  evicted := by
    intro k hk hput hvalid
    have hjk : j ≠ k := by
      rintro rfl
      exact hvalid ⟨by simp [Event.touched], Or.inl rfl⟩
    apply I.evicted k _ hput
    · exact fun h => hvalid ⟨by simp [Event.touched], Or.inr h⟩
    · exact fun h => hk ((List.mem_erase_of_ne (Ne.symm hjk)).mpr h)

/-- **Stack distance, one way.** A key that was put and not invalidated since its last
touch stays while fewer other keys than the capacity have been touched. -/
theorem StackInv.mem (I : StackInv n l log) (hput : (latestPut k log).isSome)
    (hvalid : ¬ InvalidatedSince k log) (hlt : (touchedSince k log).card < n) : k ∈ l := by
  by_contra hk
  exact Nat.not_lt.mpr (I.evicted k hk hput hvalid) hlt

/-- Without invalidations a key in the cache has fewer other keys above it than the
cache has room for. -/
theorem StackInv.card_lt (I : StackInv n l log) (hlength : l.length ≤ n)
    (hlog : ∀ i, .invalidate i ∉ log) (hk : k ∈ l) : (touchedSince k log).card < n := by
  have hlt : (newer k l).length < l.length := by
    apply Nat.lt_of_le_of_ne (newer_sublist k l).length_le
    intro heq
    have hall : newer k l = l := (newer_sublist k l).eq_of_length heq
    exact notMem_newer_self k l (hall.symm ▸ hk)
  have hsubset : touchedSince k log ⊆ (newer k l).toFinset := fun i hi =>
    List.mem_toFinset.mpr (I.above hlog k hk i hi)
  calc (touchedSince k log).card
      ≤ (newer k l).toFinset.card := Finset.card_le_card hsubset
    _ ≤ (newer k l).length := List.toFinset_card_le _
    _ < l.length := hlt
    _ ≤ n := hlength

/-- **The stack is in decreasing order of the last touch.** -/
theorem StackInv.pairwise_lastTouch (I : StackInv n l log) (hl : l.Nodup) :
    l.Pairwise fun i k => lastTouch k log < lastTouch i log :=
  (pairwise_newer hl).imp_of_mem fun _ hk hi => lastTouch_lt (I.touched _ hk _ hi)

/-! ### Caches and their logs -/

/-- The log explains the cache: the order of its keys and their values. -/
structure Explains (log : List (Event K V)) (c : LruCache K V) : Prop where
  stack : StackInv c.capacity c.keys log
  value : ∀ k x, c.find k = some x → latestPut k log = some x

theorem explains_empty (capacity : ℕ) (h : 0 < capacity) :
    Explains ([] : List (Event K V)) (empty capacity h) where
  stack := stackInv_nil capacity
  value := by simp [empty, find]

variable {c : LruCache K V} {x : V}

theorem keys_put_of_mem (h : k ∈ c.keys) : (c.put k x).keys = k :: c.keys.erase k := by
  rw [put, dif_pos h]
  exact AList.keys_insert c.entries

theorem keys_put_of_notMem (h : k ∉ c.keys) :
    (c.put k x).keys = k :: c.makeRoom.keys.erase k := by
  rw [put, dif_neg h]
  exact AList.keys_insert c.makeRoom

theorem capacity_put (c : LruCache K V) (k : K) (x : V) :
    (c.put k x).capacity = c.capacity := by
  unfold put
  split_ifs <;> rfl

theorem find_put_self (c : LruCache K V) (k : K) (x : V) : (c.put k x).find k = some x := by
  unfold put
  split_ifs
  · exact AList.lookup_insert c.entries
  · exact AList.lookup_insert c.makeRoom

theorem find_put_of_mem (h : k ∈ c.keys) (x : V) (j : K) :
    (c.put k x).find j = if j = k then some x else c.find j := by
  split_ifs with hj
  · rw [hj, find_put_self]
  · rw [put, dif_pos h]
    exact AList.lookup_insert_ne hj

theorem find_put_of_notMem (h : k ∉ c.keys) (x : V) (j : K) :
    (c.put k x).find j = if j = k then some x else c.makeRoom.lookup j := by
  split_ifs with hj
  · rw [hj, find_put_self]
  · rw [put, dif_neg h]
    exact AList.lookup_insert_ne hj

/-- A put may take another entry away, and never changes one. -/
theorem find_of_find_put {y : V} (hj : j ≠ k) (hy : (c.put k x).find j = some y) :
    c.find j = some y := by
  by_cases hk : k ∈ c.keys
  · rwa [find_put_of_mem hk, if_neg hj] at hy
  · rw [find_put_of_notMem hk, if_neg hj] at hy
    rcases Nat.lt_or_ge c.keys.length c.capacity with hlt | hfull
    · rwa [makeRoom_of_lt hlt] at hy
    · obtain ⟨older, oldest, -, herase, -⟩ := makeRoom_of_full hfull
      rw [herase] at hy
      by_cases hold : j = oldest
      · subst hold
        rw [AList.lookup_erase] at hy
        exact absurd hy (by simp)
      · rwa [AList.lookup_erase_ne hold] at hy

/-- The order of the keys after a touch that leaves `k` with the value `x`. -/
theorem Explains.stack_put (h : Explains log c) (he : e.touched = some k) :
    StackInv c.capacity (c.put k x).keys (e :: log) := by
  by_cases hk : k ∈ c.keys
  · rw [keys_put_of_mem hk]
    exact h.stack.touch c.keys_nodup he
  · rw [keys_put_of_notMem hk]
    rcases Nat.lt_or_ge c.keys.length c.capacity with hlt | hfull
    · rw [makeRoom_of_lt hlt]
      exact h.stack.touch c.keys_nodup he
    · obtain ⟨older, oldest, hkeys, -, hroom⟩ := makeRoom_of_full hfull
      have hlength : older.length + 1 = c.capacity := by
        rw [← List.length_singleton (a := oldest), ← List.length_append, ← hkeys]
        exact Nat.le_antisymm c.bounded hfull
      rw [hroom, List.erase_of_not_mem fun hmem => hk (hkeys ▸ List.mem_append_left _ hmem)]
      exact (hkeys ▸ h.stack).touch_full (hkeys ▸ c.keys_nodup) hlength (hkeys ▸ hk) he

theorem Explains.touch (h : Explains log c) (he : e.touched = some k)
    (hlatest : latestPut k (e :: log) = some x) : Explains (e :: log) (c.put k x) := by
  refine ⟨?_, fun j y hy => ?_⟩
  · rw [capacity_put]
    exact h.stack_put he
  · by_cases hj : j = k
    · subst hj
      rw [← hy, find_put_self]
      exact hlatest
    · rw [latestPut_cons_of_ne he (Ne.symm hj)]
      exact h.value j y (find_of_find_put hj hy)

theorem keys_invalidate (c : LruCache K V) (k : K) : (c.invalidate k).keys = c.keys.erase k :=
  AList.keys_erase k c.entries

theorem invalidate_of_notMem (h : k ∉ c.keys) : c.invalidate k = c := by
  have hentries : c.entries.erase k = c.entries := AList.ext (List.kerase_of_notMem_keys h)
  unfold invalidate
  congr

theorem find_invalidate (c : LruCache K V) (k j : K) :
    (c.invalidate k).find j = if j = k then none else c.find j := by
  split_ifs with hj
  · rw [hj]
    exact AList.lookup_erase k c.entries
  · exact AList.lookup_erase_ne hj

theorem Explains.invalidate (h : Explains log c) (k : K) :
    Explains (.invalidate k :: log) (c.invalidate k) := by
  refine ⟨?_, fun j y hy => ?_⟩
  · rw [keys_invalidate]
    exact h.stack.invalidate c.keys_nodup k
  · rw [find_invalidate] at hy
    split_ifs at hy
    exact h.value j y hy

/-- A hit puts the value that is there. -/
theorem get_of_find (h : c.find k = some x) : c.get k = (some x, c.put k x) := by
  have hk : k ∈ c.keys := find_isSome.mp (h ▸ rfl)
  have hx : (c.find k).get (find_isSome.mpr hk) = x := by simp [h]
  rw [get, dif_pos hk, put, dif_pos hk]
  simp only [hx]

theorem get_of_find_eq_none (h : c.find k = none) : c.get k = (none, c) := by
  rw [get, dif_neg]
  intro hk
  rw [← find_isSome, h] at hk
  exact Bool.noConfusion hk

theorem capacity_step (c : LruCache K V) (op : Op K V) :
    (c.step op).2.capacity = c.capacity := by
  cases op with
  | put k x => exact capacity_put c k x
  | get k =>
      cases hfind : c.find k with
      | none => simp only [LruCache.step, get_of_find_eq_none hfind]
      | some x =>
          simp only [LruCache.step, get_of_find hfind]
          exact capacity_put c k x
  | invalidate k => rfl

theorem eq_invalidate_of_step {op : Op K V} (h : (c.step op).1 = .invalidate k) :
    op = .invalidate k := by
  cases op with
  | put j x => nomatch h
  | get j =>
      cases hfind : c.find j with
      | none =>
          simp only [LruCache.step, get_of_find_eq_none hfind] at h
          nomatch h
      | some x =>
          simp only [LruCache.step, get_of_find hfind] at h
          nomatch h
  | invalidate j => exact congrArg Op.invalidate (Event.invalidate.inj h)

theorem Explains.step (h : Explains log c) (op : Op K V) :
    Explains ((c.step op).1 :: log) (c.step op).2 := by
  cases op with
  | put k x => exact h.touch rfl (by simp [LruCache.step, latestPut])
  | get k =>
      cases hfind : c.find k with
      | none =>
          simp only [LruCache.step, get_of_find_eq_none hfind]
          exact ⟨h.stack.miss k, h.value⟩
      | some x =>
          simp only [LruCache.step, get_of_find hfind]
          exact h.touch rfl (h.value k x hfind)
  | invalidate k => exact h.invalidate k

/-- **A cache is what its log says.** A hit returns the latest put; a key stays while
fewer others than the capacity have been touched, and without invalidations not longer. -/
theorem Explains.mem_keys (h : Explains log c) (hput : (latestPut k log).isSome)
    (hvalid : ¬ InvalidatedSince k log) (hlt : (touchedSince k log).card < c.capacity) :
    k ∈ c.keys :=
  h.stack.mem hput hvalid hlt

theorem Explains.mem_keys_iff (h : Explains log c) (hlog : ∀ i, .invalidate i ∉ log) :
    k ∈ c.keys ↔ (latestPut k log).isSome ∧ (touchedSince k log).card < c.capacity := by
  constructor
  · intro hk
    obtain ⟨x, hx⟩ := Option.isSome_iff_exists.mp (find_isSome.mpr hk)
    exact ⟨by rw [h.value k x hx]; rfl, h.stack.card_lt c.bounded hlog hk⟩
  · rintro ⟨hput, hlt⟩
    exact h.mem_keys hput (not_invalidatedSince hlog k) hlt

end LruCache

end Foundation
