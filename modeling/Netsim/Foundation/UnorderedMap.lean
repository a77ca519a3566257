import Mathlib.Data.List.AList

/-!
# Finite maps with a subscript that inserts

The associative container of the sources, over Mathlib's `AList`: keys are
distinct by construction. Lookup (`find`) never changes the map; the subscript
(`at'`) inserts a default value for an absent key, which is why reads through it
return a new map.

The iteration order of such a container is unspecified. `IterationOrder` is an
arbitrary one: any rearrangement of the entries.
-/

namespace Foundation

universe u v

/-- A statement about the entries of a list is decided along the list, also when
their type is finite: a key may have `2^32` values to go through. -/
instance (priority := 1100) decidableForallEntries {α : Type u} (l : List α) (p : α → Prop)
    [DecidablePred p] : Decidable (∀ a ∈ l, p a) :=
  List.decidableBAll p l

/-- A finite map from `K` to `V` with distinct keys. -/
structure UnorderedMap (K : Type u) (V : Type v) where
  toAList : AList (fun _ : K => V)

namespace UnorderedMap

variable {K : Type u} {V : Type v}

instance : EmptyCollection (UnorderedMap K V) := ⟨⟨∅⟩⟩

/-- The keys, each once. -/
def keys (m : UnorderedMap K V) : List K := m.toAList.keys

def size (m : UnorderedMap K V) : ℕ := m.keys.length

/-- The entries as pairs. -/
def toPairs (m : UnorderedMap K V) : List (K × V) :=
  m.toAList.entries.map (fun e => (e.1, e.2))

theorem keys_nodup (m : UnorderedMap K V) : m.keys.Nodup := m.toAList.keys_nodup

theorem map_fst_toPairs (m : UnorderedMap K V) : m.toPairs.map Prod.fst = m.keys := by
  simp [toPairs, keys, AList.keys, List.keys, Function.comp_def]

variable [DecidableEq K]

def find (m : UnorderedMap K V) (k : K) : Option V := m.toAList.lookup k

def set (m : UnorderedMap K V) (k : K) (x : V) : UnorderedMap K V :=
  ⟨m.toAList.insert k x⟩

def erase (m : UnorderedMap K V) (k : K) : UnorderedMap K V :=
  ⟨m.toAList.erase k⟩

/-- The value a subscript yields. -/
def val [Inhabited V] (m : UnorderedMap K V) (k : K) : V := (m.find k).getD default

/-- Subscript: an absent key is inserted with the default value. -/
def at' [Inhabited V] (m : UnorderedMap K V) (k : K) : V × UnorderedMap K V :=
  match m.find k with
  | some x => (x, m)
  | none => (default, m.set k default)

/-- Build a map from pairs, later ones overwriting earlier ones. -/
def ofPairs (l : List (K × V)) : UnorderedMap K V := l.foldl (fun m p => m.set p.1 p.2) ∅

@[simp] theorem find_empty (k : K) : (∅ : UnorderedMap K V).find k = none :=
  AList.lookup_empty k

theorem find_set (m : UnorderedMap K V) (k j : K) (x : V) :
    (m.set k x).find j = if j = k then some x else m.find j := by
  unfold find set
  split_ifs with h
  · subst h
    exact AList.lookup_insert m.toAList
  · exact AList.lookup_insert_ne h

@[simp] theorem find_set_self (m : UnorderedMap K V) (k : K) (x : V) :
    (m.set k x).find k = some x := by
  rw [find_set, if_pos rfl]

theorem find_set_ne (m : UnorderedMap K V) {k j : K} (h : j ≠ k) (x : V) :
    (m.set k x).find j = m.find j := by
  rw [find_set, if_neg h]

theorem find_erase (m : UnorderedMap K V) (k j : K) :
    (m.erase k).find j = if j = k then none else m.find j := by
  unfold find erase
  split_ifs with h
  · subst h
    exact AList.lookup_erase j m.toAList
  · exact AList.lookup_erase_ne h

theorem mem_keys {m : UnorderedMap K V} {k : K} : k ∈ m.keys ↔ (m.find k).isSome := by
  unfold keys find
  rw [AList.lookup_isSome, AList.mem_keys]

theorem find_eq_none {m : UnorderedMap K V} {k : K} : m.find k = none ↔ k ∉ m.keys := by
  rw [mem_keys, Option.not_isSome_iff_eq_none]

theorem mem_toPairs {m : UnorderedMap K V} {k : K} {x : V} :
    (k, x) ∈ m.toPairs ↔ m.find k = some x := by
  unfold toPairs find
  rw [← Option.mem_def, AList.mem_lookup_iff]
  simp only [List.mem_map, Prod.mk.injEq]
  constructor
  · rintro ⟨⟨k', x'⟩, hmem, rfl, rfl⟩
    exact hmem
  · exact fun hmem => ⟨⟨k, x⟩, hmem, rfl, rfl⟩

theorem find_foldl_set (l : List (K × V)) : ∀ (m : UnorderedMap K V) {k : K} {x : V},
    (l.map Prod.fst).Nodup →
      ((l.foldl (fun m p => m.set p.1 p.2) m).find k = some x ↔
        (k, x) ∈ l ∨ (k ∉ l.map Prod.fst ∧ m.find k = some x)) := by
  induction l with
  | nil => intro m k x _; simp
  | cons p l ih =>
      intro m k x hnodup
      obtain ⟨hp, hl⟩ := List.nodup_cons.mp hnodup
      rw [List.foldl_cons, ih (m.set p.1 p.2) hl, find_set]
      constructor
      · rintro (hmem | ⟨hk, hfind⟩)
        · exact Or.inl (List.mem_cons_of_mem _ hmem)
        · split_ifs at hfind with hkp
          · obtain rfl := Option.some.inj hfind
            subst hkp
            exact Or.inl List.mem_cons_self
          · exact Or.inr ⟨fun h => (List.mem_cons.mp h).elim hkp hk, hfind⟩
      · rintro (hmem | ⟨hk, hfind⟩)
        · rcases List.mem_cons.mp hmem with rfl | hmem
          · exact Or.inr ⟨hp, by rw [if_pos rfl]⟩
          · exact Or.inl hmem
        · have hkp : k ≠ p.1 := fun h => hk (h ▸ List.mem_cons_self)
          exact Or.inr ⟨fun h => hk (List.mem_cons_of_mem _ h), by rw [if_neg hkp]; exact hfind⟩

/-- Entering the entries of a map, in any order, builds the same map. -/
theorem find_ofPairs_toPairs {l : List (K × V)} {m : UnorderedMap K V}
    (hl : l.Perm m.toPairs) (k : K) : (ofPairs l).find k = m.find k := by
  have hnodup : (l.map Prod.fst).Nodup := by
    rw [(hl.map Prod.fst).nodup_iff, map_fst_toPairs]
    exact keys_nodup m
  ext x
  unfold ofPairs
  rw [find_foldl_set l ∅ hnodup, hl.mem_iff, mem_toPairs, find_empty]
  simp

/-- Entries under different keys are those of the map built from them. -/
theorem perm_toPairs_ofPairs {l : List (K × V)} (h : (l.map Prod.fst).Nodup) :
    l.Perm (ofPairs l).toPairs := by
  have hkeys : ((ofPairs l).toPairs.map Prod.fst).Nodup := by
    rw [map_fst_toPairs]
    exact keys_nodup _
  apply (List.perm_ext_iff_of_nodup (List.Nodup.of_map _ h) (List.Nodup.of_map _ hkeys)).mpr
  rintro ⟨k, x⟩
  rw [mem_toPairs, ofPairs, find_foldl_set l ∅ h, find_empty]
  simp

section Subscript

variable [Inhabited V]

theorem at'_fst (m : UnorderedMap K V) (k : K) : (m.at' k).1 = m.val k := by
  unfold at' val
  cases m.find k <;> rfl

theorem find_at' (m : UnorderedMap K V) (k j : K) :
    (m.at' k).2.find j = if j = k then some (m.val k) else m.find j := by
  unfold at' val
  cases h : m.find k with
  | none =>
      simp only [Option.getD_none]
      exact find_set m k j default
  | some x =>
      simp only [Option.getD_some]
      split_ifs with hj
      · rw [hj, h]
      · rfl

/-- A subscript changes no value that a subscript yields. -/
@[simp] theorem val_at' (m : UnorderedMap K V) (k j : K) : (m.at' k).2.val j = m.val j := by
  rw [val, find_at']
  split_ifs with h
  · rw [h, Option.getD_some]
  · rfl

theorem val_set (m : UnorderedMap K V) (k j : K) (x : V) :
    (m.set k x).val j = if j = k then x else m.val j := by
  rw [val, find_set]
  split_ifs <;> rfl

end Subscript

end UnorderedMap

/-- One way to enumerate the entries of a container. -/
structure IterationOrder (α : Type u) where
  order : List α → List α
  perm : ∀ l, (order l).Perm l

/-- Enumeration in storage order. -/
def IterationOrder.stored (α : Type u) : IterationOrder α := ⟨id, fun l => List.Perm.refl l⟩

end Foundation
