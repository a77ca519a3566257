import Mathlib.Data.List.Sort

/-!
# A priority queue

The queue holds its entries in order, so that the top is the head. A binary heap
with the same comparison hands out the same entries: which of several equal
entries comes first cannot be observed.
-/

namespace Foundation

variable {α : Type*}

/-- A priority queue for the order `r`, least entry on top. -/
structure MinHeap (r : α → α → Prop) where
  items : List α
  sorted : items.Pairwise r

namespace MinHeap

variable {r : α → α → Prop}

/-- The queue with one entry. -/
def singleton (a : α) : MinHeap r := ⟨[a], List.pairwise_singleton r a⟩

def push [DecidableRel r] [Std.Total r] [IsTrans α r] (h : MinHeap r) (a : α) :
    MinHeap r :=
  ⟨h.items.orderedInsert r a, h.sorted.orderedInsert a h.items⟩

/-- The top and the queue without it; `none` when the queue is empty. -/
def pop : MinHeap r → Option (α × MinHeap r)
  | ⟨[], _⟩ => none
  | ⟨a :: l, h⟩ => some (a, ⟨l, h.of_cons⟩)

theorem mem_push [DecidableRel r] [Std.Total r] [IsTrans α r] {h : MinHeap r}
    {a b : α} : b ∈ (h.push a).items ↔ b = a ∨ b ∈ h.items :=
  List.mem_orderedInsert r

theorem length_push [DecidableRel r] [Std.Total r] [IsTrans α r] (h : MinHeap r)
    (a : α) : (h.push a).items.length = h.items.length + 1 :=
  List.orderedInsert_length r h.items a

theorem perm_push [DecidableRel r] [Std.Total r] [IsTrans α r] (h : MinHeap r)
    (a : α) : (h.push a).items.Perm (a :: h.items) :=
  List.perm_orderedInsert r a h.items

theorem pop_eq_none {h : MinHeap r} : h.pop = none ↔ h.items = [] := by
  obtain ⟨l, hl⟩ := h
  cases l <;> simp [pop]

theorem items_of_pop {h h' : MinHeap r} {a : α} (hp : h.pop = some (a, h')) :
    h.items = a :: h'.items := by
  obtain ⟨l, hl⟩ := h
  cases l with
  | nil => simp [pop] at hp
  | cons b l =>
      simp only [pop, Option.some.injEq, Prod.mk.injEq] at hp
      obtain ⟨rfl, rfl⟩ := hp
      rfl

/-- The top is least. -/
theorem pop_le {h h' : MinHeap r} {a : α} (hp : h.pop = some (a, h')) :
    ∀ b ∈ h'.items, r a b := by
  have hs := h.sorted
  rw [items_of_pop hp] at hs
  exact (List.pairwise_cons.mp hs).1

/-- Two queues with the same entries in a lower set have the same top, when the
top of one lies in it. -/
theorem top_congr [Std.Antisymm r] {p : α → Bool}
    (hp : ∀ a b, r a b → p b = true → p a = true) {h h' : MinHeap r} {a : α} {l : List α}
    (hperm : (h.items.filter p).Perm (h'.items.filter p)) (hitems : h.items = a :: l)
    (ha : p a = true) :
    ∃ l', h'.items = a :: l' ∧ (l.filter p).Perm (l'.filter p) := by
  have hle : ∀ b ∈ l, r a b := (List.pairwise_cons.mp (hitems ▸ h.sorted)).1
  have hmem : a ∈ h'.items.filter p := by
    rw [← hperm.mem_iff, hitems]
    exact List.mem_filter.mpr ⟨List.mem_cons_self, ha⟩
  cases hitems' : h'.items with
  | nil => rw [hitems'] at hmem; simp at hmem
  | cons b l' =>
      have hle' : ∀ c ∈ l', r b c := (List.pairwise_cons.mp (hitems' ▸ h'.sorted)).1
      have hab : a = b := by
        rw [hitems'] at hmem
        rcases List.mem_cons.mp (List.mem_of_mem_filter hmem) with hab | hal
        · exact hab
        · have hb : b ∈ h.items.filter p := by
            rw [hperm.mem_iff, hitems']
            exact List.mem_filter.mpr ⟨List.mem_cons_self, hp b a (hle' a hal) ha⟩
          rw [hitems] at hb
          rcases List.mem_cons.mp (List.mem_of_mem_filter hb) with hba | hbl
          · exact hba.symm
          · exact Std.Antisymm.antisymm a b (hle b hbl) (hle' a hal)
      subst hab
      refine ⟨l', rfl, ?_⟩
      rw [hitems, hitems', List.filter_cons_of_pos ha, List.filter_cons_of_pos ha] at hperm
      exact hperm.cons_inv

end MinHeap

end Foundation
