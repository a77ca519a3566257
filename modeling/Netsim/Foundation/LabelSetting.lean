import Mathlib.Data.Set.Insert
import Mathlib.Logic.Function.Basic
import Netsim.Foundation.WeightedDigraph

/-!
# Label setting with a lazily cleaned queue

Dijkstra's algorithm over an arbitrary vertex type, with the queue discipline of
implementations that never decrease a key: a better label pushes a new entry and
the superseded one stays behind. Labels are capped by `M`, the value that stands
for "not reached".

`Settling` is the whole invariant. Its ghost is the list `S` of settled nodes,
latest first, which makes the parent tree a structure one can recurse on: each
settled node hangs by a tight edge below a node settled before it, and that
stays true with zero-cost edges, where labels alone order nothing.
-/

namespace Foundation

variable {V : Type*}

/-- The labels of a run: tentative costs, tentative parents, pending entries. -/
@[ext]
structure Labels (V : Type*) where
  dist : V → ℕ
  parent : V → Option V
  queue : Set (ℕ × V)

/-- `v` gets the label `d` through `u`, and an entry in the queue. -/
def Labels.relabel [DecidableEq V] (L : Labels V) (u v : V) (d : ℕ) : Labels V where
  dist := Function.update L.dist v d
  parent := Function.update L.parent v (some u)
  queue := insert (d, v) L.queue

/-- The settled nodes, latest first: the source, then nodes that hang by a tight
edge below one settled before them. -/
inductive SettledTree (E : WeightedDigraph V) (s : V) (L : Labels V) : List V → Prop
  | nil : SettledTree E s L []
  | root : SettledTree E s L [s]
  | hang {S : List V} {u v : V} {c : ℕ} :
      SettledTree E s L S → v ∉ S → u ∈ S → E u v c →
      L.parent v = some u → L.dist v = L.dist u + c → SettledTree E s L (v :: S)

/-- The parent walk from `v` stops at `h`, a child of the source. -/
inductive FirstHop (parent : V → Option V) (s : V) : V → V → Prop
  | child {v : V} : parent v = some s → FirstHop parent s v v
  | up {u v h : V} :
      parent v = some u → u ≠ s → FirstHop parent s u h → FirstHop parent s v h

/-- The invariant. `pending` holds the edges of settled nodes whose relaxation
is still owed: none between two rounds, those left to scan inside a round. -/
structure Settling (E : WeightedDigraph V) (s : V) (M : ℕ)
    (pending : Set (V × V × ℕ)) (S : List V) (L : Labels V) : Prop where
  source : L.dist s = 0
  dist_le : ∀ v, L.dist v ≤ M
  tree : SettledTree E s L S
  below : ∀ v ∈ S, L.dist v < M
  exact : ∀ v ∈ S, ∀ n w, Walk E s v n w → L.dist v ≤ w
  relaxed : ∀ u ∈ S, ∀ v c, E u v c →
    (u, v, c) ∈ pending ∨ L.dist v ≤ L.dist u + c
  frontier : ∀ v, v ∉ S → L.dist v < M → (S = [] ∧ v = s) ∨
    ∃ u ∈ S, ∃ c, E u v c ∧ L.parent v = some u ∧ L.dist v = L.dist u + c
  queued : ∀ v, v ∉ S → L.dist v < M → (L.dist v, v) ∈ L.queue
  queue_le : ∀ d v, (d, v) ∈ L.queue → L.dist v ≤ d ∧ d < M
  far : ∀ u ∈ S, ∀ v, v ∉ S → ∀ n w, Walk E s v n w → L.dist u ≤ w

variable {E : WeightedDigraph V} {s u v h : V} {M c d n w : ℕ}
  {S : List V} {L L' : Labels V} {P P' : Set (V × V × ℕ)}

/-! ### The tree of settled nodes -/

namespace SettledTree

theorem congr (t : SettledTree E s L S)
    (hdist : ∀ x ∈ S, L'.dist x = L.dist x)
    (hparent : ∀ x ∈ S, L'.parent x = L.parent x) : SettledTree E s L' S := by
  induction t with
  | nil => exact nil
  | root => exact root
  | @hang S u v c _ hv hu he hp hd ih =>
      refine hang (ih ?_ ?_) hv hu he ?_ ?_
      · exact fun x hx => hdist x (List.mem_cons_of_mem _ hx)
      · exact fun x hx => hparent x (List.mem_cons_of_mem _ hx)
      · rw [hparent v List.mem_cons_self, hp]
      · rw [hdist v List.mem_cons_self, hdist u (List.mem_cons_of_mem _ hu), hd]

/-- A settled label is the cost of the tree walk. -/
theorem walk (t : SettledTree E s L S) (hs : L.dist s = 0) (hv : v ∈ S) :
    ∃ n, Walk E s v n (L.dist v) := by
  induction t generalizing v with
  | nil => simp at hv
  | root =>
      obtain rfl := List.mem_singleton.mp hv
      exact ⟨0, by rw [hs]; exact Walk.nil⟩
  | hang _ _ hu he _ hd ih =>
      rcases List.mem_cons.mp hv with rfl | hv
      · obtain ⟨n, hn⟩ := ih hu
        exact ⟨n + 1, by rw [hd]; exact hn.snoc he⟩
      · exact ih hv

theorem parent_mem (t : SettledTree E s L S) (hv : v ∈ S) (hvs : v ≠ s)
    (hp : L.parent v = some u) : u ∈ S ∧ L.dist u ≤ L.dist v := by
  induction t generalizing v u with
  | nil => simp at hv
  | root => exact absurd (List.mem_singleton.mp hv) hvs
  | hang _ _ hu _ hp' hd ih =>
      rcases List.mem_cons.mp hv with rfl | hv
      · obtain rfl := Option.some.inj (hp'.symm.trans hp)
        exact ⟨List.mem_cons_of_mem _ hu, by omega⟩
      · obtain ⟨hu', hle⟩ := ih hv hvs hp
        exact ⟨List.mem_cons_of_mem _ hu', hle⟩

/-- The parent walk from a settled node stops at a child of the source, and the
label splits into the edge to that child and a walk onwards. -/
theorem firstHop (t : SettledTree E s L S) (hs : L.dist s = 0) (hv : v ∈ S)
    (hvs : v ≠ s) :
    ∃ h c n w, FirstHop L.parent s v h ∧ E s h c ∧ Walk E h v n w ∧
      L.dist h = c ∧ L.dist v = c + w := by
  induction t generalizing v with
  | nil => simp at hv
  | root => exact absurd (List.mem_singleton.mp hv) hvs
  | @hang S u x c _ _ hu he hp hd ih =>
      rcases List.mem_cons.mp hv with rfl | hv
      · by_cases hus : u = s
        · subst hus
          refine ⟨v, c, 0, 0, FirstHop.child hp, he, Walk.nil, ?_, ?_⟩ <;> omega
        · obtain ⟨h, c', n, w, hh, he', hw, hdh, hdu⟩ := ih hu hus
          exact ⟨h, c', n + 1, w + c, FirstHop.up hp hus hh, he', hw.snoc he, hdh,
            by omega⟩
      · exact ih hv hvs

end SettledTree

namespace FirstHop

/-- Two parent maps that agree on a set closed under parents walk alike from
its members. -/
theorem congr {p q : V → Option V} (C : V → Prop)
    (hpq : ∀ x, C x → p x = q x)
    (hC : ∀ x u, C x → p x = some u → u ≠ s → C u)
    (H : FirstHop p s v h) (hv : C v) : FirstHop q s v h := by
  induction H with
  | child hp => exact child ((hpq _ hv).symm.trans hp)
  | up hp hu _ ih => exact up ((hpq _ hv).symm.trans hp) hu (ih (hC _ _ hv hp hu))

end FirstHop

/-! ### What the invariant gives -/

namespace Settling

theorem walk (I : Settling E s M P S L) (hv : v ∈ S) : ∃ n, Walk E s v n (L.dist v) :=
  I.tree.walk I.source hv

theorem isDist (I : Settling E s M P S L) (hv : v ∈ S) : IsDist E s v (L.dist v) :=
  ⟨I.walk hv, fun _ ⟨n, hw⟩ => I.exact v hv n _ hw⟩

/-- Between two rounds every walk either ends settled, at no less than the
settled label, or has passed an unsettled node at no less than its label. -/
theorem frontier_le (I : Settling E s M ∅ S L) (hw : Walk E s v n w) :
    (v ∈ S ∧ L.dist v ≤ w) ∨ ∃ y, y ∉ S ∧ L.dist y ≤ w := by
  induction hw with
  | nil =>
      by_cases hs : s ∈ S
      · exact Or.inl ⟨hs, by rw [I.source]⟩
      · exact Or.inr ⟨s, hs, by rw [I.source]⟩
  | @snoc u v n w c _ he ih =>
      rcases ih with ⟨hu, hle⟩ | ⟨y, hy, hle⟩
      · have hrel := (I.relaxed u hu v c he).resolve_left (by simp)
        by_cases hv : v ∈ S
        · exact Or.inl ⟨hv, by omega⟩
        · exact Or.inr ⟨v, hv, by omega⟩
      · exact Or.inr ⟨y, hy, by omega⟩

/-- With an empty queue every label below the cap is settled. -/
theorem mem_of_lt (I : Settling E s M ∅ S L) (hq : L.queue = ∅)
    (hlt : L.dist v < M) : v ∈ S := by
  by_contra hv
  have := I.queued v hv hlt
  rw [hq] at this
  exact this

/-- **Exactness.** When the queue is empty, the labels below the cap are the
distances below the cap. -/
theorem isDist_iff (I : Settling E s M ∅ S L) (hq : L.queue = ∅) (hw : w < M) :
    IsDist E s v w ↔ L.dist v = w := by
  constructor
  · intro h
    obtain ⟨n, hn⟩ := h.walk
    have hv : v ∈ S := by
      rcases I.frontier_le hn with ⟨hv, -⟩ | ⟨y, hy, hle⟩
      · exact hv
      · exact absurd (I.mem_of_lt hq (by omega)) hy
    exact (I.isDist hv).unique h
  · rintro rfl
    exact I.isDist (I.mem_of_lt hq hw)

/-! ### The steps of a round -/

theorem mono (I : Settling E s M P S L) (h : P ⊆ P') : Settling E s M P' S L :=
  { I with relaxed := fun u hu v c he => (I.relaxed u hu v c he).imp (@h _) id }

/-- Dropping queue entries that no unsettled node needs. -/
theorem dequeue (I : Settling E s M P S L) {Q : Set (ℕ × V)} (hQ : Q ⊆ L.queue)
    (hkeep : ∀ v, v ∉ S → L.dist v < M → (L.dist v, v) ∈ Q) :
    Settling E s M P S { L with queue := Q } where
  source := I.source
  dist_le := I.dist_le
  tree := I.tree.congr (fun _ _ => rfl) (fun _ _ => rfl)
  below := I.below
  exact := I.exact
  relaxed := I.relaxed
  frontier := I.frontier
  queued := hkeep
  queue_le := fun d v h => I.queue_le d v (hQ h)
  far := I.far

/-- A least entry that still carries its node's label settles the node: no walk
into unsettled territory is cheaper. -/
theorem least_le (I : Settling E s M ∅ S L) (hq : (L.dist u, u) ∈ L.queue)
    (hmin : ∀ d v, (d, v) ∈ L.queue → L.dist u ≤ d) (hv : v ∉ S)
    (hw : Walk E s v n w) : L.dist u ≤ w := by
  rcases I.frontier_le hw with ⟨hvS, -⟩ | ⟨y, hy, hle⟩
  · exact absurd hvS hv
  · by_cases hyM : L.dist y < M
    · exact le_trans (hmin _ _ (I.queued y hy hyM)) hle
    · have := (I.queue_le _ _ hq).2
      omega

theorem settle (I : Settling E s M ∅ S L) (hu : u ∉ S)
    (hq : (L.dist u, u) ∈ L.queue)
    (hmin : ∀ d v, (d, v) ∈ L.queue → L.dist u ≤ d)
    {Q : Set (ℕ × V)} (hQ : Q ⊆ L.queue)
    (hkeep : ∀ v, v ≠ u → (L.dist v, v) ∈ L.queue → (L.dist v, v) ∈ Q)
    (hP : ∀ v c, E u v c → (u, v, c) ∈ P) :
    Settling E s M P (u :: S) { L with queue := Q } := by
  have huM : L.dist u < M := (I.queue_le _ _ hq).2
  have hfar : ∀ v, v ∉ S → ∀ n w, Walk E s v n w → L.dist u ≤ w :=
    fun v hv n w hw => I.least_le hq hmin hv hw
  have hne : ∀ v, v ∉ u :: S → v ≠ u ∧ v ∉ S := fun v hv =>
    ⟨fun h => hv (h ▸ List.mem_cons_self), fun h => hv (List.mem_cons_of_mem _ h)⟩
  have htree : SettledTree E s L (u :: S) := by
    rcases I.frontier u hu huM with ⟨rfl, rfl⟩ | ⟨p, hp, c, he, hpar, hd⟩
    · exact SettledTree.root
    · exact SettledTree.hang I.tree hu hp he hpar hd
  refine ⟨I.source, I.dist_le, htree.congr (fun _ _ => rfl) (fun _ _ => rfl),
    ?_, ?_, ?_, ?_, ?_, fun d v h => I.queue_le d v (hQ h), ?_⟩
  · intro v hv
    rcases List.mem_cons.mp hv with rfl | hv
    · exact huM
    · exact I.below v hv
  · intro v hv n w hw
    rcases List.mem_cons.mp hv with rfl | hv
    · exact hfar _ hu n w hw
    · exact I.exact v hv n w hw
  · intro x hx v c he
    rcases List.mem_cons.mp hx with rfl | hx
    · exact Or.inl (hP v c he)
    · exact Or.inr ((I.relaxed x hx v c he).resolve_left (by simp))
  · intro v hv hlt
    obtain ⟨hvu, hvS⟩ := hne v hv
    rcases I.frontier v hvS hlt with ⟨hS, rfl⟩ | ⟨p, hp, c, he⟩
    · -- nothing was settled: the entry popped can only be the source's
      rcases I.frontier u hu huM with ⟨-, rfl⟩ | ⟨p, hp, -⟩
      · exact absurd rfl hvu
      · rw [hS] at hp
        simp at hp
    · exact Or.inr ⟨p, List.mem_cons_of_mem _ hp, c, he⟩
  · intro v hv hlt
    obtain ⟨hvu, hvS⟩ := hne v hv
    exact hkeep v hvu (I.queued v hvS hlt)
  · intro x hx v hv n w hw
    obtain ⟨-, hvS⟩ := hne v hv
    rcases List.mem_cons.mp hx with rfl | hx
    · exact hfar v hvS n w hw
    · exact I.far x hx v hvS n w hw

/-- An improving edge leads to an unsettled node. -/
theorem notMem_of_improves (I : Settling E s M P S L) (hu : u ∈ S) (he : E u v c)
    (hlt : L.dist u + c < L.dist v) : v ∉ S := by
  intro hv
  obtain ⟨n, hn⟩ := I.walk hu
  have := I.exact v hv _ _ (hn.snoc he)
  omega

/-- Scanning an edge that does not improve its head only pays the debt. -/
theorem scan (I : Settling E s M P S L) (hle : L.dist v ≤ L.dist u + c) :
    Settling E s M (P \ {(u, v, c)}) S L := by
  refine { I with relaxed := fun x hx y k he => ?_ }
  by_cases heq : (x, y, k) = (u, v, c)
  · obtain ⟨rfl, rfl, rfl⟩ := heq
    exact Or.inr hle
  · exact (I.relaxed x hx y k he).imp (fun h => ⟨h, heq⟩) id

theorem relax [DecidableEq V] (I : Settling E s M P S L) (hu : u ∈ S) (he : E u v c)
    (hlt : L.dist u + c < L.dist v) :
    Settling E s M (P \ {(u, v, c)}) S (L.relabel u v (L.dist u + c)) := by
  have hv : v ∉ S := I.notMem_of_improves hu he hlt
  have hneS : ∀ x ∈ S, x ≠ v := fun x hx h => hv (h ▸ hx)
  have hvs : s ≠ v := by
    intro h
    have := I.source
    rw [h] at this
    omega
  have hdist : ∀ x, x ≠ v → (L.relabel u v (L.dist u + c)).dist x = L.dist x :=
    fun x hx => Function.update_of_ne hx _ _
  have hparent : ∀ x, x ≠ v → (L.relabel u v (L.dist u + c)).parent x = L.parent x :=
    fun x hx => Function.update_of_ne hx _ _
  have hdv : (L.relabel u v (L.dist u + c)).dist v = L.dist u + c :=
    Function.update_self _ _ _
  have hpv : (L.relabel u v (L.dist u + c)).parent v = some u :=
    Function.update_self _ _ _
  have hM : L.dist v ≤ M := I.dist_le v
  have hle : ∀ x, (L.relabel u v (L.dist u + c)).dist x ≤ L.dist x := by
    intro x
    by_cases hx : x = v
    · subst hx; omega
    · rw [hdist x hx]
  refine ⟨?_, ?_, ?_, ?_, ?_, ?_, ?_, ?_, ?_, ?_⟩
  · rw [hdist s hvs, I.source]
  · exact fun x => le_trans (hle x) (I.dist_le x)
  · exact I.tree.congr (fun x hx => hdist x (hneS x hx)) (fun x hx => hparent x (hneS x hx))
  · exact fun x hx => lt_of_le_of_lt (hle x) (I.below x hx)
  · intro x hx n w hw
    rw [hdist x (hneS x hx)]
    exact I.exact x hx n w hw
  · intro x hx y k hk
    rw [hdist x (hneS x hx)]
    by_cases heq : (x, y, k) = (u, v, c)
    · obtain ⟨rfl, rfl, rfl⟩ := heq
      exact Or.inr hdv.le
    · exact (I.relaxed x hx y k hk).imp (fun h => ⟨h, heq⟩) (le_trans (hle y))
  · intro x hx hlt'
    by_cases hxv : x = v
    · subst hxv
      exact Or.inr ⟨u, hu, c, he, hpv, by rw [hdv, hdist u (hneS u hu)]⟩
    · rw [hdist x hxv] at hlt' ⊢
      rw [hparent x hxv]
      apply (I.frontier x hx hlt').imp id
      rintro ⟨p, hp, k, hk, hpar, hd⟩
      exact ⟨p, hp, k, hk, hpar, by rw [hdist p (hneS p hp)]; exact hd⟩
  · intro x hx hlt'
    by_cases hxv : x = v
    · subst hxv
      exact Or.inl (by rw [hdv])
    · rw [hdist x hxv] at hlt' ⊢
      exact Or.inr (I.queued x hx hlt')
  · intro k x hk
    rcases hk with hk | hk
    · obtain ⟨rfl, rfl⟩ := hk
      exact ⟨hdv.le, by omega⟩
    · exact ⟨le_trans (hle x) (I.queue_le k x hk).1, (I.queue_le k x hk).2⟩
  · intro x hx y hy n w hw
    rw [hdist x (hneS x hx)]
    exact I.far x hx y hy n w hw

end Settling

/-- Before the first round only the source is labelled. -/
theorem settling_init (hM : 0 < M) (hs : L.dist s = 0)
    (hother : ∀ v, v ≠ s → L.dist v = M) (hqueue : L.queue = {(0, s)}) :
    Settling E s M ∅ [] L := by
  have hlt : ∀ v, L.dist v < M → v = s := by
    intro v hv
    by_contra hvs
    rw [hother v hvs] at hv
    exact lt_irrefl _ hv
  refine ⟨hs, ?_, SettledTree.nil, by simp, by simp, by simp, ?_, ?_, ?_, by simp⟩
  · intro v
    by_cases hv : v = s
    · subst hv; omega
    · rw [hother v hv]
  · exact fun v _ hv => Or.inl ⟨rfl, hlt v hv⟩
  · intro v _ hv
    obtain rfl := hlt v hv
    rw [hqueue, hs]
    rfl
  · intro d v h
    rw [hqueue] at h
    obtain ⟨rfl, rfl⟩ := h
    exact ⟨hs.le, hM⟩

end Foundation
