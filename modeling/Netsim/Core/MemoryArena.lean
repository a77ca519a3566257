import Netsim.Foundation.AlignedBlock

/-!
# Memory arena

`core/memory_arena.hpp`. Addresses are natural numbers and a null pointer is `none`.
`std::align` is written from its specification: the first aligned address with room for
the object, or nothing. An object's constructor runs after the cursor has moved and may
throw an exception of its own.
-/

namespace Netsim.Core

open Foundation

/-- What `allocate<T>` uses of the type `T`. -/
structure Layout where
  size : ℕ
  alignment : ℕ
  size_pos : 1 ≤ size
  alignment_pow : ∃ k, alignment = 2 ^ k

theorem Layout.alignment_pos (T : Layout) : 0 < T.alignment := by
  obtain ⟨k, hk⟩ := T.alignment_pow
  rw [hk]
  exact Nat.two_pow_pos k

/-- `std::align`: the adjusted pointer and the space left behind it. -/
def align (alignment size ptr space : ℕ) : Option (ℕ × ℕ) :=
  let aligned := alignUp alignment ptr
  if aligned + size ≤ ptr + space then some (aligned, ptr + space - aligned) else none

structure MemoryArena where
  arenaStart : ℕ
  arenaEnd : ℕ
  currentCursor : ℕ
deriving DecidableEq, Repr

inductive AllocFailure
  | badAlloc
  /-- The exception of the object's own constructor. -/
  | constructor
deriving DecidableEq, Repr

namespace MemoryArena

/-- The arena over the region that `operator new` has returned. -/
def create (base bytesCapacity : ℕ) : MemoryArena :=
  { arenaStart := base, arenaEnd := base + bytesCapacity, currentCursor := base }

def allocate (arena : MemoryArena) (T : Layout) (constructs : Bool) :
    MemoryArena × Except AllocFailure ℕ :=
  let space := arena.arenaEnd - arena.currentCursor
  match align T.alignment T.size arena.currentCursor space with
  | none => (arena, .error .badAlloc)
  | some (ptr, _) =>
    ({ arena with currentCursor := ptr + T.size },
      if constructs then .ok ptr else .error .constructor)

def reset (arena : MemoryArena) : MemoryArena :=
  { arena with currentCursor := arena.arenaStart }

/-- An aligned block for the type between the cursor and the end. -/
def Fits (arena : MemoryArena) (T : Layout) (address : ℕ) : Prop :=
  arena.currentCursor ≤ address ∧ T.alignment ∣ address ∧ address + T.size ≤ arena.arenaEnd

end MemoryArena

inductive ArenaCall
  | allocate (T : Layout) (constructs : Bool)
  | reset

/-- An object whose constructor has returned. -/
structure Placed where
  address : ℕ
  type : Layout

def Placed.block (o : Placed) : Block := ⟨o.address, o.type.size⟩

/-- The arena with the objects allocated since the last reset. -/
structure Usage where
  arena : MemoryArena
  objects : List Placed

namespace Usage

def step (usage : Usage) : ArenaCall → Usage
  | .reset => ⟨usage.arena.reset, []⟩
  | .allocate T constructs =>
    match usage.arena.allocate T constructs with
    | (arena, .ok address) => ⟨arena, ⟨address, T⟩ :: usage.objects⟩
    | (arena, .error _) => ⟨arena, usage.objects⟩

def run (base capacity : ℕ) (calls : List ArenaCall) : Usage :=
  calls.foldl step ⟨MemoryArena.create base capacity, []⟩

/-- The invariant of every run. -/
structure Sound (base capacity : ℕ) (usage : Usage) : Prop where
  start : usage.arena.arenaStart = base
  finish : usage.arena.arenaEnd = base + capacity
  cursor_le : usage.arena.currentCursor ≤ usage.arena.arenaEnd
  packed : Packed base usage.arena.currentCursor (usage.objects.map Placed.block)
  aligned : ∀ o ∈ usage.objects, o.type.alignment ∣ o.address

end Usage

/-! ### One allocation -/

namespace MemoryArena

variable {arena : MemoryArena} {T : Layout} {address : ℕ}

/-- What `allocate` does: it fails and changes nothing when no block fits, and else takes
the first one. -/
theorem allocate_cases (hcursor : arena.currentCursor ≤ arena.arenaEnd) (T : Layout)
    (constructs : Bool) :
    ((∀ q, ¬ arena.Fits T q) ∧ arena.allocate T constructs = (arena, .error .badAlloc)) ∨
      ∃ ptr, arena.Fits T ptr ∧ arena.allocate T constructs =
        ({ arena with currentCursor := ptr + T.size },
          if constructs then .ok ptr else .error .constructor) := by
  have hspace : arena.currentCursor + (arena.arenaEnd - arena.currentCursor) = arena.arenaEnd :=
    Nat.add_sub_cancel' hcursor
  by_cases hfit : alignUp T.alignment arena.currentCursor + T.size ≤ arena.arenaEnd
  · right
    refine ⟨alignUp T.alignment arena.currentCursor, ⟨?_, ?_, hfit⟩, ?_⟩
    · exact le_alignUp T.alignment_pos _
    · exact dvd_alignUp _ _
    · simp only [allocate, align, hspace, hfit, if_true]
  · left
    constructor
    · intro q hq
      exact hfit ((exists_fit_iff T.alignment_pos).mp ⟨q, hq⟩)
    · simp only [allocate, align, hspace, hfit, if_false]

/-- What `allocate` returns is a block that fits. -/
theorem fits_of_allocate {constructs : Bool} (hcursor : arena.currentCursor ≤ arena.arenaEnd)
    (h : (arena.allocate T constructs).2 = .ok address) : arena.Fits T address := by
  rcases allocate_cases hcursor T constructs with ⟨-, heq⟩ | ⟨ptr, hfits, heq⟩
  · rw [heq] at h
    cases h
  · rw [heq] at h
    cases constructs with
    | false => cases h
    | true =>
      cases h
      exact hfits

theorem allocate_badAlloc {constructs : Bool} (hcursor : arena.currentCursor ≤ arena.arenaEnd)
    (h : (arena.allocate T constructs).2 = .error .badAlloc) :
    (∀ q, ¬ arena.Fits T q) ∧ (arena.allocate T constructs).1 = arena := by
  rcases allocate_cases hcursor T constructs with ⟨hnone, heq⟩ | ⟨ptr, -, heq⟩
  · exact ⟨hnone, by rw [heq]⟩
  · rw [heq] at h
    cases constructs <;> cases h

/-- Where a block fits and the constructor returns, so does `allocate`. -/
theorem exists_allocate (hcursor : arena.currentCursor ≤ arena.arenaEnd)
    (h : arena.Fits T address) : ∃ ptr, (arena.allocate T true).2 = .ok ptr := by
  rcases allocate_cases hcursor T true with ⟨hnone, -⟩ | ⟨ptr, -, heq⟩
  · exact absurd h (hnone address)
  · exact ⟨ptr, by rw [heq]; rfl⟩

/-- A block that fits starts behind every block placed so far. -/
theorem Fits.packed {low : ℕ} {blocks : List Block} (h : arena.Fits T address)
    (hpacked : Packed low arena.currentCursor blocks) :
    Packed low (address + T.size) (⟨address, T.size⟩ :: blocks) :=
  hpacked.push (b := ⟨address, T.size⟩) h.1

end MemoryArena

/-! ### Runs -/

namespace Usage

variable {base capacity : ℕ} {usage : Usage}

theorem sound_create (base capacity : ℕ) :
    Sound base capacity ⟨MemoryArena.create base capacity, []⟩ where
  start := rfl
  finish := rfl
  cursor_le := Nat.le_add_right _ _
  packed := Packed.nil (Nat.le_refl _)
  aligned := by simp

theorem Sound.step (h : Sound base capacity usage) (call : ArenaCall) :
    Sound base capacity (usage.step call) := by
  cases call with
  | reset =>
    refine ⟨h.start, h.finish, ?_, ?_, by simp [Usage.step]⟩
    · exact (h.start.trans_le h.packed.low_le_high).trans h.cursor_le
    · exact Packed.nil (Nat.le_of_eq h.start.symm)
  | allocate T constructs =>
    rcases MemoryArena.allocate_cases h.cursor_le T constructs with ⟨-, heq⟩ | ⟨ptr, hfits, heq⟩
    · simp only [Usage.step, heq]
      exact h
    · have hpacked := hfits.packed h.packed
      cases constructs with
      | false =>
        simp only [Usage.step, heq]
        -- the bytes are taken although no object stands there
        exact ⟨h.start, h.finish, hfits.2.2, h.packed.widen
          (Nat.le_trans hfits.1 (Nat.le_add_right _ _)), h.aligned⟩
      | true =>
        simp only [Usage.step, heq]
        refine ⟨h.start, h.finish, hfits.2.2, hpacked, ?_⟩
        intro o ho
        rcases List.mem_cons.mp ho with rfl | ho
        · exact hfits.2.1
        · exact h.aligned o ho

theorem sound_run (base capacity : ℕ) (calls : List ArenaCall) :
    Sound base capacity (run base capacity calls) := by
  induction calls using List.reverseRecOn with
  | nil => exact sound_create base capacity
  | append_singleton calls call ih =>
    rw [run, List.foldl_concat]
    exact ih.step call

/-- **Allocations of every run.** The cursor stays in the arena. The objects since the
last reset are aligned, inside the arena and disjoint, and so is the object that a further
`allocate` returns. It returns one whenever a block of the type fits behind the cursor and
the constructor returns; when it throws `bad_alloc` none fits, and the arena is as it was. -/
theorem run_allocations (base capacity : ℕ) (calls : List ArenaCall) :
    let usage := run base capacity calls
    let arena := usage.arena
    (arena.arenaStart = base ∧ arena.arenaEnd = base + capacity) ∧
      (arena.arenaStart ≤ arena.currentCursor ∧ arena.currentCursor ≤ arena.arenaEnd) ∧
      (∀ o ∈ usage.objects, o.type.alignment ∣ o.address ∧ arena.arenaStart ≤ o.address ∧
        o.address + o.type.size ≤ arena.arenaEnd) ∧
      usage.objects.Pairwise (fun o p => o.block.Apart p.block) ∧
      ∀ T,
        (∀ constructs ptr, (arena.allocate T constructs).2 = .ok ptr →
          T.alignment ∣ ptr ∧ arena.arenaStart ≤ ptr ∧ ptr + T.size ≤ arena.arenaEnd ∧
            ∀ o ∈ usage.objects, Block.Apart ⟨ptr, T.size⟩ o.block) ∧
        (∀ constructs, (arena.allocate T constructs).2 = .error .badAlloc →
          (∀ q, ¬ arena.Fits T q) ∧ (arena.allocate T constructs).1 = arena) ∧
        ((∃ q, arena.Fits T q) → ∃ ptr, (arena.allocate T true).2 = .ok ptr) := by
  intro usage arena
  have h : Sound base capacity usage := sound_run base capacity calls
  have hlow : arena.arenaStart ≤ arena.currentCursor := h.start.trans_le h.packed.low_le_high
  refine ⟨⟨h.start, h.finish⟩, ⟨hlow, h.cursor_le⟩, ?_, List.pairwise_map.mp h.packed.apart,
    fun T => ⟨?_, ?_, ?_⟩⟩
  · intro o ho
    have hmem : o.block ∈ usage.objects.map Placed.block := List.mem_map_of_mem ho
    exact ⟨h.aligned o ho, h.start.trans_le (h.packed.low_le _ hmem),
      Nat.le_trans (h.packed.le_high _ hmem) h.cursor_le⟩
  · intro constructs ptr hok
    have hfits := MemoryArena.fits_of_allocate h.cursor_le hok
    refine ⟨hfits.2.1, Nat.le_trans hlow hfits.1, hfits.2.2, fun o ho => ?_⟩
    exact h.packed.apart_of_le hfits.1 _ (List.mem_map_of_mem ho)
  · intro constructs hbad
    exact MemoryArena.allocate_badAlloc h.cursor_le hbad
  · rintro ⟨q, hq⟩
    exact MemoryArena.exists_allocate h.cursor_le hq

/-- An object of `2 ^ k` bytes on a multiple of its size. -/
def scalar (k : ℕ) : Layout := ⟨2 ^ k, 2 ^ k, Nat.one_le_two_pow, k, rfl⟩

/-- A byte, a word, an object larger than the arena, one whose constructor throws, and a
double word. -/
def mixedCalls : List ArenaCall :=
  [.allocate (scalar 0) true, .allocate (scalar 2) true, .allocate (scalar 6) true,
    .allocate (scalar 2) false, .allocate (scalar 3) true]

/-- Of the arena of 32 bytes from 64 on, the calls before the reset fill three quarters. -/
theorem run_allocations_mixed :
    (run 64 32 mixedCalls).objects.map Placed.block = [⟨80, 8⟩, ⟨68, 4⟩, ⟨64, 1⟩] ∧
      (run 64 32 mixedCalls).objects.Pairwise (fun o p => o.block.Apart p.block) ∧
      (∀ q, ¬ (run 64 32 mixedCalls).arena.Fits (scalar 4) q) ∧
      (run 64 32 (mixedCalls ++ [.reset, .allocate (scalar 4) true])).objects.map Placed.block =
        [⟨64, 16⟩] ∧
      ∃ ptr, ((run 64 32 (mixedCalls ++ [.reset])).arena.allocate (scalar 4) true).2 = .ok ptr := by
  obtain ⟨-, -, -, hapart, hnext⟩ := run_allocations 64 32 mixedCalls
  obtain ⟨-, -, -, -, hreset⟩ := run_allocations 64 32 (mixedCalls ++ [.reset])
  refine ⟨by decide +kernel, hapart, ?_, by decide +kernel, ?_⟩
  · exact ((hnext (scalar 4)).2.1 true (by decide +kernel)).1
  · exact (hreset (scalar 4)).2.2 ⟨64, by decide +kernel, by decide +kernel, by decide +kernel⟩

end Usage

end Netsim.Core
