import Netsim.Foundation.GuardedRun
import Netsim.System.EventLoop

/-!
# Registrations on both sides

`register_event` adds a descriptor to the interest set whenever it has no callback for
it, also when the callback given is empty and nothing is stored. The kernel then polls a
descriptor that the loop does not know, and every further call for it is refused.
-/

namespace Netsim.System

open Foundation

/-- A call of `register_event`. -/
structure Registration (γ : Type) where
  fd : Fd
  filter : UInt16
  callback : Option γ

/-- An event loop and the kernel under it. -/
structure Registrations (γ : Type) where
  kernel : Kernel
  loop : KqueueEventLoop γ

namespace Registrations

variable {γ : Type}

/-- The constructor of the loop, with the epoll instance it makes. -/
def create (openFds : List Fd) : Registrations γ :=
  { kernel := { openFds := openFds, interest := ∅ }, loop := { callbacks := ∅ } }

/-- A call, and the exception that leaves it. -/
def call (r : Registrations γ) (c : Registration γ) : Option SystemError × Registrations γ :=
  match registerEvent c.fd c.filter c.callback r.kernel r.loop with
  | .ok (kernel, loop) => (none, { kernel, loop })
  | .error error => (some error, r)

def step (r : Registrations γ) (c : Registration γ) : Registrations γ :=
  (r.call c).2

/-- The kernel and the loop know the same descriptors. -/
def Agree (r : Registrations γ) : Prop :=
  ∀ fd, fd ∈ r.kernel.interest.keys ↔ fd ∈ r.loop.callbacks.keys

/-- The call stores a callback, or takes away one that is stored. -/
def Meaningful (r : Registrations γ) (c : Registration γ) : Prop :=
  c.callback.isSome ∨ c.fd ∈ r.loop.callbacks.keys

variable {r : Registrations γ} {c : Registration γ}

theorem agree_create (openFds : List Fd) : (create openFds : Registrations γ).Agree := by
  intro fd
  rfl

/-- A refused call changes nothing. -/
theorem step_of_throws (h : (r.call c).1.isSome) : r.step c = r := by
  unfold step call at *
  split at h
  · cases h
  · rfl

/-! ### One call -/

/-- From agreement no call is refused, and the operation asked for fits the callback unless
the call takes away what is not there. -/
theorem step_of_agree (h : r.Agree) (c : Registration γ) :
    (r.step c).kernel.interest =
        (if (r.loop.callbacks.find c.fd).isSome ∧ c.callback = none then
          r.kernel.interest.erase c.fd
        else r.kernel.interest.set c.fd (c.filter.toUInt32 ||| EPOLLRDHUP)) ∧
      (r.step c).loop.callbacks =
        match c.callback with
        | some callback => r.loop.callbacks.set c.fd callback
        | none => r.loop.callbacks.erase c.fd := by
  have hfd := h c.fd
  rw [UnorderedMap.mem_keys, UnorderedMap.mem_keys] at hfd
  unfold step call registerEvent
  cases hstored : (r.loop.callbacks.find c.fd).isSome with
  | false =>
      have hkernel : (r.kernel.interest.find c.fd).isSome = false := by
        rw [Bool.eq_false_iff, ne_eq, hfd, hstored]
        exact Bool.false_ne_true
      cases hcallback : c.callback <;> simp [Kernel.epollCtl, hkernel]
  | true =>
      have hkernel : (r.kernel.interest.find c.fd).isSome = true := hfd.mpr hstored
      cases hcallback : c.callback <;> simp [Kernel.epollCtl, hkernel]

theorem mem_callbacks_step (h : r.Agree) {fd : Fd} : fd ∈ (r.step c).loop.callbacks.keys ↔
    if fd = c.fd then c.callback.isSome = true else fd ∈ r.loop.callbacks.keys := by
  rw [UnorderedMap.mem_keys, UnorderedMap.mem_keys, (step_of_agree h c).2]
  cases c.callback with
  | some callback =>
      rw [UnorderedMap.find_set]
      split_ifs <;> simp
  | none =>
      rw [UnorderedMap.find_erase]
      split_ifs <;> simp

/-- The descriptor stays in the interest set unless a stored callback is taken away. -/
theorem mem_interest_step (h : r.Agree) {fd : Fd} : fd ∈ (r.step c).kernel.interest.keys ↔
    if fd = c.fd then c.callback.isSome = true ∨ fd ∉ r.loop.callbacks.keys
    else fd ∈ r.kernel.interest.keys := by
  rw [UnorderedMap.mem_keys, UnorderedMap.mem_keys, UnorderedMap.mem_keys,
    (step_of_agree h c).1]
  by_cases hdel : (r.loop.callbacks.find c.fd).isSome ∧ c.callback = none
  · rw [if_pos hdel, UnorderedMap.find_erase]
    split_ifs with heq
    · simp [heq, hdel.1, hdel.2]
    · rfl
  · rw [if_neg hdel, UnorderedMap.find_set]
    split_ifs with heq
    · rw [heq]
      refine iff_of_true rfl ?_
      by_contra hneither
      rw [not_or, not_not, Option.not_isSome_iff_eq_none] at hneither
      exact hdel ⟨hneither.2, hneither.1⟩
    · rfl

theorem agree_step_iff (h : r.Agree) : (r.step c).Agree ↔ r.Meaningful c := by
  constructor
  · intro hnext
    have hfd := hnext c.fd
    rw [mem_interest_step h, mem_callbacks_step h, if_pos rfl, if_pos rfl] at hfd
    by_contra hnot
    rw [Meaningful, not_or] at hnot
    exact hnot.1 (hfd.mp (Or.inr hnot.2))
  · intro hmeaning fd
    rw [mem_interest_step h, mem_callbacks_step h]
    split_ifs with heq
    · rw [heq]
      rcases hmeaning with hsome | hstored
      · exact iff_of_true (Or.inl hsome) hsome
      · exact or_iff_left (not_not.mpr hstored)
    · exact h fd

/-! ### Runs -/

/-- **When the two sides agree after every call.** Exactly in the runs in which no call
with an empty callback meets a descriptor that has none stored. -/
theorem run_agrees_iff (openFds : List Fd) (calls : List (Registration γ)) :
    Throughout step (fun r c => (r.step c).Agree ∧ ((r.call c).1.isSome → r.step c = r))
        (create openFds) calls ↔
      Throughout step Meaningful (create openFds) calls := by
  have hagree : Throughout step (fun r c => (r.step c).Agree) (create openFds) calls ↔
      Throughout step Meaningful (create openFds) calls :=
    Throughout.guarded_iff (fun _ _ => agree_step_iff) (agree_create openFds)
  rw [Throughout.and_iff, hagree]
  exact and_iff_left fun before c after _ => step_of_throws

/-- An empty callback for a descriptor never registered leaves it in the interest set. -/
theorem not_run_agrees :
    ¬ Throughout step
      (fun r c => (r.step c).Agree ∧ ((r.call c).1.isSome → r.step c = r))
      (create [0, 1, 2, 5] : Registrations Unit) [⟨5, EVENT_READ, none⟩] := by
  intro h
  have hfd := (h [] _ [] rfl).1 5
  revert hfd
  decide

end Registrations

end Netsim.System
