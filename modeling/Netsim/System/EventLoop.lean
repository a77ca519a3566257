import Mathlib.Data.List.Perm.Subperm
import Netsim.Foundation.UnorderedMap

/-!
# File descriptors and the event loop

What the daemon relies on of the Linux kernel, and `system/event_loop.cpp` over
it (the branch for Linux). The kernel hands out the lowest free descriptor,
forgets the registration of a descriptor that is closed, and refuses to add what
is registered and to modify or delete what is not.
-/

namespace Netsim.System

open Foundation

/-- A valid descriptor. -/
abbrev Fd := ℕ

abbrev Errno := ℕ

def ENOENT : Errno := 2
def EAGAIN : Errno := 11
def EWOULDBLOCK : Errno := 11
def EEXIST : Errno := 17

/-- `std::system_error(errno, std::system_category(), what)`. -/
structure SystemError where
  errno : Errno
  what : String
deriving DecidableEq, Repr

/-! ### The kernel -/

/-- The open descriptors of the process, and the interest set of its epoll
instance: the events each registered descriptor is polled for. -/
structure Kernel where
  openFds : List Fd
  interest : UnorderedMap Fd UInt32

inductive EpollOp where
  | EPOLL_CTL_ADD
  | EPOLL_CTL_DEL
  | EPOLL_CTL_MOD
deriving DecidableEq, Repr

namespace Kernel

variable {k : Kernel} {fd x : Fd}

/-- The number `accept` and `socket` return. -/
def lowestFree (k : Kernel) : Fd :=
  ((List.range (k.openFds.length + 1)).find? fun fd => decide (fd ∉ k.openFds)).getD
    k.openFds.length

/-- `::accept` on a socket with a pending connection. -/
def accept (k : Kernel) : Fd × Kernel :=
  (k.lowestFree, { k with openFds := k.lowestFree :: k.openFds })

/-- `::close`. -/
def close (fd : Fd) (k : Kernel) : Kernel :=
  { openFds := k.openFds.filter (· ≠ fd), interest := k.interest.erase fd }

/-- `::epoll_ctl`. -/
def epollCtl (op : EpollOp) (fd : Fd) (events : UInt32) (k : Kernel) : Except Errno Kernel :=
  match op with
  | .EPOLL_CTL_ADD =>
      if (k.interest.find fd).isSome then .error EEXIST
      else .ok { k with interest := k.interest.set fd events }
  | .EPOLL_CTL_MOD =>
      if (k.interest.find fd).isSome then .ok { k with interest := k.interest.set fd events }
      else .error ENOENT
  | .EPOLL_CTL_DEL =>
      if (k.interest.find fd).isSome then .ok { k with interest := k.interest.erase fd }
      else .error ENOENT

theorem lowestFree_spec (k : Kernel) :
    k.lowestFree ∉ k.openFds ∧ ∀ fd, fd < k.lowestFree → fd ∈ k.openFds := by
  obtain ⟨n, hn⟩ : ∃ n, (List.range (k.openFds.length + 1)).find?
      (fun fd => decide (fd ∉ k.openFds)) = some n := by
    -- more numbers than open descriptors: one of them is free
    rw [← Option.isSome_iff_exists, List.find?_isSome]
    by_contra hall
    have hsub : List.range (k.openFds.length + 1) ⊆ k.openFds := by
      intro fd hfd
      by_contra hfree
      exact hall ⟨fd, hfd, decide_eq_true hfree⟩
    have := (List.subperm_of_subset List.nodup_range hsub).length_le
    rw [List.length_range] at this
    omega
  have hlow : k.lowestFree = n := by rw [lowestFree, hn, Option.getD_some]
  rw [hlow]
  obtain ⟨hfree, -, hbelow⟩ := List.find?_range_eq_some.mp hn
  refine ⟨of_decide_eq_true hfree, fun fd hfd => ?_⟩
  simpa using hbelow fd hfd

theorem mem_openFds_close : x ∈ (k.close fd).openFds ↔ x ∈ k.openFds ∧ x ≠ fd := by
  simp [close]

theorem find_interest_close :
    (k.close fd).interest.find x = if x = fd then none else k.interest.find x :=
  UnorderedMap.find_erase _ _ _

end Kernel

/-! ### The event loop -/

/-- `EPOLLIN`, which `EVENT_READ` stands for, and `EPOLLRDHUP`. -/
def EVENT_READ : UInt16 := 0x001
def EPOLLRDHUP : UInt32 := 0x2000

/-- The callbacks of type `γ`; an empty `std::function` is never stored. -/
structure KqueueEventLoop (γ : Type) where
  callbacks : UnorderedMap Fd γ

/-- `KqueueEventLoop::register_event`; `none` is an empty callback. -/
def registerEvent {γ : Type} (fd : Fd) (filter : UInt16) (callback : Option γ) (k : Kernel)
    (loop : KqueueEventLoop γ) : Except SystemError (Kernel × KqueueEventLoop γ) :=
  -- chosen by what the loop has stored, not by what the kernel has registered
  let op : EpollOp :=
    if (loop.callbacks.find fd).isSome then
      if callback.isSome then .EPOLL_CTL_MOD else .EPOLL_CTL_DEL
    else .EPOLL_CTL_ADD
  match k.epollCtl op fd (filter.toUInt32 ||| EPOLLRDHUP) with
  | .error errno => .error ⟨errno, "Failed to execute epoll_ctl"⟩
  | .ok k =>
      .ok (k, match callback with
        | some callback => ⟨loop.callbacks.set fd callback⟩
        | none => ⟨loop.callbacks.erase fd⟩)

variable {γ : Type} {fd : Fd} {filter : UInt16} {callback : γ} {k : Kernel}
  {loop : KqueueEventLoop γ}

/-- A descriptor unknown to both sides is added to both. -/
theorem registerEvent_new (hloop : loop.callbacks.find fd = none)
    (hkernel : k.interest.find fd = none) :
    registerEvent fd filter (some callback) k loop =
      .ok ({ k with interest := k.interest.set fd (filter.toUInt32 ||| EPOLLRDHUP) },
        ⟨loop.callbacks.set fd callback⟩) := by
  simp [registerEvent, Kernel.epollCtl, hloop, hkernel]

/-- A callback kept for a descriptor that the kernel has forgotten: the loop asks
for a modification, and the kernel refuses. -/
theorem registerEvent_stale (hloop : (loop.callbacks.find fd).isSome)
    (hkernel : k.interest.find fd = none) :
    registerEvent fd filter (some callback) k loop =
      .error ⟨ENOENT, "Failed to execute epoll_ctl"⟩ := by
  simp [registerEvent, Kernel.epollCtl, hloop, hkernel]

end Netsim.System
