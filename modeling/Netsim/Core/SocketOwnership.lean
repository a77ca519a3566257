import Netsim.Core.Connection
import Netsim.Foundation.Ownership

/-!
# Ownership of descriptors

The special members of `SocketFD` over any number of objects. A live object has a number
and owns a descriptor or none; the ledger records what was opened and each call of
`::close`. Descriptors that the process has open beside them, such as the standard
streams, belong to no object.
-/

namespace Netsim.Core

open Foundation Netsim.System

structure Sockets where
  kernel : Kernel
  objects : UnorderedMap ℕ SocketFD
  ledger : List (LedgerEntry Fd)

namespace Sockets

/-- What the object owns, if it is alive. -/
def held (s : Sockets) (x : ℕ) : Option Fd := (s.objects.find x).bind SocketFD.fd

def Live (s : Sockets) (x : ℕ) : Prop := (s.objects.find x).isSome

instance (s : Sockets) (x : ℕ) : Decidable (s.Live x) := inferInstanceAs (Decidable (_ = true))

/-! ### The members of `SocketFD` -/

/-- `close_socket()` of the object. -/
def closeSocket (s : Sockets) (x : ℕ) : Sockets :=
  match s.held x with
  | some fd =>
      { kernel := s.kernel.close fd
        objects := s.objects.set x ⟨none⟩
        ledger := .released fd :: s.ledger }
  | none => s

/-- `SocketFD(fd)`, for a descriptor that the kernel has just opened. -/
def adopt (s : Sockets) (x : ℕ) (fd : Fd) : Sockets where
  kernel := { s.kernel with openFds := fd :: s.kernel.openFds }
  objects := s.objects.set x ⟨some fd⟩
  ledger := .acquired fd :: s.ledger

/-- `SocketFD{}` -/
def construct (s : Sockets) (x : ℕ) : Sockets :=
  { s with objects := s.objects.set x ⟨none⟩ }

/-- `fd_ = other.fd_; other.fd_ = -1;` -/
def take (s : Sockets) (x other : ℕ) : Sockets :=
  { s with objects := (s.objects.set x ⟨s.held other⟩).set other ⟨none⟩ }

def moveConstruct (s : Sockets) (x other : ℕ) : Sockets := s.take x other

def moveAssign (s : Sockets) (x other : ℕ) : Sockets :=
  if x = other then s else (s.closeSocket x).take x other

/-- `~SocketFD()` -/
def destroy (s : Sockets) (x : ℕ) : Sockets :=
  let s := s.closeSocket x
  { s with objects := s.objects.erase x }

/-- `socket_ = SocketFD{};` of `Connection::disconnect`, with its temporary object. -/
def disconnect (s : Sockets) (x temporary : ℕ) : Sockets :=
  ((s.construct temporary).moveAssign x temporary).destroy temporary

inductive Op where
  | adopt (x : ℕ) (fd : Fd)
  | construct (x : ℕ)
  | moveConstruct (x other : ℕ)
  | moveAssign (x other : ℕ)
  | destroy (x : ℕ)
  | disconnect (x temporary : ℕ)
deriving DecidableEq, Repr

/-- The operation works on objects that are alive, makes objects that are not, and adopts
a descriptor that was not open. -/
def Valid (s : Sockets) : Op → Prop
  | .adopt x fd => ¬ s.Live x ∧ fd ∉ s.kernel.openFds
  | .construct x => ¬ s.Live x
  | .moveConstruct x other => ¬ s.Live x ∧ s.Live other
  | .moveAssign x other => s.Live x ∧ s.Live other
  | .destroy x => s.Live x
  | .disconnect x temporary => s.Live x ∧ ¬ s.Live temporary

instance (s : Sockets) : (op : Op) → Decidable (s.Valid op)
  | .adopt x fd => inferInstanceAs (Decidable (¬ s.Live x ∧ fd ∉ s.kernel.openFds))
  | .construct x => inferInstanceAs (Decidable (¬ s.Live x))
  | .moveConstruct x other => inferInstanceAs (Decidable (¬ s.Live x ∧ s.Live other))
  | .moveAssign x other => inferInstanceAs (Decidable (s.Live x ∧ s.Live other))
  | .destroy x => inferInstanceAs (Decidable (s.Live x))
  | .disconnect x temporary => inferInstanceAs (Decidable (s.Live x ∧ ¬ s.Live temporary))

def apply (s : Sockets) : Op → Sockets
  | .adopt x fd => s.adopt x fd
  | .construct x => s.construct x
  | .moveConstruct x other => s.moveConstruct x other
  | .moveAssign x other => s.moveAssign x other
  | .destroy x => s.destroy x
  | .disconnect x temporary => s.disconnect x temporary

/-- One operation. What no program does changes nothing. -/
def step (s : Sockets) (op : Op) : Sockets :=
  if s.Valid op then s.apply op else s

/-- A run from a process without objects, in which the descriptors `foreign` are open. -/
def run (foreign : List Fd) (ops : List Op) : Sockets :=
  ops.foldl step { kernel := { openFds := foreign, interest := ∅ }, objects := ∅, ledger := [] }

/-- The descriptor of the object that the operation destroys or overwrites. -/
def given (s : Sockets) : Op → Option Fd
  | .moveAssign x other => if x = other then none else s.held x
  | .destroy x => s.held x
  | .disconnect x _ => s.held x
  | _ => none

/-- What the operation adds to the ledger. -/
def entries (s : Sockets) (op : Op) : List (LedgerEntry Fd) :=
  match op with
  | .adopt _ fd => [.acquired fd]
  | op => (s.given op).toList.map .released

/-! ### What the objects hold -/

variable {s s' : Sockets} {x other temporary : ℕ} {fd : Fd} {foreign : List Fd}

theorem held_set {socket : SocketFD} (h : s'.objects = s.objects.set x socket) :
    s'.held = Function.update s.held x socket.fd := by
  funext y
  rw [held, h, UnorderedMap.find_set, Function.update_apply]
  split_ifs <;> rfl

theorem held_erase (h : s'.objects = s.objects.erase x) :
    s'.held = Function.update s.held x none := by
  funext y
  rw [held, h, UnorderedMap.find_erase, Function.update_apply]
  split_ifs <;> rfl

theorem held_of_not_live (h : ¬ s.Live x) : s.held x = none := by
  rw [Live, Option.not_isSome_iff_eq_none] at h
  rw [held, h, Option.bind_none]

theorem closeSocket_of_none (hx : s.held x = none) : s.closeSocket x = s := by
  rw [closeSocket, hx]

theorem closeSocket_of_some (hx : s.held x = some fd) : s.closeSocket x =
    { kernel := s.kernel.close fd
      objects := s.objects.set x ⟨none⟩
      ledger := .released fd :: s.ledger } := by
  rw [closeSocket, hx]

theorem held_closeSocket (s : Sockets) (x : ℕ) :
    (s.closeSocket x).held = Function.update s.held x none := by
  cases hx : s.held x with
  | none => rw [closeSocket_of_none hx, ← hx, Function.update_eq_self]
  | some fd =>
      rw [closeSocket_of_some hx]
      exact held_set rfl

theorem held_closeSocket_self (s : Sockets) (x : ℕ) : (s.closeSocket x).held x = none := by
  rw [held_closeSocket, Function.update_self]

theorem ledger_closeSocket (s : Sockets) (x : ℕ) :
    (s.closeSocket x).ledger = (s.held x).toList.map .released ++ s.ledger := by
  cases hx : s.held x with
  | none => rw [closeSocket_of_none hx, Option.toList_none, List.map_nil, List.nil_append]
  | some fd => rw [closeSocket_of_some hx, Option.toList_some, List.map_singleton,
      List.singleton_append]

theorem held_construct (hx : s.held x = none) : (s.construct x).held = s.held := by
  have hset : (s.construct x).held = Function.update s.held x none := held_set rfl
  rw [hset, ← hx, Function.update_eq_self]

theorem held_take (s : Sockets) (x other : ℕ) : (s.take x other).held =
    Function.update (Function.update s.held x (s.held other)) other none := by
  let placed : Sockets := { s with objects := s.objects.set x ⟨s.held other⟩ }
  have hfirst : placed.held = Function.update s.held x (s.held other) := held_set rfl
  have hsecond : (s.take x other).held = Function.update placed.held other none := held_set rfl
  rw [hsecond, hfirst]

theorem held_moveAssign_other (s : Sockets) (hne : x ≠ other) :
    (s.moveAssign x other).held other = none := by
  rw [moveAssign, if_neg hne, held_take, Function.update_self]

theorem held_destroy (s : Sockets) (x : ℕ) :
    (s.destroy x).held = Function.update s.held x none := by
  have herase : (s.destroy x).held = Function.update (s.closeSocket x).held x none :=
    held_erase rfl
  rw [herase, held_closeSocket, Function.update_idem]

/-! ### The invariant -/

/-- The holders and the ledger are in step, and with them the open descriptors. -/
structure Sound (foreign : List Fd) (s : Sockets) : Prop where
  accounted : Accounted s.held s.ledger
  open_iff : ∀ fd, fd ∈ s.kernel.openFds ↔ fd ∈ foreign ∨ InUse s.ledger fd
  foreign_free : ∀ fd ∈ foreign, ¬ InUse s.ledger fd

theorem sound_start (foreign : List Fd) : Sound foreign (run foreign []) where
  accounted := Accounted.empty
  open_iff := by simp [run, InUse]
  foreign_free := by simp [run, InUse]

namespace Sound

/-- A change of the objects alone. -/
theorem of_accounted (h : Sound foreign s) (hkernel : s'.kernel = s.kernel)
    (hledger : s'.ledger = s.ledger) (haccounted : Accounted s'.held s.ledger) :
    Sound foreign s' where
  accounted := by rwa [hledger]
  open_iff := by
    rw [hkernel, hledger]
    exact h.open_iff
  foreign_free := by
    rw [hledger]
    exact h.foreign_free

theorem closeSocket (h : Sound foreign s) (x : ℕ) : Sound foreign (s.closeSocket x) := by
  cases hx : s.held x with
  | none =>
      rw [closeSocket_of_none hx]
      exact h
  | some fd =>
      have haccounted := h.accounted.release hx
      have hfd : fd ∉ foreign := fun hmem => h.foreign_free fd hmem haccounted.proper.1
      rw [← held_closeSocket, closeSocket_of_some hx] at haccounted
      rw [closeSocket_of_some hx]
      refine ⟨haccounted, fun y => ?_, fun y hy hin => h.foreign_free y hy hin.2⟩
      rw [Kernel.mem_openFds_close, h.open_iff, InUse, ne_comm]
      constructor
      · rintro ⟨hy | hy, hne⟩
        · exact Or.inl hy
        · exact Or.inr ⟨hne, hy⟩
      · rintro (hy | ⟨hne, hy⟩)
        · exact ⟨Or.inl hy, fun heq => hfd (heq ▸ hy)⟩
        · exact ⟨Or.inr hy, hne⟩

theorem adopt (h : Sound foreign s) (hx : s.held x = none) (hfd : fd ∉ s.kernel.openFds) :
    Sound foreign (s.adopt x fd) := by
  rw [h.open_iff, not_or] at hfd
  have hheld : (s.adopt x fd).held = Function.update s.held x (some fd) := held_set rfl
  refine ⟨?_, fun y => ?_, fun y hy => ?_⟩
  · rw [hheld]
    exact h.accounted.acquire hx hfd.2
  · rw [Sockets.adopt, List.mem_cons, h.open_iff, InUse, eq_comm]
    exact or_left_comm
  · rw [Sockets.adopt, InUse, not_or]
    exact ⟨fun heq => hfd.1 (heq ▸ hy), h.foreign_free y hy⟩

theorem construct (h : Sound foreign s) (hx : s.held x = none) : Sound foreign (s.construct x) :=
  h.of_accounted rfl rfl (by rw [held_construct hx]; exact h.accounted)

theorem take (h : Sound foreign s) (hne : x ≠ other) (hx : s.held x = none) :
    Sound foreign (s.take x other) := by
  refine h.of_accounted rfl rfl ?_
  rw [held_take]
  exact h.accounted.handOver hne hx

theorem moveAssign (h : Sound foreign s) (x other : ℕ) : Sound foreign (s.moveAssign x other) := by
  unfold Sockets.moveAssign
  split_ifs with heq
  · exact h
  · exact (h.closeSocket x).take heq (held_closeSocket_self s x)

theorem destroy (h : Sound foreign s) (x : ℕ) : Sound foreign (s.destroy x) := by
  have hclosed := h.closeSocket x
  refine hclosed.of_accounted rfl rfl ?_
  rw [held_destroy, ← held_closeSocket]
  exact hclosed.accounted

theorem step (h : Sound foreign s) (op : Op) : Sound foreign (s.step op) := by
  unfold Sockets.step
  split_ifs with hvalid
  · cases op with
    | adopt x fd => exact h.adopt (held_of_not_live hvalid.1) hvalid.2
    | construct x => exact h.construct (held_of_not_live hvalid)
    | moveConstruct x other =>
        have hne : x ≠ other := fun heq => hvalid.1 (heq ▸ hvalid.2)
        exact h.take hne (held_of_not_live hvalid.1)
    | moveAssign x other => exact h.moveAssign x other
    | destroy x => exact h.destroy x
    | disconnect x temporary =>
        exact ((h.construct (held_of_not_live hvalid.2)).moveAssign x temporary).destroy temporary
  · exact h

end Sound

theorem sound_run (foreign : List Fd) (ops : List Op) : Sound foreign (run foreign ops) := by
  induction ops using List.reverseRecOn with
  | nil => exact sound_start foreign
  | append_singleton ops op ih =>
      rw [run, List.foldl_concat]
      exact ih.step op

/-! ### What is closed -/

theorem ledger_moveAssign (s : Sockets) (x other : ℕ) : (s.moveAssign x other).ledger =
    (if x = other then none else s.held x).toList.map .released ++ s.ledger := by
  unfold moveAssign
  split_ifs
  · rfl
  · exact ledger_closeSocket s x

theorem ledger_disconnect (hne : x ≠ temporary) (htemporary : s.held temporary = none) :
    (s.disconnect x temporary).ledger = (s.held x).toList.map .released ++ s.ledger := by
  have hdestroy := ledger_closeSocket ((s.construct temporary).moveAssign x temporary) temporary
  rw [held_moveAssign_other _ hne, ledger_moveAssign, if_neg hne, held_construct htemporary]
    at hdestroy
  exact hdestroy

theorem ledger_step {op : Op} (hvalid : s.Valid op) :
    (s.step op).ledger = s.entries op ++ s.ledger := by
  rw [step, if_pos hvalid]
  cases op with
  | adopt x fd => rfl
  | construct x => rfl
  | moveConstruct x other => rfl
  | moveAssign x other => exact ledger_moveAssign s x other
  | destroy x => exact ledger_closeSocket s x
  | disconnect x temporary =>
      have hne : x ≠ temporary := fun heq => hvalid.2 (heq ▸ hvalid.1)
      exact ledger_disconnect hne (held_of_not_live hvalid.2)

/-! ### The connection's member -/

theorem kernel_closeSocket (s : Sockets) (x : ℕ) :
    (s.closeSocket x).kernel = SocketFD.closeSocket ⟨s.held x⟩ s.kernel := by
  cases hx : s.held x with
  | none =>
      rw [closeSocket_of_none hx]
      rfl
  | some fd =>
      rw [closeSocket_of_some hx]
      rfl

/-- `Connection::disconnect` is what its member does. -/
theorem disconnect_eq (hne : x ≠ temporary) (htemporary : s.held temporary = none) :
    let result := Connection.disconnect ⟨⟨s.held x⟩⟩ s.kernel
    (s.disconnect x temporary).kernel = result.2 ∧
      (s.disconnect x temporary).objects.find x = some result.1.socket := by
  have hheld : (s.construct temporary).held = s.held := held_construct htemporary
  have hclosed : ((s.construct temporary).closeSocket x).held temporary = none := by
    rw [held_closeSocket, hheld, Function.update_of_ne hne.symm, htemporary]
  rw [disconnect, destroy, closeSocket_of_none (held_moveAssign_other _ hne), moveAssign,
    if_neg hne]
  constructor
  · show ((s.construct temporary).closeSocket x).kernel = _
    rw [kernel_closeSocket, hheld]
    rfl
  · dsimp only
    rw [UnorderedMap.find_erase, if_neg hne, Sockets.take]
    dsimp only
    rw [UnorderedMap.find_set_ne _ hne, UnorderedMap.find_set_self, hclosed]
    rfl

/-- **Every descriptor has one owner and is closed once.** A descriptor that is open and not
foreign is owned by exactly one live object. An operation closes the descriptor of the object
that it destroys or overwrites, and no other. Between two closes of a number it has been
opened again, and when no object is left, none of their descriptors is open. -/
theorem run_owns (foreign : List Fd) (ops : List Op) :
    let s := run foreign ops
    (∀ fd, (fd ∈ s.kernel.openFds ∧ fd ∉ foreign) ↔ ∃! x, s.held x = some fd) ∧
      (∀ op, s.Valid op → (s.step op).ledger = s.entries op ++ s.ledger) ∧
      Proper s.ledger ∧
      (∀ fd later between earlier,
        s.ledger = later ++ .released fd :: (between ++ .released fd :: earlier) →
          .acquired fd ∈ between) ∧
      ((∀ x, ¬ s.Live x) → ∀ fd ∈ s.kernel.openFds, fd ∈ foreign) := by
  intro s
  have h : Sound foreign s := sound_run foreign ops
  have howner : ∀ fd, (fd ∈ s.kernel.openFds ∧ fd ∉ foreign) ↔ InUse s.ledger fd := by
    intro fd
    rw [h.open_iff]
    constructor
    · rintro ⟨hmem | hin, hnot⟩
      · exact absurd hmem hnot
      · exact hin
    · exact fun hin => ⟨Or.inr hin, fun hmem => h.foreign_free fd hmem hin⟩
  refine ⟨fun fd => ?_, fun op => ledger_step, h.accounted.proper, ?_, ?_⟩
  · rw [howner]
    exact ⟨h.accounted.existsUnique_holder,
      fun ⟨x, hx, _⟩ => (h.accounted.inUse_iff fd).mpr ⟨x, hx⟩⟩
  · intro fd later between earlier hledger
    have hproper := h.accounted.proper
    rw [hledger] at hproper
    exact hproper.acquired_between
  · intro hnone fd hfd
    by_contra hnot
    obtain ⟨x, hx⟩ := (h.accounted.inUse_iff fd).mp ((howner fd).mp ⟨hfd, hnot⟩)
    rw [held_of_not_live (hnone x)] at hx
    cases hx

end Sockets

end Netsim.Core
