import Netsim.Daemon.CoreEngine

/-!
# Runs of accepts and disconnects

The event loop keeps the callback of a client that has disconnected, while the
kernel has forgotten the registration. The kernel hands out the lowest free
descriptor, so the next client accepted gets the descriptor of one that has
gone: the loop then asks for a modification where an addition is due.

`ClientInv` describes the states of a run with the descriptors that disconnects
have freed so far. From it follows exactly which runs go well
(`acceptsRegister_iff`).
-/

namespace Netsim.Daemon

open Foundation Netsim.System Netsim.Core Netsim.Protocols

variable {memory : Allocator} {d d' : State} {freed : List Fd} {fd x : Fd}

/-- What a client does. A disconnect shows as `recv` returning no bytes. -/
inductive ClientEvent where
  | accept
  | disconnect (fd : Fd)
deriving DecidableEq, Repr

/-- The descriptor is in the interest set, with the read callback. -/
def Registered (d : State) (fd : Fd) : Prop :=
  (d.kernel.interest.find fd).isSome ∧ d.mainLoop.callbacks.find fd = some .read

/-- Every disconnect of the run is that of a connected client. -/
def Feasible (memory : Allocator) (d : State) : List ClientEvent → Prop
  | [] => True
  | .accept :: events => ∀ d', acceptCallback d = .ok d' → Feasible memory d' events
  | .disconnect fd :: events => (d.activeConnections.find fd).isSome ∧
      ∀ d', readCallback memory fd (.received []) d = .ok d' → Feasible memory d' events

/-- Every accept of the run returns, with the new descriptor registered. -/
def AcceptsRegister (memory : Allocator) (d : State) : List ClientEvent → Prop
  | [] => True
  | .accept :: events => ∃ d', acceptCallback d = .ok d' ∧ Registered d' d.kernel.lowestFree ∧
      AcceptsRegister memory d' events
  | .disconnect fd :: events => ∃ d', readCallback memory fd (.received []) d = .ok d' ∧
      AcceptsRegister memory d' events

/-- No client is accepted after one has disconnected. -/
def AcceptsFirst (events : List ClientEvent) : Prop :=
  events.Pairwise fun a b => a ≠ .accept → b ≠ .accept

/-- The states of a run in which `freed` are the descriptors of the clients that
have disconnected, none of which has been handed out again. -/
structure ClientInv (freed : List Fd) (d : State) : Prop where
  interest_open : ∀ fd, (d.kernel.interest.find fd).isSome → fd ∈ d.kernel.openFds
  callbacks_iff : ∀ fd, (d.mainLoop.callbacks.find fd).isSome ↔
    (d.kernel.interest.find fd).isSome ∨ fd ∈ freed
  freed_closed : ∀ fd ∈ freed, fd ∉ d.kernel.openFds
  freed_below : ∀ fd ∈ freed, ∀ x, x < fd → x ∈ d.kernel.openFds ∨ x ∈ freed
  client : ∀ fd ctx, d.activeConnections.find fd = some ctx →
    ctx.connection.socket.fd = some fd ∧ (d.kernel.interest.find fd).isSome ∧
      ∀ x, x < fd → x ∈ d.kernel.openFds ∨ x ∈ freed

theorem clientInv_started {openFds : List Fd} {listenFd : Fd} (h : listenFd ∈ openFds) :
    ClientInv [] (started openFds listenFd) where
  interest_open := by
    intro fd hfd
    simp only [started, UnorderedMap.ofPairs, List.foldl_cons, List.foldl_nil,
      UnorderedMap.find_set] at hfd ⊢
    split_ifs at hfd with heq
    · exact heq ▸ h
    · simp at hfd
  callbacks_iff := by
    intro fd
    simp only [started, UnorderedMap.ofPairs, List.foldl_cons, List.foldl_nil,
      UnorderedMap.find_set, List.not_mem_nil, or_false]
    split_ifs <;> simp
  freed_closed := by simp
  freed_below := by simp
  client := by simp [started]

namespace ClientInv

/-- After a disconnect the lowest free descriptor is a freed one. -/
theorem lowestFree_mem (I : ClientInv freed d) (hne : freed ≠ []) :
    d.kernel.lowestFree ∈ freed := by
  obtain ⟨hfree, hbelow⟩ := d.kernel.lowestFree_spec
  obtain ⟨fd, hfd⟩ := List.exists_mem_of_ne_nil freed hne
  rcases Nat.lt_trichotomy d.kernel.lowestFree fd with hlt | heq | hgt
  · exact (I.freed_below fd hfd _ hlt).resolve_left hfree
  · exact heq ▸ hfd
  · exact absurd (hbelow fd hgt) (I.freed_closed fd hfd)

theorem not_registered (I : ClientInv freed d) :
    d.kernel.interest.find d.kernel.lowestFree = none := by
  rw [← Option.not_isSome_iff_eq_none]
  exact fun h => d.kernel.lowestFree_spec.1 (I.interest_open _ h)

/-- The descriptor of a new client is unknown to `g_active_connections`. -/
theorem not_connected (I : ClientInv freed d) :
    d.activeConnections.find d.kernel.lowestFree = none := by
  cases hfind : d.activeConnections.find d.kernel.lowestFree with
  | none => rfl
  | some ctx =>
      have hreg := (I.client _ _ hfind).2.1
      rw [I.not_registered] at hreg
      simp at hreg

/-- Accepting a client whose descriptor no disconnect has freed. -/
theorem accept_new (I : ClientInv freed d) (hnew : d.kernel.lowestFree ∉ freed) :
    ∃ d', acceptCallback d = .ok d' ∧ Registered d' d.kernel.lowestFree ∧
      ClientInv freed d' := by
  obtain ⟨hfree, hbelow⟩ := d.kernel.lowestFree_spec
  have hreg := I.not_registered
  have hcallback : d.mainLoop.callbacks.find d.kernel.lowestFree = none := by
    rw [← Option.not_isSome_iff_eq_none, I.callbacks_iff, hreg]
    simpa using hnew
  have hadd : registerEvent d.kernel.lowestFree EVENT_READ (some Callback.read)
      ⟨d.kernel.lowestFree :: d.kernel.openFds, d.kernel.interest⟩ d.mainLoop = .ok
        (⟨d.kernel.lowestFree :: d.kernel.openFds, d.kernel.interest.set d.kernel.lowestFree
          (EVENT_READ.toUInt32 ||| EPOLLRDHUP)⟩,
          ⟨d.mainLoop.callbacks.set d.kernel.lowestFree .read⟩) :=
    registerEvent_new hcallback hreg
  have hrun : acceptCallback d = .ok {
      kernel := ⟨d.kernel.lowestFree :: d.kernel.openFds, d.kernel.interest.set
        d.kernel.lowestFree (EVENT_READ.toUInt32 ||| EPOLLRDHUP)⟩
      mainLoop := ⟨d.mainLoop.callbacks.set d.kernel.lowestFree .read⟩
      activeConnections := d.activeConnections.set d.kernel.lowestFree
        ⟨⟨⟨some d.kernel.lowestFree⟩⟩, HttpSim.fresh⟩
      deserialized := d.deserialized } := by
    simp [acceptCallback, Kernel.accept, I.not_connected, hadd]
  refine ⟨_, hrun, ⟨?_, ?_⟩, ?_, ?_, ?_, ?_, ?_⟩
  · simp
  · simp
  · intro fd hfd
    rw [UnorderedMap.find_set] at hfd
    split_ifs at hfd with heq
    · exact heq ▸ List.mem_cons_self
    · exact List.mem_cons_of_mem _ (I.interest_open fd hfd)
  · intro fd
    rw [UnorderedMap.find_set, UnorderedMap.find_set]
    split_ifs with heq
    · simp
    · exact I.callbacks_iff fd
  · intro fd hfd hmem
    rcases List.mem_cons.mp hmem with rfl | hmem
    · exact hnew hfd
    · exact I.freed_closed fd hfd hmem
  · exact fun fd hfd x hx => (I.freed_below fd hfd x hx).imp (List.mem_cons_of_mem _) id
  · intro fd ctx hctx
    rw [UnorderedMap.find_set] at hctx
    rw [UnorderedMap.find_set]
    split_ifs at hctx ⊢ with heq
    · obtain rfl := Option.some.inj hctx
      exact ⟨by rw [heq], rfl, fun x hx => Or.inl (List.mem_cons_of_mem _ (hbelow x (heq ▸ hx)))⟩
    · obtain ⟨hfd, hreg, hlt⟩ := I.client fd ctx hctx
      exact ⟨hfd, hreg, fun x hx => (hlt x hx).imp (List.mem_cons_of_mem _) id⟩

/-- Accepting a client whose descriptor a disconnect has freed: `register_event`
throws. -/
theorem accept_freed (I : ClientInv freed d) (hfreed : d.kernel.lowestFree ∈ freed) :
    acceptCallback d =
      .error (.systemError ⟨ENOENT, "Failed to execute epoll_ctl"⟩) := by
  have hreg := I.not_registered
  have hcallback := (I.callbacks_iff d.kernel.lowestFree).mpr (Or.inr hfreed)
  have hmod : registerEvent d.kernel.lowestFree EVENT_READ (some Callback.read)
      ⟨d.kernel.lowestFree :: d.kernel.openFds, d.kernel.interest⟩ d.mainLoop =
        .error ⟨ENOENT, "Failed to execute epoll_ctl"⟩ :=
    registerEvent_stale hcallback hreg
  simp [acceptCallback, Kernel.accept, I.not_connected, hmod]

/-- A descriptor that is closed is freed, and no other changes. -/
theorem open_or_freed_close {k : Kernel} (fd : Fd) (h : x ∈ k.openFds ∨ x ∈ freed) :
    x ∈ (k.close fd).openFds ∨ x ∈ fd :: freed := by
  rw [Kernel.mem_openFds_close]
  by_cases heq : x = fd
  · exact Or.inr (heq ▸ List.mem_cons_self)
  · exact h.imp (fun h => ⟨h, heq⟩) (List.mem_cons_of_mem _)

/-- A client goes, and with it its descriptor; its callback stays. -/
theorem close (I : ClientInv freed d) (hfd : (d.activeConnections.find fd).isSome)
    (hkernel : d'.kernel = d.kernel.close fd) (hloop : d'.mainLoop = d.mainLoop)
    (hactive : d'.activeConnections = d.activeConnections.erase fd) :
    ClientInv (fd :: freed) d' := by
  obtain ⟨ctx, hctx⟩ := Option.isSome_iff_exists.mp hfd
  obtain ⟨hsocket, hreg, hbelow⟩ := I.client fd ctx hctx
  refine ⟨?_, ?_, ?_, ?_, ?_⟩
  · intro x hx
    rw [hkernel, Kernel.find_interest_close] at hx
    rw [hkernel, Kernel.mem_openFds_close]
    split_ifs at hx with heq
    · simp at hx
    · exact ⟨I.interest_open x hx, heq⟩
  · intro x
    rw [hkernel, hloop, Kernel.find_interest_close, List.mem_cons, I.callbacks_iff]
    split_ifs with heq
    · subst heq
      exact iff_of_true (Or.inl hreg) (Or.inr (Or.inl rfl))
    · exact or_congr_right (by simp [heq])
  · intro x hx hmem
    rw [hkernel, Kernel.mem_openFds_close] at hmem
    rcases List.mem_cons.mp hx with rfl | hx
    · exact hmem.2 rfl
    · exact I.freed_closed x hx hmem.1
  · intro y hy x hx
    rw [hkernel]
    apply open_or_freed_close
    rcases List.mem_cons.mp hy with rfl | hy
    · exact hbelow x hx
    · exact I.freed_below y hy x hx
  · intro y ctx' hy
    rw [hactive, UnorderedMap.find_erase] at hy
    rw [hkernel, Kernel.find_interest_close]
    split_ifs at hy ⊢ with heq
    obtain ⟨hsocket', hreg', hbelow'⟩ := I.client y ctx' hy
    exact ⟨hsocket', hreg', fun x hx => open_or_freed_close fd (hbelow' x hx)⟩

theorem disconnect (I : ClientInv freed d) (hfd : (d.activeConnections.find fd).isSome) :
    ∃ d', readCallback memory fd (.received []) d = .ok d' ∧ ClientInv (fd :: freed) d' := by
  obtain ⟨ctx, hctx⟩ := Option.isSome_iff_exists.mp hfd
  obtain ⟨hsocket, -, -⟩ := I.client fd ctx hctx
  have hrun : readCallback memory fd (.received []) d = .ok { d with
      kernel := d.kernel.close fd
      activeConnections := d.activeConnections.erase fd } := by
    simp [readCallback, hctx, Connection.receiveData, Connection.disconnect, hsocket,
      ClientContext.destroy, SocketFD.closeSocket]
  exact ⟨_, hrun, I.close hfd rfl rfl rfl⟩

/-- The runs from a state with freed descriptors, one event at a time. -/
theorem acceptsRegister_iff : ∀ (events : List ClientEvent) {d : State} {freed : List Fd},
    ClientInv freed d → Feasible memory d events →
    (AcceptsRegister memory d events ↔
      (freed ≠ [] → .accept ∉ events) ∧ AcceptsFirst events) := by
  intro events
  induction events with
  | nil => intro d freed I _; simp [AcceptsRegister, AcceptsFirst]
  | cons e events ih =>
      intro d freed I hf
      unfold AcceptsFirst at ih ⊢
      rw [List.pairwise_cons]
      cases e with
      | accept =>
          by_cases hfreed : freed = []
          · subst hfreed
            obtain ⟨d', hrun, hreg, I'⟩ := I.accept_new List.not_mem_nil
            have hrest := ih I' (hf d' hrun)
            constructor
            · rintro ⟨d'', hrun', -, hd''⟩
              obtain rfl := Except.ok.inj (hrun.symm.trans hrun')
              exact ⟨fun h => absurd rfl h, fun b _ h => absurd rfl h, (hrest.mp hd'').2⟩
            · rintro ⟨-, -, hpair⟩
              exact ⟨d', hrun, hreg, hrest.mpr ⟨fun h => absurd rfl h, hpair⟩⟩
          · refine iff_of_false ?_ fun h => h.1 hfreed List.mem_cons_self
            rintro ⟨d', hrun, -⟩
            rw [I.accept_freed (I.lowestFree_mem hfreed)] at hrun
            simp at hrun
      | disconnect fd =>
          obtain ⟨hfd, hf⟩ := hf
          obtain ⟨d', hrun, I'⟩ := I.disconnect hfd
          have hrest := ih I' (hf d' hrun)
          constructor
          · rintro ⟨d'', hrun', hd''⟩
            obtain rfl := Except.ok.inj (hrun.symm.trans hrun')
            obtain ⟨hnone, hpair⟩ := hrest.mp hd''
            have hnone := hnone (List.cons_ne_nil fd freed)
            refine ⟨fun _ => ?_, fun b hb _ h => hnone (h ▸ hb), hpair⟩
            exact fun h => (List.mem_cons.mp h).elim (fun h => by simp at h) hnone
          · rintro ⟨-, hnone, hpair⟩
            exact ⟨d', hrun, hrest.mpr
              ⟨fun _ h => hnone _ h (by simp) rfl, hpair⟩⟩

end ClientInv

/-- **Which runs of clients go well.** From the start, with only the listening
socket registered, every accept registers its client if and only if no client is
accepted after one has disconnected. -/
theorem accepts_register_iff (memory : Allocator) (openFds : List Fd) (listenFd : Fd)
    (hlisten : listenFd ∈ openFds) (events : List ClientEvent)
    (hf : Feasible memory (started openFds listenFd) events) :
    AcceptsRegister memory (started openFds listenFd) events ↔ AcceptsFirst events := by
  rw [(clientInv_started hlisten).acceptsRegister_iff events hf]
  simp

theorem accepts_register_iff_one_client :
    AcceptsRegister .unlimited (started [0, 1, 2, 3, 4] 3) [.accept, .disconnect 5] ↔
      AcceptsFirst [.accept, .disconnect 5] := by
  refine accepts_register_iff .unlimited [0, 1, 2, 3, 4] 3 (by decide) [.accept, .disconnect 5] ?_
  intro d' hrun
  have hclient : (acceptCallback (started [0, 1, 2, 3, 4] 3)).toOption.map (fun d =>
      (d.activeConnections.find 5).isSome) = some true := by decide +kernel
  rw [hrun] at hclient
  exact ⟨Option.some.inj hclient, fun _ _ => trivial⟩

/-- A client connects on descriptor 5 and disconnects; the next one, again on 5,
ends the daemon. -/
theorem reconnect_throws :
    ∃ d₁ d₂, acceptCallback (started [0, 1, 2, 3, 4] 3) = .ok d₁ ∧
      readCallback .unlimited 5 (.received []) d₁ = .ok d₂ ∧
      acceptCallback d₂ = .error (.systemError ⟨ENOENT, "Failed to execute epoll_ctl"⟩) :=
  ⟨_, _, rfl, rfl, rfl⟩

end Netsim.Daemon
