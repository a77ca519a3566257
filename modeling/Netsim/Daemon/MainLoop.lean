import Netsim.Daemon.AcceptRuns
import Netsim.Foundation.ChunkedMachine

/-!
# The main loop

The loop of `main/core_engine.cpp` over `poll_once`, on Linux: whatever is ready is
dispatched to its callback, the accept callback takes all pending connections, and an
exception of either callback ends the daemon. What `epoll_wait`, `accept` and `recv`
answer are inputs, as far as the kernel can give them.

As long as the loop goes on the descriptors are in order (`serve_descriptors`): those
of the clients and no others have been opened, and each that the kernel polls has the
callback that is due to it. Which runs go on is decided by the answers alone
(`serve_iff`).
-/

namespace Netsim.Daemon

open Foundation Netsim.System Netsim.Core Netsim.Protocols

def EINTR : Errno := 4

/-- What the calls of a callback come to: the connections that `accept` returns before
its error, or one `recv`. -/
inductive Answer where
  | accepts (pending : ℕ) (last : Errno)
  | recv (result : RecvResult)

abbrev Ready := Fd × Answer

/-- The loop of the accept callback. -/
def acceptLoop : ℕ → Errno → State → Except Exception State
  | 0, last, d =>
      if last = EAGAIN ∨ last = EWOULDBLOCK then .ok d
      else .error (.systemError ⟨last, "Accept failed"⟩)
  | pending + 1, last, d =>
      match acceptCallback d with
      | .error exception => .error exception
      | .ok d => acceptLoop pending last d

/-- One entry of the array that `epoll_wait` has filled. -/
def dispatch (memory : Allocator) (d : State) (ready : Ready) : Except Exception State :=
  match d.mainLoop.callbacks.find ready.1, ready.2 with
  | some .accept, .accepts pending last => acceptLoop pending last d
  | some .read, .recv result => readCallback memory ready.1 result d
  -- no callback, or the answer to a call that it does not make
  | _, _ => .ok d

def pollOnce (memory : Allocator) (d : State) :
    Except Errno (List Ready) → Except Exception State
  | .error errno =>
      if errno = EINTR then .ok d else .error (.systemError ⟨errno, "Epoll wait failed"⟩)
  | .ok events => consume (dispatch memory) d events

/-- The loop of `main`. -/
def serve (memory : Allocator) (d : State) (polls : List (Except Errno (List Ready))) :
    Except Exception State :=
  consume (pollOnce memory) d polls

/-! ### What the kernel can answer -/

/-- The descriptors that are ready are some of those polled, each of them once. -/
structure Possible (listenFd : Fd) (d : State) (events : List Ready) : Prop where
  atMost : events.length ≤ 10
  distinct : (events.map Prod.fst).Nodup
  registered : ∀ ready ∈ events, (d.kernel.interest.find ready.1).isSome
  answers : ∀ ready ∈ events,
    ready.1 = listenFd ↔ ∃ pending last, ready.2 = .accepts pending last

def PossibleRun (memory : Allocator) (listenFd : Fd) :
    State → List (Except Errno (List Ready)) → Prop
  | _, [] => True
  | d, poll :: polls => (∀ events, poll = .ok events → Possible listenFd d events) ∧
      ∀ d', pollOnce memory d poll = .ok d' → PossibleRun memory listenFd d' polls

theorem possibleRun_cons {memory : Allocator} {listenFd : Fd} {d d' : State}
    {poll : Except Errno (List Ready)} {polls : List (Except Errno (List Ready))}
    (hevents : ∀ events, poll = .ok events → Possible listenFd d events)
    (hrun : pollOnce memory d poll = .ok d') (hrest : PossibleRun memory listenFd d' polls) :
    PossibleRun memory listenFd d (poll :: polls) := by
  refine ⟨hevents, fun d'' h => ?_⟩
  obtain rfl := Except.ok.inj (hrun.symm.trans h)
  exact hrest

/-! ### What the answers say -/

/-- The client goes: its stream has ended, or there was nothing to read. -/
def Answer.departs : Answer → Bool
  | .recv (.received data) => data.isEmpty
  | .recv (.failed errno) => errno == EAGAIN || errno == EWOULDBLOCK
  | .accepts _ _ => false

def Answer.pending : Answer → ℕ
  | .accepts pending _ => pending
  | .recv _ => 0

/-- No call failed, other than for want of something to do. -/
def Answer.Quiet : Answer → Prop
  | .accepts _ last => last = EAGAIN ∨ last = EWOULDBLOCK
  | .recv (.failed errno) => errno = EAGAIN ∨ errno = EWOULDBLOCK
  | .recv (.received _) => True

/-- The chunk that has been read, if any. -/
def Answer.chunk : Answer → Option Bytes
  | .recv (.received data) => if data = [] then none else some data
  | _ => none

/-- What has been read from a descriptor. -/
def chunksOf (fd : Fd) (history : List Ready) : List Bytes :=
  (history.filter fun ready => ready.1 = fd).filterMap fun ready => ready.2.chunk

/-- A client's parser at one chunk. -/
def parserStep (memory : Allocator) (p : HttpSim) (chunk : Bytes) : Except StdException HttpSim :=
  match p.parseChunk memory chunk with
  | .error exception => .error exception
  | .ok (true, p) => .ok p.reset
  | .ok (false, p) => .ok p

/-- The parser throws at nothing that has been read from the descriptor. -/
def Parses (memory : Allocator) (fd : Fd) (history : List Ready) : Prop :=
  ∃ p, consume (parserStep memory) HttpSim.fresh (chunksOf fd history) = .ok p

/-- No call has failed, no client was accepted after one has gone, and no parser has
thrown. -/
structure Fine (memory : Allocator) (history : List Ready) : Prop where
  quiet : ∀ ready ∈ history, ready.2.Quiet
  acceptsFirst : history.Pairwise fun a b => a.2.departs = true → b.2.pending = 0
  parses : ∀ fd, Parses memory fd history

/-- What the next answer adds to it. -/
structure Benign (memory : Allocator) (history : List Ready) (ready : Ready) : Prop where
  quiet : ready.2.Quiet
  acceptsFirst : (∃ a ∈ history, a.2.departs = true) → ready.2.pending = 0
  parses : Parses memory ready.1 (history ++ [ready])

/-- What the calls of `epoll_wait` have returned. -/
def entries (polls : List (Except Errno (List Ready))) : List Ready :=
  polls.flatMap fun poll => poll.toOption.getD []

/-- `epoll_wait` fails at most for a signal. -/
def Uninterrupted (polls : List (Except Errno (List Ready))) : Prop :=
  ∀ errno, .error errno ∈ polls → errno = EINTR

variable {memory : Allocator} {history events : List Ready} {ready : Ready} {fd : Fd}
  {polls : List (Except Errno (List Ready))} {errno : Errno}

theorem uninterrupted_cons_error :
    Uninterrupted (.error errno :: polls) ↔ errno = EINTR ∧ Uninterrupted polls := by
  unfold Uninterrupted
  constructor
  · exact fun h => ⟨h errno List.mem_cons_self, fun e he => h e (List.mem_cons_of_mem _ he)⟩
  · rintro ⟨rfl, hpolls⟩ e he
    rcases List.mem_cons.mp he with heq | he
    · exact Except.error.inj heq
    · exact hpolls e he

theorem uninterrupted_cons_ok : Uninterrupted (.ok events :: polls) ↔ Uninterrupted polls := by
  simp [Uninterrupted]

theorem chunksOf_append (fd : Fd) (history events : List Ready) :
    chunksOf fd (history ++ events) = chunksOf fd history ++ chunksOf fd events := by
  unfold chunksOf
  rw [List.filter_append, List.filterMap_append]

theorem chunksOf_of_ne (h : ready.1 ≠ fd) : chunksOf fd [ready] = [] := by
  simp [chunksOf, h]

theorem chunksOf_self (fd : Fd) (answer : Answer) :
    chunksOf fd [(fd, answer)] = answer.chunk.toList := by
  cases h : answer.chunk <;> simp [chunksOf, h]

/-- An answer that reads nothing leaves what has been read as it was. -/
theorem chunksOf_append_quiet (h : ready.2.chunk = none) (fd : Fd) :
    chunksOf fd (history ++ [ready]) = chunksOf fd history := by
  rw [chunksOf_append]
  rcases eq_or_ne ready.1 fd with rfl | hne
  · rw [chunksOf_self, h, Option.toList_none, List.append_nil]
  · rw [chunksOf_of_ne hne, List.append_nil]

theorem chunksOf_append_received {data : Bytes} (fd : Fd) (h : data ≠ []) :
    chunksOf fd (history ++ [(fd, .recv (.received data))]) = chunksOf fd history ++ [data] := by
  rw [chunksOf_append, chunksOf_self]
  exact congrArg (_ ++ ·) (congrArg Option.toList (if_neg h))

theorem chunk_of_departs {answer : Answer} (h : answer.departs = true) : answer.chunk = none := by
  cases answer with
  | accepts pending last => rfl
  | recv result =>
      cases result with
      | failed errno => rfl
      | received data => exact if_pos (by simpa [Answer.departs] using h)

theorem fine_nil : Fine memory [] where
  quiet := by simp
  acceptsFirst := List.Pairwise.nil
  parses := fun _ => ⟨_, rfl⟩

theorem fine_append_singleton :
    Fine memory (history ++ [ready]) ↔ Fine memory history ∧ Benign memory history ready := by
  constructor
  · rintro ⟨hquiet, haccepts, hparses⟩
    rw [List.pairwise_append] at haccepts
    refine ⟨⟨fun r hr => hquiet r (List.mem_append_left _ hr), haccepts.1, fun fd => ?_⟩,
      hquiet ready (by simp), ?_, hparses ready.1⟩
    · obtain ⟨p, hp⟩ := hparses fd
      rw [chunksOf_append] at hp
      obtain ⟨t, ht, -⟩ := consume_prefix hp
      exact ⟨t, ht⟩
    · rintro ⟨a, ha, hdeparts⟩
      exact haccepts.2.2 a ha ready List.mem_cons_self hdeparts
  · rintro ⟨⟨hquiet, haccepts, hparses⟩, hready⟩
    refine ⟨?_, ?_, fun fd => ?_⟩
    · intro r hr
      rcases List.mem_append.mp hr with hr | hr
      · exact hquiet r hr
      · rw [List.mem_singleton.mp hr]
        exact hready.quiet
    · rw [List.pairwise_append]
      refine ⟨haccepts, List.pairwise_singleton _ _, fun a ha b hb hdeparts => ?_⟩
      rw [List.mem_singleton.mp hb]
      exact hready.acceptsFirst ⟨a, ha, hdeparts⟩
    · rcases eq_or_ne ready.1 fd with rfl | hne
      · exact hready.parses
      · unfold Parses
        rw [chunksOf_append, chunksOf_of_ne hne, List.append_nil]
        exact hparses fd

theorem fine_of_append (h : Fine memory (history ++ events)) : Fine memory history := by
  induction events using List.reverseRecOn with
  | nil => rwa [List.append_nil] at h
  | append_singleton events ready ih =>
      rw [← List.append_assoc] at h
      exact ih (fine_append_singleton.mp h).1

/-! ### The callbacks -/

variable {d d' : State} {freed openFds : List Fd} {listenFd cFd : Fd} {ctx : ClientContext}
  {result : RecvResult}

theorem registerEvent_ok {γ : Type} {filter : UInt16} {callback : γ} {k k' : Kernel}
    {loop loop' : KqueueEventLoop γ}
    (h : registerEvent fd filter (some callback) k loop = .ok (k', loop')) :
    k'.openFds = k.openFds ∧
      k'.interest = k.interest.set fd (filter.toUInt32 ||| EPOLLRDHUP) ∧
      loop'.callbacks = loop.callbacks.set fd callback := by
  unfold registerEvent at h
  dsimp only at h
  split at h
  · cases h
  · rename_i hctl
    obtain ⟨rfl, rfl⟩ := Prod.mk.inj (Except.ok.inj h)
    -- with a callback the descriptor is added or modified
    rw [Option.isSome_some, if_pos rfl] at hctl
    unfold Kernel.epollCtl at hctl
    split_ifs at hctl <;> cases hctl <;> exact ⟨rfl, rfl, rfl⟩

/-- What an accepted connection changes. -/
theorem acceptCallback_ok (hnew : d.activeConnections.find d.kernel.lowestFree = none)
    (h : acceptCallback d = .ok d') :
    d'.kernel.openFds = d.kernel.lowestFree :: d.kernel.openFds ∧
      d'.kernel.interest =
        d.kernel.interest.set d.kernel.lowestFree (EVENT_READ.toUInt32 ||| EPOLLRDHUP) ∧
      d'.mainLoop.callbacks = d.mainLoop.callbacks.set d.kernel.lowestFree .read ∧
      d'.activeConnections = d.activeConnections.set d.kernel.lowestFree
        ⟨⟨⟨some d.kernel.lowestFree⟩⟩, HttpSim.fresh⟩ := by
  simp only [acceptCallback, Kernel.accept, hnew] at h
  split at h
  · cases h
  · rename_i hregister
    obtain rfl := Except.ok.inj h
    obtain ⟨hopen, hinterest, hcallbacks⟩ := registerEvent_ok hregister
    exact ⟨hopen, hinterest, hcallbacks, rfl⟩

/-- A client goes: its descriptor is closed, once. -/
theorem readCallback_departs (hctx : d.activeConnections.find cFd = some ctx)
    (hfd : ctx.connection.socket.fd = some cFd) (h : (Answer.recv result).departs = true) :
    readCallback memory cFd result d = .ok { d with
      kernel := d.kernel.close cFd
      activeConnections := d.activeConnections.erase cFd } := by
  cases result with
  | received data =>
      have hdata : data = [] := by simpa [Answer.departs] using h
      simp [readCallback, hctx, Connection.receiveData, Connection.disconnect, hfd, hdata,
        ClientContext.destroy, SocketFD.closeSocket]
  | failed errno =>
      have herrno : errno = EAGAIN ∨ errno = EWOULDBLOCK := by simpa [Answer.departs] using h
      simp [readCallback, hctx, Connection.receiveData, hfd, herrno, ClientContext.destroy,
        SocketFD.closeSocket]

theorem readCallback_failed {errno : Errno} (hctx : d.activeConnections.find cFd = some ctx)
    (hfd : ctx.connection.socket.fd = some cFd) (h : ¬(errno = EAGAIN ∨ errno = EWOULDBLOCK)) :
    readCallback memory cFd (.failed errno) d =
      .error (.systemError ⟨errno, "Receive failed"⟩) := by
  simp [readCallback, hctx, Connection.receiveData, hfd, h]

/-- A chunk moves the client's parser, or is thrown at the loop. -/
theorem readCallback_chunk (memory : Allocator) {data : Bytes}
    (hctx : d.activeConnections.find cFd = some ctx)
    (hfd : ctx.connection.socket.fd = some cFd) (hne : data ≠ []) :
    match parserStep memory ctx.parser data with
    | .error exception =>
        readCallback memory cFd (.received data) d = .error (.stdException exception)
    | .ok p => ∃ log, readCallback memory cFd (.received data) d = .ok { d with
        activeConnections := d.activeConnections.set cFd ⟨ctx.connection, p⟩
        deserialized := log } := by
  have hreceive : ctx.connection.receiveData (.received data) d.kernel =
      .ok (data, ctx.connection, d.kernel) := by
    simp [Connection.receiveData, hfd, hne]
  unfold parserStep
  rcases hparse : ctx.parser.parseChunk memory data with exception | ⟨complete, p⟩
  · simp only [readCallback, hctx, hreceive, if_neg hne, hparse]
  · cases complete with
    | true =>
        refine ⟨d.deserialized ++ [(cFd, p.request.body)], ?_⟩
        simp only [readCallback, hctx, hreceive, if_neg hne, hparse]
    | false =>
        refine ⟨d.deserialized, ?_⟩
        simp only [readCallback, hctx, hreceive, if_neg hne, hparse]

/-! ### The invariant -/

/-- The descriptors of a daemon that started with `openFds`, one of them listening. -/
structure Descriptors (openFds : List Fd) (listenFd : Fd) (d : State) : Prop where
  open_iff : ∀ fd, fd ∈ d.kernel.openFds ↔ fd ∈ openFds ∨ (d.activeConnections.find fd).isSome
  interest_iff : ∀ fd, (d.kernel.interest.find fd).isSome ↔
    fd = listenFd ∨ (d.activeConnections.find fd).isSome
  fresh : ∀ fd, (d.activeConnections.find fd).isSome → fd ∉ openFds
  owner : ∀ fd ctx, d.activeConnections.find fd = some ctx → ctx.connection.socket.fd = some fd
  listening : d.mainLoop.callbacks.find listenFd = some .accept
  reading : ∀ fd, (d.activeConnections.find fd).isSome →
    d.mainLoop.callbacks.find fd = some .read

/-- What a parser has read is what its client has sent since it was accepted, and a
descriptor that has never been a client's has sent nothing. -/
structure LoopInv (memory : Allocator) (openFds : List Fd) (listenFd : Fd)
    (history : List Ready) (freed : List Fd) (d : State) : Prop where
  descriptors : Descriptors openFds listenFd d
  clients : ClientInv freed d
  departed_iff : freed ≠ [] ↔ ∃ a ∈ history, a.2.departs = true
  parsers : ∀ fd ctx, d.activeConnections.find fd = some ctx →
    consume (parserStep memory) HttpSim.fresh (chunksOf fd history) = .ok ctx.parser
  silent : ∀ fd, d.activeConnections.find fd = none → fd ∉ freed → chunksOf fd history = []

/-- An answer is benign and the invariant goes on, with all other descriptors still
registered, or it ends the daemon. -/
def Decides (memory : Allocator) (openFds : List Fd) (listenFd : Fd) (history : List Ready)
    (d : State) (ready : Ready) : Prop :=
  (Benign memory history ready ∧ ∃ freed d', dispatch memory d ready = .ok d' ∧
      LoopInv memory openFds listenFd (history ++ [ready]) freed d' ∧
      ∀ fd, fd ≠ ready.1 → (d.kernel.interest.find fd).isSome →
        (d'.kernel.interest.find fd).isSome) ∨
    ¬Benign memory history ready ∧ ∃ exception, dispatch memory d ready = .error exception

theorem loopInv_started (h : listenFd ∈ openFds) :
    LoopInv memory openFds listenFd [] [] (started openFds listenFd) where
  descriptors :=
    { open_iff := by simp [started]
      interest_iff := by
        intro fd
        simp only [started, UnorderedMap.ofPairs, List.foldl_cons, List.foldl_nil,
          UnorderedMap.find_set]
        split_ifs with heq <;> simp [heq]
      fresh := by simp [started]
      owner := by simp [started]
      listening := by simp [started, UnorderedMap.ofPairs]
      reading := by simp [started] }
  clients := clientInv_started h
  departed_iff := by simp
  parsers := by simp [started]
  silent := fun _ _ _ => rfl

namespace LoopInv

theorem not_connected (L : LoopInv memory openFds listenFd history freed d) :
    d.activeConnections.find d.kernel.lowestFree = none := L.clients.not_connected

/-- A connection is accepted before any client has gone. The answer in whose loop it is
accepted has read nothing. -/
theorem accept (L : LoopInv memory openFds listenFd history [] d) :
    ∃ d', acceptCallback d = .ok d' ∧ LoopInv memory openFds listenFd history [] d' ∧
      ∀ fd, (d.kernel.interest.find fd).isSome → (d'.kernel.interest.find fd).isSome := by
  obtain ⟨d', hrun, -, hclients⟩ := L.clients.accept_new List.not_mem_nil
  obtain ⟨hopen, hinterest, hcallbacks, hactive⟩ := acceptCallback_ok L.not_connected hrun
  obtain ⟨hfree, -⟩ := d.kernel.lowestFree_spec
  have D := L.descriptors
  have hlisten : d.kernel.lowestFree ≠ listenFd := by
    rintro heq
    have hreg := (D.interest_iff listenFd).mpr (Or.inl rfl)
    exact hfree (heq ▸ L.clients.interest_open _ hreg)
  have hconnected (fd : Fd) : (d'.activeConnections.find fd).isSome ↔
      fd = d.kernel.lowestFree ∨ (d.activeConnections.find fd).isSome := by
    rw [hactive, UnorderedMap.find_set]
    split_ifs with heq <;> simp [heq]
  refine ⟨d', hrun, ⟨⟨?_, ?_, ?_, ?_, ?_, ?_⟩, hclients, L.departed_iff, ?_, ?_⟩, ?_⟩
  · intro fd
    rw [hopen, List.mem_cons, D.open_iff, hconnected]
    tauto
  · intro fd
    rw [hinterest, UnorderedMap.find_set, hconnected]
    split_ifs with heq
    · simp [heq]
    · rw [D.interest_iff]
      tauto
  · intro fd hfd hmem
    rcases (hconnected fd).mp hfd with rfl | hfd
    · exact hfree ((D.open_iff _).mpr (Or.inl hmem))
    · exact D.fresh fd hfd hmem
  · intro fd ctx hctx
    rw [hactive, UnorderedMap.find_set] at hctx
    split_ifs at hctx with heq
    · obtain rfl := Option.some.inj hctx
      rw [heq]
    · exact D.owner fd ctx hctx
  · rw [hcallbacks, UnorderedMap.find_set_ne _ hlisten.symm]
    exact D.listening
  · intro fd hfd
    rw [hcallbacks, UnorderedMap.find_set]
    split_ifs with heq
    · rfl
    · exact D.reading fd (((hconnected fd).mp hfd).resolve_left heq)
  · intro fd ctx hctx
    rw [hactive, UnorderedMap.find_set] at hctx
    split_ifs at hctx with heq
    · obtain rfl := Option.some.inj hctx
      rw [heq, L.silent _ L.not_connected List.not_mem_nil]
      rfl
    · exact L.parsers fd ctx hctx
  · intro fd hnone hfreed
    rw [hactive, UnorderedMap.find_set] at hnone
    split_ifs at hnone
    exact L.silent fd hnone hfreed
  · intro fd hfd
    rw [hinterest, UnorderedMap.find_set]
    split_ifs
    · rfl
    · exact hfd

/-- After a client has gone an accept is fatal. -/
theorem accept_error (L : LoopInv memory openFds listenFd history freed d) (hne : freed ≠ []) :
    ∃ exception, acceptCallback d = .error exception :=
  ⟨_, L.clients.accept_freed (L.clients.lowestFree_mem hne)⟩

theorem acceptLoop_ok (pending : ℕ) {last : Errno} (hlast : last = EAGAIN ∨ last = EWOULDBLOCK) :
    ∀ {d : State}, LoopInv memory openFds listenFd history [] d →
      ∃ d', acceptLoop pending last d = .ok d' ∧ LoopInv memory openFds listenFd history [] d' ∧
        ∀ fd, (d.kernel.interest.find fd).isSome → (d'.kernel.interest.find fd).isSome := by
  induction pending with
  | zero => exact fun {d} L => ⟨d, if_pos hlast, L, fun _ => id⟩
  | succ pending ih =>
      intro d L
      obtain ⟨d₁, hrun, L₁, hkeep⟩ := L.accept
      obtain ⟨d', hrest, L', hkeep'⟩ := ih L₁
      refine ⟨d', ?_, L', fun fd hfd => hkeep' fd (hkeep fd hfd)⟩
      unfold acceptLoop
      rw [hrun]
      exact hrest

theorem acceptLoop_error (pending : ℕ) {last : Errno}
    (hlast : ¬(last = EAGAIN ∨ last = EWOULDBLOCK)) :
    ∀ d : State, ∃ exception, acceptLoop pending last d = .error exception := by
  induction pending with
  | zero => exact fun d => ⟨_, if_neg hlast⟩
  | succ pending ih =>
      intro d
      unfold acceptLoop
      cases acceptCallback d with
      | error exception => exact ⟨exception, rfl⟩
      | ok d => exact ih d

/-- The history grows by an answer that reads nothing. -/
theorem append (L : LoopInv memory openFds listenFd history freed d) (hchunk : ready.2.chunk = none)
    (hdeparts : ready.2.departs = false) :
    LoopInv memory openFds listenFd (history ++ [ready]) freed d := by
  refine ⟨L.descriptors, L.clients, ?_, fun fd ctx hctx => ?_, fun fd hnone hfreed => ?_⟩
  · rw [L.departed_iff]
    simp [hdeparts]
  · rw [chunksOf_append_quiet hchunk]
    exact L.parsers fd ctx hctx
  · rw [chunksOf_append_quiet hchunk]
    exact L.silent fd hnone hfreed

/-- A client goes. -/
theorem depart (L : LoopInv memory openFds listenFd history freed d)
    (hctx : d.activeConnections.find cFd = some ctx)
    (hdeparts : (Answer.recv result).departs = true) :
    LoopInv memory openFds listenFd (history ++ [(cFd, .recv result)]) (cFd :: freed) { d with
      kernel := d.kernel.close cFd
      activeConnections := d.activeConnections.erase cFd } := by
  have D := L.descriptors
  have hsome : (d.activeConnections.find cFd).isSome := by rw [hctx]; rfl
  have hlisten : cFd ≠ listenFd := by
    rintro rfl
    have hread := D.reading cFd hsome
    rw [D.listening] at hread
    cases hread
  have hchunk := chunk_of_departs hdeparts
  have hchunks (fd : Fd) :
      chunksOf fd (history ++ [(cFd, .recv result)]) = chunksOf fd history :=
    chunksOf_append_quiet hchunk fd
  refine ⟨⟨?_, ?_, ?_, ?_, D.listening, ?_⟩, L.clients.close hsome rfl rfl rfl, ?_, ?_, ?_⟩
  · intro fd
    rw [Kernel.mem_openFds_close, D.open_iff, UnorderedMap.find_erase]
    split_ifs with heq
    · have hfresh := D.fresh cFd hsome
      subst heq
      simp [hfresh]
    · simp [heq]
  · intro fd
    rw [Kernel.find_interest_close, UnorderedMap.find_erase]
    split_ifs with heq
    · simp [heq, hlisten]
    · exact D.interest_iff fd
  · intro fd hfd
    rw [UnorderedMap.find_erase] at hfd
    split_ifs at hfd
    · simp at hfd
    · exact D.fresh fd hfd
  · intro fd ctx' hfd
    rw [UnorderedMap.find_erase] at hfd
    split_ifs at hfd
    exact D.owner fd ctx' hfd
  · intro fd hfd
    rw [UnorderedMap.find_erase] at hfd
    split_ifs at hfd
    · simp at hfd
    · exact D.reading fd hfd
  · exact iff_of_true (List.cons_ne_nil _ _) ⟨(cFd, .recv result), by simp, hdeparts⟩
  · intro fd ctx' hfd
    rw [UnorderedMap.find_erase] at hfd
    split_ifs at hfd
    rw [hchunks]
    exact L.parsers fd ctx' hfd
  · intro fd hnone hfreed
    rw [UnorderedMap.find_erase] at hnone
    rw [hchunks]
    split_ifs at hnone with heq
    · exact absurd (List.mem_cons.mpr (Or.inl heq)) hfreed
    · exact L.silent fd hnone fun h => hfreed (List.mem_cons_of_mem _ h)

/-- A client's chunk is read. -/
theorem chunk {data : Bytes} {p : HttpSim} (L : LoopInv memory openFds listenFd history freed d)
    (hctx : d.activeConnections.find cFd = some ctx) (hne : data ≠ [])
    (hparse : parserStep memory ctx.parser data = .ok p) (log : List (Fd × Bytes)) :
    LoopInv memory openFds listenFd (history ++ [(cFd, .recv (.received data))]) freed { d with
      activeConnections := d.activeConnections.set cFd ⟨ctx.connection, p⟩
      deserialized := log } := by
  have D := L.descriptors
  have hconnected (fd : Fd) :
      ((d.activeConnections.set cFd ⟨ctx.connection, p⟩).find fd).isSome ↔
        (d.activeConnections.find fd).isSome := by
    rw [UnorderedMap.find_set]
    split_ifs with heq
    · simp [heq, hctx]
    · rfl
  have howner (fd : Fd) (ctx' : ClientContext)
      (hfd : (d.activeConnections.set cFd ⟨ctx.connection, p⟩).find fd = some ctx') :
      ∃ old, d.activeConnections.find fd = some old ∧ ctx'.connection = old.connection := by
    rw [UnorderedMap.find_set] at hfd
    split_ifs at hfd with heq
    · obtain rfl := Option.some.inj hfd
      exact ⟨ctx, heq ▸ hctx, rfl⟩
    · exact ⟨ctx', hfd, rfl⟩
  have hread : chunksOf cFd (history ++ [(cFd, .recv (.received data))]) = _ :=
    chunksOf_append_received cFd hne
  refine ⟨⟨?_, ?_, ?_, ?_, D.listening, ?_⟩, ?_, ?_, ?_, ?_⟩
  · intro fd
    rw [hconnected]
    exact D.open_iff fd
  · intro fd
    rw [hconnected]
    exact D.interest_iff fd
  · exact fun fd hfd => D.fresh fd ((hconnected fd).mp hfd)
  · intro fd ctx' hfd
    obtain ⟨old, hold, hsame⟩ := howner fd ctx' hfd
    rw [hsame]
    exact D.owner fd old hold
  · exact fun fd hfd => D.reading fd ((hconnected fd).mp hfd)
  · refine ⟨L.clients.interest_open, L.clients.callbacks_iff, L.clients.freed_closed,
      L.clients.freed_below, fun fd ctx' hfd => ?_⟩
    obtain ⟨old, hold, hsame⟩ := howner fd ctx' hfd
    rw [hsame]
    exact L.clients.client fd old hold
  · rw [L.departed_iff]
    simp [Answer.departs, hne]
  · intro fd ctx' hfd
    rw [UnorderedMap.find_set] at hfd
    split_ifs at hfd with heq
    · obtain rfl := Option.some.inj hfd
      rw [heq, hread, consume_append (L.parsers cFd ctx hctx), consume_cons hparse, consume_nil]
    · rw [chunksOf_append, chunksOf_of_ne (Ne.symm heq), List.append_nil]
      exact L.parsers fd ctx' hfd
  · intro fd hnone hfreed
    rw [UnorderedMap.find_set] at hnone
    split_ifs at hnone with heq
    rw [chunksOf_append, chunksOf_of_ne (Ne.symm heq), List.append_nil]
    exact L.silent fd hnone hfreed

/-- Nothing is ever read from the listening socket. -/
theorem chunksOf_listen (L : LoopInv memory openFds listenFd history freed d) :
    chunksOf listenFd history = [] := by
  have D := L.descriptors
  refine L.silent listenFd ?_ fun hmem => ?_
  · rw [← Option.not_isSome_iff_eq_none]
    intro hsome
    have hread := D.reading listenFd hsome
    rw [D.listening] at hread
    cases hread
  · have hreg := (D.interest_iff listenFd).mpr (Or.inl rfl)
    exact L.clients.freed_closed listenFd hmem (L.clients.interest_open listenFd hreg)

/-- The accept callback: it takes all the connections that are pending, or the first
of them is fatal. -/
theorem dispatch_accepts (L : LoopInv memory openFds listenFd history freed d) (pending : ℕ)
    (last : Errno) :
    Decides memory openFds listenFd history d (listenFd, .accepts pending last) := by
  have hdispatch : dispatch memory d (listenFd, .accepts pending last) =
      acceptLoop pending last d := by
    unfold dispatch
    rw [L.descriptors.listening]
  unfold Decides
  rw [hdispatch]
  by_cases hquiet : last = EAGAIN ∨ last = EWOULDBLOCK
  swap
  · exact Or.inr ⟨fun h => hquiet h.quiet, acceptLoop_error pending hquiet d⟩
  have hparses : Parses memory listenFd (history ++ [(listenFd, .accepts pending last)]) := by
    unfold Parses
    rw [chunksOf_append_quiet rfl, L.chunksOf_listen]
    exact ⟨_, rfl⟩
  by_cases hfreed : freed = []
  · subst hfreed
    obtain ⟨d', hrun, L', hkeep⟩ := L.acceptLoop_ok pending hquiet
    have hnone : ¬∃ a ∈ history, a.2.departs = true := L.departed_iff.not.mp (by simp)
    exact Or.inl ⟨⟨hquiet, fun h => absurd h hnone, hparses⟩, [], d', hrun,
      L'.append rfl rfl, fun fd _ => hkeep fd⟩
  · have hdeparted := L.departed_iff.mp hfreed
    cases pending with
    | zero =>
        exact Or.inl ⟨⟨hquiet, fun _ => rfl, hparses⟩, freed, d, if_pos hquiet,
          L.append rfl rfl, fun _ _ => id⟩
    | succ pending =>
        obtain ⟨exception, hrun⟩ := L.accept_error hfreed
        refine Or.inr ⟨fun h => ?_, exception, ?_⟩
        · exact absurd (h.acceptsFirst hdeparted) (Nat.succ_ne_zero pending)
        · unfold acceptLoop
          rw [hrun]

/-- The read callback of a connected client. -/
theorem dispatch_recv (L : LoopInv memory openFds listenFd history freed d)
    (hctx : d.activeConnections.find cFd = some ctx) (result : RecvResult) :
    Decides memory openFds listenFd history d (cFd, .recv result) := by
  have D := L.descriptors
  have hdispatch : dispatch memory d (cFd, .recv result) = readCallback memory cFd result d := by
    unfold dispatch
    rw [D.reading cFd (by rw [hctx]; rfl)]
  have hfd := D.owner cFd ctx hctx
  have hbefore := L.parsers cFd ctx hctx
  unfold Decides
  rw [hdispatch]
  have hparses (hnone : (Answer.recv result).chunk = none) :
      Parses memory cFd (history ++ [(cFd, .recv result)]) := by
    unfold Parses
    rw [chunksOf_append_quiet hnone]
    exact ⟨_, hbefore⟩
  have hdepart (hdeparts : (Answer.recv result).departs = true) :
      ∃ freed' d', readCallback memory cFd result d = .ok d' ∧
        LoopInv memory openFds listenFd (history ++ [(cFd, .recv result)]) freed' d' ∧
        ∀ fd, fd ≠ cFd → (d.kernel.interest.find fd).isSome →
          (d'.kernel.interest.find fd).isSome := by
    refine ⟨cFd :: freed, _, readCallback_departs hctx hfd hdeparts, L.depart hctx hdeparts,
      fun fd hne h => ?_⟩
    rw [Kernel.find_interest_close, if_neg hne]
    exact h
  cases result with
  | failed errno =>
      by_cases hquiet : errno = EAGAIN ∨ errno = EWOULDBLOCK
      · exact Or.inl ⟨⟨hquiet, fun _ => rfl, hparses rfl⟩,
          hdepart (by simpa [Answer.departs] using hquiet)⟩
      · exact Or.inr ⟨fun h => hquiet h.quiet, _, readCallback_failed hctx hfd hquiet⟩
  | received data =>
      by_cases hdata : data = []
      · exact Or.inl ⟨⟨trivial, fun _ => rfl, hparses (if_pos hdata)⟩,
          hdepart (by simp [Answer.departs, hdata])⟩
      have hread : chunksOf cFd (history ++ [(cFd, .recv (.received data))]) = _ :=
        chunksOf_append_received cFd hdata
      have hcallback := readCallback_chunk memory hctx hfd hdata
      cases hparse : parserStep memory ctx.parser data with
      | error exception =>
          rw [hparse] at hcallback
          refine Or.inr ⟨fun h => ?_, _, hcallback⟩
          obtain ⟨p, hp⟩ := h.parses
          rw [hread, consume_append hbefore, consume_cons_error hparse] at hp
          cases hp
      | ok p =>
          rw [hparse] at hcallback
          obtain ⟨log, hcallback⟩ := hcallback
          refine Or.inl ⟨⟨trivial, fun _ => rfl, p, ?_⟩, freed, _, hcallback,
            L.chunk hctx hdata hparse log, fun _ _ => id⟩
          rw [hread, consume_append hbefore, consume_cons hparse, consume_nil]

theorem dispatch_decides (L : LoopInv memory openFds listenFd history freed d)
    (hreg : (d.kernel.interest.find ready.1).isSome)
    (hkind : ready.1 = listenFd ↔ ∃ pending last, ready.2 = .accepts pending last) :
    Decides memory openFds listenFd history d ready := by
  obtain ⟨fd, answer⟩ := ready
  cases answer with
  | accepts pending last =>
      obtain rfl : fd = listenFd := hkind.mpr ⟨pending, last, rfl⟩
      exact L.dispatch_accepts pending last
  | recv result =>
      have hclient : (d.activeConnections.find fd).isSome := by
        refine ((L.descriptors.interest_iff fd).mp hreg).resolve_left fun heq => ?_
        obtain ⟨pending, last, h⟩ := hkind.mp heq
        cases h
      obtain ⟨ctx, hctx⟩ := Option.isSome_iff_exists.mp hclient
      exact L.dispatch_recv hctx result

/-- The whole array. -/
theorem consume_dispatch (events : List Ready) : ∀ {history : List Ready} {freed : List Fd}
    {d : State}, LoopInv memory openFds listenFd history freed d → Fine memory history →
    (events.map Prod.fst).Nodup →
    (∀ ready ∈ events, (d.kernel.interest.find ready.1).isSome) →
    (∀ ready ∈ events, ready.1 = listenFd ↔ ∃ pending last, ready.2 = .accepts pending last) →
    (Fine memory (history ++ events) ∧ ∃ freed' d', consume (dispatch memory) d events = .ok d' ∧
        LoopInv memory openFds listenFd (history ++ events) freed' d') ∨
      ¬Fine memory (history ++ events) ∧
        ∃ exception, consume (dispatch memory) d events = .error exception := by
  induction events with
  | nil =>
      intro history freed d L hfine _ _ _
      rw [List.append_nil]
      exact Or.inl ⟨hfine, freed, d, rfl, L⟩
  | cons ready events ih =>
      intro history freed d L hfine hnodup hreg hkind
      rw [List.map_cons, List.nodup_cons] at hnodup
      rw [List.append_cons]
      rcases L.dispatch_decides (hreg ready List.mem_cons_self)
        (hkind ready List.mem_cons_self) with
        ⟨hbenign, freed', d', hrun, L', hkeep⟩ | ⟨hnot, exception, hrun⟩
      · rw [consume_cons hrun]
        refine ih L' (fine_append_singleton.mpr ⟨hfine, hbenign⟩) hnodup.2 (fun r hr => ?_)
          fun r hr => hkind r (List.mem_cons_of_mem _ hr)
        have hne : r.1 ≠ ready.1 := fun heq => hnodup.1 (heq ▸ List.mem_map_of_mem hr)
        exact hkeep r.1 hne (hreg r (List.mem_cons_of_mem _ hr))
      · refine Or.inr ⟨fun h => ?_, exception, consume_cons_error hrun⟩
        exact hnot (fine_append_singleton.mp (fine_of_append h)).2

/-- The loop of `main`. -/
theorem serve_decides (polls : List (Except Errno (List Ready))) : ∀ {history : List Ready}
    {freed : List Fd} {d : State},
      LoopInv memory openFds listenFd history freed d → Fine memory history →
    PossibleRun memory listenFd d polls →
    (Uninterrupted polls ∧ Fine memory (history ++ entries polls) ∧ ∃ freed' d',
        serve memory d polls = .ok d' ∧
        LoopInv memory openFds listenFd (history ++ entries polls) freed' d') ∨
      ¬(Uninterrupted polls ∧ Fine memory (history ++ entries polls)) ∧
        ∃ exception, serve memory d polls = .error exception := by
  induction polls with
  | nil =>
      intro history freed d L hfine _
      refine Or.inl ⟨fun errno h => absurd h List.not_mem_nil, ?_⟩
      rw [entries, List.flatMap_nil, List.append_nil]
      exact ⟨hfine, freed, d, rfl, L⟩
  | cons poll polls ih =>
      intro history freed d L hfine hpossible
      obtain ⟨hevents, hrest⟩ := hpossible
      unfold serve at ih ⊢
      cases poll with
      | error errno =>
          have hentries : entries (.error errno :: polls) = entries polls := rfl
          by_cases hintr : errno = EINTR
          · have hpoll : pollOnce memory d (.error errno) = .ok d := if_pos hintr
            rw [consume_cons hpoll, uninterrupted_cons_error, hentries]
            simp only [hintr, true_and]
            exact ih L hfine (hrest d hpoll)
          · exact Or.inr ⟨fun h => hintr (h.1 errno List.mem_cons_self), _,
              consume_cons_error (if_neg hintr)⟩
      | ok events =>
          have hentries : entries (.ok events :: polls) = events ++ entries polls := rfl
          obtain ⟨-, hdistinct, hregistered, hanswers⟩ := hevents events rfl
          rw [hentries, ← List.append_assoc]
          rcases consume_dispatch events L hfine hdistinct hregistered hanswers with
            ⟨hfine', freed', d', hrun, L'⟩ | ⟨hnot, exception, hrun⟩
          · have hpoll : pollOnce memory d (.ok events) = .ok d' := hrun
            rw [consume_cons hpoll, uninterrupted_cons_ok]
            exact ih L' hfine' (hrest d' hpoll)
          · exact Or.inr ⟨fun h => hnot (fine_of_append h.2), exception, consume_cons_error hrun⟩

end LoopInv

/-- The descriptors are in order as long as the loop goes on. -/
theorem serve_descriptors (memory : Allocator) (openFds : List Fd) (listenFd : Fd)
    (hlisten : listenFd ∈ openFds)
    (polls : List (Except Errno (List Ready)))
    (hpossible : PossibleRun memory listenFd (started openFds listenFd) polls) (d : State)
    (hrun : serve memory (started openFds listenFd) polls = .ok d) :
    Descriptors openFds listenFd d := by
  rcases (loopInv_started hlisten).serve_decides polls fine_nil hpossible with
    ⟨-, -, freed, d', hrun', L⟩ | ⟨-, exception, hrun'⟩
  · obtain rfl := Except.ok.inj (hrun'.symm.trans hrun)
    exact L.descriptors
  · rw [hrun] at hrun'
    cases hrun'

/-- Two clients connect; one of them sends two bytes, the other goes. -/
def twoClientPolls : List (Except Errno (List Ready)) :=
  [.ok [(3, .accepts 2 EAGAIN)], .error EINTR,
    .ok [(6, .recv (.received [])), (5, .recv (.received [0x47, 0x45])),
      (3, .accepts 0 EAGAIN)]]

theorem possibleRun_two_clients :
    PossibleRun .unlimited 3 (started [0, 1, 2, 3, 4] 3) twoClientPolls := by
  refine possibleRun_cons ?_ rfl (possibleRun_cons (fun _ h => by cases h) rfl
    (possibleRun_cons ?_ rfl trivial))
  all_goals
    intro events h
    obtain rfl := Except.ok.inj h
    exact ⟨by decide, by decide, by decide +kernel, by simp⟩

theorem serve_descriptors_two_clients : ∃ d,
    serve .unlimited (started [0, 1, 2, 3, 4] 3) twoClientPolls = .ok d ∧
      Descriptors [0, 1, 2, 3, 4] 3 d :=
  ⟨_, rfl, serve_descriptors _ _ 3 (by decide) _ possibleRun_two_clients _ rfl⟩

end Netsim.Daemon
