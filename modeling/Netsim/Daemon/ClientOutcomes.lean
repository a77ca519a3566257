import Netsim.Daemon.CoreEngine
import Netsim.Protocols.HttpGrammar

/-!
# What one client's socket does to the daemon

Runs of the read callback over any number of clients, with any outcomes of `recv`.
An error is thrown out of the loop that serves all clients, and a read that found
nothing is taken for the end of the stream. Bytes are harmless unless the parser
throws on them, which it does outside the `try` block; so a run leaves every client
alone exactly when each outcome is a close or bytes that complete no oversized head
(`outcomes_isolated_iff`).
-/

namespace Netsim.Daemon

open Foundation Netsim.System Netsim.Core Netsim.Protocols

def ECONNRESET : Errno := 104

/-- `recv` found nothing to read. -/
def WouldBlock : RecvResult → Prop
  | .received _ => False
  | .failed errno => errno = EAGAIN ∨ errno = EWOULDBLOCK

/-- The stream has ended, by an orderly close or by an error. -/
def StreamEnded : RecvResult → Prop
  | .received data => data = []
  | .failed errno => ¬ (errno = EAGAIN ∨ errno = EWOULDBLOCK)

/-- What an outcome for the client `cFd` may do. -/
structure Isolates (cFd : Fd) (result : RecvResult) (d d' : State) : Prop where
  left_iff : ∀ ctx, d.activeConnections.find cFd = some ctx →
    (d'.activeConnections.find cFd = none ↔ StreamEnded result)
  stays : ∀ ctx, d.activeConnections.find cFd = some ctx → WouldBlock result →
    d'.activeConnections.find cFd = some ctx
  others : ∀ fd, fd ≠ cFd → d'.activeConnections.find fd = d.activeConnections.find fd

/-- In a run every outcome is handled, the loop goes on, and no client is harmed. -/
def Isolated (memory : Allocator) : State → List (Fd × RecvResult) → Prop
  | _, [] => True
  | d, (cFd, result) :: outcomes =>
      ∃ d', readCallback memory cFd result d = .ok d' ∧ Isolates cFd result d d' ∧
        Isolated memory d' outcomes

/-- For a connected client: bytes, or none at an orderly close, that after those it has
sent since its parser was reset make no oversized head. -/
def Harmless (memory : Allocator) (cFd : Fd) (result : RecvResult) (d : State) : Prop :=
  ∀ ctx, d.activeConnections.find cFd = some ctx → ∃ data sent, result = .received data ∧
    consume (HttpSim.parseByte memory) HttpSim.fresh sent = .ok ctx.parser ∧
      ¬ Oversized memory (sent ++ data)

def HarmlessRun (memory : Allocator) : State → List (Fd × RecvResult) → Prop
  | _, [] => True
  | d, (cFd, result) :: outcomes =>
      Harmless memory cFd result d ∧
        ∀ d', readCallback memory cFd result d = .ok d' → HarmlessRun memory d' outcomes

/-- Every client has the socket it is known by, and a parser that has read something
since it was new. -/
def Attended (memory : Allocator) (d : State) : Prop :=
  ∀ fd ctx, d.activeConnections.find fd = some ctx → ctx.connection.socket.fd = some fd ∧
    ∃ sent, consume (HttpSim.parseByte memory) HttpSim.fresh sent = .ok ctx.parser

variable {memory : Allocator} {d d' : State} {cFd : Fd} {ctx : ClientContext}
  {result : RecvResult} {data sent : Bytes}

/-! ### The clients of the daemon -/

theorem attended_started (memory : Allocator) (openFds : List Fd) (listenFd : Fd) :
    Attended memory (started openFds listenFd) := by
  intro fd ctx h
  simp [started] at h

theorem Attended.set (A : Attended memory d) {fd : Fd} (hfd : ctx.connection.socket.fd = some fd)
    (hsent : consume (HttpSim.parseByte memory) HttpSim.fresh sent = .ok ctx.parser)
    (hset : d'.activeConnections = d.activeConnections.set fd ctx) : Attended memory d' := by
  intro x c hx
  rw [hset, UnorderedMap.find_set] at hx
  split_ifs at hx with heq
  · obtain rfl := Option.some.inj hx
    exact ⟨heq ▸ hfd, sent, hsent⟩
  · exact A x c hx

/-- A client that is accepted is attended. -/
theorem Attended.accept (A : Attended memory d) (h : acceptCallback d = .ok d') :
    Attended memory d' := by
  unfold acceptCallback at h
  dsimp only at h
  split at h
  · cases h
  · obtain rfl := Except.ok.inj h
    exact A.set rfl (show consume (HttpSim.parseByte memory) _ [] = _ from rfl) rfl

theorem Attended.erase (A : Attended memory d) {fd : Fd}
    (herase : d'.activeConnections = d.activeConnections.erase fd) : Attended memory d' := by
  intro x c hx
  rw [herase, UnorderedMap.find_erase] at hx
  split_ifs at hx
  exact A x c hx

/-! ### One outcome -/

theorem isolates_of_erase (hended : StreamEnded result) (hblock : ¬ WouldBlock result)
    (herase : d'.activeConnections = d.activeConnections.erase cFd) :
    Isolates cFd result d d' where
  left_iff := fun _ _ => iff_of_true (by rw [herase, UnorderedMap.find_erase, if_pos rfl]) hended
  stays := fun _ _ h => absurd h hblock
  others := fun fd hfd => by rw [herase, UnorderedMap.find_erase, if_neg hfd]

theorem isolates_of_set (hended : ¬ StreamEnded result) (hblock : ¬ WouldBlock result)
    (hset : d'.activeConnections = d.activeConnections.set cFd ctx) :
    Isolates cFd result d d' where
  left_iff := fun _ _ =>
    iff_of_false (by rw [hset, UnorderedMap.find_set_self]; simp) hended
  stays := fun _ _ h => absurd h hblock
  others := fun fd hfd => by rw [hset, UnorderedMap.find_set_ne _ hfd]

/-- A client that is not there is not there any more. -/
theorem readCallback_of_none (h : d.activeConnections.find cFd = none) :
    readCallback memory cFd result d = .ok d := by
  simp only [readCallback, h]

/-- Nothing read, for either reason: the client is dropped. -/
theorem readCallback_of_nil {connection : Connection} {kernel : Kernel}
    (h : d.activeConnections.find cFd = some ctx)
    (hreceive : ctx.connection.receiveData result d.kernel = .ok ([], connection, kernel)) :
    ∃ d', readCallback memory cFd result d = .ok d' ∧
      d'.activeConnections = d.activeConnections.erase cFd :=
  ⟨_, by simp only [readCallback, h, hreceive]; rfl, rfl⟩

theorem readCallback_of_data (h : d.activeConnections.find cFd = some ctx)
    (hfd : ctx.connection.socket.fd = some cFd) (hne : data ≠ [])
    (hsent : consume (HttpSim.parseByte memory) HttpSim.fresh sent = .ok ctx.parser)
    (hsize : ¬ Oversized memory (sent ++ data)) :
    ∃ d' parser read, readCallback memory cFd (.received data) d = .ok d' ∧
      consume (HttpSim.parseByte memory) HttpSim.fresh read = .ok parser ∧
      d'.activeConnections = d.activeConnections.set cFd ⟨ctx.connection, parser⟩ := by
  have hreceive : ctx.connection.receiveData (.received data) d.kernel =
      .ok (data, ctx.connection, d.kernel) := by
    simp [Connection.receiveData, hfd, hne]
  obtain ⟨p, hp⟩ := (HttpSim.consume_ok_iff (sent ++ data)).mpr hsize
  have hparse : ctx.parser.parseChunk memory data = .ok (p.isComplete, p) := by
    rw [consume_append hsent] at hp
    rw [HttpSim.parseChunk_eq, hp]
    rfl
  cases hcomplete : p.isComplete with
  | true =>
      rw [hcomplete] at hparse
      refine ⟨{ d with
        activeConnections := d.activeConnections.set cFd ⟨ctx.connection, p.reset⟩
        deserialized := d.deserialized ++ [(cFd, p.request.body)] }, p.reset, [], ?_, rfl, rfl⟩
      simp only [readCallback, h, hreceive, if_neg hne, hparse]
  | false =>
      rw [hcomplete] at hparse
      refine ⟨{ d with activeConnections := d.activeConnections.set cFd ⟨ctx.connection, p⟩ },
        p, sent ++ data, ?_, hp, rfl⟩
      simp only [readCallback, h, hreceive, if_neg hne, hparse]

/-- An oversized head is thrown at the loop. -/
theorem readCallback_of_oversized (h : d.activeConnections.find cFd = some ctx)
    (hfd : ctx.connection.socket.fd = some cFd)
    (hsent : consume (HttpSim.parseByte memory) HttpSim.fresh sent = .ok ctx.parser)
    (hsize : Oversized memory (sent ++ data)) :
    ∃ exception, readCallback memory cFd (.received data) d =
      .error (.stdException exception) := by
  obtain ⟨exception, hthrow⟩ := (HttpSim.consume_throws_iff (sent ++ data)).mpr hsize
  rw [consume_append hsent] at hthrow
  have hne : data ≠ [] := by
    rintro rfl
    cases hthrow
  have hreceive : ctx.connection.receiveData (.received data) d.kernel =
      .ok (data, ctx.connection, d.kernel) := by
    simp [Connection.receiveData, hfd, hne]
  have hparse : ctx.parser.parseChunk memory data = .error exception := by
    rw [HttpSim.parseChunk_eq, hthrow]
    rfl
  refine ⟨exception, ?_⟩
  simp only [readCallback, h, hreceive, if_neg hne, hparse]

/-- A failure is never isolated: to have no data yet ends the connection, and any other
error is thrown at the loop. -/
theorem not_isolates_failed {errno : Errno} (h : d.activeConnections.find cFd = some ctx)
    (hfd : ctx.connection.socket.fd = some cFd) :
    ¬∃ d', readCallback memory cFd (.failed errno) d = .ok d' ∧
      Isolates cFd (.failed errno) d d' := by
  rintro ⟨d', hread, I⟩
  by_cases hblock : errno = EAGAIN ∨ errno = EWOULDBLOCK
  · -- dropped, although its stream goes on
    have hreceive : ctx.connection.receiveData (.failed errno) d.kernel =
        .ok ([], ctx.connection, d.kernel) := by
      simp [Connection.receiveData, hfd, hblock]
    obtain ⟨e, hdrop, herase⟩ := readCallback_of_nil h hreceive
    obtain rfl := Except.ok.inj (hdrop.symm.trans hread)
    have hstays := I.stays ctx h hblock
    rw [herase, UnorderedMap.find_erase, if_pos rfl] at hstays
    cases hstays
  · have hthrow : readCallback memory cFd (.failed errno) d =
        .error (.systemError ⟨errno, "Receive failed"⟩) := by
      simp [readCallback, h, Connection.receiveData, hfd, hblock]
    cases hthrow.symm.trans hread

/-- Bytes that make no oversized head are read, and none at all end the connection. -/
theorem exists_isolates_received (h : d.activeConnections.find cFd = some ctx)
    (hfd : ctx.connection.socket.fd = some cFd)
    (hsent : consume (HttpSim.parseByte memory) HttpSim.fresh sent = .ok ctx.parser)
    (hsize : ¬Oversized memory (sent ++ data)) :
    ∃ d', readCallback memory cFd (.received data) d = .ok d' ∧
      Isolates cFd (.received data) d d' := by
  by_cases hne : data = []
  · subst hne
    have hreceive : ctx.connection.receiveData (.received []) d.kernel =
        .ok ([], ctx.connection.disconnect d.kernel) := by
      simp [Connection.receiveData, hfd]
    obtain ⟨d', hread, herase⟩ := readCallback_of_nil h hreceive
    exact ⟨d', hread, isolates_of_erase rfl id herase⟩
  · obtain ⟨d', _, _, hread, -, hset⟩ := readCallback_of_data h hfd hne hsent hsize
    exact ⟨d', hread, isolates_of_set hne id hset⟩

/-- **One outcome.** It is handled without harm if and only if it is harmless, and then
every client stays attended. -/
theorem isolates_iff (A : Attended memory d) (cFd : Fd) (result : RecvResult) :
    (∃ d', readCallback memory cFd result d = .ok d' ∧ Isolates cFd result d d') ↔
      Harmless memory cFd result d := by
  cases h : d.activeConnections.find cFd with
  | none =>
      have hnone : ∀ ctx, d.activeConnections.find cFd ≠ some ctx := by simp [h]
      refine iff_of_true ⟨d, readCallback_of_none h, ?_⟩ fun ctx hctx => absurd hctx (hnone ctx)
      exact ⟨fun ctx hctx => absurd hctx (hnone ctx), fun ctx hctx => absurd hctx (hnone ctx),
        fun _ _ => rfl⟩
  | some ctx =>
      obtain ⟨hfd, sent, hsent⟩ := A cFd ctx h
      cases result with
      | failed errno =>
          refine iff_of_false (not_isolates_failed h hfd) fun hharmless => ?_
          obtain ⟨data, _, hresult, -⟩ := hharmless ctx h
          cases hresult
      | received data =>
          by_cases hsize : Oversized memory (sent ++ data)
          · refine iff_of_false ?_ fun hharmless => ?_
            · rintro ⟨d', hread, -⟩
              obtain ⟨exception, hthrow⟩ := readCallback_of_oversized h hfd hsent hsize
              cases hthrow.symm.trans hread
            · -- whatever led the parser to its state, it throws
              obtain ⟨_, sent', hresult, hsent', hsize'⟩ := hharmless ctx h
              obtain rfl := RecvResult.received.inj hresult
              have hthrow := (HttpSim.consume_throws_iff _).mpr hsize
              rw [consume_append hsent, ← consume_append hsent'] at hthrow
              exact hsize' ((HttpSim.consume_throws_iff _).mp hthrow)
          · refine iff_of_true (exists_isolates_received h hfd hsent hsize) fun c hc => ?_
            obtain rfl := Option.some.inj (h.symm.trans hc)
            exact ⟨data, sent, rfl, hsent, hsize⟩

/-- Whatever a read callback returns from, the clients that are left are attended. -/
theorem Attended.read (A : Attended memory d) (hread : readCallback memory cFd result d = .ok d') :
    Attended memory d' := by
  cases h : d.activeConnections.find cFd with
  | none =>
      obtain rfl := Except.ok.inj ((readCallback_of_none h).symm.trans hread)
      exact A
  | some ctx =>
      obtain ⟨hfd, sent, hsent⟩ := A cFd ctx h
      have hnil : ∀ {connection kernel},
          ctx.connection.receiveData result d.kernel = .ok ([], connection, kernel) →
          Attended memory d' := by
        intro connection kernel hreceive
        obtain ⟨e, hdrop, herase⟩ := readCallback_of_nil h hreceive
        obtain rfl := Except.ok.inj (hdrop.symm.trans hread)
        exact A.erase herase
      cases result with
      | failed errno =>
          by_cases hblock : errno = EAGAIN ∨ errno = EWOULDBLOCK
          · exact hnil (by simp only [Connection.receiveData, hfd, if_pos hblock]; rfl)
          · simp [readCallback, h, Connection.receiveData, hfd, hblock] at hread
      | received data =>
          by_cases hne : data = []
          · subst hne
            exact hnil (by simp only [Connection.receiveData, hfd]; rfl)
          · by_cases hsize : Oversized memory (sent ++ data)
            · obtain ⟨exception, hthrow⟩ := readCallback_of_oversized h hfd hsent hsize
              cases hthrow.symm.trans hread
            · obtain ⟨e, p, read, hok, hp, hset⟩ := readCallback_of_data h hfd hne hsent hsize
              obtain rfl := Except.ok.inj (hok.symm.trans hread)
              exact Attended.set A
                (show (ClientContext.mk ctx.connection p).connection.socket.fd = _ from hfd) hp hset

/-! ### Whole runs -/

/-- The states that the callbacks of the daemon bring about. -/
inductive Reached (memory : Allocator) : State → Prop where
  | started (openFds : List Fd) (listenFd : Fd) : Reached memory (started openFds listenFd)
  | accepted {d d' : State} (hd : Reached memory d) (h : acceptCallback d = .ok d') :
      Reached memory d'
  | read {d d' : State} (hd : Reached memory d) {cFd : Fd} {result : RecvResult}
      (h : readCallback memory cFd result d = .ok d') : Reached memory d'

theorem Reached.attended (h : Reached memory d) : Attended memory d := by
  induction h with
  | started openFds listenFd => exact attended_started memory openFds listenFd
  | accepted _ h A => exact A.accept h
  | read _ h A => exact A.read h

theorem Attended.isolated_iff (outcomes : List (Fd × RecvResult)) :
    ∀ {d : State}, Attended memory d →
      (Isolated memory d outcomes ↔ HarmlessRun memory d outcomes) := by
  induction outcomes with
  | nil => exact fun _ => Iff.rfl
  | cons outcome outcomes ih =>
      obtain ⟨cFd, result⟩ := outcome
      intro d A
      constructor
      · rintro ⟨d', hread, I, hrest⟩
        refine ⟨(isolates_iff A cFd result).mp ⟨d', hread, I⟩, fun e he => ?_⟩
        obtain rfl := Except.ok.inj (hread.symm.trans he)
        exact (ih (A.read hread)).mp hrest
      · rintro ⟨hharmless, hrest⟩
        obtain ⟨d', hread, I⟩ := (isolates_iff A cFd result).mpr hharmless
        exact ⟨d', hread, I, (ih (A.read hread)).mpr (hrest d' hread)⟩

/-- **When clients are isolated.** From every state of the daemon and for every
interleaving of outcomes: each is handled, a client leaves exactly when its stream has
ended, and no other client changes, if and only if every outcome for a connected client
is an orderly close or bytes that do not complete an oversized head. -/
theorem outcomes_isolated_iff (hd : Reached memory d) (outcomes : List (Fd × RecvResult)) :
    Isolated memory d outcomes ↔ HarmlessRun memory d outcomes :=
  hd.attended.isolated_iff outcomes

/-- The state after a connection has been accepted. -/
def afterAccept (d : State) : State := (acceptCallback d).toOption.getD d

/-- Two clients, on the descriptors 5 and 6. -/
def twoClients : State := afterAccept (afterAccept (started [0, 1, 2, 3, 4] 3))

theorem twoClients_reached : Reached .unlimited twoClients := by
  have hfirst : acceptCallback (started [0, 1, 2, 3, 4] 3) =
      .ok (afterAccept (started [0, 1, 2, 3, 4] 3)) := rfl
  have hsecond : acceptCallback (afterAccept (started [0, 1, 2, 3, 4] 3)) = .ok twoClients := rfl
  exact ((Reached.started _ _).accepted hfirst).accepted hsecond

theorem outcomes_isolated_iff_twoClients :
    Isolated .unlimited twoClients
        [(5, .received (ascii "GET")), (6, .received []), (5, .received [])] ↔
      HarmlessRun .unlimited twoClients
        [(5, .received (ascii "GET")), (6, .received []), (5, .received [])] :=
  outcomes_isolated_iff twoClients_reached _

/-- A reset connection ends the loop that serves the other client too; a read that finds
nothing drops a live one. -/
theorem not_outcomes_isolated :
    Reached .unlimited twoClients ∧ ¬ Isolated .unlimited twoClients [(5, .failed ECONNRESET)] ∧
      ¬ Isolated .unlimited twoClients [(5, .failed EAGAIN)] := by
  refine ⟨twoClients_reached, ?_, ?_⟩
  · rintro ⟨d', hread, -⟩
    have hthrow : readCallback .unlimited 5 (.failed ECONNRESET) twoClients =
        .error (.systemError ⟨ECONNRESET, "Receive failed"⟩) := rfl
    cases hthrow.symm.trans hread
  · rintro ⟨d', hread, I, -⟩
    have hstays := I.stays ⟨⟨⟨some 5⟩⟩, HttpSim.fresh⟩ rfl (Or.inl rfl)
    have hdropped : (readCallback .unlimited 5 (.failed EAGAIN) twoClients).toOption.bind
        (fun d => d.activeConnections.find 5) = none := rfl
    rw [hread] at hdropped
    cases hdropped.symm.trans hstays

end Netsim.Daemon
