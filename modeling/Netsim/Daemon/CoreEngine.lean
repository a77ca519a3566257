import Netsim.Core.Connection

/-!
# The daemon's callbacks

The accept and read callbacks of `main/core_engine.cpp`, over the kernel, the
event loop and `g_active_connections`. The bodies handed to `Packet::deserialize`
are recorded in order; what is done with the packets (rate limit, metrics, log
lines) touches none of this state and is left out. The exceptions of that part
are caught where it is called.
-/

namespace Netsim.Daemon

open Foundation Netsim.System Netsim.Core Netsim.Protocols

/-- The two callbacks that the daemon registers. -/
inductive Callback where
  | accept
  | read
deriving DecidableEq, Repr

structure ClientContext where
  connection : Connection
  parser : HttpSim

structure State where
  kernel : Kernel
  mainLoop : KqueueEventLoop Callback
  activeConnections : UnorderedMap Fd ClientContext
  deserialized : List (Fd × Bytes)

/-- Destroying a context closes the socket it still owns. -/
def ClientContext.destroy (ctx : ClientContext) (k : Kernel) : Kernel :=
  ctx.connection.socket.closeSocket k

/-- One pass of the accept callback's loop, for a pending connection. Storing the
new context destroys one already stored under its descriptor. -/
def acceptCallback (d : State) : Except Exception State :=
  let (clientFd, kernel) := d.kernel.accept
  let kernel :=
    match d.activeConnections.find clientFd with
    | some old => old.destroy kernel
    | none => kernel
  let d := { d with
    kernel := kernel
    activeConnections := d.activeConnections.set clientFd ⟨⟨⟨some clientFd⟩⟩, HttpSim.fresh⟩ }
  match registerEvent clientFd EVENT_READ (some Callback.read) d.kernel d.mainLoop with
  | .error error => .error (.systemError error)
  | .ok (kernel, mainLoop) => .ok { d with kernel := kernel, mainLoop := mainLoop }

/-- The read callback for `cFd`, when `recv` answers `result`. -/
def readCallback (memory : Allocator) (cFd : Fd) (result : RecvResult) (d : State) :
    Except Exception State :=
  match d.activeConnections.find cFd with
  | none => .ok d
  | some clientCtx =>
      match clientCtx.connection.receiveData result d.kernel with
      | .error exception => .error exception
      | .ok (rawBytes, connection, kernel) =>
          -- the context goes, the registered callback stays
          if rawBytes = [] then
            .ok { d with
              kernel := ClientContext.destroy ⟨connection, clientCtx.parser⟩ kernel
              activeConnections := d.activeConnections.erase cFd }
          else
            match clientCtx.parser.parseChunk memory rawBytes with
            -- thrown by the parser, outside the `try` block
            | .error exception => .error (.stdException exception)
            | .ok (true, parser) =>
                .ok { d with
                  kernel := kernel
                  activeConnections :=
                    d.activeConnections.set cFd ⟨connection, parser.reset⟩
                  deserialized := d.deserialized ++ [(cFd, parser.request.body)] }
            | .ok (false, parser) =>
                .ok { d with
                  kernel := kernel
                  activeConnections := d.activeConnections.set cFd ⟨connection, parser⟩ }

/-- The daemon when its loop starts: only the listening socket is registered. -/
def started (openFds : List Fd) (listenFd : Fd) : State where
  kernel := ⟨openFds, UnorderedMap.ofPairs [(listenFd, EVENT_READ.toUInt32 ||| EPOLLRDHUP)]⟩
  mainLoop := ⟨UnorderedMap.ofPairs [(listenFd, .accept)]⟩
  activeConnections := ∅
  deserialized := []

end Netsim.Daemon
