import Netsim.Foundation.PartialWrite
import Netsim.Protocols.HttpSim
import Netsim.System.EventLoop

/-!
# Connections

The parts of `core/connection.hpp` and `connection.cpp` that a server-side
connection uses. A `SocketFD` owns a descriptor or none (`-1`); giving it up
closes the descriptor. What `recv` returns and what the kernel takes at each
`send` are inputs.
-/

namespace Netsim.Core

open Foundation Netsim.System

/-- `SocketFD`: the descriptor it owns. -/
structure SocketFD where
  fd : Option Fd
deriving DecidableEq, Repr

/-- `close_socket`, also what the destructor does. -/
def SocketFD.closeSocket (socket : SocketFD) (k : Kernel) : Kernel :=
  match socket.fd with
  | some fd => k.close fd
  | none => k

structure Connection where
  socket : SocketFD
deriving DecidableEq, Repr

/-- The outcome of `recv`: bytes, none of them at the end of the stream, or an
error. -/
inductive RecvResult where
  | received (data : Protocols.Bytes)
  | failed (errno : Errno)
deriving DecidableEq, Repr

/-- What the daemon's callbacks may throw. -/
inductive Exception where
  | systemError (error : SystemError)
  | runtimeError (what : String)
  | stdException (exception : Protocols.StdException)
deriving DecidableEq, Repr

/-- A `std::vector<uint8_t>` or a `std::string`, which has at most `max_size()` bytes. -/
structure Buffer where
  bytes : Protocols.Bytes
  size_le : bytes.length ≤ Protocols.maxVectorSize

theorem Buffer.length_lt (data : Buffer) : data.bytes.length < 2 ^ 63 :=
  Nat.lt_of_le_of_lt data.size_le (by decide)

def Buffer.size (data : Buffer) : UInt64 := UInt64.ofNat data.bytes.length

theorem Buffer.toNat_size (data : Buffer) : data.size.toNat = data.bytes.length :=
  UInt64.toNat_ofNat_of_lt' (Nat.lt_trans data.length_lt (by decide))

/-- What the kernel answers to each `send`. -/
abbrev SendKernel := Device Errno

/-- What the kernel has taken at each `send`, and the error of the one that failed. -/
abbrev SendLog := Transferred UInt8 Errno

/-- `EAGAIN` or `EWOULDBLOCK`. -/
def WouldBlock (errno : Errno) : Prop := errno = EAGAIN ∨ errno = EWOULDBLOCK

instance (errno : Errno) : Decidable (WouldBlock errno) :=
  inferInstanceAs (Decidable (_ ∨ _))

namespace Connection

def disconnect (connection : Connection) (k : Kernel) : Connection × Kernel :=
  -- assigning `SocketFD{}` closes the descriptor held before
  (⟨⟨none⟩⟩, connection.socket.closeSocket k)

/-- `Connection::receive_data`, when `recv` answers `result`. -/
def receiveData (connection : Connection) (result : RecvResult) (k : Kernel) :
    Except Exception (Protocols.Bytes × Connection × Kernel) :=
  if connection.socket.fd = none then .error (.runtimeError "Socket is closed")
  else
    match result with
    | .failed errno =>
        -- nothing to read yet, which the caller cannot tell from the end
        if errno = EAGAIN ∨ errno = EWOULDBLOCK then .ok ([], connection, k)
        else .error (.systemError ⟨errno, "Receive failed"⟩)
    | .received data =>
        if data.length = 0 then .ok ([], connection.disconnect k)
        else .ok (data, connection, k)

/-- The locals of `send_data`, and what the kernel has taken so far. -/
structure SendState where
  totalSent : Int64
  leftToSend : UInt64
  chunks : List Protocols.Bytes

/-- The loop of `send_data`. -/
def sendLoop (kernel : SendKernel) (data : Buffer) :
    ℕ → SendState → Option (Except Exception Int64 × SendLog)
  | 0, _ => none
  | fuel + 1, s =>
      if s.totalSent < data.size.toInt64 then
        let buffer := data.bytes.drop s.totalSent.toNatClampNeg
        match kernel s.chunks.length s.leftToSend.toNat with
        | .failed errno =>
            -- a full buffer ends the loop, and the caller learns how far it came
            if WouldBlock errno then some (.ok s.totalSent, ⟨s.chunks, some errno⟩)
            else some (.error (.systemError ⟨errno, "Send failed"⟩), ⟨s.chunks, some errno⟩)
        | .accepted sent _ _ =>
            sendLoop kernel data fuel {
              totalSent := s.totalSent + Int64.ofNat sent
              leftToSend := s.leftToSend - UInt64.ofNat sent
              chunks := s.chunks ++ [buffer.take sent] }
      else some (.ok s.totalSent, ⟨s.chunks, none⟩)

/-- `Connection::send_data`, with the fuel of its loop. -/
def sendData (connection : Connection) (kernel : SendKernel) (data : Buffer) (fuel : ℕ) :
    Option (Except Exception Int64 × SendLog) :=
  if connection.socket.fd = none then some (.error (.runtimeError "Socket is closed"), ⟨[], none⟩)
  else sendLoop kernel data fuel { totalSent := 0, leftToSend := data.size, chunks := [] }

end Connection

end Netsim.Core
