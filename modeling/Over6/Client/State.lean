import Over6.Kernel
import Over6.Lib.Memory
import Over6.Wire

/-! # State of the Android client

The static variables of the protocol and a log of what the handlers did, newest
first; no handler reads it. Integers have the widths of the 32-bit target.
-/

namespace Over6.Client

open MachineInt

abbrev bufferSize : Nat := 1024 * 1024 * 4
abbrev heartbeatTimeoutSecs : Int := 60
abbrev heartbeatIntervalSecs : Int := 20

abbrev ipcCommandExit : UInt8 := 1
abbrev ipcCommandFetchConfig : UInt8 := 2
abbrev ipcCommandSetTun : UInt8 := 3
abbrev ipcCommandFetchState : UInt8 := 4

/-- The check that made a handler return `-1`. -/
inductive Failure where
  | timeout
  | recv
  | unknownType
  | response
  | tunWrite
  | socketWrite
  | tunRead
  | command
  | tunFd
deriving DecidableEq, Repr

inductive Act where
  | received (bs : List UInt8)
  /-- A complete frame of a known type at the front of the buffer. -/
  | dispatched (msg : Message)
  /-- The size given to `data.resize` and `memmove`, with `held` bytes in the buffer. -/
  | resized (size : Nat) (held : Int)
  /-- How far the scan of a copied IP reply of `size` bytes looked. -/
  | scanned (size seen : Nat)
  | responded (bs : List UInt8)
  /-- `size` bytes behind the header of a frame of length `msglen` are handed to the tun. -/
  | sliced (msglen : Int) (size : Nat)
  | injected (bs : List UInt8)
  /-- `size` bytes are moved from `source` to the front of the buffer. -/
  | moved (source : Int) (size : Nat)
  | sent (bs : List UInt8)
  | command (c : UInt8)
  | failed (why : Failure)
deriving DecidableEq, Repr

structure State where
  socketBuffer : CellMemory UInt8
  socketNreads : Int
  socketFd : Fd
  commandReadFd : Fd
  responseWriteFd : Fd
  tunFd : Fd
  lastHeartbeatFromServer : Int
  lastHeartbeatToServer : Int
  inBytes : UInt64
  outBytes : UInt64
  inPackets : UInt64
  outPackets : UInt64
  /-- What the last handler returned; `vpn_main` goes on while it is zero. -/
  ret : Int
  log : List Act

namespace State

def note (s : State) (act : Act) : State := { s with log := act :: s.log }

def setTunFd (s : State) (fd : Fd) : State := { s with tunFd := fd }

def countIn (s : State) (msglen : Int) : State :=
  { s with inBytes := s.inBytes + UInt64.ofNat (sizeT 64 msglen), inPackets := s.inPackets + 1 }

def fail (s : State) (why : Failure) : State := { s with ret := -1, log := .failed why :: s.log }

end State

/-- What `vpn_main` passes to `protocol_init`. -/
structure Descriptors where
  socketFd : Fd
  commandReadFd : Fd
  responseWriteFd : Fd

/-- `protocol_init`; an earlier run may have left bytes in the buffer. -/
def protocolInit (fds : Descriptors) (time₁ time₂ : Int) (stale : CellMemory UInt8) : State where
  socketBuffer := stale
  socketNreads := 0
  socketFd := fds.socketFd
  commandReadFd := fds.commandReadFd
  responseWriteFd := fds.responseWriteFd
  tunFd := -1
  lastHeartbeatFromServer := time₁
  lastHeartbeatToServer := time₂
  inBytes := 0
  outBytes := 0
  inPackets := 0
  outPackets := 0
  ret := 0
  log := []

end Over6.Client
