import Over6.Client.Handlers
import Over6.Lib.Run

/-! # Runs of the client

`vpn_main` polls, looks at the heartbeats and calls a handler for each descriptor
that is ready, until one of them returns something else than zero. Here the calls
come in any order, with every answer the kernel may give.
-/

namespace Over6.Client

open MachineInt BoundedLoop EventRun

inductive Event where
  | heartbeat (now : Int) (write : WriteResult)
  | command (env : CommandEnv) (fuel : Nat)
  | socket (r : ReadResult) (env : Nat → SocketEnv) (fuel : Nat)
  | tunnel (r : ReadResult) (write₁ write₂ : WriteResult)

/-- One handler call. A call that does not return leads nowhere. -/
def step (s : State) (e : Event) : Option State :=
  if s.ret = 0 then
    match e with
    | .heartbeat now write => some (handleHeartbeat now write s)
    | .command env fuel => (handleCommand env fuel s).returned
    | .socket r env fuel => if r.Fits s.room then (handleSocket r env fuel s).returned else none
    | .tunnel r write₁ write₂ =>
        if 0 ≤ s.tunFd ∧ r.Fits bufferSize then some (handleTunnel r write₁ write₂ s) else none
  else none

def runFrom (fds : Descriptors) (time₁ time₂ : Int) (stale : CellMemory UInt8) (es : List Event) :
    Option State := run step (protocolInit fds time₁ time₂ stale) es

/-! ## A machine without trouble

Descriptors and answers for runs in which every write takes all it is given.
-/

def Descriptors.usual : Descriptors := ⟨3, 4, 5⟩

def writesAll : WriteResult := .wrote (bufferSize - 1)

def TakesAll (write : WriteResult) : Prop := ∀ size, size ≤ bufferSize → write.ret size = size

theorem writesAll_takesAll : TakesAll writesAll := by
  intro size h
  change ((min (bufferSize - 1 + 1) size : Nat) : Int) = size
  rw [Nat.sub_add_cancel (by decide), Nat.min_eq_right h]

def SocketEnv.prompt (now : Int) (_ : Nat) : SocketEnv where
  time := now
  beyond := []
  stale _ _ := 0
  response _ := writesAll
  tun := writesAll

/-- `IPC_COMMAND_SET_TUN` with a descriptor that comes in one piece. -/
def CommandEnv.setTun (fd : Nat) : CommandEnv where
  byte := .bytes [ipcCommandSetTun]
  reads _ := .bytes (leBytes 4 fd)
  write _ := writesAll

def tunnelUp : List Event := [.command (.setTun 6) 9]

end Over6.Client
