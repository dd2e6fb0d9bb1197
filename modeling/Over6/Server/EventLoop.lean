import Over6.Lib.Run
import Over6.Server.Handlers

/-! # Runs of the event loop

`main` alternates between the events `epoll_wait` reports and a heartbeat pass.
Here they come in any order, with every answer the kernel may give.
-/

namespace Over6.Server

open BoundedLoop EventRun

inductive Event where
  /-- `accept` fails, or returns a descriptor that epoll then takes on or refuses. -/
  | server (r : Option (Fd × Bool))
  | tun (r : ReadResult) (env : Nat → RouteEnv) (fuel : Nat)
  | client (fd : Fd) (r : ReadResult) (env : Nat → FrameEnv) (removed : Bool) (fuel : Nat)
  | heartbeat (env : SweepEnv)

/-- `accept` returns a descriptor number that is not open. That it is below `MAX_FDS`, the number of
entries in `bufs`, is not checked and taken for granted here. -/
def State.CanAccept (s : State) (fd : Fd) : Prop :=
  0 ≤ fd ∧ s.conn fd = none ∧ fd ≠ s.fds.serverFd ∧ fd ≠ s.fds.tunFd ∧ fd ≠ s.fds.epollFd

instance (s : State) (fd : Fd) : Decidable (s.CanAccept fd) :=
  inferInstanceAs (Decidable (_ ∧ _))

/-- One handler call. A call that does not return leads nowhere. -/
def step (s : State) : Event → Option State
  | .server none => some s
  | .server (some (fd, added)) =>
      if s.CanAccept fd then some (processServer fd added s) else none
  | .tun r env fuel =>
      if r.Fits (s.bufs s.tunFd).room then (processTun r env fuel s).returned else none
  | .client fd r env removed fuel =>
      if s.watched fd = true ∧ r.Fits (s.bufs fd).room then
        (processClient r env removed fuel fd s).returned
      else none
  | .heartbeat env => some (processHeartbeat env s)

def runFrom (fds : Descriptors) (es : List Event) : Option State := run step (initState fds) es

/-! ## A machine without trouble

Descriptors and answers for runs in which every write takes all it is given.
-/

def Descriptors.usual : Descriptors := ⟨3, 4, 5, by decide⟩

def writesAll (_ : Nat) : WriteResult := .wrote (bufSize - 1)

def FrameEnv.prompt (now : Int) (_ : Nat) : FrameEnv := ⟨now, now, writesAll, writesAll⟩

def RouteEnv.prompt (_ : Nat) : RouteEnv := ⟨writesAll, writesAll⟩

def SweepEnv.prompt (now : Int) : SweepEnv := ⟨fun _ => now, fun _ => writesAll, fun _ => true⟩

/-- Two clients one after the other on descriptor 7; the first is read in three pieces. -/
def twoClients : List Event :=
  [.server (some (7, true)),
    .client 7 (.bytes [5, 0, 0, 0, 100, 8, 0]) (.prompt 0) true 9,
    .client 7 (.bytes [0, 0, 102, 69]) (.prompt 0) true 9,
    .client 7 (.bytes [0, 9, 5, 0, 0, 0, 104]) (.prompt 0) true 9,
    .client 7 (.bytes []) (.prompt 0) true 9,
    .server (some (7, true)),
    .client 7 (.bytes [5, 0, 0, 0, 100, 5, 0]) (.prompt 0) true 9]

end Over6.Server
