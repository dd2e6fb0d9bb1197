import Over6.Client.Responses

/-! # The service and the native loop

One `startVPN` of `MyVpnService`: a thread that writes commands to one pipe and
reads responses from another, the native loop at their other ends, and a server.
Each system call of the service and each handler call of the loop is an event of
its own; only the loop of `SET_TUN` may have the service at work in between.
-/

namespace Over6.Service

open MachineInt BoundedLoop EventRun

abbrev commandFetchConfig : UInt8 := 2
abbrev commandSetTun : UInt8 := 3
abbrev commandFetchState : UInt8 := 4

/-! ## What the service calls -/

inductive Call where
  /-- `commandWriteStream.writeByte` -/
  | writeByte (command : UInt8)
  /-- `write` of one byte of an argument. -/
  | write (b : UInt8)
  /-- `read` until this many bytes are there. -/
  | read (length : Nat)
deriving DecidableEq, Repr

def readResponse (length : Nat) : List Call := [.read length]

def readInt : List Call := [.read 1, .read 1, .read 1, .read 1]

def readLong : List Call := readInt ++ readInt

def writeInt (data : Nat) : List Call :=
  [.write (UInt8.ofNat (data % 256)), .write (UInt8.ofNat (data / 256 % 256)),
    .write (UInt8.ofNat (data / 256 / 256 % 256)),
    .write (UInt8.ofNat (data / 256 / 256 / 256 % 256))]

/-- The calls of `startVPN` on the two streams; `fd` is `vpnInterface.getFd()`. -/
def startVPN (fd : Nat) : List Call :=
  [.writeByte commandFetchConfig] ++ readResponse 20 ++ readInt ++
    [.writeByte commandSetTun] ++ writeInt fd

def timerTask : List Call :=
  [.writeByte commandFetchState] ++ readLong ++ readLong ++ readLong ++ readLong

def fetches (command : UInt8) : Bool := command = commandFetchConfig ∨ command = commandFetchState

structure Java where
  /-- The calls still to be made. -/
  todo : List Call
  /-- The commands written so far. -/
  commands : List UInt8
  /-- The bytes read behind each `FETCH` command. -/
  groups : List (List UInt8)

namespace Java

def start (fd : Nat) : Java := ⟨startVPN fd, [], []⟩

/-- Put the bytes read into the last group. -/
def addTo : List (List UInt8) → List UInt8 → List (List UInt8)
  | [], _ => []
  | [g], bs => [g ++ bs]
  | g :: gs, bs => g :: addTo gs bs

def writes (j : Java) : Option (UInt8 × Java) :=
  match j.todo with
  | .writeByte command :: rest =>
      some (command, { todo := rest
                       commands := j.commands ++ [command]
                       groups := if fetches command then j.groups ++ [[]] else j.groups })
  | .write b :: rest => some (b, { j with todo := rest })
  | _ => none

def reads (j : Java) (bs : List UInt8) : Option Java :=
  match j.todo with
  | .read length :: rest =>
      if bs ≠ [] ∧ bs.length ≤ length then
        some { j with
          todo := if bs.length = length then rest else .read (length - bs.length) :: rest
          groups := addTo j.groups bs }
      else none
  | _ => none

def ticks (j : Java) : Option Java :=
  match j.todo with
  | [] => some { j with todo := timerTask }
  | _ => none

end Java

/-! ## Both ends and the server -/

/-- A call of `handle_command` under way: its command and the pieces `SET_TUN` has read. -/
structure Pending where
  command : UInt8
  pieces : List (List UInt8)

structure Link where
  client : Client.State
  java : Java
  call : Option Pending
  /-- The command pipe. -/
  pipe : List UInt8
  /-- What the server has sent. -/
  sent : List Frame
  /-- The commands handled so far, each with the state `handle_command` found. -/
  handled : List (UInt8 × Client.State)

namespace Link

/-- The response pipe: what was put there and not read. -/
def responsePipe (l : Link) : List UInt8 :=
  (Client.responses l.client.log).drop l.java.groups.flatten.length

def requests (l : Link) : Nat := l.handled.countP fun h => h.1 = commandFetchConfig

def replies (l : Link) : Nat := l.sent.countP fun f => f.type = msgIpRsb

/-- The bytes of the server's stream that the loop has not received. -/
def Delivers (l : Link) : Client.Event → Prop
  | .socket (.bytes bs) _ _ =>
      Client.received l.client.log ++ bs <+: frameCode.stream l.sent
  | .command _ _ => False
  | _ => True

instance (l : Link) (e : Client.Event) : Decidable (l.Delivers e) := by
  unfold Delivers
  split <;> infer_instance

end Link

inductive Event where
  /-- The service's next write. -/
  | write
  /-- The service's next read returns `n` bytes. -/
  | read (n : Nat)
  | tick
  | send (f : Frame)
  /-- `handle_command` reads its byte. -/
  | command
  /-- The next read of the loop of `SET_TUN` returns `n` bytes. -/
  | argument (n : Nat)
  /-- `handle_command` returns. -/
  | finish (write : Nat → WriteResult)
  /-- Another handler. -/
  | native (e : Client.Event)

def Pending.env (p : Pending) (write : Nat → WriteResult) : Client.CommandEnv where
  byte := .bytes [p.command]
  reads i := .bytes (p.pieces.getD i [])
  write := write

/-- The server answers no request twice. -/
def step (l : Link) : Event → Option Link
  | .write => l.java.writes.map fun w => { l with java := w.2, pipe := l.pipe ++ [w.1] }
  | .read n =>
      (l.java.reads (l.responsePipe.take n)).map fun java => { l with java := java }
  | .tick => l.java.ticks.map fun java => { l with java := java }
  | .send f =>
      if f.Valid ∧ (f.type = msgIpRsb → l.replies < l.requests) then
        some { l with sent := l.sent ++ [f] }
      else none
  | .command =>
      match l.call, l.pipe with
      | none, command :: rest =>
          if l.client.ret = 0 then some { l with call := some ⟨command, []⟩, pipe := rest }
          else none
      | _, _ => none
  | .argument n =>
      match l.call with
      | some p =>
          let got := p.pieces.flatten.length
          let bs := l.pipe.take n
          if p.command = Client.ipcCommandSetTun ∧ got < 4 ∧ bs ≠ [] ∧ bs.length ≤ 4 - got then
            some { l with call := some { p with pieces := p.pieces ++ [bs] }
                          pipe := l.pipe.drop n }
          else none
      | none => none
  | .finish write =>
      match l.call with
      | some p =>
          (Client.step l.client (.command (p.env write) (p.pieces.length + 1))).map fun client =>
            { l with client := client, call := none
                     handled := l.handled ++ [(p.command, l.client)] }
      | none => none
  | .native e =>
      if l.call.isNone ∧ l.Delivers e then
        (Client.step l.client e).map fun client => { l with client := client }
      else none

def Link.start (fds : Client.Descriptors) (time₁ time₂ : Int) (stale : CellMemory UInt8)
    (fd : Nat) : Link where
  client := Client.protocolInit fds time₁ time₂ stale
  java := .start fd
  call := none
  pipe := []
  sent := []
  handled := []

end Over6.Service
