import Over6.Lib.Run
import Over6.Threaded.Message

/-! # The threaded server

`Server::startServer` accepts connections and runs three threads for each;
`Tun::tunReader` is one more. A thread makes one system call, or one access to what
it shares with others, at a time, and a section under `ipMutex` is one access. A log
keeps what happened, newest first; no thread reads it.
-/

namespace Over6.Threaded

open MachineInt

inductive Thread where
  | read
  | write
  | keep
deriving DecidableEq, Repr

inductive ReadPoint where
  | check
  | header (totalLength : Nat)
  | body (totalLength : Nat)
  | dispatch
  /-- The assert about the address. -/
  | request
  | choose
  | reply (p : SendPoint)
  | setStatus
  | setConnection
  | ending
  | ended
deriving DecidableEq, Repr

inductive WritePoint where
  | pop
  | send (p : SendPoint)
  | ended
deriving DecidableEq, Repr

inductive KeepPoint where
  | check
  | tick
  | test
  | send (p : SendPoint)
  | close
  | ended
deriving DecidableEq, Repr

/-- A `ClientConnection` with its three threads. -/
structure Conn where
  socketFd : Nat
  heartBeatCount : Nat
  ipv4Address : List UInt8
  wtSktQue : List Msg
  /-- The thread that holds it. -/
  sendMutex : Option Thread
  reading : ReadPoint
  /-- The `message` of `readThread`. -/
  message : Msg
  writing : WritePoint
  /-- The `message` of `writeThread`. -/
  outgoing : Msg
  keeping : KeepPoint

/-- What a descriptor number denotes: a file the server has opened for itself, or the socket of a
connection. -/
inductive File where
  | own
  | socket (i : Nat)
deriving DecidableEq, Repr

inductive TunPoint where
  | read
  | lookup (buf : List UInt8)
  | push (i : Nat) (buf : List UInt8)
deriving DecidableEq, Repr

/-- What takes the whole process down. -/
inductive Crash where
  | requestAssert
  | statusAssert
  /-- `std::invalid_argument` out of `std::stoi`. -/
  | stoi
  /-- `exit(1)` in `getFreeIP`. -/
  | noAddress
  /-- `std::string` of a negative length. -/
  | badString
  /-- A store behind the end of `message.data`; what comes of it is undefined. -/
  | overflow
deriving DecidableEq, Repr

/-- The connection comes first; `on` is the one whose socket the number denotes at that time. -/
inductive Act where
  | read (i : Nat) (on : Option Nat) (a : Answer)
  | wrote (i : Nat) (who : Thread) (on : Option Nat) (bs : List UInt8)
  | locked (i : Nat) (who : Thread) (m : Msg)
  /-- `tun->pushQueue`. -/
  | pushed (i : Nat) (bs : List UInt8)

structure State where
  /-- Connections in the order they were accepted. -/
  conns : List Conn
  files : List (Option File)
  status : Int → Bool
  connections : Int → Option Nat
  tunReader : TunPoint
  crash : Option Crash
  /-- A thread waits for the `ipMutex` it holds itself. -/
  stuck : Bool
  log : List Act

def Conn.start (fd : Nat) (stale : Msg) : Conn where
  socketFd := fd
  heartBeatCount := 0
  ipv4Address := []
  wtSktQue := []
  sendMutex := none
  reading := .check
  message := stale
  writing := .pop
  outgoing := stale
  keeping := .check

namespace State

/-- Before the first `accept`, with the descriptors opened so far. -/
def start (files : List (Option File)) : State where
  conns := []
  files := files
  status _ := false
  connections _ := none
  tunReader := .read
  crash := none
  stuck := false
  log := []

def set (s : State) (i : Nat) (c : Conn) : State := { s with conns := s.conns.set i c }

def note (s : State) (act : Act) : State := { s with log := act :: s.log }

def fail (s : State) (why : Crash) : State := { s with crash := some why }

def socket (s : State) (fd : Nat) : Option Nat :=
  match s.files[fd]? with
  | some (some (.socket i)) => some i
  | _ => none

end State

/-! ## The sections under `ipMutex` -/

namespace State

def setIpStatus (s : State) (addr : List UInt8) (b : Bool) : Except Crash State :=
  match getIpNum addr with
  | none => .error .stoi
  | some num =>
      if s.status num = b then .error .statusAssert
      else .ok { s with status := Function.update s.status num b }

def getConnectionByIp (s : State) (addr : List UInt8) : Except Crash (Option Nat) :=
  match getIpNum addr with
  | none => .error .stoi
  | some num => .ok (if s.status num then s.connections num else none)

def setConnectionWithIp (s : State) (addr : List UInt8) (i : Nat) : Except Crash State :=
  match getIpNum addr with
  | none => .error .stoi
  | some num =>
      -- The nested call locks `ipMutex` a second time.
      if s.status num = false then .ok { s with stuck := true }
      else .ok { s with connections := Function.update s.connections num (some i) }

def getFreeIP (s : State) : Option Nat :=
  ((List.range 1022).map (· + 2)).find? fun i : Nat => !s.status i

/-- A section that can be entered: it goes on, or takes the process down. -/
def locked {α : Type} (s : State) (r : Except Crash α) (go : α → State) : Option State :=
  if s.stuck then none
  else
    match r with
    | .ok a => some (go a)
    | .error why => some (s.fail why)

end State

/-! ## `sendMessage` in a thread -/

/-- A call on a closed number is an error. -/
def State.Answers (s : State) (fd : Nat) (a : Answer) : Prop := (s.socket fd).isSome ∨ a = .error

instance (s : State) (fd : Nat) (a : Answer) : Decidable (s.Answers fd a) :=
  inferInstanceAs (Decidable (_ ∨ _))

/-- One step of `sendMessage(m)` on a connection; `goto` tells where the thread goes on. -/
def State.send (s : State) (i : Nat) (c : Conn) (who : Thread) (m : Msg) (p : SendPoint) (a : Answer)
    (goto : Sent → Conn → Conn) : Option State :=
  match p with
  | .lock =>
      if c.sendMutex = none then
        some ((s.set i (goto (.more (.header 0)) { c with sendMutex := some who })).note
          (.locked i who m))
      else none
  | p =>
      if s.Answers c.socketFd a then
        match writeOnce m p a with
        | none => none
        | some (bs, .more p') =>
            some ((s.set i (goto (.more p') c)).note (.wrote i who (s.socket c.socketFd) bs))
        | some (bs, sent) =>
            some ((s.set i (goto sent { c with sendMutex := none })).note
              (.wrote i who (s.socket c.socketFd) bs))
      else none

/-! ## `readThread` -/

/-- The header is there, or reading it was given up: a `break` leaves the inner loop only. -/
def Conn.headerRead (c : Conn) : Conn :=
  { c with
    reading :=
      if c.message.header.type = msgDataReq ∧ 0 < c.message.bodySize then .body 0 else .dispatch }

def Conn.readHeader (c : Conn) (total : Nat) : Answer → Option Conn
  | .again => some c
  | .error => some c.headerRead
  | .bytes bs =>
      if bs ≠ [] ∧ total + bs.length ≤ sizeofMessage then
        let c := { c with message := c.message.store total bs }
        some (if total + bs.length < sizeofMessage then
          { c with reading := .header (total + bs.length) } else c.headerRead)
      else none
  | .count _ => none

def Conn.readBody (c : Conn) (total : Nat) : Answer → Option (Except Crash Conn)
  | .again => some (.ok c)
  | .error => some (.ok { c with reading := .ending })
  | .bytes bs =>
      if bs ≠ [] ∧ ((total + bs.length : Nat) : Int) ≤ c.message.bodySize then
        if total + bs.length ≤ sizeofData then
          let c := { c with message := c.message.store (sizeofMessage + total) bs }
          some (.ok { c with
            reading := if ((total + bs.length : Nat) : Int) < c.message.bodySize then
              .body (total + bs.length) else .dispatch })
        else some (.error .overflow)
      else none
  | .count _ => none

def State.dispatch (s : State) (i : Nat) (c : Conn) : State :=
  let msg := c.message.header
  if msg.type = msgIpReq then s.set i { c with reading := .request }
  else if msg.type = msgHeartbeat then s.set i { c with heartBeatCount := 0, reading := .check }
  else if msg.type = msgDataReq then
    if msg.length < 0 then s.fail .badString
    else
      (s.set i { c with reading := .check }).note
        (.pushed i (c.message.load sizeofMessage msg.length.toNat))
  else s.set i { c with reading := .check }

def Conn.answer (c : Conn) (addr behind : List UInt8) : Conn :=
  { c with
    ipv4Address := addr
    message := replyMsg c.message addr behind
    reading := .reply .lock }

def Conn.afterReply (sent : Sent) (c : Conn) : Conn :=
  { c with
    reading :=
      match sent with
      | .more p => .reply p
      | .done => .setStatus
      | .failed => .ending }

def stepRead (s : State) (i : Nat) (c : Conn) (a : Answer) : Option State :=
  match c.reading with
  | .check =>
      some (s.set i { c with reading := if c.heartBeatCount < 60 then .header 0 else .ending })
  | .header total =>
      if s.Answers c.socketFd a then
        (c.readHeader total a).map fun c' => (s.set i c').note (.read i (s.socket c.socketFd) a)
      else none
  | .body total =>
      if s.Answers c.socketFd a then
        (c.readBody total a).map fun r =>
          match r with
          | .ok c' => (s.set i c').note (.read i (s.socket c.socketFd) a)
          | .error why => (s.fail why).note (.read i (s.socket c.socketFd) a)
      else none
  | .dispatch => some (s.dispatch i c)
  | .request =>
      if c.ipv4Address = [] then some (s.set i { c with reading := .choose })
      else
        s.locked (s.getConnectionByIp c.ipv4Address) fun found =>
          if found.isSome then s.fail .requestAssert else s.set i { c with reading := .choose }
  | .choose =>
      match a with
      -- The four bytes the reply is copied with.
      | .bytes behind =>
          if behind.length = 4 then
            if c.ipv4Address = [] then
              s.locked (.ok s.getFreeIP) fun free =>
                match free with
                | none => s.fail .noAddress
                | some n => s.set i (c.answer (ipText n) behind)
            else some (s.set i (c.answer c.ipv4Address behind))
          else none
      | _ => none
  | .reply p => s.send i c .read c.message p a Conn.afterReply
  | .setStatus =>
      s.locked (s.setIpStatus c.ipv4Address true) fun s' =>
        s'.set i { c with reading := .setConnection }
  | .setConnection =>
      s.locked (s.setConnectionWithIp c.ipv4Address i) fun s' =>
        if s'.stuck then s' else s'.set i { c with reading := .check }
  | .ending =>
      s.locked (s.setIpStatus c.ipv4Address false) fun s' => s'.set i { c with reading := .ended }
  | .ended => none

/-! ## `writeThread` and `keepLiveThread` -/

def Conn.afterMessage (sent : Sent) (c : Conn) : Conn :=
  { c with
    writing :=
      match sent with
      | .more p => .send p
      | .done => .pop
      | .failed => .ended }

def stepWrite (s : State) (i : Nat) (c : Conn) (a : Answer) : Option State :=
  match c.writing with
  | .pop =>
      match c.wtSktQue with
      | [] => none
      | m :: queue =>
          some (s.set i { c with wtSktQue := queue, outgoing := m, writing := .send .lock })
  | .send p => s.send i c .write c.outgoing p a Conn.afterMessage
  | .ended => none

def Conn.afterHeartBeat (sent : Sent) (c : Conn) : Conn :=
  { c with
    keeping :=
      match sent with
      | .more p => .send p
      | .done => .check
      | .failed => .close }

def stepKeep (s : State) (i : Nat) (c : Conn) (a : Answer) : Option State :=
  match c.keeping with
  | .check => some (s.set i { c with keeping := if c.heartBeatCount < 60 then .tick else .close })
  | .tick => some (s.set i { c with heartBeatCount := c.heartBeatCount + 1, keeping := .test })
  | .test =>
      some (s.set i
        { c with keeping := if c.heartBeatCount % 20 = 0 then .send .lock else .check })
  | .send p => s.send i c .keep heartBeatMsg p a Conn.afterHeartBeat
  | .close =>
      some { s.set i { c with keeping := .ended } with files := s.files.set c.socketFd none }
  | .ended => none

/-! ## `tunReader` and `accept` -/

/-- The address of a packet is looked up, then the packet is queued. -/
def stepTun (s : State) : Option State :=
  match s.tunReader with
  | .read => none
  | .lookup buf =>
      s.locked (s.getConnectionByIp (mkAddr ((buf.drop 16).take 4))) fun found =>
        { s with
          tunReader :=
            match found with
            | none => .read
            | some i => .push i buf }
  | .push i buf =>
      match s.conns[i]? with
      | none => none
      | some c =>
          some { s.set i { c with wtSktQue := c.wtSktQue ++ [dataMsg buf] } with tunReader := .read }

/-- The number `accept` returns. -/
def State.lowestFree (s : State) : Nat := s.files.findIdx Option.isNone

def State.accept (s : State) (stale : Msg) : State :=
  { s with
    conns := s.conns ++ [Conn.start s.lowestFree stale]
    files :=
      if s.lowestFree < s.files.length then
        s.files.set s.lowestFree (some (.socket s.conns.length))
      else s.files ++ [some (.socket s.conns.length)] }

inductive Event where
  /-- A connection, with what lies on the stack of its threads. -/
  | accept (stale : Msg)
  /-- The next step of a thread of a connection, and what its system call returns. -/
  | read (i : Nat) (a : Answer)
  | write (i : Nat) (a : Answer)
  | keep (i : Nat) (a : Answer)
  /-- `tunRead` returns. -/
  | packet (buf : List UInt8)
  | route

def next (s : State) (e : Event) : Option State :=
  if s.crash.isSome then none
  else
    match e with
    | .accept stale => some (s.accept stale)
    | .read i a => s.conns[i]?.bind fun c => stepRead s i c a
    | .write i a => s.conns[i]?.bind fun c => stepWrite s i c a
    | .keep i a => s.conns[i]?.bind fun c => stepKeep s i c a
    | .packet buf =>
        -- The kernel hands out whole packets; the buffer takes 1600 bytes.
        if s.tunReader = .read ∧ 20 ≤ buf.length ∧ buf.length ≤ 1600 then
          some { s with tunReader := .lookup buf }
        else none
    | .route => stepTun s

/-! ## A server at work -/

/-- The standard streams, the tun, the listening socket and the epoll descriptor. -/
def opened : List (Option File) := List.replicate 6 (some .own)

def blank : Msg := fun _ => 0

/-- An IP request on connection `i`, up to the choice of an address. -/
def ask (i : Nat) : List Event :=
  [.read i .again, .read i (.bytes [5, 0, 0, 0, 100]), .read i .again, .read i .again,
    .read i (.bytes [0, 0, 0, 0])]

def takeReply (i length : Nat) : List Event :=
  [.read i .again, .read i (.count 5), .read i (.count length)]

def grant (i length : Nat) : List Event :=
  ask i ++ takeReply i length ++ [.read i .again, .read i .again]

def packetToTwo : List UInt8 := List.replicate 16 69 ++ [10, 128, 0, 2]

end Over6.Threaded
