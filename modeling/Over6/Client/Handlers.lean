import Over6.Client.ReadIp
import Over6.Client.State
import Over6.Lib.Loop

/-! # The handlers of the client

`handle_socket`, `handle_tunnel`, `handle_command` and `handle_heartbeat`, with the
answers of the kernel and of the clock as arguments. The loops are given as the
pass they repeat; a pass faults where the program leaves its memory.
-/

namespace Over6.Client

open MachineInt BoundedLoop

/-! ## `handle_socket` -/

/-- What one pass of the parse loop learns from the outside. -/
structure SocketEnv where
  time : Int
  /-- The heap behind the copy of an IP reply, up to the NULs that end it. -/
  beyond : List UInt8
  /-- The stack under `ip_int` in each `READ_IP` call. -/
  stale : Nat → Nat → UInt8
  response : Nat → WriteResult
  tun : WriteResult

def respond (write : Nat → WriteResult) : Nat → List (List UInt8) → State → Flow State
  | _, [], s => .next s
  | k, bs :: rest, s =>
      let s := s.note (.responded ((write k).taken bs))
      if (write k).ret bs.length = bs.length then respond write (k + 1) rest s
      else .stop (s.fail .response)

def replySize (msglen : Int) : Nat := sizeT 32 (msglen - sizeofMessage)

/-- An empty vector has no data to scan; a size that wrapped makes `resize` throw or takes `memmove`
out of the buffer. -/
def BadReply (msglen : Int) : Prop :=
  replySize msglen = 0 ∨ bufferSize < sizeofMessage + replySize msglen

instance (msglen : Int) : Decidable (BadReply msglen) := inferInstanceAs (Decidable (_ ∨ _))

def handleIpReply (env : SocketEnv) (msg : Message) (s : State) : Flow State :=
  let size := replySize msg.length
  let s := s.note (.resized size s.socketNreads)
  if BadReply msg.length then .fault s
  else
    let text := s.socketBuffer.load sizeofMessage size ++ env.beyond
    let quads := readIps env.stale text 5
    respond env.response 0 (quads.ips ++ [leBytes 4 (sizeT 32 s.socketFd)])
      (s.note (.scanned size quads.seen))

/-- `write(tunFd, buf, count)`: a count that is negative as a `ssize_t` is refused. -/
def writeTun (tun : WriteResult) (count : Nat) : Int :=
  if count < 2 ^ 31 then tun.ret count else -1

def handlePacketRecv (env : SocketEnv) (msg : Message) (s : State) : Flow State :=
  if 0 ≤ s.tunFd then
    let size := sizeT 32 msg.length
    let ret := writeTun env.tun size
    let s := s.note (.sliced msg.length size)
    let s := s.note (.injected (s.socketBuffer.load sizeofMessage ret.toNat))
    if ret = msg.length then .next (s.countIn msg.length)
    else .stop (s.fail .tunWrite)
  else .next s

def handleFrame (env : SocketEnv) (msg : Message) (s : State) : Flow State :=
  if msg.type = msgIpRsb then handleIpReply env msg (s.note (.dispatched msg))
  else if msg.type = msgHeartbeat then
    .next { s.note (.dispatched msg) with lastHeartbeatFromServer := env.time }
  else if msg.type = msgDataRsb then handlePacketRecv env msg (s.note (.dispatched msg))
  else .stop (s.fail .unknownType)

/-- `memmove(socket_buffer, socket_buffer + msg.length, socket_nreads - msg.length)` and
`socket_nreads -= msg.length`. -/
def consume (msg : Message) (s : State) : Flow State :=
  let size := sizeT 32 (s.socketNreads - msg.length)
  let s := s.note (.moved msg.length size)
  if 0 ≤ msg.length ∧ msg.length + size ≤ bufferSize then
    .next { s with
      socketBuffer := s.socketBuffer.move 0 msg.length.toNat size
      socketNreads := s.socketNreads - msg.length }
  else .fault s

def State.header (s : State) : Message := Message.ofBytes (s.socketBuffer.load 0 sizeofMessage)

def socketOnce (env : SocketEnv) (s : State) : Flow State :=
  if sizeT 32 s.socketNreads < sizeofMessage then .stop { s with ret := 0 }
  else if s.socketNreads < s.header.length then .stop { s with ret := 0 }
  else (handleFrame env s.header s).bind (consume s.header)

def receive (bs : List UInt8) (s : State) : State :=
  { s with
    socketBuffer := s.socketBuffer.store s.socketNreads.toNat bs
    socketNreads := s.socketNreads + bs.length
    log := .received bs :: s.log }

def State.room (s : State) : Nat := sizeT 32 (bufferSize - s.socketNreads)

/-- `fuel` bounds the passes of the parse loop. -/
def handleSocket (r : ReadResult) (env : Nat → SocketEnv) (fuel : Nat) (s : State) :
    Outcome State :=
  match r with
  | .error => .stopped (s.fail .recv)
  | .bytes bs =>
      if (receive bs s).socketNreads < 0 then .stopped ((receive bs s).fail .recv)
      else iterate (fun k => socketOnce (env k)) fuel 0 (receive bs s)

/-! ## `handle_tunnel` -/

def handleTunnel (r : ReadResult) (write₁ write₂ : WriteResult) (s : State) : State :=
  match r with
  | .error => s.fail .tunRead
  | .bytes [] => { s with ret := 0 }
  | .bytes bs =>
      let header := Message.bytes ⟨int32 (sizeofMessage + bs.length), msgDataReq⟩
      let s := s.note (.sent (write₁.taken header))
      if write₁.ret header.length = header.length then
        let s := s.note (.sent (write₂.taken bs))
        if write₂.ret bs.length = bs.length then
          { s with
            outPackets := s.outPackets + 1
            outBytes := s.outBytes + UInt64.ofNat bs.length
            ret := 0 }
        else s.fail .socketWrite
      else s.fail .socketWrite

/-! ## `handle_command` -/

structure CommandEnv where
  byte : ReadResult
  reads : Nat → ReadResult
  write : Nat → WriteResult

/-- One pass of the loop that reads a descriptor into `tunFd`; the second part is what has come. -/
def setTunOnce (r : ReadResult) (p : State × List UInt8) : Flow (State × List UInt8) :=
  if 4 ≤ p.2.length then .stop p
  else
    match r with
    | .error => .stop (p.1.fail .command, p.2)
    | .bytes bs =>
        let data := p.2 ++ bs.take (4 - p.2.length)
        let old := leBytes 4 (sizeT 32 p.1.tunFd)
        .next (p.1.setTunFd (int32 (leNat (data ++ old.drop data.length))), data)

def setTun (reads : Nat → ReadResult) (fuel : Nat) (s : State) : Outcome State :=
  match iterate (fun k => setTunOnce (reads k)) fuel 0 (s, []) with
  | .running p => .running p.1
  | .faulted p => .faulted p.1
  | .stopped p =>
      if p.1.ret ≠ 0 then .stopped p.1
      else if p.1.tunFd < 0 then .stopped (p.1.fail .tunFd)
      else .stopped p.1

def handleCommand (env : CommandEnv) (fuel : Nat) (s : State) : Outcome State :=
  match env.byte with
  | .bytes (command :: _) =>
      let s := { s.note (.command command) with ret := 0 }
      if command = ipcCommandExit then .stopped { s with ret := 1 }
      else if command = ipcCommandFetchConfig then
        let request := Message.bytes ⟨sizeofMessage, msgIpReq⟩
        let s := s.note (.sent ((env.write 0).taken request))
        if (env.write 0).ret request.length = request.length then .stopped s
        else .stopped (s.fail .socketWrite)
      else if command = ipcCommandSetTun then setTun env.reads fuel s
      else if command = ipcCommandFetchState then
        .stopped (respond env.write 0
          ([s.inBytes, s.outBytes, s.inPackets, s.outPackets].map fun n => leBytes 8 n.toNat)
          s).state
      else .stopped s
  | _ => .stopped (s.fail .command)

/-! ## `handle_heartbeat` -/

def handleHeartbeat (now : Int) (write : WriteResult) (s : State) : State :=
  if now - s.lastHeartbeatFromServer > heartbeatTimeoutSecs then s.fail .timeout
  else if now - s.lastHeartbeatToServer > heartbeatIntervalSecs then
    let msg := Message.bytes ⟨sizeofMessage, msgHeartbeat⟩
    let s := s.note (.sent (write.taken msg))
    if write.ret msg.length = msg.length then { s with lastHeartbeatToServer := now, ret := 0 }
    else s.fail .socketWrite
  else { s with ret := 0 }

end Over6.Client
