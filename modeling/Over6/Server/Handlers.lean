import Over6.Server.Table

/-! # The handlers of the event loop

`process_server`, `process_tun`, `process_client` and `process_heartbeat`, with
the answers of the kernel and of the clock as arguments. The two `while(true)`
loops are given as the pass they repeat; a pass faults where `memmove` would
leave the buffer.
-/

namespace Over6.Server

open MachineInt BoundedLoop

/-! ## Writing -/

/-- The loop of `write_all`: `rest` is what lies behind `offset`. Every successful write takes
at least one byte, so as many passes as there are bytes are enough. -/
def writeLoop (write : Nat → WriteResult) : Nat → Nat → Int → List UInt8 → List UInt8 × Int
  | 0, _, offset, _ => ([], offset)
  | fuel + 1, k, offset, rest =>
      if rest = [] then ([], offset)
      else
        match write k with
        | .error => ([], -1)
        | .wrote n =>
            let ret := min (n + 1) rest.length
            let more := writeLoop write fuel (k + 1) (offset + ret) (rest.drop ret)
            (rest.take ret ++ more.1, more.2)

def writeAll (write : Nat → WriteResult) (bs : List UInt8) : List UInt8 × Int :=
  writeLoop write bs.length 0 0 bs

/-- `write_all` on a descriptor: a number that is not open makes every write fail. -/
def State.writeAll (s : State) (write : Nat → WriteResult) (fd : Fd) (bs : List UInt8) :
    State × Int :=
  let r := Server.writeAll (if s.isOpen fd then write else fun _ => .error) bs
  (s.note fd (.wrote r.1 r.2), r.2)

/-! ## `process_client` -/

/-- What one pass of the parse loop learns from the outside: the values of two `time(0)` calls
and the answers to the writes of two `write_all` calls. -/
structure FrameEnv where
  time₁ : Int
  time₂ : Int
  write₁ : Nat → WriteResult
  write₂ : Nat → WriteResult

def ipReply (addr : List UInt8) : List UInt8 :=
  addr ++ ascii " 0.0.0.0 " ++ dns1 ++ ascii " " ++ dns2 ++ ascii " " ++ dns3

def handleIpReq (env : FrameEnv) (clientFd : Fd) (s : State) : Flow State :=
  let s := s.note clientFd (.requested (grantsTwice s.users clientFd))
  match allocateIpAddr clientFd env.time₁ env.time₂ s with
  | (s, none) => .stop (s.note clientFd (.failed .poolFull))
  | (s, some id) =>
      let bufreply := ipReply (s.users id).addr
      let buflen : Int := bufreply.length
      let header := s.writeAll env.write₁ clientFd (Message.bytes ⟨buflen + 5, msgIpRsb⟩)
      if header.2 < sizeofMessage then .stop (header.1.note clientFd (.failed .replyHeader))
      else
        let data := header.1.writeAll env.write₂ clientFd bufreply
        if data.2 < buflen then .stop (data.1.note clientFd (.failed .replyData))
        else .next (data.1.note clientFd (.replied bufreply))

/-- `datalen`, computed as `size_t` and stored in an `int`. -/
def dataLen (msglen : Int) : Int := int32 (sizeT 64 (msglen - sizeofMessage))

def handleDataReq (env : FrameEnv) (clientFd : Fd) (msglen : Int) (s : State) : Flow State :=
  let datalen := dataLen msglen
  let s := s.note clientFd (.touched sizeofMessage datalen)
  let data := s.writeAll env.write₁ s.tunFd
    ((s.bufs clientFd).buf.load sizeofMessage datalen.toNat)
  if data.2 < datalen then .stop (data.1.note clientFd (.failed .tunData))
  else .next data.1

/-- The `MSG_HEARTBEAT` branch. With no entry found the store goes to `users[-1]`, outside the
table. -/
def handleHeartbeat (env : FrameEnv) (clientFd : Fd) (s : State) : Flow State :=
  let id := searchUserInfoByFd s.users clientFd
  let s := s.note clientFd (.kept id env.time₁)
  match id with
  | none => .next s
  | some i => .next (s.setUser i { s.users i with lastHeartbeatRecvedSecs := env.time₁ })

/-- The type dispatch; frames of an unknown type are passed over. -/
def handleFrame (env : FrameEnv) (clientFd : Fd) (msg : Message) (s : State) : Flow State :=
  if msg.type = msgIpReq then handleIpReq env clientFd s
  else if msg.type = msgDataReq then handleDataReq env clientFd msg.length s
  else if msg.type = msgHeartbeat then handleHeartbeat env clientFd s
  else .next s

/-- `memmove(buf, buf + msglen, nread - msglen)` and `nread -= msglen`. -/
def consume (clientFd : Fd) (msg : Message) (s : State) : Flow State :=
  let e := s.bufs clientFd
  let size := sizeT 64 (int32 (e.used - msg.length))
  let s := (s.note clientFd (.touched msg.length size)).note clientFd (.touched 0 size)
  if 0 ≤ msg.length ∧ msg.length + size ≤ bufSize then
    let payload := e.buf.load sizeofMessage (msg.length - sizeofMessage).toNat
    .next ((s.setBuf clientFd
      { buf := e.buf.move 0 msg.length.toNat size, used := e.used - msg.length }).note clientFd
        (.handled msg.length ⟨msg.type, payload⟩))
  else .fault s

def BufferEntry.header (e : BufferEntry) : Message := Message.ofBytes (e.buf.load 0 sizeofMessage)

def parseOnce (env : FrameEnv) (clientFd : Fd) (s : State) : Flow State :=
  let e := s.bufs clientFd
  if sizeT 64 e.used < sizeofMessage then .stop s
  else if e.used < e.header.length then .stop s
  else (handleFrame env clientFd e.header s).bind (consume clientFd e.header)

def receive (fd : Fd) (bs : List UInt8) (s : State) : State :=
  let e := s.bufs fd
  (s.setBuf fd { buf := e.buf.store e.used.toNat bs, used := e.used + bs.length }).note fd
    (.received bs)

def BufferEntry.room (e : BufferEntry) : Nat := sizeT 64 (bufSize - e.used)

/-- The call up to the parse loop, if the connection has not ended. -/
def readClient (clientFd : Fd) (bs : List UInt8) (s : State) : State :=
  let e := s.bufs clientFd
  receive clientFd bs (s.note clientFd (.touched e.used e.room))

/-- `fuel` bounds the passes of the parse loop. -/
def processClient (r : ReadResult) (env : Nat → FrameEnv) (removed : Bool) (fuel : Nat)
    (clientFd : Fd) (s : State) : Outcome State :=
  match r with
  | .error | .bytes [] => .stopped (freeClientFd removed clientFd s)
  | .bytes bs => iterate (fun k => parseOnce (env k) clientFd) fuel 0 (readClient clientFd bs s)

/-! ## `process_tun` -/

structure RouteEnv where
  write₁ : Nat → WriteResult
  write₂ : Nat → WriteResult

/-- `hdr.daddr`: bytes 16 to 19. -/
def BufferEntry.daddr (e : BufferEntry) : UInt32 := UInt32.ofNat (leNat (e.buf.load 16 4))

/-- One pass of the drain loop; a destination nobody holds leads back to its start. -/
def routeOnce (env : RouteEnv) (s : State) : Flow State :=
  let e := s.bufs s.tunFd
  if e.used < sizeofIphdr then .stop s
  else
    let iplen := e.used
    match searchUserInfoByAddr s.users e.daddr with
    | none => .next s
    | some id =>
        let clientFd := (s.users id).fd
        let reply : Message := ⟨int32 (iplen + sizeofMessage), msgDataRsb⟩
        let packet := e.buf.load 0 iplen.toNat
        let header := s.writeAll env.write₁ clientFd reply.bytes
        if header.2 < sizeofMessage then .stop header.1
        else
          let data := header.1.writeAll env.write₂ clientFd packet
          if data.2 < 0 then .stop data.1
          else
            let size := sizeT 64 (e.used - iplen)
            .next ((data.1.setBuf s.tunFd
              { buf := e.buf.move 0 iplen.toNat size, used := e.used - iplen }).note clientFd
                (.routed e.daddr packet))

def processTun (r : ReadResult) (env : Nat → RouteEnv) (fuel : Nat) (s : State) :
    Outcome State :=
  match r with
  | .error => .stopped s
  | .bytes bs => iterate (fun k => routeOnce (env k)) fuel 0 (receive s.tunFd bs s)

/-! ## `process_server` -/

/-- `accept` has returned `clientFd`; `added` is the answer of `epoll_ctl`. -/
def processServer (clientFd : Fd) (added : Bool) (s : State) : State :=
  let opened : State :=
    { s with conn := Function.update s.conn clientFd (some s.accepted), accepted := s.accepted + 1 }
  let s := (opened.note clientFd .accepted).setBuf clientFd { s.bufs clientFd with used := 0 }
  { s with watched := Function.update s.watched clientFd added }

/-! ## `process_heartbeat` -/

structure SweepEnv where
  time : Slot → Int
  write : Slot → Nat → WriteResult
  removed : Slot → Bool

def sendHeartbeat (env : SweepEnv) (i : Slot) (s : State) : State :=
  let u := s.users i
  if env.time i - u.lastHeartbeatSentSecs > heartbeatInterval then
    let w := s.writeAll (env.write i) u.fd (Message.bytes ⟨sizeofMessage, msgHeartbeat⟩)
    w.1.setUser i { u with lastHeartbeatSentSecs := env.time i }
  else s

def heartbeatEntry (env : SweepEnv) (s : State) (i : Slot) : State :=
  let u := s.users i
  if 0 ≤ u.fd ∧ u.status = false then
    let s := sendHeartbeat env i (s.note u.fd (.judged i (env.time i)))
    if env.time i - u.lastHeartbeatRecvedSecs > heartbeatTimeout then
      freeClientFd (env.removed i) u.fd s
    else s
  else s

def processHeartbeat (env : SweepEnv) (s : State) : State :=
  (List.finRange clientNum).foldl (heartbeatEntry env) s

end Over6.Server
