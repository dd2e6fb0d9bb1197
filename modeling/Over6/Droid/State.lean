import Over6.Kernel
import Over6.Lib.Memory
import Over6.Lib.Run
import Over6.Server.State
import Over6.Wire

/-! # The loop of DroidOver6Server

The server for a single client. Packets from the tun device are collected in
`ipBuffer` and leave in data frames of whatever the buffer holds; `ipBufferRemain`
counts the bytes of a frame that are still to be written.
-/

namespace Over6.Droid

open MachineInt EventRun
open Server (ascii)

abbrev ipPacketMaxSize : Nat := 65536
abbrev pipeBufLen : Nat := 65536 * 100

abbrev typeIpRequest : UInt8 := 100
abbrev typeIpReply : UInt8 := 101
abbrev typeRequest : UInt8 := 102
abbrev typeReply : UInt8 := 103
abbrev typeHeart : UInt8 := 104

/-- One `write()`: an error, or at most `n` bytes taken. -/
inductive Write where
  | error
  | took (n : Nat)
deriving DecidableEq, Repr

namespace Write

def ret (w : Write) (size : Nat) : Int :=
  match w with
  | error => -1
  | took n => (min n size : Nat)

def taken (w : Write) (bs : List UInt8) : List UInt8 := bs.take (w.ret bs.length).toNat

def Takes (w : Write) (size : Nat) : Prop := w.ret size = size

instance (w : Write) (size : Nat) : Decidable (w.Takes size) := inferInstanceAs (Decidable (_ = _))

end Write

/-! ## Buffers -/

/-- A buffer of `malloc`: what lies behind the bytes in use is whatever was there. -/
structure Buffer where
  buf : CellMemory UInt8
  used : Nat

namespace Buffer

def content (b : Buffer) : List UInt8 := b.buf.load 0 b.used

def append (b : Buffer) (bs : List UInt8) : Buffer where
  buf := b.buf.store b.used bs
  used := b.used + bs.length

/-- `memmove(buffer, buffer + n, *used - n)` and `*used -= n`. With a negative `n` the source begins
in front of the buffer, and what gets into the cells is undefined. -/
def dropFront (b : Buffer) (n : Int) : Buffer where
  buf := b.buf.move 0 n.toNat (b.used - n).toNat
  used := (b.used - n).toNat

/-- `endian_little_to_local_32(data->length)`. -/
def length (b : Buffer) : Nat := leNat (b.buf.load 0 4)

/-- `data->type`, read even where only four bytes are in use. -/
def type (b : Buffer) : UInt8 := b.buf 4

/-- The `size_t` that `over6Handle` takes the payload for; a length below that of the header wraps
around. -/
def actualSize (b : Buffer) : Nat := sizeT 64 ((b.length : Int) - sizeofMessage)

def Complete (b : Buffer) : Prop := 4 ≤ b.used ∧ b.length ≤ b.used

instance (b : Buffer) : Decidable b.Complete := inferInstanceAs (Decidable (_ ∧ _))

end Buffer

/-- `readToBuf()`, on what `read()` answers: it would block behind the last answer. The result is
`total`, or what the last call returned if that is 0. -/
def readToBuf : List ReadResult → Buffer → Int → Buffer × Int
  | .bytes (x :: xs) :: answers, b, total =>
      if b.used < pipeBufLen - ipPacketMaxSize then
        readToBuf answers (b.append (x :: xs)) (total + (x :: xs).length)
      else (b, total)
  | .bytes [] :: _, b, total => (b, total)
  | .error :: _, b, total =>
      if b.used < pipeBufLen - ipPacketMaxSize ∧ total = 0 then (b, -1) else (b, total)
  | [], b, total =>
      if b.used < pipeBufLen - ipPacketMaxSize ∧ total = 0 then (b, -1) else (b, total)

/-! ## State -/

inductive Side where
  | over6
  | tun
deriving DecidableEq, Repr

structure Report where
  side : Side
  /-- EPOLLIN -/
  input : Bool
  /-- EPOLLOUT -/
  output : Bool
  /-- EPOLLERR or EPOLLHUP -/
  failed : Bool
deriving DecidableEq, Repr

inductive Point where
  | waiting
  /-- events still to be handled -/
  | reports (rs : List Report)
  /-- at the top of the loop of `over6Handle` -/
  | packets (rs : List Report)
  /-- at the call of `rawToOver6` -/
  | data (rs : List Report)
  | stopped
  /-- a `memmove` out of range, behind a failed write -/
  | faulted
deriving DecidableEq, Repr

structure State where
  ipBuffer : Buffer
  ipBufferRemain : Nat
  over6PacketBuffer : Buffer
  lastHeartbeat : Int
  /-- EPOLLOUT is set for the tun device. -/
  tunOut : Bool
  /-- EPOLLOUT is set for the client. -/
  over6Out : Bool
  point : Point
  /-- What was written to `tun_dev_fd`: the size asked for, and the bytes taken. -/
  toTun : List (Nat × List UInt8)
  /-- What was written to `over6_fd`. -/
  sent : List UInt8
  /-- The frames of which something was to be written there, in this order. -/
  begun : List Frame

def initState (time : Int) (ipMem over6Mem : CellMemory UInt8) : State where
  ipBuffer := ⟨ipMem, 0⟩
  ipBufferRemain := 0
  over6PacketBuffer := ⟨over6Mem, 0⟩
  lastHeartbeat := int32 time
  tunOut := true
  over6Out := true
  point := .waiting
  toTun := []
  sent := []
  begun := []

namespace State

def put (s : State) (w : Write) (bs : List UInt8) : State := { s with sent := s.sent ++ w.taken bs }

def begin (s : State) (f : Frame) : State := { s with begun := s.begun ++ [f] }

/-- Header and payload in two writes. -/
def putFrame (s : State) (f : Frame) (header payload : Write) : State :=
  ((s.begin f).put header f.message.bytes).put payload f.payload

/-- `epoll_wait()` may return these: one entry a descriptor, and EPOLLOUT where it is set. -/
def Reported (s : State) (rs : List Report) : Prop :=
  (rs.map Report.side).Nodup ∧
    ∀ r ∈ rs, r.output = true →
      match r.side with
      | .over6 => s.over6Out = true
      | .tun => s.tunOut = true

instance (s : State) (rs : List Report) : Decidable (s.Reported rs) := by
  have h : ∀ r : Report, Decidable (match r.side with
      | .over6 => s.over6Out = true
      | .tun => s.tunOut = true) := fun r => by
    split <;> infer_instance
  unfold Reported
  infer_instance

end State

/-! ## The handlers -/

def replyText : List UInt8 := ascii "10.10.10.2 255.255.255.0 166.111.8.28 166.111.8.29 8.8.8.8"

/-- The NUL is part of `sizeof(reply)`. -/
def ipReply : Frame := ⟨typeIpReply, replyText ++ [0]⟩

def heartbeat : Frame := ⟨typeHeart, []⟩

/-- `write(fd, data->data, actual_size)`. The kernel refuses a size that is negative as a signed
number. -/
def State.putTun (s : State) (w : Write) : State :=
  let size := s.over6PacketBuffer.actualSize
  let taken :=
    if size < 2 ^ 63 then w.taken (s.over6PacketBuffer.buf.load sizeofMessage size) else []
  { s with toTun := s.toTun ++ [(size, taken)] }

def handlePacket (tun header reply : Write) (s : State) : State :=
  if s.over6PacketBuffer.type = typeHeart then s
  else if s.over6PacketBuffer.type = typeRequest then s.putTun tun
  else if s.over6PacketBuffer.type = typeIpRequest then s.putFrame ipReply header reply
  else s

def over6Handle (tun header reply : Write) (rs : List Report) (s : State) : State :=
  if s.over6PacketBuffer.Complete then
    { handlePacket tun header reply s with
      over6PacketBuffer := s.over6PacketBuffer.dropFront s.over6PacketBuffer.length }
  else { s with point := .reports rs }

/-- The end of `rawToOver6`: the write of `size` bytes has returned `temp`. -/
def State.transferred (s : State) (temp : Int) (size : Nat) (rs : List Report) : State :=
  { s with
    ipBufferRemain := (size - temp).toNat
    ipBuffer := s.ipBuffer.dropFront temp
    point := if temp < 0 then .faulted else .reports rs }

def rawToOver6 (header payload : Write) (rs : List Report) (s : State) : State :=
  if s.ipBuffer.used = 0 then { s with point := .reports rs }
  else if s.ipBufferRemain = 0 then
    (s.putFrame ⟨typeReply, s.ipBuffer.content⟩ header payload).transferred
      (payload.ret s.ipBuffer.used) s.ipBuffer.used rs
  else
    (s.put payload (s.ipBuffer.buf.load 0 s.ipBufferRemain)).transferred
      (payload.ret s.ipBufferRemain) s.ipBufferRemain rs

def handleInput (side : Side) (answers : List ReadResult) (s : State) : State :=
  match side with
  | .tun => { s with ipBuffer := (readToBuf answers s.ipBuffer 0).1 }
  | .over6 =>
      let read := readToBuf answers s.over6PacketBuffer 0
      let s := { s with over6PacketBuffer := read.1 }
      if read.2 = 0 then { s with point := .stopped } else s

/-- The EPOLLOUT branch calls one of the two handlers. -/
def handleOutput (r : Report) (rs : List Report) (s : State) : State :=
  if s.point = .stopped then s
  else if r.output then
    match r.side with
    | .tun => { s with point := .packets rs }
    | .over6 => { s with point := .data rs }
  else { s with point := .reports rs }

def handleReport (r : Report) (rs : List Report) (answers : List ReadResult) (s : State) : State :=
  if r.failed then { s with point := .stopped }
  else if r.input then handleOutput r rs (handleInput r.side answers s)
  else handleOutput r rs s

def keepAlive (now later : Int) (beat : Write) (s : State) : State :=
  if now - s.lastHeartbeat > 20 ∧ s.ipBufferRemain = 0 then
    { (s.begin heartbeat).put beat heartbeat.message.bytes with lastHeartbeat := int32 later }
  else s

def setupEvents (s : State) : State :=
  { s with
    tunOut := decide (0 < s.over6PacketBuffer.used)
    over6Out := decide (0 < s.ipBuffer.used)
    point := .waiting }

/-! ## Steps -/

/-- What the kernel answers to the calls of one step. -/
inductive Input where
  /-- `epoll_wait` returns. -/
  | wait (rs : List Report)
  /-- The next entry of `events`. -/
  | report (answers : List ReadResult)
  /-- A pass of `over6Handle`. -/
  | packet (tun header reply : Write)
  /-- `rawToOver6`. -/
  | data (header payload : Write)
  /-- Behind the last entry, with what `time()` returns. -/
  | round (now later : Int) (beat : Write)
deriving DecidableEq, Repr

def step (s : State) : Input → Option State
  | .wait rs =>
      match s.point with
      | .waiting => if s.Reported rs then some { s with point := .reports rs } else none
      | _ => none
  | .report answers =>
      match s.point with
      | .reports (r :: rs) =>
          if ∀ a ∈ answers, a.Fits ipPacketMaxSize then some (handleReport r rs answers s) else none
      | _ => none
  | .packet tun header reply =>
      match s.point with
      | .packets rs => some (over6Handle tun header reply rs s)
      | _ => none
  | .data header payload =>
      match s.point with
      | .data rs => some (rawToOver6 header payload rs s)
      | _ => none
  | .round now later beat =>
      match s.point with
      | .reports [] => some (setupEvents (keepAlive now later beat s))
      | _ => none

def runFrom (time : Int) (ipMem over6Mem : CellMemory UInt8) (es : List Input) : Option State :=
  run step (initState time ipMem over6Mem) es

end Over6.Droid
