import Over6.Kernel
import Over6.Lib.Decimal
import Over6.Lib.Journal
import Over6.Lib.Loop
import Over6.Lib.Memory
import Over6.Wire

/-! # State of the epoll server

The user table, the receive buffers and the part of the kernel the handlers talk
to: which connection is open on a descriptor number and which descriptors epoll
watches. Descriptor numbers are recycled, connections are not. A log keeps what
happened, newest first; no handler reads it.
-/

namespace Over6.Server

open MachineInt BoundedLoop Journal

/-- Connections in the order they were accepted. -/
abbrev Conn := Nat

abbrev clientNum : Nat := 256
abbrev bufSize : Nat := 65536
abbrev heartbeatInterval : Int := 20
abbrev heartbeatTimeout : Int := 60

abbrev sizeofIphdr : Int := 20

/-- An index into `users[]`. -/
abbrev Slot := Fin 256

/-- Slots are written as numerals. -/
instance neZero_slots : NeZero 256 := ⟨by decide⟩

def ascii (s : String) : List UInt8 := s.toList.map fun c => UInt8.ofNat c.toNat

def addressPrefix : List UInt8 := ascii "13.8.0"
def dns1 : List UInt8 := ascii "166.111.8.28"
def dns2 : List UInt8 := ascii "166.111.8.29"
def dns3 : List UInt8 := ascii "8.8.8.8"

/-- `User_Info_Table`; `status` is set while the address can be allocated. -/
structure UserInfo where
  addr : List UInt8
  status : Bool
  fd : Fd
  lastHeartbeatSentSecs : Int
  lastHeartbeatRecvedSecs : Int
  v4addr : UInt32

/-- `buffer_entry`; the bytes from `used` on are stale. -/
structure BufferEntry where
  buf : CellMemory UInt8
  used : Int

abbrev Users := Slot → UserInfo

/-- What `MainThread` has opened; it gives up on any of the three. -/
structure Descriptors where
  serverFd : Fd
  tunFd : Fd
  epollFd : Fd
  nonneg : 0 ≤ serverFd ∧ 0 ≤ tunFd ∧ 0 ≤ epollFd

/-! ## The log -/

/-- Why `process_client` returned before it consumed the frame at the front. -/
inductive Failure where
  | poolFull
  | replyHeader
  | replyData
  | tunData
deriving DecidableEq, Repr

inductive Act where
  | accepted
  | received (bs : List UInt8)
  /-- `[start, start + size)` of the descriptor's buffer is handed to `read`, `write_all` or
  `memmove`. -/
  | touched (start size : Int)
  /-- An IP request is met; `second` tells whether the descriptor owns an entry already and is
  given another one. -/
  | requested (second : Bool)
  | granted (i : Slot) (recvedSecs : Int)
  | replied (text : List UInt8)
  /-- What `write_all` put on the descriptor and the value it returned. -/
  | wrote (bs : List UInt8) (ret : Int)
  | kept (id : Option Slot) (recvedSecs : Int)
  | failed (why : Failure)
  /-- A frame was handled and taken out of the buffer. -/
  | handled (length : Int) (frame : Frame)
  | routed (daddr : UInt32) (packet : List UInt8)
  /-- `process_heartbeat` looks at an entry at the given clock value. -/
  | judged (i : Slot) (now : Int)
  | released (i : Slot)
  | closed
deriving DecidableEq, Repr

/-- Something that happened on a descriptor, with the connection open on it at that moment. -/
structure Record where
  conn : Option Conn
  fd : Fd
  act : Act
deriving DecidableEq, Repr

def onConn {α : Type} (c : Conn) (pick : Act → List α) (r : Record) : List α :=
  if r.conn = some c then pick r.act else []

theorem onConn_eq_nil {α : Type} {c : Conn} {pick : Act → List α} {r : Record}
    (h : r.conn = some c → pick r.act = []) : onConn c pick r = [] := by
  unfold onConn
  split
  · exact h ‹_›
  · rfl

/-! ## The state -/

structure State where
  users : Users
  bufs : Fd → BufferEntry
  fds : Descriptors
  /-- The connection a descriptor number denotes, while it is open. -/
  conn : Fd → Option Conn
  /-- The client descriptors registered with epoll. -/
  watched : Fd → Bool
  accepted : Nat
  log : List Record

/-- What an update does not change is the same everywhere. -/
theorem update_unchanged {α β γ : Type} [DecidableEq α] (p : β → γ) {f : α → β} {i : α} {b : β}
    (h : p b = p (f i)) (j : α) : p (Function.update f i b j) = p (f j) := by
  by_cases hj : j = i
  · subst hj
    rw [Function.update_self, h]
  · rw [Function.update_of_ne hj]

namespace State

abbrev tunFd (s : State) : Fd := s.fds.tunFd

def note (s : State) (fd : Fd) (act : Act) : State :=
  { s with log := ⟨s.conn fd, fd, act⟩ :: s.log }

def setUser (s : State) (i : Slot) (u : UserInfo) : State :=
  { s with users := Function.update s.users i u }

def setBuf (s : State) (fd : Fd) (e : BufferEntry) : State :=
  { s with bufs := Function.update s.bufs fd e }

/-- The descriptor number denotes something that can be written to. -/
def isOpen (s : State) (fd : Fd) : Bool := (s.conn fd).isSome || fd == s.tunFd

@[simp] theorem note_log (s : State) (fd : Fd) (act : Act) :
    (s.note fd act).log = ⟨s.conn fd, fd, act⟩ :: s.log := rfl
@[simp] theorem note_users (s : State) (fd : Fd) (act : Act) :
    (s.note fd act).users = s.users := rfl
@[simp] theorem note_bufs (s : State) (fd : Fd) (act : Act) :
    (s.note fd act).bufs = s.bufs := rfl
@[simp] theorem note_conn (s : State) (fd : Fd) (act : Act) :
    (s.note fd act).conn = s.conn := rfl
@[simp] theorem note_watched (s : State) (fd : Fd) (act : Act) :
    (s.note fd act).watched = s.watched := rfl
@[simp] theorem note_accepted (s : State) (fd : Fd) (act : Act) :
    (s.note fd act).accepted = s.accepted := rfl
@[simp] theorem note_fds (s : State) (fd : Fd) (act : Act) :
    (s.note fd act).fds = s.fds := rfl

@[simp] theorem setUser_log (s : State) (i : Slot) (u : UserInfo) :
    (s.setUser i u).log = s.log := rfl
@[simp] theorem setUser_users (s : State) (i : Slot) (u : UserInfo) :
    (s.setUser i u).users = Function.update s.users i u := rfl
@[simp] theorem setUser_bufs (s : State) (i : Slot) (u : UserInfo) :
    (s.setUser i u).bufs = s.bufs := rfl
@[simp] theorem setUser_conn (s : State) (i : Slot) (u : UserInfo) :
    (s.setUser i u).conn = s.conn := rfl
@[simp] theorem setUser_watched (s : State) (i : Slot) (u : UserInfo) :
    (s.setUser i u).watched = s.watched := rfl
@[simp] theorem setUser_accepted (s : State) (i : Slot) (u : UserInfo) :
    (s.setUser i u).accepted = s.accepted := rfl
@[simp] theorem setUser_fds (s : State) (i : Slot) (u : UserInfo) :
    (s.setUser i u).fds = s.fds := rfl

@[simp] theorem setBuf_log (s : State) (fd : Fd) (e : BufferEntry) :
    (s.setBuf fd e).log = s.log := rfl
@[simp] theorem setBuf_users (s : State) (fd : Fd) (e : BufferEntry) :
    (s.setBuf fd e).users = s.users := rfl
@[simp] theorem setBuf_bufs (s : State) (fd : Fd) (e : BufferEntry) :
    (s.setBuf fd e).bufs = Function.update s.bufs fd e := rfl
@[simp] theorem setBuf_conn (s : State) (fd : Fd) (e : BufferEntry) :
    (s.setBuf fd e).conn = s.conn := rfl
@[simp] theorem setBuf_watched (s : State) (fd : Fd) (e : BufferEntry) :
    (s.setBuf fd e).watched = s.watched := rfl
@[simp] theorem setBuf_accepted (s : State) (fd : Fd) (e : BufferEntry) :
    (s.setBuf fd e).accepted = s.accepted := rfl
@[simp] theorem setBuf_fds (s : State) (fd : Fd) (e : BufferEntry) :
    (s.setBuf fd e).fds = s.fds := rfl

end State

/-! ## Initialisation -/

/-- The text `sprintf` puts into entry `i`. -/
def slotText (i : Slot) : List UInt8 := addressPrefix ++ ascii "." ++ Decimal.text i

/-- Addresses `.0`, `.1` and `.255` are never handed out. -/
def reserved (i : Slot) : Bool := i == 0 || i == 1 || i == 255

/-- The state `MainThread` leaves behind; `v4addr`, the clocks and the buffers are static zeros. -/
def initState (fds : Descriptors) : State where
  users i :=
    { addr := slotText i, status := !reserved i, fd := -1,
      lastHeartbeatSentSecs := 0, lastHeartbeatRecvedSecs := 0, v4addr := 0 }
  bufs _ := { buf := fun _ => 0, used := 0 }
  fds := fds
  conn _ := none
  watched _ := false
  accepted := 0
  log := []

end Over6.Server
