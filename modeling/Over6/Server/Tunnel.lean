import Over6.Server.Output

/-! # Packets and clients whose writes fail

`process_tun` call after call, each for a packet to an address that somebody holds.
What the kernel answers to the writes is part of the call.
-/

namespace Over6.Server

open MachineInt BoundedLoop EventRun Journal

abbrev ProcessTun := ReadResult → (Nat → RouteEnv) → Nat → State → Outcome State

/-! ## The server that `run.sh` builds

`server/Server/main.cpp` has the same table, searches and `write_all`, under other
names of the fields. Its `process_tun` gives up a packet whose destination nobody
holds.
-/

namespace Built

def routeOnce (env : RouteEnv) (s : State) : Flow State :=
  let e := s.bufs s.tunFd
  if e.used < sizeofIphdr then .stop s
  else
    let iplen := e.used
    if e.used < iplen then .stop s
    else
      let size := sizeT 64 (e.used - iplen)
      let behind : BufferEntry := { buf := e.buf.move 0 iplen.toNat size, used := e.used - iplen }
      match searchUserInfoByAddr s.users e.daddr with
      | none => .next (s.setBuf s.tunFd behind)
      | some id =>
          let clientFd := (s.users id).fd
          let reply : Message := ⟨int32 (iplen + sizeofMessage), msgDataRsb⟩
          let packet := e.buf.load 0 iplen.toNat
          let header := s.writeAll env.write₁ clientFd reply.bytes
          if header.2 < sizeofMessage then .stop header.1
          else
            let data := header.1.writeAll env.write₂ clientFd packet
            if data.2 < 0 then .stop data.1
            else .next ((data.1.setBuf s.tunFd behind).note clientFd (.routed e.daddr packet))

def processTun : ProcessTun := fun r env fuel s =>
  match r with
  | .error => .stopped s
  | .bytes bs => iterate (fun k => Built.routeOnce (env k)) fuel 0 (receive s.tunFd bs s)

end Built

/-- A function that drains the tun as `process_tun` does while the destinations are known. -/
def DrainsKnown (process : ProcessTun) : Prop :=
  ∃ once : RouteEnv → State → Flow State,
    (∀ bs env fuel s, process (.bytes bs) env fuel s =
      iterate (fun k => once (env k)) fuel 0 (receive s.tunFd bs s)) ∧
    ∀ env s, (s.bufs s.tunFd).used < sizeofIphdr ∨
      (∃ i, searchUserInfoByAddr s.users (s.bufs s.tunFd).daddr = some i) →
      once env s = routeOnce env s

theorem processTun_drainsKnown : DrainsKnown processTun :=
  ⟨routeOnce, fun _ _ _ _ => rfl, fun _ _ _ => rfl⟩

theorem Built.processTun_drainsKnown : DrainsKnown Built.processTun := by
  refine ⟨Built.routeOnce, fun _ _ _ _ => rfl, ?_⟩
  intro env s hknown
  unfold Built.routeOnce Server.routeOnce
  by_cases hshort : (s.bufs s.tunFd).used < sizeofIphdr
  · simp only [hshort, if_true]
  · obtain ⟨i, hi⟩ := hknown.resolve_left hshort
    simp only [hshort, if_false, hi, Int.lt_irrefl]

/-! ## Calls -/

/-- A packet read from the tun and the answers to the writes of its call. -/
structure TunCall where
  packet : List UInt8
  env : Nat → RouteEnv

namespace TunCall

def holder (call : TunCall) (s : State) : Option Slot :=
  searchUserInfoByAddr s.users (destination call.packet)

/-- An IP packet for an allocated address. -/
def Destined (call : TunCall) (s : State) : Prop :=
  20 ≤ call.packet.length ∧ call.packet.length ≤ bufSize ∧ (call.holder s).isSome = true

instance (call : TunCall) (s : State) : Decidable (call.Destined s) :=
  inferInstanceAs (Decidable (_ ∧ _))

def IsFor (call : TunCall) (s : State) (c : Conn) : Bool :=
  (call.holder s).any fun i => s.conn (s.users i).fd == some c

/-- No write of the call fails: the descriptor of the holder is open, and `write_all` gets both the
header and the packet across. -/
def GetsThrough (call : TunCall) (s : State) : Prop :=
  ∃ i, call.holder s = some i ∧ s.isOpen (s.users i).fd = true ∧
    (writeAll (call.env 0).write₁ (Frame.message ⟨msgDataRsb, call.packet⟩).bytes).2 =
      sizeofMessage ∧
    (writeAll (call.env 0).write₂ call.packet).2 = call.packet.length

end TunCall

/-- One call; a packet takes two passes, one that routes it and one that finds the buffer empty. -/
def tunCall (process : ProcessTun) (s : State) (call : TunCall) : Option State :=
  if call.packet.length ≤ (s.bufs s.tunFd).room then
    (process (.bytes call.packet) call.env 2 s).returned
  else none

def addressed (s : State) (c : Conn) (calls : List TunCall) : List Frame :=
  (calls.filter fun call => call.IsFor s c).map fun call => ⟨msgDataRsb, call.packet⟩

/-- Between `s` and `s'` the packets of the calls went through without disturbing each other. -/
structure Unharmed (s s' : State) (calls : List TunCall) : Prop where
  drained : (s'.bufs s'.tunFd).used = 0
  /-- Every data frame carries one packet. -/
  single : ∃ new, s'.log = new ++ s.log ∧ ∀ r ∈ new, ∀ addr packet,
    r.act = .routed addr packet → ∃ call ∈ calls, call.packet = packet
  /-- Whoever's own writes succeed has got its packets, in order, and nothing else. -/
  delivered : ∀ c, (∀ call ∈ calls, call.IsFor s c = true → call.GetsThrough s) →
    written c s'.log = written c s.log ++ frameCode.stream (addressed s c calls)

/-! ## One call -/

section Passes

variable {s : State} {env : RouteEnv} {i : Slot}

theorem State.writeAll_ret (s : State) (write : Nat → WriteResult) {fd : Fd}
    (hopen : s.isOpen fd = true) (bs : List UInt8) :
    (s.writeAll write fd bs).2 = (Server.writeAll write bs).2 := by
  rw [State.writeAll, if_pos hopen]

/-- What gets across says that the descriptor is open. -/
theorem State.open_of_writeAll {s : State} (write : Nat → WriteResult) {fd : Fd} {bs : List UInt8}
    (hne : bs ≠ []) (h : (s.writeAll write fd bs).2 = bs.length) : s.isOpen fd = true := by
  by_contra hclosed
  rw [s.writeAll_of_closed write (by simpa using hclosed) hne] at h
  have hneg : (-1 : Int) = bs.length := h
  omega

def State.Carries (s : State) (env : RouteEnv) (fd : Fd) : Prop :=
  s.isOpen fd = true ∧
    (Server.writeAll env.write₁ (replyHeader (s.bufs s.tunFd).used)).2 = sizeofMessage ∧
    (Server.writeAll env.write₂ s.packet).2 = s.packet.length

theorem replyHeader_ne_nil (iplen : Int) : replyHeader iplen ≠ [] := by
  intro hnil
  have hlen := replyHeader_length iplen
  rw [hnil] at hlen
  cases hlen

variable (hlong : sizeofIphdr ≤ (s.bufs s.tunFd).used)
  (hsome : searchUserInfoByAddr s.users (s.bufs s.tunFd).daddr = some i)

include hlong hsome

theorem routeOnce_of_carries (h : s.Carries env (s.users i).fd) :
    routeOnce env s = .next (s.routedTo (s.users i).fd) := by
  obtain ⟨hopen, hheader, hpacket⟩ := h
  have hroute := routeOnce_route env s
  have hw₁ := s.writeAll_spec env.write₁ (s.users i).fd (replyHeader (s.bufs s.tunFd).used)
  have hw₂ := (s.note (s.users i).fd
    (.wrote (replyHeader (s.bufs s.tunFd).used) 5)).writeAll_spec env.write₂ (s.users i).fd s.packet
  rw [replyHeader_length] at hw₁
  rcases hw₁ with hw₁ | ⟨sent, _, hw₁⟩
  · rcases hw₂ with hw₂ | ⟨sent, _, hw₂⟩
    · have hnonneg : ¬ ((s.packet.length : Nat) : Int) < 0 := Int.not_lt.mpr (Int.natCast_nonneg _)
      unfold routeOnce
      simp only [Int.not_lt.mpr hlong, if_false, hsome]
      rw [← replyHeader, ← State.packet]
      simp only [hw₁, hw₂, hnonneg, Int.lt_irrefl, if_false, Nat.cast_ofNat, Int.sub_self]
      rfl
    · have hret := (s.note (s.users i).fd
        (.wrote (replyHeader (s.bufs s.tunFd).used) 5)).writeAll_ret env.write₂ hopen s.packet
      rw [hw₂, hpacket] at hret
      have hneg : (-1 : Int) = s.packet.length := hret
      omega
  · have hret := s.writeAll_ret env.write₁ hopen (replyHeader (s.bufs s.tunFd).used)
    rw [hw₁, hheader] at hret
    exact absurd hret (show (-1 : Int) ≠ (5 : Nat) by decide)

/-- Otherwise the loop is left with the packet still in the buffer. -/
theorem routeOnce_of_not_carries (h : ¬ s.Carries env (s.users i).fd) :
    ∃ s', routeOnce env s = .stop s' ∧ s'.bufs = s.bufs ∧ s'.fds = s.fds := by
  have hw₁ := s.writeAll_spec env.write₁ (s.users i).fd (replyHeader (s.bufs s.tunFd).used)
  have hw₂ := (s.note (s.users i).fd
    (.wrote (replyHeader (s.bufs s.tunFd).used) 5)).writeAll_spec env.write₂ (s.users i).fd s.packet
  rw [replyHeader_length] at hw₁
  unfold routeOnce
  simp only [Int.not_lt.mpr hlong, if_false, hsome]
  rw [← replyHeader, ← State.packet]
  rcases hw₁ with hw₁ | ⟨sent, _, hw₁⟩
  · have hopen : s.isOpen (s.users i).fd = true := by
      refine State.open_of_writeAll env.write₁ (replyHeader_ne_nil (s.bufs s.tunFd).used) ?_
      rw [hw₁, replyHeader_length]
    rcases hw₂ with hw₂ | ⟨sent, _, hw₂⟩
    · refine absurd ⟨hopen, ?_, ?_⟩ h
      · rw [← s.writeAll_ret env.write₁ hopen, hw₁]
      · rw [← (s.note (s.users i).fd
          (.wrote (replyHeader (s.bufs s.tunFd).used) 5)).writeAll_ret env.write₂ hopen, hw₂]
    · simp only [hw₁, hw₂, show (-1 : Int) < 0 by decide, Int.lt_irrefl, if_true, if_false,
        Nat.cast_ofNat]
      exact ⟨_, rfl, rfl, rfl⟩
  · simp only [hw₁, show (-1 : Int) < (sizeofMessage : Nat) by decide, if_true]
    exact ⟨_, rfl, rfl, rfl⟩

end Passes

/-- What the first pass finds when a packet has come into the empty buffer. -/
structure Arrived (s t : State) (packet : List UInt8) : Prop where
  bounded : t.Bounded
  users : t.users = s.users
  conn : t.conn = s.conn
  fds : t.fds = s.fds
  whole : t.packet = packet
  long : sizeofIphdr ≤ (t.bufs t.tunFd).used
  daddr : (t.bufs t.tunFd).daddr = destination packet
  header : replyHeader (t.bufs t.tunFd).used = (Frame.message ⟨msgDataRsb, packet⟩).bytes
  log : ∃ bs, t.log = ⟨s.conn s.tunFd, s.tunFd, .received bs⟩ :: s.log

theorem arrived {s : State} (hs : s.Bounded) (hempty : (s.bufs s.tunFd).used = 0)
    {packet : List UInt8} (hmin : 20 ≤ packet.length) (hmax : packet.length ≤ bufSize) :
    Arrived s (receive s.tunFd packet s) packet := by
  obtain ⟨hused, hpacket⟩ := receive_packet hs hempty packet
  have hroom := (hs s.tunFd).room
  have ht : (receive s.tunFd packet s).Bounded := hs.pass (.readTun packet (by omega))
  have haddr := daddr_of_packet (s := receive s.tunFd packet s) (by rw [hpacket]; exact hmin)
  refine ⟨ht, rfl, rfl, rfl, hpacket, ?_, by rw [haddr, hpacket], ?_, packet, rfl⟩
  · change sizeofIphdr ≤ ((receive s.tunFd packet s).bufs s.tunFd).used
    rw [hused]
    exact Int.ofNat_le.mpr hmin
  · rw [replyHeader_eq ht, hpacket]

/-- Packets that went through have left nothing but their frames. -/
structure Delivers (s s' : State) (calls : List TunCall) : Prop where
  users : s'.users = s.users
  conn : s'.conn = s.conn
  fds : s'.fds = s.fds
  bounded : s'.Bounded
  drained : (s'.bufs s'.tunFd).used = 0
  single : ∃ new, s'.log = new ++ s.log ∧ ∀ r ∈ new, ∀ addr packet,
    r.act = .routed addr packet → ∃ call ∈ calls, call.packet = packet
  delivered : ∀ c, written c s'.log = written c s.log ++ frameCode.stream (addressed s c calls)

theorem State.routedTo_emits_nothing {s : State} {fd : Fd} {c : Conn} (hc : s.conn fd ≠ some c) :
    Emits c s.log (s.routedTo fd).log [] :=
  (((Emits.refl c s.log).note fun h => absurd h hc).note fun h => absurd h hc).note
    fun h => absurd h hc

theorem Arrived.delivers {s t : State} {call : TunCall} {i : Slot} (h : Arrived s t call.packet)
    (hi : call.holder s = some i) : Delivers s (t.routedTo (s.users i).fd) [call] := by
  obtain ⟨bs, hlog⟩ := h.log
  have hread : ∀ c, written c t.log = written c s.log := by
    intro c
    rw [hlog]
    simp [written, onConn, Act.put]
  refine ⟨h.users, h.conn, h.fds, ?_, t.routedTo_used (s.users i).fd, ?_, ?_⟩
  · exact h.bounded.update ⟨Int.le_refl 0, Int.natCast_nonneg bufSize⟩ rfl
  · refine ⟨[⟨t.conn (s.users i).fd, (s.users i).fd, .routed (t.bufs t.tunFd).daddr t.packet⟩,
      ⟨t.conn (s.users i).fd, (s.users i).fd, .wrote t.packet t.packet.length⟩,
      ⟨t.conn (s.users i).fd, (s.users i).fd, .wrote (replyHeader (t.bufs t.tunFd).used) 5⟩,
      ⟨s.conn s.tunFd, s.tunFd, .received bs⟩], ?_, ?_⟩
    · rw [State.routedTo]
      simp [hlog]
    · intro r hr addr packet hact
      simp only [List.mem_cons, List.not_mem_nil, or_false] at hr
      rcases hr with rfl | rfl | rfl | rfl
      · cases hact
        exact ⟨call, List.mem_cons_self, h.whole.symm⟩
      · cases hact
      · cases hact
      · cases hact
  · intro c
    by_cases hc : s.conn (s.users i).fd = some c
    · have hfor : addressed s c [call] = [⟨msgDataRsb, call.packet⟩] := by
        simp [addressed, TunCall.IsFor, hi, hc]
      have hc' : t.conn (s.users i).fd = some c := by rw [h.conn, hc]
      rw [(State.routedTo_emits h.bounded h.long hc').bytes, hread, hfor, h.whole]
    · have hfor : addressed s c [call] = [] := by simp [addressed, TunCall.IsFor, hi, hc]
      have hc' : t.conn (s.users i).fd ≠ some c := by rwa [h.conn]
      rw [(State.routedTo_emits_nothing hc').bytes, hread, hfor]

theorem TunCall.GetsThrough.carries {s t : State} {call : TunCall} (h : Arrived s t call.packet)
    {i : Slot} (hi : call.holder s = some i) :
    t.Carries (call.env 0) (s.users i).fd ↔ call.GetsThrough s := by
  have hopen : t.isOpen (s.users i).fd = s.isOpen (s.users i).fd := by
    rw [State.isOpen, State.isOpen, State.tunFd, State.tunFd, h.conn, h.fds]
  rw [State.Carries, hopen, h.header, h.whole]
  constructor
  · intro hcarries
    exact ⟨i, hi, hcarries⟩
  · rintro ⟨j, hj, hcarries⟩
    obtain rfl := Option.some.inj (hi.symm.trans hj)
    exact hcarries

/-- Either the packet goes through and nothing remains, or it remains. -/
theorem tunCall_spec {process : ProcessTun} (hprocess : DrainsKnown process) {s : State}
    (hs : s.Bounded) (hempty : (s.bufs s.tunFd).used = 0) {call : TunCall}
    (hdest : call.Destined s) :
    ∃ s', tunCall process s call = some s' ∧ (call.GetsThrough s → Delivers s s' [call]) ∧
      (¬ call.GetsThrough s → (s'.bufs s'.tunFd).used ≠ 0) := by
  obtain ⟨hmin, hmax, hsome⟩ := hdest
  obtain ⟨i, hi⟩ := Option.isSome_iff_exists.mp hsome
  obtain ⟨once, honce, hsame⟩ := hprocess
  have hroom := (hs s.tunFd).room
  have hcap : (bufSize : Int) = 65536 := rfl
  have hfits : call.packet.length ≤ (s.bufs s.tunFd).room := by omega
  have h := arrived hs hempty hmin hmax
  rw [tunCall, if_pos hfits, honce]
  generalize receive s.tunFd call.packet s = t at h
  have hknown : searchUserInfoByAddr t.users (t.bufs t.tunFd).daddr = some i := by
    rw [h.users, h.daddr]
    exact hi
  have hfirst := hsame (call.env 0) t (.inr ⟨i, hknown⟩)
  by_cases hgets : call.GetsThrough s
  · have hcarries := (TunCall.GetsThrough.carries h hi).mpr hgets
    rw [← h.users] at hcarries
    rw [routeOnce_of_carries h.long hknown hcarries, h.users] at hfirst
    have hempty' : ((t.routedTo (s.users i).fd).bufs (t.routedTo (s.users i).fd).tunFd).used <
        sizeofIphdr := by
      rw [t.routedTo_used]
      decide
    have hsecond := hsame (call.env 1) _ (.inl hempty')
    rw [routeOnce_of_short _ hempty'] at hsecond
    refine ⟨t.routedTo (s.users i).fd, ?_, fun _ => h.delivers hi, fun hnot => absurd hgets hnot⟩
    rw [iterate_of_next _ hfirst, iterate_of_stop _ hsecond]
    rfl
  · have hnot : ¬ t.Carries (call.env 0) (t.users i).fd := by
      rw [h.users, TunCall.GetsThrough.carries h hi]
      exact hgets
    obtain ⟨s', hstop, hbufs, hfds⟩ := routeOnce_of_not_carries h.long hknown hnot
    rw [hstop] at hfirst
    refine ⟨s', ?_, fun h => absurd h hgets, fun _ => ?_⟩
    · rw [iterate_of_stop _ hfirst]
      rfl
    · have hlong := h.long
      have htun : s'.tunFd = t.tunFd := by rw [State.tunFd, hfds]
      have htwenty : sizeofIphdr = 20 := rfl
      rw [hbufs, htun]
      omega

/-! ## Many calls -/

namespace Delivers

variable {s t s' : State} {calls : List TunCall}

theorem refl (hs : s.Bounded) (hempty : (s.bufs s.tunFd).used = 0) : Delivers s s [] :=
  ⟨rfl, rfl, rfl, hs, hempty, ⟨[], rfl, by simp⟩, fun _ => (List.append_nil _).symm⟩

/-- The table and the connections are the same. -/
theorem holder (h : Delivers s t calls) (call : TunCall) : call.holder t = call.holder s := by
  rw [TunCall.holder, TunCall.holder, h.users]

theorem destined (h : Delivers s t calls) {call : TunCall} (hdest : call.Destined s) :
    call.Destined t := by
  rw [TunCall.Destined, h.holder]
  exact hdest

theorem getsThrough (h : Delivers s t calls) (call : TunCall) :
    call.GetsThrough t ↔ call.GetsThrough s := by
  rw [TunCall.GetsThrough, TunCall.GetsThrough, h.holder, h.users]
  simp only [State.isOpen, State.tunFd, h.conn, h.fds]

theorem addressed (h : Delivers s t calls) (c : Conn) (calls' : List TunCall) :
    addressed t c calls' = Server.addressed s c calls' := by
  have hfor : ∀ call : TunCall, call.IsFor t c = call.IsFor s c := by
    intro call
    rw [TunCall.IsFor, TunCall.IsFor, h.holder, h.users, h.conn]
  simp only [Server.addressed, hfor]

theorem cons {call : TunCall} (h : Delivers s t [call]) (h' : Delivers t s' calls) :
    Delivers s s' (call :: calls) := by
  obtain ⟨new, hlog, hnew⟩ := h.single
  obtain ⟨new', hlog', hnew'⟩ := h'.single
  refine ⟨h'.users.trans h.users, h'.conn.trans h.conn, h'.fds.trans h.fds, h'.bounded, h'.drained,
    ⟨new' ++ new, by rw [hlog', hlog, List.append_assoc], ?_⟩, ?_⟩
  · intro r hr addr packet hact
    rcases List.mem_append.mp hr with hr | hr
    · obtain ⟨call', hmem, hpacket⟩ := hnew' r hr addr packet hact
      exact ⟨call', List.mem_cons_of_mem call hmem, hpacket⟩
    · obtain ⟨call', hmem, hpacket⟩ := hnew r hr addr packet hact
      rw [List.mem_singleton.mp hmem] at hpacket
      exact ⟨call, List.mem_cons_self, hpacket⟩
  · intro c
    have hsplit : Server.addressed s c (call :: calls) =
        Server.addressed s c [call] ++ Server.addressed s c calls := by
      simp only [Server.addressed, ← List.map_append, ← List.filter_append, List.singleton_append]
    rw [h'.delivered, h.delivered, h.addressed, hsplit, PrefixCode.stream_append, List.append_assoc]

end Delivers

/-- After every one of the calls the packets so far have not disturbed each other. -/
def NeverDisturbed (process : ProcessTun) (s : State) (calls : List TunCall) : Prop :=
  ∀ before after, calls = before ++ after →
    ∃ s', run (tunCall process) s before = some s' ∧ Unharmed s s' before

section Runs

variable {process : ProcessTun} (hprocess : DrainsKnown process) {s : State} {calls : List TunCall}

include hprocess

theorem run_delivers (hs : s.Bounded) (hempty : (s.bufs s.tunFd).used = 0)
    (hdest : ∀ call ∈ calls, call.Destined s) (hgets : ∀ call ∈ calls, call.GetsThrough s) :
    ∃ s', run (tunCall process) s calls = some s' ∧ Delivers s s' calls := by
  induction calls generalizing s with
  | nil => exact ⟨s, rfl, .refl hs hempty⟩
  | cons call calls ih =>
      obtain ⟨t, hcall, hgood, _⟩ := tunCall_spec hprocess hs hempty (hdest call List.mem_cons_self)
      have h := hgood (hgets call List.mem_cons_self)
      obtain ⟨s', hrun, h'⟩ := ih h.bounded h.drained
        (fun other hmem => h.destined (hdest other (List.mem_cons_of_mem call hmem)))
        (fun other hmem => (h.getsThrough other).mpr (hgets other (List.mem_cons_of_mem call hmem)))
      exact ⟨s', run_cons_iff.mpr ⟨t, hcall, hrun⟩, h.cons h'⟩

theorem NeverDisturbed.of_getsThrough (hs : s.Bounded) (hempty : (s.bufs s.tunFd).used = 0)
    (hdest : ∀ call ∈ calls, call.Destined s) (hgets : ∀ call ∈ calls, call.GetsThrough s) :
    NeverDisturbed process s calls := by
  rintro before after rfl
  obtain ⟨s', hrun, h⟩ := run_delivers hprocess hs hempty
    (fun call hmem => hdest call (List.mem_append_left after hmem))
    (fun call hmem => hgets call (List.mem_append_left after hmem))
  exact ⟨s', hrun, h.drained, h.single, fun c _ => h.delivered c⟩

/-- The first packet that does not go through stays in the buffer. -/
theorem getsThrough_of_drained (hs : s.Bounded) (hempty : (s.bufs s.tunFd).used = 0)
    (hdest : ∀ call ∈ calls, call.Destined s)
    (hdrained : ∀ before after, calls = before ++ after →
      ∃ s', run (tunCall process) s before = some s' ∧ (s'.bufs s'.tunFd).used = 0) :
    ∀ call ∈ calls, call.GetsThrough s := by
  induction calls generalizing s with
  | nil => simp
  | cons call calls ih =>
      obtain ⟨t, hcall, hgood, hbad⟩ :=
        tunCall_spec hprocess hs hempty (hdest call List.mem_cons_self)
      have hgets : call.GetsThrough s := by
        by_contra hfails
        obtain ⟨s', hrun, hused⟩ := hdrained [call] calls rfl
        obtain ⟨t', hcall', hend⟩ := run_cons_iff.mp hrun
        obtain rfl := Option.some.inj (hcall.symm.trans hcall')
        obtain rfl := Option.some.inj hend
        exact hbad hfails hused
      have h := hgood hgets
      have hdest' := fun other hmem => h.destined (hdest other (List.mem_cons_of_mem call hmem))
      intro call' hmem
      rcases List.mem_cons.mp hmem with rfl | hmem
      · exact hgets
      · refine (h.getsThrough call').mp (ih h.bounded h.drained hdest' ?_ call' hmem)
        rintro before after rfl
        obtain ⟨s', hrun, hused⟩ := hdrained (call :: before) after rfl
        obtain ⟨t', hcall', hrun'⟩ := run_cons_iff.mp hrun
        obtain rfl := Option.some.inj (hcall.symm.trans hcall')
        exact ⟨s', hrun', hused⟩

theorem neverDisturbed_iff (hs : s.Bounded) (hempty : (s.bufs s.tunFd).used = 0)
    (hdest : ∀ call ∈ calls, call.Destined s) :
    NeverDisturbed process s calls ↔ ∀ call ∈ calls, call.GetsThrough s := by
  refine ⟨fun h => ?_, NeverDisturbed.of_getsThrough hprocess hs hempty hdest⟩
  refine getsThrough_of_drained hprocess hs hempty hdest fun before after hsplit => ?_
  obtain ⟨s', hrun, hunharmed⟩ := h before after hsplit
  exact ⟨s', hrun, hunharmed.drained⟩

end Runs

/-- In both servers, and from every state in which the buffer of the tun is empty, packets to
clients go through without disturbing each other exactly if no write fails. -/
theorem packets_undisturbed_iff (s : State) (hs : s.Bounded) (hempty : (s.bufs s.tunFd).used = 0)
    (calls : List TunCall) (hdest : ∀ call ∈ calls, call.Destined s) :
    (NeverDisturbed processTun s calls ↔ ∀ call ∈ calls, call.GetsThrough s) ∧
      (NeverDisturbed Built.processTun s calls ↔ ∀ call ∈ calls, call.GetsThrough s) :=
  ⟨neverDisturbed_iff processTun_drainsKnown hs hempty hdest,
    neverDisturbed_iff Built.processTun_drainsKnown hs hempty hdest⟩

def twoHolders : List Event :=
  [.server (some (7, true)),
    .client 7 (.bytes [5, 0, 0, 0, 100]) (.prompt 0) true 9,
    .server (some (8, true)),
    .client 8 (.bytes [5, 0, 0, 0, 100]) (.prompt 0) true 9]

def toFirst (env : Nat → RouteEnv) : TunCall :=
  ⟨[69, 0, 0, 20, 0, 0, 0, 0, 64, 17, 0, 0, 8, 8, 8, 8, 13, 8, 0, 2], env⟩

/-- A packet for the second, all of whose writes succeed. -/
def toSecond : TunCall :=
  ⟨[69, 0, 0, 20, 0, 0, 0, 0, 64, 17, 0, 0, 8, 8, 8, 8, 13, 8, 0, 3], .prompt⟩

theorem destined_of_holders {s : State} {env : Nat → RouteEnv}
    (hfirst : (toFirst env).holder s = some 2) (hsecond : toSecond.holder s = some 3) :
    ∀ call ∈ [toFirst env, toSecond], call.Destined s := by
  simp only [List.mem_cons, List.not_mem_nil, or_false, forall_eq_or_imp, forall_eq]
  have hlen : (toFirst env).packet.length = 20 := rfl
  refine ⟨⟨Nat.le_of_eq hlen.symm, ?_, by rw [hfirst]; rfl⟩, by decide, by decide,
    by rw [hsecond]; rfl⟩
  rw [hlen]
  decide

def RouteEnv.fails (_ : Nat) : RouteEnv := ⟨fun _ => .error, fun _ => .error⟩

theorem packets_undisturbed_twoHolders : ∃ s, runFrom .usual twoHolders = some s ∧
    NeverDisturbed processTun s [toFirst .prompt, toSecond] ∧
    NeverDisturbed Built.processTun s [toFirst .prompt, toSecond] := by
  have hrun : ((runFrom .usual twoHolders).any fun s =>
      decide ((s.bufs s.tunFd).used = 0 ∧ s.isOpen 7 = true ∧ s.isOpen 8 = true ∧
        (s.users 2).fd = 7 ∧ (s.users 3).fd = 8 ∧ (toFirst .prompt).holder s = some 2 ∧
        toSecond.holder s = some 3)) = true := by
    decide +kernel
  obtain ⟨s, hs, hfacts⟩ := (Option.any_eq_true _ _).mp hrun
  obtain ⟨hempty, hopen₁, hopen₂, hfd₁, hfd₂, hfirst, hsecond⟩ := of_decide_eq_true hfacts
  have hbounded : s.Bounded := (State.Bounded.initState .usual).passes (runFrom_passes hs)
  have hdest := destined_of_holders hfirst hsecond
  have hgets : ∀ call ∈ [toFirst .prompt, toSecond], call.GetsThrough s := by
    simp only [List.mem_cons, List.not_mem_nil, or_false, forall_eq_or_imp, forall_eq]
    refine ⟨⟨2, hfirst, by rw [hfd₁, hopen₁], ?_, ?_⟩, ⟨3, hsecond, by rw [hfd₂, hopen₂], ?_, ?_⟩⟩ <;>
      decide +kernel
  obtain ⟨hmain, hbuilt⟩ := packets_undisturbed_iff s hbounded hempty _ hdest
  exact ⟨s, hs, hmain.mpr hgets, hbuilt.mpr hgets⟩

/-- A packet whose header the first client does not take goes out with the next one, to the first
client; the second one, whose writes succeed, is sent nothing. -/
theorem failed_write_disturbs : ∃ s s', runFrom .usual twoHolders = some s ∧
    (∀ call ∈ [toFirst .fails, toSecond], call.Destined s) ∧
    toSecond.IsFor s 1 = true ∧ toSecond.GetsThrough s ∧
    run (tunCall processTun) s [toFirst .fails, toSecond] = some s' ∧
    written 1 s'.log = written 1 s.log ∧
    written 0 s'.log = written 0 s.log ++
      Frame.bytes ⟨msgDataRsb, (toFirst .fails).packet ++ toSecond.packet⟩ ∧
    ¬ NeverDisturbed processTun s [toFirst .fails, toSecond] ∧
    ¬ NeverDisturbed Built.processTun s [toFirst .fails, toSecond] := by
  have hrun : ((runFrom .usual twoHolders).any fun s =>
      (run (tunCall processTun) s [toFirst .fails, toSecond]).any fun s' =>
        decide ((s.bufs s.tunFd).used = 0 ∧ s.isOpen 8 = true ∧ (s.users 3).fd = 8 ∧
          (toFirst .fails).holder s = some 2 ∧ toSecond.holder s = some 3 ∧
          toSecond.IsFor s 1 = true ∧ written 1 s'.log = written 1 s.log ∧
          written 0 s'.log = written 0 s.log ++
            Frame.bytes ⟨msgDataRsb, (toFirst .fails).packet ++ toSecond.packet⟩)) = true := by
    decide +kernel
  obtain ⟨s, hs, hcalls⟩ := (Option.any_eq_true _ _).mp hrun
  obtain ⟨s', hs', hfacts⟩ := (Option.any_eq_true _ _).mp hcalls
  obtain ⟨hempty, hopen, hfd, hfirst, hsecond, hfor, hnothing, hglued⟩ := of_decide_eq_true hfacts
  have hbounded : s.Bounded := (State.Bounded.initState .usual).passes (runFrom_passes hs)
  have hdest := destined_of_holders hfirst hsecond
  have hgets : toSecond.GetsThrough s := by
    refine ⟨3, hsecond, by rw [hfd, hopen], ?_, ?_⟩ <;> decide +kernel
  have hstuck : ¬ (toFirst .fails).GetsThrough s := by
    rintro ⟨_, _, _, hheader, _⟩
    revert hheader
    decide
  refine ⟨s, s', hs, hdest, hfor, hgets, hs', hnothing, hglued, ?_, ?_⟩
  · intro h
    exact hstuck ((neverDisturbed_iff processTun_drainsKnown hbounded hempty hdest).mp h _
      List.mem_cons_self)
  · intro h
    exact hstuck ((neverDisturbed_iff Built.processTun_drainsKnown hbounded hempty hdest).mp h _
      List.mem_cons_self)

end Over6.Server
