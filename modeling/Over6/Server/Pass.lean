import Mathlib.Logic.Relation
import Over6.Server.Calculus

/-! # The passes a run is made of

Every handler call is a sequence of passes: one round of a loop, or the straight
code in front of it. Each pass is inverted once here. A property that every pass
keeps then holds along every run, also under an assumption about the log.
-/

namespace Over6.Server

open MachineInt BoundedLoop EventRun

/-! ## The parse loop -/

/-- The frame at the front of a buffer is there in full, going by its length field. -/
def BufferEntry.Complete (e : BufferEntry) : Prop :=
  sizeofMessage ≤ sizeT 64 e.used ∧ e.header.length ≤ e.used

instance (e : BufferEntry) : Decidable e.Complete := inferInstanceAs (Decidable (_ ∧ _))

theorem parseOnce_of_not_complete (env : FrameEnv) {fd : Fd} {s : State}
    (h : ¬ (s.bufs fd).Complete) : parseOnce env fd s = .stop s := by
  unfold parseOnce
  by_cases hhead : sizeT 64 (s.bufs fd).used < sizeofMessage
  · simp only [hhead, if_true]
  · have hbody : (s.bufs fd).used < (s.bufs fd).header.length := by
      by_cases hlt : (s.bufs fd).used < (s.bufs fd).header.length
      · exact hlt
      · exact absurd ⟨Nat.le_of_not_lt hhead, Int.not_lt.mp hlt⟩ h
    simp only [hhead, hbody, if_true, if_false]

theorem parseOnce_of_complete (env : FrameEnv) {fd : Fd} {s : State} (h : (s.bufs fd).Complete) :
    parseOnce env fd s =
      (handleFrame env fd (s.bufs fd).header s).bind (consume fd (s.bufs fd).header) := by
  unfold parseOnce
  have hhead : ¬ sizeT 64 (s.bufs fd).used < sizeofMessage := Nat.not_lt.mpr h.1
  have hbody : ¬ (s.bufs fd).used < (s.bufs fd).header.length := Int.not_lt.mpr h.2
  simp only [hhead, hbody, if_false]

def State.consumed (s : State) (fd : Fd) (msg : Message) : State :=
  let e := s.bufs fd
  let size := sizeT 64 (int32 (e.used - msg.length))
  let payload := e.buf.load sizeofMessage (msg.length - sizeofMessage).toNat
  ((((s.note fd (.touched msg.length size)).note fd (.touched 0 size)).setBuf fd
    { buf := e.buf.move 0 msg.length.toNat size, used := e.used - msg.length }).note fd
      (.handled msg.length ⟨msg.type, payload⟩))

theorem consume_cases (fd : Fd) (msg : Message) (s : State) :
    (0 ≤ msg.length ∧ consume fd msg s = .next (s.consumed fd msg)) ∨
      ∃ s', consume fd msg s = .fault s' := by
  unfold consume
  simp only
  split
  · rename_i h
    exact .inl ⟨h.1, rfl⟩
  · exact .inr ⟨_, rfl⟩

/-- Inside the buffer the move is always in range. -/
theorem consume_of_range (fd : Fd) {msg : Message} {s : State} (hlen : 0 ≤ msg.length)
    (hle : msg.length ≤ (s.bufs fd).used) (hused : (s.bufs fd).used ≤ bufSize) :
    consume fd msg s = .next (s.consumed fd msg) := by
  have hcap : (bufSize : Int) = 65536 := rfl
  have hsmall : int32 ((s.bufs fd).used - msg.length) = (s.bufs fd).used - msg.length :=
    int32_of_range (by omega) (by omega)
  have hsize : (sizeT 64 ((s.bufs fd).used - msg.length) : Int) = (s.bufs fd).used - msg.length :=
    sizeT_64 (by omega) (by omega)
  unfold consume
  simp only [hsmall]
  rw [if_pos (by omega)]
  simp only [State.consumed, hsmall]

/-- Everything one round of the parse loop can end with. -/
inductive Parse (env : FrameEnv) (fd : Fd) (s : State) : Flow State → Prop
  | waits (h : ¬ (s.bufs fd).Complete) : Parse env fd s (.stop s)
  | left (h : (s.bufs fd).Complete) {s' : State}
      (hframe : Dispatch env fd (s.bufs fd).header s (.stop s')) : Parse env fd s (.stop s')
  | passed (h : (s.bufs fd).Complete) {t : State}
      (hframe : Dispatch env fd (s.bufs fd).header s (.next t))
      (hlen : 0 ≤ (s.bufs fd).header.length) :
      Parse env fd s (.next (t.consumed fd (s.bufs fd).header))
  | overran (h : (s.bufs fd).Complete) {t s' : State}
      (hframe : Dispatch env fd (s.bufs fd).header s (.next t))
      (hmove : consume fd (s.bufs fd).header t = .fault s') : Parse env fd s (.fault s')

theorem parseOnce_parse (env : FrameEnv) (fd : Fd) (s : State) :
    Parse env fd s (parseOnce env fd s) := by
  by_cases h : (s.bufs fd).Complete
  · rw [parseOnce_of_complete env h]
    have hframe := handleFrame_dispatch env fd (s.bufs fd).header s
    cases hflow : handleFrame env fd (s.bufs fd).header s with
    | next t =>
        rw [hflow] at hframe
        rw [Flow.bind_next]
        rcases consume_cases fd (s.bufs fd).header t with ⟨hlen, hnext⟩ | ⟨s', hfault⟩
        · rw [hnext]
          exact .passed h hframe hlen
        · rw [hfault]
          exact .overran h hframe hfault
    | stop s' =>
        rw [hflow] at hframe
        exact .left h hframe
    | fault s' =>
        rw [hflow] at hframe
        cases hframe
  · rw [parseOnce_of_not_complete env h]
    exact .waits h

/-! ## The drain loop -/

def replyHeader (iplen : Int) : List UInt8 := Message.bytes ⟨int32 (iplen + sizeofMessage), msgDataRsb⟩

def State.packet (s : State) : List UInt8 :=
  (s.bufs s.tunFd).buf.load 0 (s.bufs s.tunFd).used.toNat

def State.routedTo (s : State) (fd : Fd) : State :=
  (((s.note fd (.wrote (replyHeader (s.bufs s.tunFd).used) 5)).note fd
    (.wrote s.packet s.packet.length)).setBuf s.tunFd
      { buf := (s.bufs s.tunFd).buf.move 0 (s.bufs s.tunFd).used.toNat 0, used := 0 }).note fd
        (.routed (s.bufs s.tunFd).daddr s.packet)

/-- Everything one round of the drain loop can end with. -/
inductive Route (s : State) : Flow State → Prop
  | drained (h : (s.bufs s.tunFd).used < sizeofIphdr) : Route s (.stop s)
  | nobody (h : sizeofIphdr ≤ (s.bufs s.tunFd).used)
      (hnone : searchUserInfoByAddr s.users (s.bufs s.tunFd).daddr = none) : Route s (.next s)
  | header (h : sizeofIphdr ≤ (s.bufs s.tunFd).used) (id : Slot)
      (hsome : searchUserInfoByAddr s.users (s.bufs s.tunFd).daddr = some id)
      (sent : List UInt8) : Route s (.stop (s.note (s.users id).fd (.wrote sent (-1))))
  | packet (h : sizeofIphdr ≤ (s.bufs s.tunFd).used) (id : Slot)
      (hsome : searchUserInfoByAddr s.users (s.bufs s.tunFd).daddr = some id)
      (hopen : s.isOpen (s.users id).fd = true) (sent : List UInt8) :
      Route s (.stop ((s.note (s.users id).fd
        (.wrote (replyHeader (s.bufs s.tunFd).used) 5)).note (s.users id).fd (.wrote sent (-1))))
  | routed (h : sizeofIphdr ≤ (s.bufs s.tunFd).used) (id : Slot)
      (hsome : searchUserInfoByAddr s.users (s.bufs s.tunFd).daddr = some id)
      (hopen : s.isOpen (s.users id).fd = true) : Route s (.next (s.routedTo (s.users id).fd))

theorem replyHeader_length (iplen : Int) : (replyHeader iplen).length = 5 := by
  rw [replyHeader, Message.bytes_length]

theorem routeOnce_route (env : RouteEnv) (s : State) : Route s (routeOnce env s) := by
  unfold routeOnce
  by_cases hshort : (s.bufs s.tunFd).used < sizeofIphdr
  · simp only [hshort, if_true]
    exact .drained hshort
  · have hlong : sizeofIphdr ≤ (s.bufs s.tunFd).used := Int.not_lt.mp hshort
    simp only [hshort, if_false]
    cases hsearch : searchUserInfoByAddr s.users (s.bufs s.tunFd).daddr with
    | none => exact .nobody hlong hsearch
    | some id =>
        have hheader := s.writeAll_spec env.write₁ (s.users id).fd
          (replyHeader (s.bufs s.tunFd).used)
        have hpacket := (s.note (s.users id).fd
          (.wrote (replyHeader (s.bufs s.tunFd).used) 5)).writeAll_spec env.write₂ (s.users id).fd
            s.packet
        rw [replyHeader_length] at hheader
        simp only
        rw [← replyHeader, ← State.packet]
        rcases hheader with hw | ⟨sent, _, hw⟩
        · have hopen : s.isOpen (s.users id).fd = true := by
            by_cases ho : s.isOpen (s.users id).fd = true
            · exact ho
            · have hne : replyHeader (s.bufs s.tunFd).used ≠ [] := by
                intro hnil
                have hlen := replyHeader_length (s.bufs s.tunFd).used
                rw [hnil] at hlen
                simp at hlen
              rw [s.writeAll_of_closed env.write₁ (by simpa using ho) hne] at hw
              have hret : (-1 : Int) = (5 : Nat) := congrArg Prod.snd hw
              exact absurd hret (by decide)
          rcases hpacket with hp | ⟨sent, _, hp⟩
          · have hnonneg : ¬ ((s.packet.length : Nat) : Int) < 0 :=
              Int.not_lt.mpr (Int.natCast_nonneg _)
            simp only [hw, hp, hnonneg, Int.lt_irrefl, if_false, Nat.cast_ofNat, Int.sub_self]
            exact .routed hlong id hsearch hopen
          · simp only [hw, hp, show (-1 : Int) < 0 by decide, Int.lt_irrefl, if_true, if_false,
              Nat.cast_ofNat]
            exact .packet hlong id hsearch hopen sent
        · simp only [hw, show (-1 : Int) < (sizeofMessage : Nat) by decide, if_true]
          exact .header hlong id hsearch sent

/-! ## Freeing a descriptor and the heartbeat pass -/

/-- What is left when epoll has let go of a descriptor and it was freed. -/
def State.freed (s : State) (fd : Fd) : State :=
  (deallocateIpAddr fd { s with watched := Function.update s.watched fd false }).1.close fd

def releaseFirst (users : Users) (fd : Fd) : Users :=
  match searchUserInfoByFd users fd with
  | none => users
  | some i => Function.update users i (users i).release

theorem State.freed_spec (s : State) (fd : Fd) :
    (s.freed fd).users = releaseFirst s.users fd ∧ (s.freed fd).bufs = s.bufs ∧
      (s.freed fd).fds = s.fds ∧ (s.freed fd).conn = Function.update s.conn fd none ∧
      (s.freed fd).watched = Function.update s.watched fd false ∧
      (s.freed fd).accepted = s.accepted := by
  unfold State.freed deallocateIpAddr releaseFirst
  cases searchUserInfoByFd s.users fd <;> exact ⟨rfl, rfl, rfl, rfl, rfl, rfl⟩

theorem State.freed_recved (s : State) (fd : Fd) (j : Slot) :
    ((s.freed fd).users j).lastHeartbeatRecvedSecs = (s.users j).lastHeartbeatRecvedSecs := by
  rw [(s.freed_spec fd).1, releaseFirst]
  cases searchUserInfoByFd s.users fd with
  | none => rfl
  | some i =>
      refine update_unchanged UserInfo.lastHeartbeatRecvedSecs ?_ j
      rfl

theorem State.freed_log (s : State) (fd : Fd) :
    ∃ new, (s.freed fd).log = new ++ s.log ∧
      (⟨s.conn fd, fd, .closed⟩ : Record) ∈ new ∧
      ∀ r ∈ new, r.conn = s.conn fd ∧ r.fd = fd ∧ (r.act = .closed ∨ ∃ i, r.act = .released i) := by
  unfold State.freed deallocateIpAddr
  cases searchUserInfoByFd s.users fd with
  | none => exact ⟨[⟨s.conn fd, fd, .closed⟩], rfl, by simp, by simp⟩
  | some i =>
      exact ⟨[⟨s.conn fd, fd, .closed⟩, ⟨s.conn fd, fd, .released i⟩], rfl, by simp, by simp⟩

theorem freeClientFd_cases (removed : Bool) (fd : Fd) (s : State) :
    freeClientFd removed fd s = s ∨
      s.watched fd = true ∧ freeClientFd removed fd s = s.freed fd := by
  unfold freeClientFd
  by_cases h : (s.watched fd && removed) = true
  · rw [if_pos h]
    rw [Bool.and_eq_true] at h
    exact .inr ⟨h.1, rfl⟩
  · rw [if_neg h]
    exact .inl rfl

def State.swept (env : SweepEnv) (i : Slot) (s : State) : State :=
  sendHeartbeat env i (s.note (s.users i).fd (.judged i (env.time i)))

/-- Everything the pass over one entry can end with. -/
inductive Sweep (env : SweepEnv) (i : Slot) (s : State) : State → Prop
  | skipped (h : ¬ (0 ≤ (s.users i).fd ∧ (s.users i).status = false)) : Sweep env i s s
  | spared (hfd : 0 ≤ (s.users i).fd) (hstatus : (s.users i).status = false)
      (hrecent : env.time i - (s.users i).lastHeartbeatRecvedSecs ≤ heartbeatTimeout) :
      Sweep env i s (s.swept env i)
  | stuck (hfd : 0 ≤ (s.users i).fd) (hstatus : (s.users i).status = false)
      (hlate : heartbeatTimeout < env.time i - (s.users i).lastHeartbeatRecvedSecs) :
      Sweep env i s (s.swept env i)
  | evicted (hfd : 0 ≤ (s.users i).fd) (hstatus : (s.users i).status = false)
      (hlate : heartbeatTimeout < env.time i - (s.users i).lastHeartbeatRecvedSecs)
      (hwatched : (s.swept env i).watched (s.users i).fd = true) :
      Sweep env i s ((s.swept env i).freed (s.users i).fd)

theorem heartbeatEntry_sweep (env : SweepEnv) (i : Slot) (s : State) :
    Sweep env i s (heartbeatEntry env s i) := by
  unfold heartbeatEntry
  by_cases h : 0 ≤ (s.users i).fd ∧ (s.users i).status = false
  · simp only [h, and_self, if_true]
    rw [← State.swept]
    by_cases hlate : heartbeatTimeout < env.time i - (s.users i).lastHeartbeatRecvedSecs
    · rw [if_pos hlate]
      rcases freeClientFd_cases (env.removed i) (s.users i).fd (s.swept env i) with hf | ⟨hw, hf⟩
      · rw [hf]
        exact .stuck h.1 h.2 hlate
      · rw [hf]
        exact .evicted h.1 h.2 hlate hw
    · rw [if_neg hlate]
      exact .spared h.1 h.2 (Int.not_lt.mp hlate)
  · rw [if_neg h]
    exact .skipped h

theorem State.swept_quiet (env : SweepEnv) (i : Slot) (s : State) :
    Quiet Act.OfSweep s (s.swept env i) := by
  have hjudged : Quiet Act.OfSweep s (s.note (s.users i).fd (.judged i (env.time i))) :=
    (Quiet.refl s).note _
  unfold State.swept sendHeartbeat
  simp only
  split
  · exact (hjudged.note _).setUser i _
  · exact hjudged

/-- Sending a keepalive does not count as receiving one. -/
theorem State.swept_recved (env : SweepEnv) (i j : Slot) (s : State) :
    ((s.swept env i).users j).lastHeartbeatRecvedSecs =
      (s.users j).lastHeartbeatRecvedSecs := by
  unfold State.swept sendHeartbeat
  simp only
  split
  · refine update_unchanged UserInfo.lastHeartbeatRecvedSecs ?_ j
    rfl
  · rfl

theorem State.swept_bufs (env : SweepEnv) (i : Slot) (s : State) :
    (s.swept env i).bufs = s.bufs := by
  unfold State.swept sendHeartbeat
  simp only
  split <;> rfl

/-! ## Passes -/

inductive Pass (s : State) : State → Prop
  | accept (fd : Fd) (added : Bool) (h : s.CanAccept fd) : Pass s (processServer fd added s)
  | hangup (fd : Fd) (hw : s.watched fd = true) : Pass s (s.freed fd)
  | read (fd : Fd) (hw : s.watched fd = true) (bs : List UInt8)
      (hfits : bs.length ≤ (s.bufs fd).room) : Pass s (readClient fd bs s)
  | parsed (env : FrameEnv) (fd : Fd) (hw : s.watched fd = true) {s' : State}
      (h : Parse env fd s (.next s')) : Pass s s'
  | parsedLast (env : FrameEnv) (fd : Fd) (hw : s.watched fd = true) {s' : State}
      (h : Parse env fd s (.stop s')) : Pass s s'
  | readTun (bs : List UInt8) (hfits : bs.length ≤ (s.bufs s.tunFd).room) :
      Pass s (receive s.tunFd bs s)
  | routed {s' : State} (h : Route s (.next s')) : Pass s s'
  | routedLast {s' : State} (h : Route s (.stop s')) : Pass s s'
  | swept (env : SweepEnv) (i : Slot) {s' : State} (h : Sweep env i s s') : Pass s s'

abbrev Passes : State → State → Prop := Relation.ReflTransGen Pass

/-! ## Calls -/

/-- One handler call that returns, by the way it goes. -/
inductive Call (s : State) : Event → State → Prop
  | refused : Call s (.server none) s
  | accepted (fd : Fd) (added : Bool) (hcan : s.CanAccept fd) :
      Call s (.server (some (fd, added))) (processServer fd added s)
  | tun (r : ReadResult) (env : Nat → RouteEnv) (fuel : Nat) (hfits : r.Fits (s.bufs s.tunFd).room)
      {s' : State} (h : processTun r env fuel s = .stopped s') : Call s (.tun r env fuel) s'
  | ended (fd : Fd) (r : ReadResult) (env : Nat → FrameEnv) (removed : Bool) (fuel : Nat)
      (hw : s.watched fd = true) (hend : r = .error ∨ r = .bytes []) :
      Call s (.client fd r env removed fuel) (freeClientFd removed fd s)
  | read (fd : Fd) (bs : List UInt8) (env : Nat → FrameEnv) (removed : Bool) (fuel : Nat)
      (hw : s.watched fd = true) (hfits : bs.length ≤ (s.bufs fd).room) {s' : State}
      (h : iterate (fun k => parseOnce (env k) fd) fuel 0 (readClient fd bs s) = .stopped s') :
      Call s (.client fd (.bytes bs) env removed fuel) s'
  | heartbeat (env : SweepEnv) : Call s (.heartbeat env) (processHeartbeat env s)

theorem step_call {s s' : State} {e : Event} (h : step s e = some s') : Call s e s' := by
  cases e with
  | server r =>
      cases r with
      | none =>
          obtain rfl := Option.some.inj h
          exact .refused
      | some accepted =>
          obtain ⟨fd, added⟩ := accepted
          unfold step at h
          simp only [Option.ite_none_right_eq_some, Option.some.injEq] at h
          obtain ⟨hcan, rfl⟩ := h
          exact .accepted fd added hcan
  | tun r env fuel =>
      unfold step at h
      simp only [Option.ite_none_right_eq_some] at h
      exact .tun r env fuel h.1 (Outcome.returned_eq_some.mp h.2)
  | client fd r env removed fuel =>
      unfold step at h
      simp only [Option.ite_none_right_eq_some] at h
      obtain ⟨⟨hw, hfits⟩, hret⟩ := h
      have hcall := Outcome.returned_eq_some.mp hret
      cases r with
      | error =>
          obtain rfl := Outcome.stopped.inj hcall
          exact .ended fd .error env removed fuel hw (.inl rfl)
      | bytes bs =>
          cases bs with
          | nil =>
              obtain rfl := Outcome.stopped.inj hcall
              exact .ended fd (.bytes []) env removed fuel hw (.inr rfl)
          | cons b bs => exact .read fd (b :: bs) env removed fuel hw hfits hcall
  | heartbeat env =>
      obtain rfl := Option.some.inj h
      exact .heartbeat env

theorem processTun_passes {r : ReadResult} {env : Nat → RouteEnv} {fuel : Nat} {s s' : State}
    (hfits : r.Fits (s.bufs s.tunFd).room) (h : processTun r env fuel s = .stopped s') :
    Passes s s' := by
  cases r with
  | error =>
      obtain rfl := Outcome.stopped.inj h
      exact .refl
  | bytes bs =>
      refine .head (.readTun bs hfits) ?_
      apply iterate_reaches Pass (fun _ => True) _ _ trivial h
      · intro k t t' _ hb
        exact ⟨.routed (hb ▸ routeOnce_route (env k) t), trivial⟩
      · intro k t t' _ hb
        exact .routedLast (hb ▸ routeOnce_route (env k) t)

theorem State.consumed_quiet (s : State) (fd : Fd) (msg : Message) :
    Quiet Act.OfParse s (s.consumed fd msg) := by
  have htouched : ∀ start size, Act.OfParse (.touched start size) := fun _ _ => .inl trivial
  exact ((((Quiet.refl s).note fd (htouched _ _)).note fd (htouched _ _)).setBuf fd _).note fd
    (.inr ⟨_, _, rfl⟩)

theorem Parse.quiet {env : FrameEnv} {fd : Fd} {s s' : State} {flow : Flow State}
    (h : Parse env fd s flow) (hs : flow = .next s' ∨ flow = .stop s') :
    Quiet Act.OfParse s s' := by
  cases h with
  | waits =>
      obtain rfl : s = s' := by simpa using hs
      exact Quiet.refl s
  | left _ hframe =>
      obtain rfl := Flow.stop.inj (hs.resolve_left (by simp))
      exact hframe.quiet.mono fun _ hact => .inl hact
  | passed _ hframe _ =>
      obtain rfl := Flow.next.inj (hs.resolve_right (by simp))
      exact (hframe.quiet.mono fun _ hact => .inl hact).trans (State.consumed_quiet _ fd _)
  | overran => simp at hs

/-- However many rounds the parse loop makes, only the log, the clocks of the table and the
owners of free entries change. -/
theorem parseLoop_quiet {env : Nat → FrameEnv} {fd : Fd} {fuel k : Nat} {s s' : State}
    (h : iterate (fun k => parseOnce (env k) fd) fuel k s = .stopped s') :
    Quiet Act.OfParse s s' := by
  apply Quiet.of_chain
  apply iterate_reaches (Quiet Act.OfParse) (fun _ => True) _ _ trivial h
  · intro k t t' _ hb
    have hparse : Parse (env k) fd t (.next t') := hb ▸ parseOnce_parse (env k) fd t
    exact ⟨hparse.quiet (.inl rfl), trivial⟩
  · intro k t t' _ hb
    have hparse : Parse (env k) fd t (.stop t') := hb ▸ parseOnce_parse (env k) fd t
    exact hparse.quiet (.inr rfl)

theorem processClient_of_ne_nil {bs : List UInt8} (h : bs ≠ []) (env : Nat → FrameEnv)
    (removed : Bool) (fuel : Nat) (fd : Fd) (s : State) :
    processClient (.bytes bs) env removed fuel fd s =
      iterate (fun k => parseOnce (env k) fd) fuel 0 (readClient fd bs s) := by
  cases bs with
  | nil => exact absurd rfl h
  | cons b bs => rfl

theorem parseLoop_passes {env : Nat → FrameEnv} {fuel k : Nat} {fd : Fd} {s s' : State}
    (hw : s.watched fd = true)
    (h : iterate (fun k => parseOnce (env k) fd) fuel k s = .stopped s') : Passes s s' := by
  apply iterate_reaches Pass (fun t => t.watched fd = true) _ _ hw h
  · intro k t t' hwt hb
    have hparse : Parse (env k) fd t (.next t') := hb ▸ parseOnce_parse (env k) fd t
    exact ⟨.parsed (env k) fd hwt hparse, by rwa [(hparse.quiet (.inl rfl)).watched]⟩
  · intro k t t' hwt hb
    exact .parsedLast (env k) fd hwt (hb ▸ parseOnce_parse (env k) fd t)

theorem sweep_passes (env : SweepEnv) (entries : List Slot) (s : State) :
    Passes s (entries.foldl (heartbeatEntry env) s) := by
  induction entries generalizing s with
  | nil => exact .refl
  | cons i entries ih =>
      exact .head (.swept env i (heartbeatEntry_sweep env i s)) (ih (heartbeatEntry env s i))

/-- A handler call is a sequence of passes. -/
theorem step_passes {s s' : State} {e : Event} (h : step s e = some s') : Passes s s' := by
  cases step_call h with
  | refused => exact .refl
  | accepted fd added hcan => exact .single (.accept fd added hcan)
  | tun r env fuel hfits hcall => exact processTun_passes hfits hcall
  | ended fd r env removed fuel hw =>
      rcases freeClientFd_cases removed fd s with hf | ⟨_, hf⟩
      · rw [hf]
      · rw [hf]
        exact .single (.hangup fd hw)
  | read fd bs env removed fuel hw hfits hcall =>
      have hread : (readClient fd bs s).watched fd = true := hw
      exact .head (.read fd hw bs hfits) (parseLoop_passes hread hcall)
  | heartbeat env => exact sweep_passes env (List.finRange clientNum) s

theorem runFrom_passes {fds : Descriptors} {es : List Event} {s : State}
    (h : runFrom fds es = some s) : Passes (initState fds) s :=
  run_reaches (fun _ => True) (fun _ _ _ _ hs => step_passes hs) (fun _ _ _ _ => trivial) trivial h

/-! ## What a pass does to the table -/

/-- Two records of one entry that differ at most in the clocks. -/
def UserInfo.SameOwner (u u' : UserInfo) : Prop :=
  u'.addr = u.addr ∧ u'.status = u.status ∧ u'.fd = u.fd ∧ u'.v4addr = u.v4addr

/-- Nobody has come or gone and no entry has changed hands. -/
structure Steady (s s' : State) : Prop extends Quiet Act.Plain s s' where
  owner : ∀ i, (s.users i).SameOwner (s'.users i)

namespace Steady

variable {s t s' : State}

theorem refl (s : State) : Steady s s := ⟨Quiet.refl s, fun _ => ⟨rfl, rfl, rfl, rfl⟩⟩

theorem trans (h : Steady s t) (h' : Steady t s') : Steady s s' := by
  refine ⟨h.toQuiet.trans h'.toQuiet, ?_⟩
  intro i
  obtain ⟨ha, hs, hf, hv⟩ := h.owner i
  obtain ⟨ha', hs', hf', hv'⟩ := h'.owner i
  exact ⟨ha'.trans ha, hs'.trans hs, hf'.trans hf, hv'.trans hv⟩

theorem note (h : Steady s t) (fd : Fd) {act : Act} (hact : act.Plain := by trivial) :
    Steady s (t.note fd act) := ⟨h.toQuiet.note fd hact, h.owner⟩

theorem setBuf (h : Steady s t) (fd : Fd) (e : BufferEntry) : Steady s (t.setBuf fd e) :=
  ⟨h.toQuiet.setBuf fd e, h.owner⟩

theorem setUser (h : Steady s t) (i : Slot) {u : UserInfo} (hu : (t.users i).SameOwner u) :
    Steady s (t.setUser i u) := by
  refine ⟨h.toQuiet.setUser i u, ?_⟩
  intro j
  by_cases hj : j = i
  · subst hj
    obtain ⟨ha, hs, hf, hv⟩ := h.owner j
    obtain ⟨ha', hs', hf', hv'⟩ := hu
    rw [State.setUser_users, Function.update_self]
    exact ⟨ha'.trans ha, hs'.trans hs, hf'.trans hf, hv'.trans hv⟩
  · rw [State.setUser_users, Function.update_of_ne hj]
    exact h.owner j

theorem owns_iff (h : Steady s t) {fd : Fd} {i : Slot} : Owns t.users fd i ↔ Owns s.users fd i := by
  obtain ⟨_, hs, hf, _⟩ := h.owner i
  rw [Owns, Owns, hs, hf]

end Steady

/-- What one pass can do to the table and to the connections. -/
inductive Change (s : State) : State → Prop
  | steady {s' : State} (h : Steady s s') : Change s s'
  | grant (env : FrameEnv) (fd : Fd) (i : Slot) (hw : s.watched fd = true)
      (hfree : firstFree s.users = some i) {s' : State} (h : Steady (s.grantTo env fd i) s') :
      Change s s'
  | free {t : State} (h : Steady s t) (fd : Fd) (hw : t.watched fd = true) : Change s (t.freed fd)
  | accept (fd : Fd) (added : Bool) (h : s.CanAccept fd) : Change s (processServer fd added s)

/-- Only an IP request with an entry left for it concerns the table. -/
theorem Dispatch.steady {env : FrameEnv} {fd : Fd} {msg : Message} {s : State} {flow : Flow State}
    (h : Dispatch env fd msg s flow)
    (hother : msg.type = msgIpReq → firstFree s.users = none) : Steady s flow.state := by
  have hfull : ∀ {i}, msg.type = msgIpReq → firstFree s.users = some i → False := by
    intro i htype hfree
    rw [hother htype] at hfree
    exact absurd hfree (by simp)
  cases h with
  | poolFull _ hnone =>
      have honce : grantsTwice s.users fd = false := by simp [grantsTwice, hnone]
      have hplain : Act.Plain (.requested (grantsTwice s.users fd)) := by
        rw [honce]
        trivial
      exact ((Steady.refl s).note fd hplain).note fd
  | replyHeader htype i hfree => exact (hfull htype hfree).elim
  | replyData htype i hfree => exact (hfull htype hfree).elim
  | replied htype i hfree => exact (hfull htype hfree).elim
  | tunData => exact (((Steady.refl s).note fd).note _).note fd
  | forwarded => exact ((Steady.refl s).note fd).note _
  | stray => exact (Steady.refl s).note fd
  | kept _ i =>
      have hnoted : Steady s (s.note fd (.kept (some i) env.time₁)) := (Steady.refl s).note fd
      exact hnoted.setUser i ⟨rfl, rfl, rfl, rfl⟩
  | unknown => exact Steady.refl s

theorem Dispatch.change {env : FrameEnv} {fd : Fd} {msg : Message} {s : State} {flow : Flow State}
    (h : Dispatch env fd msg s flow) :
    Steady s flow.state ∨
      ∃ i, firstFree s.users = some i ∧ Steady (s.grantTo env fd i) flow.state := by
  by_cases hgrant : msg.type = msgIpReq ∧ ∃ i, firstFree s.users = some i
  · obtain ⟨htype, j, hfree⟩ := hgrant
    cases h with
    | poolFull _ hnone =>
        rw [hnone] at hfree
        cases hfree
    | replyHeader _ i hi => exact .inr ⟨i, hi, ((Steady.refl _).note fd).note fd⟩
    | replyData _ i hi => exact .inr ⟨i, hi, (((Steady.refl _).note fd).note fd).note fd⟩
    | replied _ i hi => exact .inr ⟨i, hi, (((Steady.refl _).note fd).note fd).note fd⟩
    | tunData h₂ => exact absurd (htype.symm.trans h₂) (by decide)
    | forwarded h₂ => exact absurd (htype.symm.trans h₂) (by decide)
    | stray h₃ => exact absurd (htype.symm.trans h₃) (by decide)
    | kept h₃ => exact absurd (htype.symm.trans h₃) (by decide)
    | unknown h₁ => exact absurd htype h₁
  · refine .inl (h.steady fun htype => ?_)
    cases hfree : firstFree s.users with
    | none => rfl
    | some i => exact absurd ⟨htype, i, hfree⟩ hgrant

theorem State.consumed_steady (s : State) (fd : Fd) (msg : Message) :
    Steady s (s.consumed fd msg) :=
  ((((Steady.refl s).note fd).note fd).setBuf fd _).note fd

theorem State.swept_steady (env : SweepEnv) (i : Slot) (s : State) : Steady s (s.swept env i) := by
  have hjudged : Steady s (s.note (s.users i).fd (.judged i (env.time i))) :=
    (Steady.refl s).note _
  unfold State.swept sendHeartbeat
  simp only
  split
  · exact (hjudged.note _).setUser i ⟨rfl, rfl, rfl, rfl⟩
  · exact hjudged

theorem Route.steady {s : State} {flow : Flow State} (h : Route s flow) : Steady s flow.state := by
  cases h with
  | drained => exact Steady.refl s
  | nobody => exact Steady.refl s
  | header => exact (Steady.refl s).note _
  | packet => exact ((Steady.refl s).note _).note _
  | routed => exact ((((Steady.refl s).note _).note _).setBuf _ _).note _

theorem Steady.of_chain {s s' : State} (h : Relation.ReflTransGen Steady s s') : Steady s s' := by
  induction h with
  | refl => exact refl s
  | tail _ ht ih => exact ih.trans ht

theorem processTun_steady {r : ReadResult} {env : Nat → RouteEnv} {fuel : Nat} {s s' : State}
    (h : processTun r env fuel s = .stopped s') : Steady s s' := by
  cases r with
  | error =>
      rw [Outcome.stopped.inj h]
      exact Steady.refl s'
  | bytes bs =>
      have hread : Steady s (receive s.tunFd bs s) := ((Steady.refl s).setBuf _ _).note _
      refine hread.trans (Steady.of_chain ?_)
      apply iterate_reaches Steady (fun _ => True) _ _ trivial h
      · intro k t t' _ hb
        have hroute := routeOnce_route (env k) t
        rw [hb] at hroute
        exact ⟨hroute.steady, trivial⟩
      · intro k t t' _ hb
        have hroute := routeOnce_route (env k) t
        rw [hb] at hroute
        exact hroute.steady

theorem Pass.change {s s' : State} (h : Pass s s') : Change s s' := by
  cases h with
  | accept fd added h => exact .accept fd added h
  | hangup fd hw => exact .free (Steady.refl s) fd hw
  | read fd hw bs _ =>
      exact .steady ((((Steady.refl s).note fd).setBuf fd _).note fd)
  | parsed env fd hw h =>
      cases h with
      | passed _ hframe _ =>
          rcases hframe.change with hs | ⟨i, hfree, hs⟩
          · exact .steady (hs.trans (State.consumed_steady _ fd _))
          · exact .grant env fd i hw hfree (hs.trans (State.consumed_steady _ fd _))
  | parsedLast env fd hw h =>
      cases h with
      | waits => exact .steady (Steady.refl s)
      | left _ hframe =>
          rcases hframe.change with hs | ⟨i, hfree, hs⟩
          · exact .steady hs
          · exact .grant env fd i hw hfree hs
  | readTun bs _ => exact .steady (((Steady.refl s).setBuf _ _).note _)
  | routed h => exact .steady h.steady
  | routedLast h => exact .steady h.steady
  | swept env i h =>
      cases h with
      | skipped => exact .steady (Steady.refl s)
      | spared => exact .steady (s.swept_steady env i)
      | stuck => exact .steady (s.swept_steady env i)
      | evicted _ _ _ hw => exact .free (s.swept_steady env i) _ hw

/-! ## The log only grows -/

theorem Quiet.log_suffix {P : Act → Prop} {s s' : State} (h : Quiet P s s') : s.log <:+ s'.log := by
  obtain ⟨new, hlog, _⟩ := h.log
  exact ⟨new, hlog.symm⟩

theorem Change.log_suffix {s s' : State} (h : Change s s') : s.log <:+ s'.log := by
  cases h with
  | steady h => exact h.log_suffix
  | grant env fd i _ _ h =>
      have hgrant : s.log <:+ (s.grantTo env fd i).log := List.suffix_append [_, _] s.log
      exact hgrant.trans h.log_suffix
  | @free t h fd _ =>
      obtain ⟨new, hlog, _, _⟩ := t.freed_log fd
      exact h.log_suffix.trans ⟨new, hlog.symm⟩
  | accept fd added _ => exact List.suffix_append [_] s.log

theorem Pass.log_suffix {s s' : State} (h : Pass s s') : s.log <:+ s'.log := h.change.log_suffix

theorem Passes.log_suffix {s s' : State} (h : Passes s s') : s.log <:+ s'.log := by
  induction h with
  | refl => exact List.suffix_refl _
  | tail _ hp ih => exact ih.trans hp.log_suffix

theorem step_log_suffix {s s' : State} {e : Event} (h : step s e = some s') : s.log <:+ s'.log :=
  (step_passes h).log_suffix

theorem run_log_suffix {s s' : State} {es : List Event} (h : run step s es = some s') :
    s.log <:+ s'.log :=
  run_invariant (fun t => s.log <:+ t.log) (fun _ _ _ ht hstep => ht.trans (step_log_suffix hstep))
    (List.suffix_refl _) h

theorem freeClientFd_log_suffix (removed : Bool) (fd : Fd) (s : State) :
    s.log <:+ (freeClientFd removed fd s).log := by
  rcases freeClientFd_cases removed fd s with hf | ⟨_, hf⟩
  · rw [hf]
  · rw [hf]
    obtain ⟨new, hlog, _⟩ := s.freed_log fd
    exact ⟨new, hlog.symm⟩

/-- An invariant of the passes under an assumption about everything that is logged. -/
theorem passes_conditional (H I : State → Prop) (inherit : ∀ s s', s.log <:+ s'.log → H s' → H s)
    (keep : ∀ s s', Pass s s' → I s → H s' → I s') {s s' : State} (hp : Passes s s') (h : I s)
    (hend : H s') : I s' :=
  chain_conditional H I (fun s s' hr => inherit s s' hr.log_suffix) keep hp h hend

end Over6.Server
