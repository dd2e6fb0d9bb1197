import Over6.Client.EventLoop
import Over6.Lib.Journal

/-! # What the handlers of the client can do

One inversion statement for the frame at the front of the buffer and one for a
pass of the parse loop, with what either leaves alone.
-/

namespace Over6.Client

open MachineInt BoundedLoop EventRun Journal

/-! ## Records -/

/-- Nothing but the log has changed, by records of one kind. -/
def Logged (P : Act → Prop) (s s' : State) : Prop :=
  ∃ new, s' = { s with log := new ++ s.log } ∧ ∀ act ∈ new, P act

namespace Logged

variable {P : Act → Prop} {s t : State}

theorem refl (s : State) : Logged P s s := ⟨[], rfl, by simp⟩

theorem note (h : Logged P s t) {act : Act} (hact : P act := by trivial) :
    Logged P s (t.note act) := by
  obtain ⟨new, rfl, hnew⟩ := h
  refine ⟨act :: new, rfl, ?_⟩
  intro a ha
  rcases List.mem_cons.mp ha with rfl | ha
  · exact hact
  · exact hnew a ha

theorem trans {s' : State} (h : Logged P s t) (h' : Logged P t s') : Logged P s s' := by
  obtain ⟨new, rfl, hnew⟩ := h
  obtain ⟨new', rfl, hnew'⟩ := h'
  refine ⟨new' ++ new, by simp, ?_⟩
  intro a ha
  rcases List.mem_append.mp ha with ha | ha
  · exact hnew' a ha
  · exact hnew a ha

theorem mono {Q : Act → Prop} (h : Logged P s t) (hPQ : ∀ act, P act → Q act) : Logged Q s t := by
  obtain ⟨new, hlog, hnew⟩ := h
  exact ⟨new, hlog, fun act hact => hPQ act (hnew act hact)⟩

end Logged

def Act.IsResponse : Act → Prop
  | responded _ => True
  | _ => False

def Act.OfReply : Act → Prop
  | responded _ | scanned _ _ => True
  | _ => False

theorem Act.IsResponse.ofReply {act : Act} (h : act.IsResponse) : act.OfReply := by
  cases act with
  | responded => trivial
  | _ => exact h.elim

/-- The pipe takes every answer in full, or the handler gives up. -/
inductive Responded (s : State) : Flow State → Prop
  | all {t : State} (h : Logged Act.IsResponse s t) : Responded s (.next t)
  | gaveUp {t : State} (h : Logged Act.IsResponse s t) : Responded s (.stop (t.fail .response))

theorem Responded.head {s t : State} {flow : Flow State} (hr : Responded t flow)
    (h : Logged Act.IsResponse s t) : Responded s flow := by
  cases hr with
  | all hlog => exact .all (h.trans hlog)
  | gaveUp hlog => exact .gaveUp (h.trans hlog)

theorem respond_responded (write : Nat → WriteResult) (k : Nat) (answers : List (List UInt8))
    (s : State) : Responded s (respond write k answers s) := by
  induction answers generalizing k s with
  | nil => exact .all (Logged.refl s)
  | cons bs rest ih =>
      have hfirst : Logged Act.IsResponse s (s.note (.responded ((write k).taken bs))) :=
        (Logged.refl s).note
      by_cases hret : (write k).ret bs.length = bs.length
      · have hrest := ih (k + 1) (s.note (.responded ((write k).taken bs)))
        simp only [respond, hret, if_true]
        exact hrest.head hfirst
      · simp only [respond, hret, if_false]
        exact .gaveUp hfirst

/-! ## The frame at the front -/

def State.handed (s : State) (msg : Message) (ret : Int) : State :=
  (((s.note (.dispatched msg)).note (.sliced msg.length (sizeT 32 msg.length))).note
    (.injected (s.socketBuffer.load sizeofMessage ret.toNat)))

/-- Everything the dispatch on one frame can end with. -/
inductive Dispatch (env : SocketEnv) (msg : Message) (s : State) : Flow State → Prop
  | crashed (htype : msg.type = msgIpRsb) (hbad : BadReply msg.length) :
      Dispatch env msg s (.fault ((s.note (.dispatched msg)).note
        (.resized (replySize msg.length) s.socketNreads)))
  | answered (htype : msg.type = msgIpRsb) (hgood : ¬ BadReply msg.length) {t : State}
      (hlog : Logged Act.OfReply ((s.note (.dispatched msg)).note
        (.resized (replySize msg.length) s.socketNreads)) t) : Dispatch env msg s (.next t)
  | unanswered (htype : msg.type = msgIpRsb) (hgood : ¬ BadReply msg.length) {t : State}
      (hlog : Logged Act.OfReply ((s.note (.dispatched msg)).note
        (.resized (replySize msg.length) s.socketNreads)) t) :
      Dispatch env msg s (.stop (t.fail .response))
  | heartbeat (htype : msg.type = msgHeartbeat) :
      Dispatch env msg s (.next { s.note (.dispatched msg) with
        lastHeartbeatFromServer := env.time })
  | early (htype : msg.type = msgDataRsb) (htun : s.tunFd < 0) :
      Dispatch env msg s (.next (s.note (.dispatched msg)))
  | injected (htype : msg.type = msgDataRsb) (htun : 0 ≤ s.tunFd)
      (hret : writeTun env.tun (sizeT 32 msg.length) = msg.length) :
      Dispatch env msg s (.next ((s.handed msg msg.length).countIn msg.length))
  | refused (htype : msg.type = msgDataRsb) (htun : 0 ≤ s.tunFd)
      (hret : writeTun env.tun (sizeT 32 msg.length) ≠ msg.length) :
      Dispatch env msg s (.stop ((s.handed msg
        (writeTun env.tun (sizeT 32 msg.length))).fail .tunWrite))
  | unknown (h₁ : msg.type ≠ msgIpRsb) (h₂ : msg.type ≠ msgHeartbeat)
      (h₃ : msg.type ≠ msgDataRsb) : Dispatch env msg s (.stop (s.fail .unknownType))

theorem handleFrame_of_ipRsb (env : SocketEnv) {msg : Message} (s : State)
    (htype : msg.type = msgIpRsb) :
    handleFrame env msg s = handleIpReply env msg (s.note (.dispatched msg)) := by
  unfold handleFrame
  rw [if_pos htype]

theorem handleFrame_of_crash (env : SocketEnv) {msg : Message} (s : State)
    (htype : msg.type = msgIpRsb) (hbad : BadReply msg.length) :
    handleFrame env msg s = .fault ((s.note (.dispatched msg)).note
      (.resized (replySize msg.length) s.socketNreads)) := by
  rw [handleFrame_of_ipRsb env s htype]
  unfold handleIpReply
  simp only
  rw [if_pos hbad]
  rfl

theorem handleFrame_of_heartbeat (env : SocketEnv) {msg : Message} (s : State)
    (htype : msg.type = msgHeartbeat) :
    handleFrame env msg s = .next { s.note (.dispatched msg) with
      lastHeartbeatFromServer := env.time } := by
  have h₁ : msg.type ≠ msgIpRsb := by
    rw [htype]
    decide
  unfold handleFrame
  rw [if_neg h₁, if_pos htype]

theorem handleFrame_of_dataRsb (env : SocketEnv) {msg : Message} (s : State)
    (htype : msg.type = msgDataRsb) :
    handleFrame env msg s = handlePacketRecv env msg (s.note (.dispatched msg)) := by
  have h₁ : msg.type ≠ msgIpRsb := by
    rw [htype]
    decide
  have h₂ : msg.type ≠ msgHeartbeat := by
    rw [htype]
    decide
  unfold handleFrame
  rw [if_neg h₁, if_neg h₂, if_pos htype]

theorem handleFrame_of_early (env : SocketEnv) {msg : Message} {s : State}
    (htype : msg.type = msgDataRsb) (htun : s.tunFd < 0) :
    handleFrame env msg s = .next (s.note (.dispatched msg)) := by
  rw [handleFrame_of_dataRsb env s htype]
  unfold handlePacketRecv
  rw [if_neg (show ¬ 0 ≤ (s.note (.dispatched msg)).tunFd from Int.not_le.mpr htun)]

/-- A packet for a tun that is there. -/
theorem handleFrame_of_packet (env : SocketEnv) {msg : Message} {s : State}
    (htype : msg.type = msgDataRsb) (htun : 0 ≤ s.tunFd) :
    handleFrame env msg s =
      if writeTun env.tun (sizeT 32 msg.length) = msg.length then
        .next ((s.handed msg msg.length).countIn msg.length)
      else .stop ((s.handed msg (writeTun env.tun (sizeT 32 msg.length))).fail .tunWrite) := by
  rw [handleFrame_of_dataRsb env s htype]
  unfold handlePacketRecv
  rw [if_pos (show 0 ≤ (s.note (.dispatched msg)).tunFd from htun)]
  by_cases hret : writeTun env.tun (sizeT 32 msg.length) = msg.length
  · simp only [hret, if_true]
    rfl
  · simp only [hret, if_false]
    rfl

theorem dispatch_of_responded {env : SocketEnv} {msg : Message} {s : State} {size seen : Nat}
    {flow : Flow State} (htype : msg.type = msgIpRsb) (hgood : ¬ BadReply msg.length)
    (h : Responded (((s.note (.dispatched msg)).note
      (.resized (replySize msg.length) s.socketNreads)).note (.scanned size seen)) flow) :
    Dispatch env msg s flow := by
  cases h with
  | all h => exact .answered htype hgood ((Logged.refl _).note.trans (h.mono fun _ => (·.ofReply)))
  | gaveUp h =>
      exact .unanswered htype hgood ((Logged.refl _).note.trans (h.mono fun _ => (·.ofReply)))

theorem handleFrame_dispatch (env : SocketEnv) (msg : Message) (s : State) :
    Dispatch env msg s (handleFrame env msg s) := by
  by_cases h₁ : msg.type = msgIpRsb
  · by_cases hbad : BadReply msg.length
    · rw [handleFrame_of_crash env s h₁ hbad]
      exact .crashed h₁ hbad
    · rw [handleFrame_of_ipRsb env s h₁]
      unfold handleIpReply
      simp only
      rw [if_neg hbad]
      exact dispatch_of_responded h₁ hbad (respond_responded _ _ _ _)
  · by_cases h₂ : msg.type = msgHeartbeat
    · rw [handleFrame_of_heartbeat env s h₂]
      exact .heartbeat h₂
    · by_cases h₃ : msg.type = msgDataRsb
      · by_cases htun : 0 ≤ s.tunFd
        · rw [handleFrame_of_packet env h₃ htun]
          split
          · exact .injected h₃ htun ‹_›
          · exact .refused h₃ htun ‹_›
        · rw [handleFrame_of_early env h₃ (Int.not_le.mp htun)]
          exact .early h₃ (Int.not_le.mp htun)
      · unfold handleFrame
        rw [if_neg h₁, if_neg h₂, if_neg h₃]
        exact .unknown h₁ h₂ h₃

theorem Dispatch.of_eq {env : SocketEnv} {msg : Message} {s : State} {flow : Flow State}
    (h : handleFrame env msg s = flow) : Dispatch env msg s flow :=
  h ▸ handleFrame_dispatch env msg s

structure Kept (s s' : State) : Prop where
  socketBuffer : s'.socketBuffer = s.socketBuffer
  socketNreads : s'.socketNreads = s.socketNreads
  socketFd : s'.socketFd = s.socketFd
  tunFd : s'.tunFd = s.tunFd
  lastHeartbeatToServer : s'.lastHeartbeatToServer = s.lastHeartbeatToServer
  log : s.log <:+ s'.log

theorem Kept.of_logged {P : Act → Prop} {s t s' : State} (h : Kept s t) (hlog : Logged P t s') :
    Kept s s' := by
  obtain ⟨new, rfl, _⟩ := hlog
  exact ⟨h.socketBuffer, h.socketNreads, h.socketFd, h.tunFd, h.lastHeartbeatToServer,
    h.log.trans (List.suffix_append new t.log)⟩

theorem Dispatch.kept {env : SocketEnv} {msg : Message} {s : State} {flow : Flow State}
    (h : Dispatch env msg s flow) : Kept s flow.state := by
  have hreply : Kept s ((s.note (.dispatched msg)).note
      (.resized (replySize msg.length) s.socketNreads)) :=
    ⟨rfl, rfl, rfl, rfl, rfl, List.suffix_append [_, _] s.log⟩
  cases h with
  | crashed => exact hreply
  | answered _ _ hlog => exact hreply.of_logged hlog
  | unanswered _ _ hlog =>
      obtain ⟨hbuf, hfill, hsock, htun, hto, hsuffix⟩ := hreply.of_logged hlog
      exact ⟨hbuf, hfill, hsock, htun, hto, hsuffix.trans (List.suffix_cons _ _)⟩
  | heartbeat => exact ⟨rfl, rfl, rfl, rfl, rfl, List.suffix_append [_] s.log⟩
  | early => exact ⟨rfl, rfl, rfl, rfl, rfl, List.suffix_append [_] s.log⟩
  | injected => exact ⟨rfl, rfl, rfl, rfl, rfl, List.suffix_append [_, _, _] s.log⟩
  | refused => exact ⟨rfl, rfl, rfl, rfl, rfl, List.suffix_append [_, _, _, _] s.log⟩
  | unknown => exact ⟨rfl, rfl, rfl, rfl, rfl, List.suffix_append [_] s.log⟩

/-! ## One pass -/

namespace State

def content (s : State) : List UInt8 := s.socketBuffer.load 0 s.socketNreads.toNat

theorem content_length (s : State) : s.content.length = s.socketNreads.toNat := by
  simp [content]

def Bounded (s : State) : Prop := 0 ≤ s.socketNreads ∧ s.socketNreads ≤ bufferSize

theorem Bounded.length {s : State} (h : s.Bounded) : (s.content.length : Int) = s.socketNreads := by
  have hlo := h.1
  rw [content_length]
  omega

theorem Bounded.room {s : State} (h : s.Bounded) : (s.room : Int) = bufferSize - s.socketNreads := by
  obtain ⟨hlo, hhi⟩ := h
  have hcap : (bufferSize : Int) = 4194304 := rfl
  exact sizeT_32 (by omega) (by omega)

/-- The frame at the front is there in full, going by its length field. -/
def Complete (s : State) : Prop :=
  sizeofMessage ≤ sizeT 32 s.socketNreads ∧ s.header.length ≤ s.socketNreads

instance (s : State) : Decidable s.Complete := inferInstanceAs (Decidable (_ ∧ _))

theorem header_eq {s : State} (hhead : sizeofMessage ≤ s.content.length) :
    s.header = Message.ofBytes s.content := by
  have hle : sizeofMessage ≤ s.socketNreads.toNat := by rwa [content_length] at hhead
  rw [header, ← Message.ofBytes_take s.content, content, CellMemory.load_take _ hle]

/-- The bytes held begin with a header, and the length it announces is there. -/
theorem front_iff {s : State} (h : s.Bounded) :
    s.Complete ↔ ¬ (s.content.length < sizeofMessage ∨
      (s.content.length : Int) < (Message.ofBytes s.content).length) := by
  have hcap : (bufferSize : Int) = 4194304 := rfl
  have hlen := h.length
  have hsize : (sizeT 32 s.socketNreads : Int) = s.socketNreads := by
    obtain ⟨hlo, hhi⟩ := h
    exact sizeT_32 hlo (by omega)
  unfold Complete
  constructor
  · rintro ⟨hhead, hbody⟩
    have hhead' : sizeofMessage ≤ s.content.length := by omega
    rw [header_eq hhead'] at hbody
    omega
  · intro hlong
    rw [header_eq (by omega)]
    exact ⟨by omega, by omega⟩

theorem front_of_content {s : State} (h : s.Bounded) {bytes : List UInt8}
    (hcontent : s.content = bytes) (hlong : ¬ (bytes.length < sizeofMessage ∨
      (bytes.length : Int) < (Message.ofBytes bytes).length)) :
    s.Complete ∧ s.header = Message.ofBytes bytes := by
  subst hcontent
  exact ⟨(front_iff h).mpr hlong, header_eq (by omega)⟩

def consumed (s : State) (msg : Message) : State :=
  let size := sizeT 32 (s.socketNreads - msg.length)
  { s with
    socketBuffer := s.socketBuffer.move 0 msg.length.toNat size
    socketNreads := s.socketNreads - msg.length
    log := .moved msg.length size :: s.log }

end State

theorem socketOnce_of_not_complete (env : SocketEnv) {s : State} (h : ¬ s.Complete) :
    socketOnce env s = .stop { s with ret := 0 } := by
  unfold socketOnce
  by_cases hhead : sizeT 32 s.socketNreads < sizeofMessage
  · rw [if_pos hhead]
  · rw [if_neg hhead]
    by_cases hbody : s.socketNreads < s.header.length
    · rw [if_pos hbody]
    · exact absurd ⟨Nat.le_of_not_lt hhead, Int.not_lt.mp hbody⟩ h

theorem socketOnce_of_complete (env : SocketEnv) {s : State} (h : s.Complete) :
    socketOnce env s = (handleFrame env s.header s).bind (consume s.header) := by
  unfold socketOnce
  rw [if_neg (Nat.not_lt.mpr h.1), if_neg (Int.not_lt.mpr h.2)]

theorem moveSize_eq {s : State} (hs : s.Bounded) {msglen : Int} (hlen : 0 ≤ msglen)
    (hle : msglen ≤ s.socketNreads) :
    (sizeT 32 (s.socketNreads - msglen) : Int) = s.socketNreads - msglen := by
  have hcap : (bufferSize : Int) = 4194304 := rfl
  have hhi := hs.2
  exact sizeT_32 (by omega) (by omega)

/-- Inside the buffer the move is in range. -/
theorem consume_of_range {s : State} (hs : s.Bounded) {msg : Message} (hlen : 0 ≤ msg.length)
    (hle : msg.length ≤ s.socketNreads) : consume msg s = .next (s.consumed msg) := by
  have hsize := moveSize_eq hs hlen hle
  have hhi := hs.2
  unfold consume
  simp only
  rw [if_pos (by omega)]
  rfl

theorem consume_of_neg {s : State} {msg : Message} (hneg : msg.length < 0) :
    ∃ s', consume msg s = .fault s' := by
  unfold consume
  simp only
  rw [if_neg (by omega)]
  exact ⟨_, rfl⟩

inductive Pass (env : SocketEnv) (s : State) : Flow State → Prop
  | waits (h : ¬ s.Complete) : Pass env s (.stop { s with ret := 0 })
  | left (h : s.Complete) {s' : State} (hframe : Dispatch env s.header s (.stop s')) :
      Pass env s (.stop s')
  | passed (h : s.Complete) {t : State} (hframe : Dispatch env s.header s (.next t))
      (hlen : 0 ≤ s.header.length) : Pass env s (.next (t.consumed s.header))
  | crashed (h : s.Complete) {s' : State} (hframe : Dispatch env s.header s (.fault s')) :
      Pass env s (.fault s')
  | overran (h : s.Complete) {t s' : State} (hframe : Dispatch env s.header s (.next t))
      (hneg : s.header.length < 0) (hmove : consume s.header t = .fault s') : Pass env s (.fault s')

theorem State.Bounded.of_kept {s s' : State} (h : s.Bounded) (hk : Kept s s') : s'.Bounded := by
  rw [State.Bounded, hk.socketNreads]
  exact h

theorem socketOnce_pass {s : State} (hs : s.Bounded) (env : SocketEnv) :
    Pass env s (socketOnce env s) := by
  by_cases h : s.Complete
  · rw [socketOnce_of_complete env h]
    have hframe := handleFrame_dispatch env s.header s
    cases hflow : handleFrame env s.header s with
    | next t =>
        rw [hflow] at hframe
        have hk : Kept s t := hframe.kept
        rw [Flow.bind_next]
        by_cases hlen : 0 ≤ s.header.length
        · rw [consume_of_range (hs.of_kept hk) hlen (by rw [hk.socketNreads]; exact h.2)]
          exact .passed h hframe hlen
        · have hneg := Int.not_le.mp hlen
          obtain ⟨s', hfault⟩ := consume_of_neg (s := t) hneg
          rw [hfault]
          exact .overran h hframe hneg hfault
    | stop s' =>
        rw [hflow] at hframe
        exact .left h hframe
    | fault s' =>
        rw [hflow] at hframe
        exact .crashed h hframe
  · rw [socketOnce_of_not_complete env h]
    exact .waits h

/-! ## The buffer along a run -/

namespace State.Bounded

variable {s s' : State}

theorem protocolInit (fds : Descriptors) (time₁ time₂ : Int) (stale : CellMemory UInt8) :
    (protocolInit fds time₁ time₂ stale).Bounded :=
  ⟨Int.le_refl 0, Int.natCast_nonneg bufferSize⟩

theorem consumed (h : s.Bounded) {msg : Message} (hlen : 0 ≤ msg.length)
    (hle : msg.length ≤ s.socketNreads) : (s.consumed msg).Bounded := by
  have hhi := h.2
  change 0 ≤ s.socketNreads - msg.length ∧ s.socketNreads - msg.length ≤ bufferSize
  omega

theorem receive (h : s.Bounded) {bs : List UInt8} (hfits : bs.length ≤ s.room) :
    (receive bs s).Bounded := by
  have hroom := h.room
  have hlo := h.1
  change 0 ≤ s.socketNreads + bs.length ∧ s.socketNreads + bs.length ≤ bufferSize
  omega

theorem passed (h : s.Bounded) {env : SocketEnv} {t : State} (hcomplete : s.Complete)
    (hframe : Dispatch env s.header s (.next t)) (hlen : 0 ≤ s.header.length) :
    (t.consumed s.header).Bounded := by
  have hk : Kept s t := hframe.kept
  apply (h.of_kept hk).consumed hlen
  rw [hk.socketNreads]
  exact hcomplete.2

theorem socketOnce (h : s.Bounded) (env : SocketEnv) : (socketOnce env s).state.Bounded := by
  have hpass := socketOnce_pass h env
  cases hflow : Client.socketOnce env s with
  | next s' =>
      rw [hflow] at hpass
      cases hpass with
      | passed hcomplete hframe hlen => exact h.passed hcomplete hframe hlen
  | stop s' =>
      rw [hflow] at hpass
      cases hpass with
      | waits => exact h
      | left _ hframe => exact h.of_kept hframe.kept
  | fault s' =>
      rw [hflow] at hpass
      cases hpass with
      | crashed _ hframe => exact h.of_kept hframe.kept
      | @overran _ t _ hframe _ hmove =>
          have hfill : s'.socketNreads = t.socketNreads := by
            unfold consume at hmove
            simp only at hmove
            split at hmove
            · cases hmove
            · cases hmove
              rfl
          have hk : Kept s t := hframe.kept
          rw [State.Bounded, Flow.state_fault, hfill, hk.socketNreads]
          exact h

end State.Bounded

theorem handleSocket_of_bounded {s : State} (h : s.Bounded) {bs : List UInt8}
    (hfits : bs.length ≤ s.room) (env : Nat → SocketEnv) (fuel : Nat) :
    handleSocket (.bytes bs) env fuel s =
      iterate (fun k => socketOnce (env k)) fuel 0 (receive bs s) := by
  have hpos : ¬ (receive bs s).socketNreads < 0 := Int.not_lt.mpr (h.receive hfits).1
  unfold handleSocket
  simp only [hpos, if_false]

theorem State.Bounded.handleSocket {s : State} (h : s.Bounded) {r : ReadResult}
    (hfits : r.Fits s.room)
    (env : Nat → SocketEnv) (fuel : Nat) : (handleSocket r env fuel s).state.Bounded := by
  cases r with
  | error => exact h
  | bytes bs =>
      have hread := h.receive hfits
      rw [handleSocket_of_bounded h hfits]
      exact iterate_invariant State.Bounded (fun k t ht => ht.socketOnce (env k)) fuel 0 _ hread

theorem receive_content {s : State} (h : s.Bounded) (bs : List UInt8) :
    (receive bs s).content = s.content ++ bs := s.socketBuffer.load_fill_store h.1 bs

theorem State.consumed_content {s : State} (h : s.Bounded) {msg : Message} (hlen : 0 ≤ msg.length)
    (hle : msg.length ≤ s.socketNreads) :
    (s.consumed msg).content = s.content.drop msg.length.toNat :=
  s.socketBuffer.load_fill_move hlen hle (moveSize_eq h hlen hle)

/-! ## The other handlers -/

def Act.OfOther : Act → Prop
  | responded _ | sent _ | command _ | failed _ => True
  | _ => False

theorem Act.IsResponse.ofOther {act : Act} (h : act.IsResponse) : act.OfOther := by
  cases act with
  | responded => trivial
  | _ => exact h.elim

/-- The socket buffer and what the heartbeats say of the server are as they were. -/
structure Aside (s s' : State) : Prop where
  socketBuffer : s'.socketBuffer = s.socketBuffer
  socketNreads : s'.socketNreads = s.socketNreads
  lastHeartbeatFromServer : s'.lastHeartbeatFromServer = s.lastHeartbeatFromServer
  log : ∃ new, s'.log = new ++ s.log ∧ ∀ act ∈ new, act.OfOther

namespace Aside

variable {s t s' : State}

theorem refl (s : State) : Aside s s := ⟨rfl, rfl, rfl, [], rfl, by simp⟩

theorem trans (h : Aside s t) (h' : Aside t s') : Aside s s' := by
  obtain ⟨new, hlog, hnew⟩ := h.log
  obtain ⟨new', hlog', hnew'⟩ := h'.log
  refine ⟨h'.socketBuffer.trans h.socketBuffer, h'.socketNreads.trans h.socketNreads,
    h'.lastHeartbeatFromServer.trans h.lastHeartbeatFromServer, new' ++ new, ?_, ?_⟩
  · rw [hlog', hlog, List.append_assoc]
  · intro act hact
    rcases List.mem_append.mp hact with hact | hact
    · exact hnew' act hact
    · exact hnew act hact

theorem of_logged {P : Act → Prop} (h : Logged P s s') (hP : ∀ act, P act → act.OfOther) :
    Aside s s' := by
  obtain ⟨new, rfl, hnew⟩ := h
  exact ⟨rfl, rfl, rfl, new, rfl, fun act hact => hP act (hnew act hact)⟩

theorem note (h : Aside s t) {act : Act} (hact : act.OfOther := by trivial) :
    Aside s (t.note act) := by
  have hnote : Aside t (t.note act) := ⟨rfl, rfl, rfl, [act], rfl, by simpa using hact⟩
  exact h.trans hnote

theorem fail (h : Aside s t) (why : Failure) : Aside s (t.fail why) := by
  have hfail : Aside t (t.fail why) := ⟨rfl, rfl, rfl, [.failed why], rfl, by simp [Act.OfOther]⟩
  exact h.trans hfail

/-- Changing other fields. -/
theorem congr (h : Aside s t) (hbuf : s'.socketBuffer = t.socketBuffer)
    (hfill : s'.socketNreads = t.socketNreads)
    (hfrom : s'.lastHeartbeatFromServer = t.lastHeartbeatFromServer) (hlog : s'.log = t.log) :
    Aside s s' := h.trans ⟨hbuf, hfill, hfrom, [], hlog, by simp⟩

end Aside

def Act.sends : Act → List UInt8
  | sent bs => bs
  | _ => []

def written (log : List Act) : List UInt8 := gather Act.sends log

/-- Aside from the heartbeats, the connection was given the bytes `bs`. -/
structure Puts (s s' : State) (bs : List UInt8) : Prop extends Aside s s' where
  lastHeartbeatToServer : s'.lastHeartbeatToServer = s.lastHeartbeatToServer
  written : written s'.log = written s.log ++ bs

namespace Puts

variable {s t s' : State} {bs : List UInt8}

theorem refl (s : State) : Puts s s [] := ⟨Aside.refl s, rfl, (List.append_nil _).symm⟩

theorem trans {cs : List UInt8} (h : Puts s t bs) (h' : Puts t s' cs) : Puts s s' (bs ++ cs) := by
  refine ⟨h.toAside.trans h'.toAside, h'.lastHeartbeatToServer.trans h.lastHeartbeatToServer, ?_⟩
  rw [h'.written, h.written, List.append_assoc]

theorem sent (h : Puts s t bs) (cs : List UInt8) : Puts s (t.note (.sent cs)) (bs ++ cs) :=
  h.trans ⟨(Aside.refl t).note, rfl, rfl⟩

/-- A record that puts nothing on the connection. -/
theorem note (h : Puts s t bs) {act : Act} (hact : act.OfOther := by trivial)
    (hsends : act.sends = [] := by rfl) : Puts s (t.note act) bs := by
  refine ⟨h.toAside.note hact, h.lastHeartbeatToServer, ?_⟩
  change Client.written t.log ++ act.sends = _
  rw [hsends, List.append_nil, h.written]

theorem fail (h : Puts s t bs) (why : Failure) : Puts s (t.fail why) bs := by
  refine ⟨h.toAside.fail why, h.lastHeartbeatToServer, ?_⟩
  change Client.written t.log ++ [] = _
  rw [List.append_nil, h.written]

/-- Changing other fields. -/
theorem congr (h : Puts s t bs) (hbuf : s'.socketBuffer = t.socketBuffer)
    (hfill : s'.socketNreads = t.socketNreads)
    (hfrom : s'.lastHeartbeatFromServer = t.lastHeartbeatFromServer)
    (hto : s'.lastHeartbeatToServer = t.lastHeartbeatToServer) (hlog : s'.log = t.log) :
    Puts s s' bs := by
  refine ⟨h.toAside.congr hbuf hfill hfrom hlog, hto.trans h.lastHeartbeatToServer, ?_⟩
  rw [hlog, h.written]

theorem setTunFd (h : Puts s t bs) (fd : Fd) : Puts s (t.setTunFd fd) bs :=
  h.congr rfl rfl rfl rfl rfl

theorem of_responses (h : Puts s t bs) (hlog : Logged Act.IsResponse t s') : Puts s s' bs := by
  obtain ⟨new, rfl, hnew⟩ := hlog
  refine ⟨h.toAside.trans (.of_logged ⟨new, rfl, hnew⟩ fun _ => (·.ofOther)),
    h.lastHeartbeatToServer, ?_⟩
  have hnone : Client.written (new ++ t.log) = Client.written t.log := by
    refine gather_of_nil fun act hact => ?_
    have hresponse := hnew act hact
    cases act with
    | responded => rfl
    | _ => exact hresponse.elim
  rw [← h.written]
  exact hnone

end Puts

theorem puts_of_responded {s t : State} {bs : List UInt8} {flow : Flow State} (h : Puts s t bs)
    (hr : Responded t flow) : Puts s flow.state bs := by
  cases hr with
  | all hlog => exact h.of_responses hlog
  | gaveUp hlog => exact (h.of_responses hlog).fail _

/-! ## `handle_tunnel` -/

theorem taken_of_ret {write : WriteResult} {bs : List UInt8} (h : write.ret bs.length = bs.length) :
    write.taken bs = bs := by
  rw [WriteResult.taken, h, Int.toNat_natCast, List.take_length]

def dataHeader (bs : List UInt8) : List UInt8 :=
  Message.bytes ⟨int32 (sizeofMessage + bs.length), msgDataReq⟩

inductive Uplink (r : ReadResult) (write₁ write₂ : WriteResult) (s : State) : State → Prop
  | failed (read : r = .error) : Uplink r write₁ write₂ s (s.fail .tunRead)
  | nothing (read : r = .bytes []) : Uplink r write₁ write₂ s { s with ret := 0 }
  | sent {packet : List UInt8} (read : r = .bytes packet) :
      Uplink r write₁ write₂ s { (s.note (.sent (dataHeader packet))).note (.sent packet) with
        outPackets := s.outPackets + 1
        outBytes := s.outBytes + UInt64.ofNat packet.length
        ret := 0 }
  | headless {bs : List UInt8} (short : write₁.ret 5 ≠ 5) :
      Uplink r write₁ write₂ s ((s.note (.sent bs)).fail .socketWrite)
  | halved {packet bs : List UInt8} (read : r = .bytes packet)
      (short : write₂.ret packet.length ≠ packet.length) : Uplink r write₁ write₂ s
        (((s.note (.sent (dataHeader packet))).note (.sent bs)).fail .socketWrite)

theorem handleTunnel_uplink (r : ReadResult) (write₁ write₂ : WriteResult) (s : State) :
    Uplink r write₁ write₂ s (handleTunnel r write₁ write₂ s) := by
  unfold handleTunnel
  cases r with
  | error => exact .failed rfl
  | bytes packet =>
      cases packet with
      | nil => exact .nothing rfl
      | cons b bs =>
          simp only
          rw [← dataHeader]
          split
          · rename_i hret₁
            rw [taken_of_ret hret₁]
            split
            · rename_i hret₂
              rw [taken_of_ret hret₂]
              exact .sent rfl
            · rename_i hret₂
              exact .halved rfl hret₂
          · rename_i hret₁
            have hlen : (dataHeader (b :: bs)).length = 5 := Message.bytes_length _
            rw [hlen] at hret₁
            exact .headless hret₁

/-- A packet goes out whole if both writes take all they are given. -/
theorem handleTunnel_puts (r : ReadResult) (write₁ write₂ : WriteResult) (s : State) :
    ∃ bs, Puts s (handleTunnel r write₁ write₂ s) bs ∧
      (bs = [] ∨ write₁.ret 5 ≠ 5 ∨ ∃ packet, r = .bytes packet ∧
        (write₂.ret packet.length ≠ packet.length ∨ bs = dataHeader packet ++ packet)) := by
  have huplink := handleTunnel_uplink r write₁ write₂ s
  generalize handleTunnel r write₁ write₂ s = t at huplink ⊢
  cases huplink with
  | failed => exact ⟨[], (Puts.refl s).fail _, .inl rfl⟩
  | nothing => exact ⟨[], (Puts.refl s).congr rfl rfl rfl rfl rfl, .inl rfl⟩
  | @sent packet hread =>
      have hputs := ((Puts.refl s).sent (dataHeader packet)).sent packet
      rw [List.nil_append] at hputs
      exact ⟨_, hputs.congr rfl rfl rfl rfl rfl, .inr (.inr ⟨packet, hread, .inr rfl⟩)⟩
  | @headless bs hshort => exact ⟨_, ((Puts.refl s).sent bs).fail _, .inr (.inl hshort)⟩
  | @halved packet bs hread hshort =>
      have hputs := ((Puts.refl s).sent (dataHeader packet)).sent bs
      exact ⟨_, hputs.fail _, .inr (.inr ⟨packet, hread, .inl hshort⟩)⟩

theorem handleTunnel_aside (r : ReadResult) (write₁ write₂ : WriteResult) (s : State) :
    Aside s (handleTunnel r write₁ write₂ s) := by
  obtain ⟨_, hputs, _⟩ := handleTunnel_puts r write₁ write₂ s
  exact hputs.toAside

/-! ## `handle_command` -/

/-- What setting `tunFd` and failing keep. -/
theorem setTun_keeps {P : State → Prop} (hset : ∀ t fd, P t → P (t.setTunFd fd))
    (hfail : ∀ t why, P t → P (t.fail why)) {reads : Nat → ReadResult} {fuel : Nat} {s s' : State}
    (hs : P s) (h : setTun reads fuel s = .stopped s') : P s' := by
  have hpass : ∀ k (p : State × List UInt8), P p.1 → P (setTunOnce (reads k) p).state.1 := by
    intro k p hp
    unfold setTunOnce
    split
    · exact hp
    · cases reads k with
      | error => exact hfail p.1 _ hp
      | bytes bs => exact hset p.1 _ hp
  have hloop := iterate_invariant (fun p : State × List UInt8 => P p.1) hpass fuel 0 (s, []) hs
  unfold setTun at h
  cases hout : iterate (fun k => setTunOnce (reads k)) fuel 0 (s, []) with
  | running p =>
      rw [hout] at h
      cases h
  | faulted p =>
      rw [hout] at h
      cases h
  | stopped p =>
      rw [hout] at h hloop
      simp only at h
      split at h
      · cases h
        exact hloop
      · split at h
        · cases h
          exact hfail p.1 _ hloop
        · cases h
          exact hloop

/-- Reading a descriptor changes `tunFd` and nothing else. -/
theorem setTun_puts {reads : Nat → ReadResult} {fuel : Nat} {s s' : State}
    (h : setTun reads fuel s = .stopped s') : Puts s s' [] :=
  setTun_keeps (P := fun t => Puts s t []) (fun _ _ ht => ht.setTunFd _) (fun _ _ ht => ht.fail _)
    (Puts.refl s) h

def ipRequest : Frame := ⟨msgIpReq, []⟩

/-- A command asks for an address, or puts nothing on the connection. -/
theorem handleCommand_puts {env : CommandEnv} {fuel : Nat} {s s' : State}
    (h : handleCommand env fuel s = .stopped s') :
    ∃ bs, Puts s s' bs ∧ (bs = [] ∨ (env.write 0).ret 5 ≠ 5 ∨ bs = ipRequest.bytes) := by
  unfold handleCommand at h
  cases hbyte : env.byte with
  | error =>
      rw [hbyte] at h
      cases h
      exact ⟨[], (Puts.refl s).fail _, .inl rfl⟩
  | bytes bs =>
      cases bs with
      | nil =>
          rw [hbyte] at h
          cases h
          exact ⟨[], (Puts.refl s).fail _, .inl rfl⟩
      | cons c bs =>
          have hnoted : Puts s (s.note (.command c)) [] := (Puts.refl s).note
          have hstart : Puts s { s.note (.command c) with ret := 0 } [] :=
            hnoted.congr rfl rfl rfl rfl rfl
          rw [hbyte] at h
          simp only at h
          split at h
          · cases h
            exact ⟨[], hstart.congr rfl rfl rfl rfl rfl, .inl rfl⟩
          · split at h
            · split at h
              · rename_i hret
                cases h
                rw [taken_of_ret hret]
                exact ⟨_, hstart.sent _, .inr (.inr rfl)⟩
              · rename_i hret
                cases h
                exact ⟨_, (hstart.sent _).fail _, .inr (.inl hret)⟩
            · split at h
              · exact ⟨[], hstart.trans (setTun_puts h), .inl rfl⟩
              · split at h
                · cases h
                  exact ⟨[], puts_of_responded hstart (respond_responded _ _ _ _), .inl rfl⟩
                · cases h
                  exact ⟨[], hstart, .inl rfl⟩

/-- Only `tunFd`, what the handler returns and the log are other ones. -/
def Commanded (s s' : State) : Prop :=
  ∃ fd ret log, s' = { s with tunFd := fd, ret := ret, log := log }

namespace Commanded

variable {s t : State}

theorem refl (s : State) : Commanded s s := ⟨s.tunFd, s.ret, s.log, rfl⟩

theorem note (h : Commanded s t) (act : Act) : Commanded s (t.note act) := by
  obtain ⟨fd, ret, log, rfl⟩ := h
  exact ⟨fd, ret, act :: log, rfl⟩

theorem fail (h : Commanded s t) (why : Failure) : Commanded s (t.fail why) := by
  obtain ⟨fd, ret, log, rfl⟩ := h
  exact ⟨fd, -1, .failed why :: log, rfl⟩

theorem setTunFd (h : Commanded s t) (fd : Fd) : Commanded s (t.setTunFd fd) := by
  obtain ⟨_, ret, log, rfl⟩ := h
  exact ⟨fd, ret, log, rfl⟩

theorem logged {P : Act → Prop} {t' : State} (h : Commanded s t) (hlog : Logged P t t') :
    Commanded s t' := by
  obtain ⟨fd, ret, log, rfl⟩ := h
  obtain ⟨new, rfl, _⟩ := hlog
  exact ⟨fd, ret, new ++ log, rfl⟩

theorem responded {flow : Flow State} (h : Commanded s t) (hr : Responded t flow) :
    Commanded s flow.state := by
  cases hr with
  | all hlog => exact h.logged hlog
  | gaveUp hlog => exact (h.logged hlog).fail _

end Commanded

theorem handleCommand_commanded {env : CommandEnv} {fuel : Nat} {s s' : State}
    (h : handleCommand env fuel s = .stopped s') : Commanded s s' := by
  have hstart : ∀ command, Commanded s { s.note (.command command) with ret := 0 } :=
    fun command => ⟨s.tunFd, 0, .command command :: s.log, rfl⟩
  unfold handleCommand at h
  split at h
  · rename_i command _ _
    simp only at h
    split at h
    · cases h
      exact ⟨s.tunFd, 1, .command command :: s.log, rfl⟩
    · split at h
      · split at h
        · cases h
          exact (hstart command).note _
        · cases h
          exact ((hstart command).note _).fail _
      · split at h
        · exact setTun_keeps (P := Commanded s) (fun _ fd ht => ht.setTunFd fd)
            (fun _ why ht => ht.fail why) (hstart command) h
        · split at h
          · cases h
            exact (hstart command).responded (respond_responded _ _ _ _)
          · cases h
            exact hstart command
  · cases h
    exact (Commanded.refl s).fail _

theorem handleCommand_aside {env : CommandEnv} {fuel : Nat} {s s' : State}
    (h : handleCommand env fuel s = .stopped s') : Aside s s' := by
  obtain ⟨_, hputs, _⟩ := handleCommand_puts h
  exact hputs.toAside

/-! ## `handle_heartbeat` -/

inductive Beat (now : Int) (s : State) : State → Prop
  | timeout (hlate : heartbeatTimeoutSecs < now - s.lastHeartbeatFromServer) :
      Beat now s (s.fail .timeout)
  | sent (hlate : now - s.lastHeartbeatFromServer ≤ heartbeatTimeoutSecs)
      (hdue : heartbeatIntervalSecs < now - s.lastHeartbeatToServer) :
      Beat now s { s.note (.sent (Message.bytes ⟨sizeofMessage, msgHeartbeat⟩)) with
        lastHeartbeatToServer := now, ret := 0 }
  | lost (hlate : now - s.lastHeartbeatFromServer ≤ heartbeatTimeoutSecs)
      (hdue : heartbeatIntervalSecs < now - s.lastHeartbeatToServer) (bs : List UInt8) :
      Beat now s ((s.note (.sent bs)).fail .socketWrite)
  | early (hlate : now - s.lastHeartbeatFromServer ≤ heartbeatTimeoutSecs)
      (hdue : now - s.lastHeartbeatToServer ≤ heartbeatIntervalSecs) : Beat now s { s with ret := 0 }

theorem handleHeartbeat_beat (now : Int) (write : WriteResult) (s : State) :
    Beat now s (handleHeartbeat now write s) := by
  unfold handleHeartbeat
  by_cases hlate : now - s.lastHeartbeatFromServer > heartbeatTimeoutSecs
  · rw [if_pos hlate]
    exact .timeout hlate
  · rw [if_neg hlate]
    by_cases hdue : now - s.lastHeartbeatToServer > heartbeatIntervalSecs
    · rw [if_pos hdue]
      simp only
      split
      · rw [taken_of_ret ‹_›]
        exact .sent (Int.not_lt.mp hlate) hdue
      · exact .lost (Int.not_lt.mp hlate) hdue _
    · rw [if_neg hdue]
      exact .early (Int.not_lt.mp hlate) (Int.not_lt.mp hdue)

theorem Beat.aside {now : Int} {s s' : State} (h : Beat now s s') : Aside s s' := by
  cases h with
  | timeout => exact (Aside.refl s).fail _
  | sent => exact (Aside.refl s).note.congr rfl rfl rfl rfl
  | lost => exact (Aside.refl s).note.fail _
  | early => exact (Aside.refl s).congr rfl rfl rfl rfl

theorem handleHeartbeat_aside (now : Int) (write : WriteResult) (s : State) :
    Aside s (handleHeartbeat now write s) := (handleHeartbeat_beat now write s).aside

/-! ## Calls -/

inductive Call (s : State) : Event → State → Prop
  | heartbeat (now : Int) (write : WriteResult) :
      Call s (.heartbeat now write) (handleHeartbeat now write s)
  | command (env : CommandEnv) (fuel : Nat) {s' : State}
      (h : handleCommand env fuel s = .stopped s') : Call s (.command env fuel) s'
  | socket (r : ReadResult) (env : Nat → SocketEnv) (fuel : Nat) (hfits : r.Fits s.room) {s' : State}
      (h : handleSocket r env fuel s = .stopped s') : Call s (.socket r env fuel) s'
  | tunnel (r : ReadResult) (write₁ write₂ : WriteResult) (htun : 0 ≤ s.tunFd)
      (hfits : r.Fits bufferSize) :
      Call s (.tunnel r write₁ write₂) (handleTunnel r write₁ write₂ s)

theorem step_ret {s s' : State} {e : Event} (h : step s e = some s') : s.ret = 0 := by
  unfold step at h
  rw [Option.ite_none_right_eq_some] at h
  exact h.1

theorem step_call {s s' : State} {e : Event} (h : step s e = some s') : Call s e s' := by
  unfold step at h
  rw [Option.ite_none_right_eq_some] at h
  obtain ⟨_, h⟩ := h
  cases e with
  | heartbeat now write =>
      obtain rfl := Option.some.inj h
      exact .heartbeat now write
  | command env fuel => exact .command env fuel (Outcome.returned_eq_some.mp h)
  | socket r env fuel =>
      simp only [Option.ite_none_right_eq_some] at h
      exact .socket r env fuel h.1 (Outcome.returned_eq_some.mp h.2)
  | tunnel r write₁ write₂ =>
      simp only [Option.ite_none_right_eq_some, Option.some.injEq] at h
      obtain ⟨⟨htun, hfits⟩, rfl⟩ := h
      exact .tunnel r write₁ write₂ htun hfits

end Over6.Client
