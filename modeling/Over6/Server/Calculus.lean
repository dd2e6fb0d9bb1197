import Over6.Server.EventLoop

/-! # What the handlers can do

One inversion statement for each handler, and the frame facts that follow from
them: which part of the state a call leaves alone and what it writes to the log.
Later modules reason from these and do not unfold the handlers again.
-/

namespace Over6.Server

open MachineInt BoundedLoop EventRun Journal

/-! ## `write_all` -/

theorem writeLoop_spec (write : Nat → WriteResult) (fuel k : Nat) (offset : Int)
    (rest : List UInt8) (hfuel : rest.length ≤ fuel) :
    writeLoop write fuel k offset rest = (rest, offset + rest.length) ∨
      ∃ sent, sent <+: rest ∧ writeLoop write fuel k offset rest = (sent, -1) := by
  induction fuel generalizing k offset rest with
  | zero =>
      have hnil : rest = [] := List.eq_nil_of_length_eq_zero (by omega)
      subst hnil
      left
      simp [writeLoop]
  | succ fuel ih =>
      by_cases hnil : rest = []
      · subst hnil
        left
        simp [writeLoop]
      · have hpos : 0 < rest.length := List.length_pos_iff.mpr hnil
        cases hw : write k with
        | error =>
            right
            exact ⟨[], List.nil_prefix, by simp [writeLoop, hnil, hw]⟩
        | wrote n =>
            have hdrop : (rest.drop (min (n + 1) rest.length)).length ≤ fuel := by
              rw [List.length_drop]
              omega
            have hcut := List.take_append_drop (min (n + 1) rest.length) rest
            simp only [writeLoop, if_neg hnil, hw]
            rcases ih (k + 1) (offset + (min (n + 1) rest.length : Nat)) _ hdrop with h | ⟨sent, hp, h⟩
            · left
              rw [h, hcut, List.length_drop]
              congr 1
              omega
            · right
              refine ⟨rest.take (min (n + 1) rest.length) ++ sent, ?_, by rw [h]⟩
              conv => rhs; rw [← hcut]
              exact (List.prefix_append_right_inj _).mpr hp

/-- `write_all` gets everything across and returns the size, or fails with `-1`. -/
theorem writeAll_spec (write : Nat → WriteResult) (bs : List UInt8) :
    writeAll write bs = (bs, (bs.length : Int)) ∨
      ∃ sent, sent <+: bs ∧ writeAll write bs = (sent, -1) := by
  simpa [writeAll] using writeLoop_spec write bs.length 0 0 bs (Nat.le_refl _)

theorem writeLoop_of_wrote {write : Nat → WriteResult} (h : ∀ k, ∃ n, write k = .wrote n)
    (fuel k : Nat) (offset : Int) (rest : List UInt8) :
    0 ≤ offset → 0 ≤ (writeLoop write fuel k offset rest).2 := by
  induction fuel generalizing k offset rest with
  | zero => exact id
  | succ fuel ih =>
      intro hoff
      by_cases hnil : rest = []
      · simpa [writeLoop, hnil] using hoff
      · obtain ⟨n, hn⟩ := h k
        simp only [writeLoop, if_neg hnil, hn]
        exact ih (k + 1) _ _ (by omega)

/-- Writes that only ever come up short still get everything across. -/
theorem writeAll_of_wrote {write : Nat → WriteResult} (h : ∀ k, ∃ n, write k = .wrote n)
    (bs : List UInt8) : writeAll write bs = (bs, (bs.length : Int)) := by
  rcases writeAll_spec write bs with hw | ⟨sent, _, hw⟩
  · exact hw
  · have hpos := writeLoop_of_wrote h bs.length 0 0 bs (Int.le_refl 0)
    rw [writeAll] at hw
    rw [hw] at hpos
    omega

/-- The same on a descriptor, with the record it leaves. -/
theorem State.writeAll_spec (s : State) (write : Nat → WriteResult) (fd : Fd) (bs : List UInt8) :
    s.writeAll write fd bs = (s.note fd (.wrote bs bs.length), (bs.length : Int)) ∨
      ∃ sent, sent <+: bs ∧ s.writeAll write fd bs = (s.note fd (.wrote sent (-1)), -1) := by
  rcases Server.writeAll_spec (if s.isOpen fd then write else fun _ => .error) bs with
    h | ⟨sent, hp, h⟩
  · left
    rw [State.writeAll, h]
  · right
    exact ⟨sent, hp, by rw [State.writeAll, h]⟩

theorem State.writeAll_of_wrote (s : State) {write : Nat → WriteResult} {fd : Fd}
    (hopen : s.isOpen fd = true) (h : ∀ k, ∃ n, write k = .wrote n) (bs : List UInt8) :
    s.writeAll write fd bs = (s.note fd (.wrote bs bs.length), (bs.length : Int)) := by
  rw [State.writeAll, if_pos hopen, Server.writeAll_of_wrote h]

/-- Nothing but an empty write succeeds on a number that is not open. -/
theorem State.writeAll_of_closed (s : State) (write : Nat → WriteResult) {fd : Fd}
    (hclosed : s.isOpen fd = false) {bs : List UInt8} (hne : bs ≠ []) :
    s.writeAll write fd bs = (s.note fd (.wrote [] (-1)), -1) := by
  have hlen : ∃ n, bs.length = n + 1 :=
    Nat.exists_eq_succ_of_ne_zero (by simpa using hne)
  obtain ⟨n, hn⟩ := hlen
  simp [State.writeAll, Server.writeAll, hclosed, hn, writeLoop, hne]

/-! ## One frame -/

namespace State

def noteRequest (s : State) (fd : Fd) : State :=
  s.note fd (.requested (grantsTwice s.users fd))

def grantTo (s : State) (env : FrameEnv) (fd : Fd) (i : Slot) : State :=
  ((s.noteRequest fd).setUser i ((s.users i).grant fd env.time₁ env.time₂)).note fd
    (.granted i env.time₂)

end State

def ipReplyHeader (addr : List UInt8) : List UInt8 :=
  Message.bytes ⟨(ipReply addr).length + 5, msgIpRsb⟩

/-- Both parts of the reply with `addr` get across to `fd`. -/
def State.Replies (s : State) (env : FrameEnv) (fd : Fd) (addr : List UInt8) : Prop :=
  (s.writeAll env.write₁ fd (ipReplyHeader addr)).2 = sizeofMessage ∧
    (s.writeAll env.write₂ fd (ipReply addr)).2 = (ipReply addr).length

instance (s : State) (env : FrameEnv) (fd : Fd) (addr : List UInt8) :
    Decidable (s.Replies env fd addr) := inferInstanceAs (Decidable (_ ∧ _))

def State.dataSlice (s : State) (fd : Fd) (msglen : Int) : List UInt8 :=
  (s.bufs fd).buf.load sizeofMessage (dataLen msglen).toNat

/-- Everything the dispatch on one frame can end with. -/
inductive Dispatch (env : FrameEnv) (fd : Fd) (msg : Message) (s : State) : Flow State → Prop
  | poolFull (htype : msg.type = msgIpReq) (hfull : firstFree s.users = none) :
      Dispatch env fd msg s (.stop ((s.noteRequest fd).note fd (.failed .poolFull)))
  | replyHeader (htype : msg.type = msgIpReq) (i : Slot) (hfree : firstFree s.users = some i)
      (sent : List UInt8) (hfails : ¬ s.Replies env fd (s.users i).addr) :
      Dispatch env fd msg s (.stop (((s.grantTo env fd i).note fd (.wrote sent (-1))).note fd
        (.failed .replyHeader)))
  | replyData (htype : msg.type = msgIpReq) (i : Slot) (hfree : firstFree s.users = some i)
      (sent : List UInt8) (hfails : ¬ s.Replies env fd (s.users i).addr) :
      Dispatch env fd msg s (.stop ((((s.grantTo env fd i).note fd
        (.wrote (ipReplyHeader (s.users i).addr) 5)).note fd (.wrote sent (-1))).note fd
          (.failed .replyData)))
  | replied (htype : msg.type = msgIpReq) (i : Slot) (hfree : firstFree s.users = some i)
      (hreplies : s.Replies env fd (s.users i).addr) :
      Dispatch env fd msg s (.next ((((s.grantTo env fd i).note fd
        (.wrote (ipReplyHeader (s.users i).addr) 5)).note fd
          (.wrote (ipReply (s.users i).addr) (ipReply (s.users i).addr).length)).note fd
            (.replied (ipReply (s.users i).addr))))
  | tunData (htype : msg.type = msgDataReq) (sent : List UInt8) (hlen : -1 < dataLen msg.length)
      (hret : (s.writeAll env.write₁ s.tunFd (s.dataSlice fd msg.length)).2 = -1) :
      Dispatch env fd msg s (.stop (((s.note fd (.touched sizeofMessage (dataLen msg.length))).note
        s.tunFd (.wrote sent (-1))).note fd (.failed .tunData)))
  | forwarded (htype : msg.type = msgDataReq) (sent : List UInt8) (ret : Int)
      (hret : dataLen msg.length ≤ ret) :
      Dispatch env fd msg s (.next ((s.note fd (.touched sizeofMessage (dataLen msg.length))).note
        s.tunFd (.wrote sent ret)))
  | stray (htype : msg.type = msgHeartbeat) (hnone : searchUserInfoByFd s.users fd = none) :
      Dispatch env fd msg s (.next (s.note fd (.kept none env.time₁)))
  | kept (htype : msg.type = msgHeartbeat) (i : Slot)
      (hsome : searchUserInfoByFd s.users fd = some i) :
      Dispatch env fd msg s (.next ((s.note fd (.kept (some i) env.time₁)).setUser i
        { s.users i with lastHeartbeatRecvedSecs := env.time₁ }))
  | unknown (h₁ : msg.type ≠ msgIpReq) (h₂ : msg.type ≠ msgDataReq)
      (h₃ : msg.type ≠ msgHeartbeat) : Dispatch env fd msg s (.next s)

theorem ipReplyHeader_length (addr : List UInt8) : (ipReplyHeader addr).length = 5 := by
  rw [ipReplyHeader, Message.bytes_length]

theorem handleIpReq_dispatch (env : FrameEnv) (fd : Fd) (msg : Message) (s : State)
    (htype : msg.type = msgIpReq) : Dispatch env fd msg s (handleIpReq env fd s) := by
  cases hfree : firstFree s.users with
  | none =>
      have halloc : allocateIpAddr fd env.time₁ env.time₂ (s.noteRequest fd) =
          (s.noteRequest fd, none) := by
        have hsame : firstFree (s.noteRequest fd).users = none := hfree
        unfold allocateIpAddr
        rw [hsame]
      have hflow : handleIpReq env fd s =
          .stop ((s.noteRequest fd).note fd (.failed .poolFull)) := by
        rw [State.noteRequest] at halloc ⊢
        simp only [handleIpReq, halloc]
      rw [hflow]
      exact .poolFull htype hfree
  | some i =>
      have halloc : allocateIpAddr fd env.time₁ env.time₂ (s.noteRequest fd) =
          (s.grantTo env fd i, some i) := by
        have hsame : firstFree (s.noteRequest fd).users = some i := hfree
        unfold allocateIpAddr
        rw [hsame]
        rfl
      have haddr : ((s.grantTo env fd i).users i).addr = (s.users i).addr := by
        simp [State.grantTo, UserInfo.grant]
      have hheader := (s.grantTo env fd i).writeAll_spec env.write₁ fd
        (ipReplyHeader (s.users i).addr)
      have hdata := ((s.grantTo env fd i).note fd
        (.wrote (ipReplyHeader (s.users i).addr) 5)).writeAll_spec env.write₂ fd
          (ipReply (s.users i).addr)
      have hpos : (-1 : Int) < (ipReply (s.users i).addr).length :=
        Int.lt_of_lt_of_le (by decide) (Int.natCast_nonneg _)
      -- What a write returns depends on the descriptor being open only.
      have hreplies : s.Replies env fd (s.users i).addr ↔
          ((s.grantTo env fd i).writeAll env.write₁ fd (ipReplyHeader (s.users i).addr)).2 =
            sizeofMessage ∧
          (((s.grantTo env fd i).note fd (.wrote (ipReplyHeader (s.users i).addr) 5)).writeAll
            env.write₂ fd (ipReply (s.users i).addr)).2 = (ipReply (s.users i).addr).length :=
        Iff.rfl
      rw [ipReplyHeader_length] at hheader
      rw [State.noteRequest] at halloc
      simp only [handleIpReq, halloc, haddr]
      rw [← ipReplyHeader]
      rcases hheader with hw | ⟨sent, _, hw⟩
      · rcases hdata with hd | ⟨sent, _, hd⟩
        · rw [hw, hd] at hreplies
          simp only [hw, hd, Int.lt_irrefl, if_false, Nat.cast_ofNat]
          exact .replied htype i hfree (hreplies.mpr ⟨rfl, rfl⟩)
        · rw [hd] at hreplies
          simp only [hw, hd, hpos, Int.lt_irrefl, if_true, if_false, Nat.cast_ofNat]
          exact .replyData htype i hfree sent fun hr =>
            absurd (hreplies.mp hr).2 (Int.ne_of_lt hpos)
      · rw [hw] at hreplies
        simp only [hw, show (-1 : Int) < (sizeofMessage : Nat) by decide, if_true]
        exact .replyHeader htype i hfree sent fun hr =>
          absurd (hreplies.mp hr).1 (show (-1 : Int) ≠ (sizeofMessage : Nat) by decide)

theorem handleDataReq_dispatch (env : FrameEnv) (fd : Fd) (msg : Message) (s : State)
    (htype : msg.type = msgDataReq) :
    Dispatch env fd msg s (handleDataReq env fd msg.length s) := by
  have hwrite := (s.note fd (.touched sizeofMessage (dataLen msg.length))).writeAll_spec env.write₁
    s.tunFd (s.dataSlice fd msg.length)
  have hflow : handleDataReq env fd msg.length s =
      let data := (s.note fd (.touched sizeofMessage (dataLen msg.length))).writeAll env.write₁
        s.tunFd (s.dataSlice fd msg.length)
      if data.2 < dataLen msg.length then .stop (data.1.note fd (.failed .tunData))
      else .next data.1 := rfl
  rw [hflow]
  rcases hwrite with hw | ⟨sent, _, hw⟩
  · have hlen : ((s.dataSlice fd msg.length).length : Int) = (dataLen msg.length).toNat := by
      rw [State.dataSlice, CellMemory.load_length]
    have hle : dataLen msg.length ≤ ((s.dataSlice fd msg.length).length : Int) := by omega
    simp only [hw, Int.not_lt.mpr hle, if_false]
    exact .forwarded htype _ _ hle
  · by_cases hlt : -1 < dataLen msg.length
    · simp only [hw, hlt, if_true]
      have hret : (s.writeAll env.write₁ s.tunFd (s.dataSlice fd msg.length)).2 = -1 :=
        congrArg Prod.snd hw
      exact .tunData htype sent hlt hret
    · simp only [hw, hlt, if_false]
      exact .forwarded htype sent (-1) (Int.not_lt.mp hlt)

theorem handleHeartbeat_dispatch (env : FrameEnv) (fd : Fd) (msg : Message) (s : State)
    (htype : msg.type = msgHeartbeat) : Dispatch env fd msg s (handleHeartbeat env fd s) := by
  unfold handleHeartbeat
  cases hs : searchUserInfoByFd s.users fd with
  | none => exact .stray htype hs
  | some i => exact .kept htype i hs

theorem handleFrame_dispatch (env : FrameEnv) (fd : Fd) (msg : Message) (s : State) :
    Dispatch env fd msg s (handleFrame env fd msg s) := by
  unfold handleFrame
  by_cases h₁ : msg.type = msgIpReq
  · rw [if_pos h₁]
    exact handleIpReq_dispatch env fd msg s h₁
  · by_cases h₂ : msg.type = msgDataReq
    · rw [if_neg h₁, if_pos h₂]
      exact handleDataReq_dispatch env fd msg s h₂
    · by_cases h₃ : msg.type = msgHeartbeat
      · rw [if_neg h₁, if_neg h₂, if_pos h₃]
        exact handleHeartbeat_dispatch env fd msg s h₃
      · rw [if_neg h₁, if_neg h₂, if_neg h₃]
        exact .unknown h₁ h₂ h₃

/-! ## Quiet transitions -/

namespace Act

def OfFrame : Act → Prop
  | touched _ _ | requested _ | granted _ _ | replied _ | wrote _ _ | kept _ _ | failed _ => True
  | _ => False

def OfParse (act : Act) : Prop := act.OfFrame ∨ ∃ length frame, act = .handled length frame

def OfSweep : Act → Prop
  | wrote _ _ | judged _ _ => True
  | _ => False

def Plain : Act → Prop
  | accepted | requested true | granted _ _ | released _ | closed => False
  | _ => True

end Act

/-- The kernel's side is as it was and the log has grown by records of one kind, each stamped
with the connection that is open on its descriptor. -/
structure Quiet (P : Act → Prop) (s s' : State) : Prop where
  fds : s'.fds = s.fds
  conn : s'.conn = s.conn
  watched : s'.watched = s.watched
  accepted : s'.accepted = s.accepted
  log : ∃ new, s'.log = new ++ s.log ∧ ∀ r ∈ new, r.conn = s.conn r.fd ∧ P r.act

namespace Quiet

variable {P Q : Act → Prop} {s s' t : State}

theorem refl (s : State) : Quiet P s s := ⟨rfl, rfl, rfl, rfl, [], rfl, by simp⟩

theorem note (h : Quiet P s t) (fd : Fd) {act : Act} (hact : P act := by trivial) :
    Quiet P s (t.note fd act) := by
  obtain ⟨hfds, hconn, hwatched, haccepted, new, hlog, hnew⟩ := h
  refine ⟨hfds, hconn, hwatched, haccepted, ⟨t.conn fd, fd, act⟩ :: new, ?_, ?_⟩
  · rw [State.note_log, hlog, List.cons_append]
  · intro r hr
    rcases List.mem_cons.mp hr with rfl | hr
    · exact ⟨by rw [hconn], hact⟩
    · exact hnew r hr

theorem setUser (h : Quiet P s t) (i : Slot) (u : UserInfo) : Quiet P s (t.setUser i u) :=
  ⟨h.fds, h.conn, h.watched, h.accepted, h.log⟩

theorem setBuf (h : Quiet P s t) (fd : Fd) (e : BufferEntry) : Quiet P s (t.setBuf fd e) :=
  ⟨h.fds, h.conn, h.watched, h.accepted, h.log⟩

theorem mono (h : Quiet P s t) (hPQ : ∀ act, P act → Q act) : Quiet Q s t := by
  obtain ⟨new, hlog, hnew⟩ := h.log
  exact ⟨h.fds, h.conn, h.watched, h.accepted, new, hlog,
    fun r hr => ⟨(hnew r hr).1, hPQ _ (hnew r hr).2⟩⟩

theorem trans (h : Quiet P s t) (h' : Quiet P t s') : Quiet P s s' := by
  obtain ⟨new, hlog, hnew⟩ := h.log
  obtain ⟨new', hlog', hnew'⟩ := h'.log
  refine ⟨h'.fds.trans h.fds, h'.conn.trans h.conn, h'.watched.trans h.watched,
    h'.accepted.trans h.accepted, new' ++ new, by rw [hlog', hlog, List.append_assoc], ?_⟩
  intro r hr
  rcases List.mem_append.mp hr with hr | hr
  · exact ⟨by rw [(hnew' r hr).1, h.conn], (hnew' r hr).2⟩
  · exact hnew r hr

theorem of_chain (h : Relation.ReflTransGen (Quiet P) s t) : Quiet P s t := by
  induction h with
  | refl => exact refl s
  | tail _ ht ih => exact ih.trans ht

theorem isOpen (h : Quiet P s t) (fd : Fd) : t.isOpen fd = s.isOpen fd := by
  simp [State.isOpen, State.tunFd, h.conn, h.fds]

/-- A selection that never picks records of this kind sees nothing new. -/
theorem gather_eq (h : Quiet P s t) {α : Type} {pick : Record → List α}
    (hpick : ∀ r, P r.act → pick r = []) : gather pick t.log = gather pick s.log := by
  obtain ⟨new, hlog, hnew⟩ := h.log
  rw [hlog, gather_append]
  have hnil : gather pick new = [] := gather_eq_nil fun r hr => hpick r (hnew r hr).2
  rw [hnil, List.append_nil]

end Quiet

theorem Dispatch.quiet {env : FrameEnv} {fd : Fd} {msg : Message} {s : State} {flow : Flow State}
    (h : Dispatch env fd msg s flow) : Quiet Act.OfFrame s flow.state := by
  have hgrant : ∀ i, Quiet Act.OfFrame s (s.grantTo env fd i) := by
    intro i
    exact (((Quiet.refl s).note fd).setUser i _).note fd
  cases h with
  | poolFull => exact ((Quiet.refl s).note fd).note fd
  | replyHeader _ i => exact ((hgrant i).note fd).note fd
  | replyData _ i => exact (((hgrant i).note fd).note fd).note fd
  | replied _ i => exact (((hgrant i).note fd).note fd).note fd
  | tunData => exact (((Quiet.refl s).note fd).note _).note fd
  | forwarded => exact ((Quiet.refl s).note fd).note _
  | stray => exact (Quiet.refl s).note fd
  | kept => exact ((Quiet.refl s).note fd).setUser _ _
  | unknown => exact Quiet.refl s

/-- No handler of a frame touches a buffer. -/
theorem Dispatch.bufs {env : FrameEnv} {fd : Fd} {msg : Message} {s : State} {flow : Flow State}
    (h : Dispatch env fd msg s flow) : flow.state.bufs = s.bufs := by
  cases h <;> rfl

end Over6.Server
