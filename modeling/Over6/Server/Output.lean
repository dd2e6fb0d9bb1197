import Over6.Server.Routing

/-! # What the server puts on a connection

IP replies, packets and keepalives: while writes to open sockets succeed, the bytes
put on a connection are a stream of frames.
-/

namespace Over6.Server

open MachineInt BoundedLoop EventRun Journal

/-- What `process_heartbeat` writes. -/
def keepalive : Frame := ⟨msgHeartbeat, []⟩

def Act.put : Act → List UInt8
  | wrote bs _ => bs
  | _ => []

/-- The frame that is complete with a record. -/
def Act.framed : Act → List Frame
  | replied text => [⟨msgIpRsb, text⟩]
  | routed _ packet => [⟨msgDataRsb, packet⟩]
  | wrote bs _ => if bs = keepalive.bytes then [keepalive] else []
  | _ => []

@[simp] theorem Act.put_wrote (bs : List UInt8) (ret : Int) : (Act.wrote bs ret).put = bs := rfl

theorem Act.framed_wrote {bs : List UInt8} (h : bs ≠ keepalive.bytes) (ret : Int) :
    (Act.wrote bs ret).framed = [] := if_neg h

def written (c : Conn) (log : List Record) : List UInt8 := gather (onConn c Act.put) log

def framed (c : Conn) (log : List Record) : List Frame := gather (onConn c Act.framed) log

def Bulk (f : Frame) : Prop := f.payload.length ≤ bufSize

theorem Bulk.valid {f : Frame} (h : Bulk f) : f.Valid := by
  have hcap : bufSize = 65536 := rfl
  have hfive : sizeofMessage = 5 := rfl
  have hlen : f.payload.length ≤ bufSize := h
  change f.payload.length + sizeofMessage < 2 ^ 31
  omega

/-- Between two logs the frames `fs` were put on connection `c`, and nothing else. -/
structure Emits (c : Conn) (log log' : List Record) (fs : List Frame) : Prop where
  bytes : written c log' = written c log ++ frameCode.stream fs
  frames : framed c log' = framed c log ++ fs
  bulk : ∀ f ∈ fs, Bulk f

namespace Emits

variable {c : Conn} {log log' log'' : List Record} {fs gs : List Frame}

theorem refl (c : Conn) (log : List Record) : Emits c log log [] :=
  ⟨(List.append_nil _).symm, (List.append_nil _).symm, by simp⟩

theorem trans (h : Emits c log log' fs) (h' : Emits c log' log'' gs) :
    Emits c log log'' (fs ++ gs) := by
  refine ⟨?_, ?_, ?_⟩
  · rw [h'.bytes, h.bytes, PrefixCode.stream_append, List.append_assoc]
  · rw [h'.frames, h.frames, List.append_assoc]
  · intro f hf
    rcases List.mem_append.mp hf with hf | hf
    · exact h.bulk f hf
    · exact h'.bulk f hf

/-- Records on other connections, or that put nothing on one. -/
theorem silent {new : List Record}
    (h : ∀ r ∈ new, r.conn = some c → r.act.put = [] ∧ r.act.framed = []) :
    Emits c log (new ++ log) [] := by
  have hput : written c (new ++ log) = written c log :=
    gather_of_nil fun r hr => onConn_eq_nil fun hc => (h r hr hc).1
  have hframed : framed c (new ++ log) = framed c log :=
    gather_of_nil fun r hr => onConn_eq_nil fun hc => (h r hr hc).2
  exact ⟨hput.trans (List.append_nil _).symm, hframed.trans (List.append_nil _).symm, by simp⟩

/-- A record that puts nothing on the connection. -/
theorem note (h : Emits c log log' fs) {r : Record}
    (hr : r.conn = some c → r.act.put = [] ∧ r.act.framed = []) : Emits c log (r :: log') fs := by
  have hsilent : Emits c log' ([r] ++ log') [] := silent fun x hx hc => by
    rw [List.mem_singleton.mp hx] at hc ⊢
    exact hr hc
  have htrans := h.trans hsilent
  rwa [List.append_nil] at htrans

end Emits

theorem Message.bytes_ne {m m' : Message} (h : m.type ≠ m'.type) : m.bytes ≠ m'.bytes := by
  intro he
  have htype := (List.append_inj' he rfl).2
  exact h (List.cons.inj htype).1

/-- A header, its payload and the record that completes them. -/
theorem emits_frame {c : Conn} {conn : Option Conn} {fd : Fd} {f : Frame} {header : List UInt8}
    {act : Act} {ret₁ ret₂ : Int} {log : List Record} (hconn : conn = some c)
    (htype : f.type ≠ msgHeartbeat) (hlen : 5 < f.payload.length) (hbulk : Bulk f)
    (hheader : header = f.message.bytes) (hput : act.put = []) (hframed : act.framed = [f]) :
    Emits c log (⟨conn, fd, act⟩ :: ⟨conn, fd, .wrote f.payload ret₂⟩ ::
      ⟨conn, fd, .wrote header ret₁⟩ :: log) [f] := by
  have hkeepalive : keepalive.bytes = keepalive.message.bytes := List.append_nil _
  have hfirst : f.message.bytes ≠ keepalive.bytes := by
    rw [hkeepalive]
    exact Message.bytes_ne htype
  have hsecond : f.payload ≠ keepalive.bytes := by
    intro he
    rw [he, Frame.bytes_length] at hlen
    exact absurd hlen (by decide)
  subst hconn hheader
  refine ⟨?_, ?_, by simpa using hbulk⟩
  · simp [written, onConn, hput, Frame.bytes]
  · simp [framed, onConn, hframed, Act.framed_wrote hfirst, Act.framed_wrote hsecond]

/-! ## The texts in the table -/

def Named (s : State) : Prop := ∀ i, (s.users i).addr = slotText i

namespace Named

variable {s s' : State}

theorem steady (h : Named s) (hs : Steady s s') : Named s' := fun i => (hs.owner i).1.trans (h i)

theorem change (h : Named s) (hc : Change s s') : Named s' := by
  cases hc with
  | steady hs => exact h.steady hs
  | grant env fd i _ _ hs =>
      have hgrant : Named (s.grantTo env fd i) := by
        intro j
        have haddr : ((s.users i).grant fd env.time₁ env.time₂).addr = (s.users i).addr := rfl
        exact (update_unchanged UserInfo.addr haddr j).trans (h j)
      exact hgrant.steady hs
  | @free t hs fd _ =>
      intro i
      have ht : (t.users i).addr = slotText i := h.steady hs i
      rw [(t.freed_spec fd).1, releaseFirst]
      cases searchUserInfoByFd t.users fd with
      | none => exact ht
      | some j =>
          have haddr : (t.users j).release.addr = (t.users j).addr := rfl
          exact (update_unchanged UserInfo.addr haddr i).trans ht
  | accept => exact h

end Named

/-- No reply is longer than this. -/
theorem ipReply_length (i : Slot) : (ipReply (slotText i)).length ≤ 60 := by
  revert i
  decide +kernel

theorem ipReply_length_gt (addr : List UInt8) : 5 < (ipReply addr).length := by
  simp [ipReply, ascii]
  omega

theorem ipReplyHeader_eq (addr : List UInt8) :
    ipReplyHeader addr = (Frame.message ⟨msgIpRsb, ipReply addr⟩).bytes := by
  rw [ipReplyHeader, Frame.message, Frame.size]
  rfl

/-! ## One pass -/

section OpenSocketsTakeAll

variable {s : State} {c : Conn} {fd : Fd}

/-- A write that fails is not on an open socket. -/
theorem closed_of_failed {log : List Record} (hwrites : WritesSucceed log) {bs : List UInt8}
    (h : ⟨s.conn fd, fd, .wrote bs (-1)⟩ ∈ log) : s.conn fd ≠ some c := by
  intro hc
  have hgood := hwrites _ h (by rw [hc]; rfl)
  exact absurd hgood (by simp [Act.writeFails])

theorem Dispatch.emits {env : FrameEnv} {msg : Message} {flow : Flow State} (hcs : Connections s)
    (hnamed : Named s) (hw : s.watched fd = true) (h : Dispatch env fd msg s flow)
    (hwrites : WritesSucceed flow.state.log) (c : Conn) :
    ∃ fs, Emits c s.log flow.state.log fs ∧ ∀ f ∈ fs, f.type = msgIpRsb := by
  obtain ⟨d, hd⟩ := hcs.watchedOpen fd hw
  have htun : s.conn s.tunFd ≠ some c := fun hc => (hcs.client s.tunFd c hc).2 rfl
  have hsilent : ∀ {log : List Record}, Emits c s.log log [] →
      ∃ fs, Emits c s.log log fs ∧ ∀ f ∈ fs, f.type = msgIpRsb := fun h => ⟨[], h, by simp⟩
  cases h with
  | poolFull =>
      exact hsilent (((Emits.refl c s.log).note fun _ => ⟨rfl, rfl⟩).note fun _ => ⟨rfl, rfl⟩)
  | replyHeader _ i _ sent =>
      have hmem : ⟨s.conn fd, fd, .wrote sent (-1)⟩ ∈ (((s.grantTo env fd i).note fd
          (.wrote sent (-1))).note fd (.failed .replyHeader)).log :=
        List.mem_cons_of_mem _ List.mem_cons_self
      exact absurd hd (closed_of_failed hwrites hmem)
  | replyData _ i _ sent =>
      have hmem : ⟨s.conn fd, fd, .wrote sent (-1)⟩ ∈ ((((s.grantTo env fd i).note fd
          (.wrote (ipReplyHeader (s.users i).addr) 5)).note fd (.wrote sent (-1))).note fd
            (.failed .replyData)).log := List.mem_cons_of_mem _ List.mem_cons_self
      exact absurd hd (closed_of_failed hwrites hmem)
  | replied _ i =>
      have hgrant : Emits c s.log (s.grantTo env fd i).log [] :=
        ((Emits.refl c s.log).note fun _ => ⟨rfl, rfl⟩).note fun _ => ⟨rfl, rfl⟩
      by_cases hc : s.conn fd = some c
      · have hlen := ipReply_length i
        rw [← hnamed i] at hlen
        have hbulk : Bulk ⟨msgIpRsb, ipReply (s.users i).addr⟩ := Nat.le_trans hlen (by decide)
        refine ⟨_, hgrant.trans (emits_frame hc ?_ (ipReply_length_gt _) hbulk
          (ipReplyHeader_eq _) rfl rfl), ?_⟩
        · show msgIpRsb ≠ msgHeartbeat
          decide
        · simp
      · exact hsilent (((hgrant.note fun h => absurd h hc).note fun h => absurd h hc).note
          fun h => absurd h hc)
  | tunData =>
      exact hsilent ((((Emits.refl c s.log).note fun _ => ⟨rfl, rfl⟩).note
        fun h => absurd h htun).note fun _ => ⟨rfl, rfl⟩)
  | forwarded =>
      exact hsilent (((Emits.refl c s.log).note fun _ => ⟨rfl, rfl⟩).note fun h => absurd h htun)
  | stray => exact hsilent ((Emits.refl c s.log).note fun _ => ⟨rfl, rfl⟩)
  | kept => exact hsilent ((Emits.refl c s.log).note fun _ => ⟨rfl, rfl⟩)
  | unknown => exact hsilent (Emits.refl c s.log)

/-- The header `process_tun` writes is that of a frame with the packet. -/
theorem replyHeader_eq (hs : s.Bounded) :
    replyHeader (s.bufs s.tunFd).used = (Frame.message ⟨msgDataRsb, s.packet⟩).bytes := by
  have hcap : (bufSize : Int) = 65536 := rfl
  have hfive : (sizeofMessage : Int) = 5 := rfl
  have hhi := (hs s.tunFd).2
  have hlen : (s.packet.length : Int) = (s.bufs s.tunFd).used := (hs s.tunFd).length
  have hsize : int32 ((s.bufs s.tunFd).used + sizeofMessage) =
      ((s.packet.length + sizeofMessage : Nat) : Int) := by
    rw [int32_of_range (by omega) (by omega)]
    omega
  rw [replyHeader, hsize]
  rfl

/-- A packet that reaches an open connection is one frame on it. -/
theorem State.routedTo_emits (hs : s.Bounded) (hlong : sizeofIphdr ≤ (s.bufs s.tunFd).used)
    (hc : s.conn fd = some c) : Emits c s.log (s.routedTo fd).log [⟨msgDataRsb, s.packet⟩] := by
  have hlen : (s.packet.length : Int) = (s.bufs s.tunFd).used := (hs s.tunFd).length
  have hhi := (hs s.tunFd).2
  have hbulk : Bulk ⟨msgDataRsb, s.packet⟩ := by
    rw [← hlen] at hhi
    exact Int.ofNat_le.mp hhi
  refine emits_frame hc ?_ ?_ hbulk (replyHeader_eq hs) rfl rfl
  · show msgDataRsb ≠ msgHeartbeat
    decide
  · show 5 < s.packet.length
    have htwenty : sizeofIphdr = 20 := rfl
    omega

theorem Route.emits {flow : Flow State} (hs : s.Bounded) (h : Route s flow)
    (hwrites : WritesSucceed flow.state.log) (c : Conn) :
    ∃ fs, Emits c s.log flow.state.log fs ∧ ∀ f ∈ fs, f = ⟨msgDataRsb, s.packet⟩ := by
  have hsilent : ∀ {log : List Record}, Emits c s.log log [] →
      ∃ fs, Emits c s.log log fs ∧ ∀ f ∈ fs, f = ⟨msgDataRsb, s.packet⟩ := fun h => ⟨[], h, by simp⟩
  cases h with
  | drained => exact hsilent (Emits.refl c s.log)
  | nobody => exact hsilent (Emits.refl c s.log)
  | header _ id =>
      have hclosed := closed_of_failed (c := c) hwrites List.mem_cons_self
      exact hsilent ((Emits.refl c s.log).note fun h => absurd h hclosed)
  | packet _ id =>
      have hclosed := closed_of_failed (c := c) hwrites List.mem_cons_self
      exact hsilent (((Emits.refl c s.log).note fun h => absurd h hclosed).note
        fun h => absurd h hclosed)
  | routed hlong id =>
      by_cases hc : s.conn (s.users id).fd = some c
      · exact ⟨_, State.routedTo_emits hs hlong hc, by simp⟩
      · exact hsilent ((((Emits.refl c s.log).note fun h => absurd h hc).note
          fun h => absurd h hc).note fun h => absurd h hc)

def State.Due (s : State) (env : SweepEnv) (i : Slot) : Prop :=
  heartbeatInterval < env.time i - (s.users i).lastHeartbeatSentSecs

instance (s : State) (env : SweepEnv) (i : Slot) : Decidable (s.Due env i) :=
  inferInstanceAs (Decidable (_ < _))

def State.judged (s : State) (env : SweepEnv) (i : Slot) : State :=
  s.note (s.users i).fd (.judged i (env.time i))

theorem State.swept_of_due {env : SweepEnv} {i : Slot} (h : s.Due env i) :
    s.swept env i = ((s.judged env i).writeAll (env.write i) (s.users i).fd
      keepalive.message.bytes).1.setUser i
        { s.users i with lastHeartbeatSentSecs := env.time i } := by
  unfold State.swept sendHeartbeat
  exact if_pos h

theorem State.swept_of_not_due {env : SweepEnv} {i : Slot} (h : ¬ s.Due env i) :
    s.swept env i = s.judged env i := by
  unfold State.swept sendHeartbeat
  exact if_neg h

theorem State.swept_emits (env : SweepEnv) (i : Slot) (hwrites : WritesSucceed (s.swept env i).log)
    (c : Conn) : Emits c s.log (s.swept env i).log
      (if s.conn (s.users i).fd = some c ∧ s.Due env i then [keepalive] else []) := by
  have hjudged : Emits c s.log (s.judged env i).log [] :=
    (Emits.refl c s.log).note fun _ => ⟨rfl, rfl⟩
  by_cases hdue : s.Due env i
  · rw [State.swept_of_due hdue, State.setUser_log] at hwrites ⊢
    by_cases hc : s.conn (s.users i).fd = some c
    · rw [if_pos ⟨hc, hdue⟩]
      rcases (s.judged env i).writeAll_spec (env.write i) (s.users i).fd keepalive.message.bytes with
        hw | ⟨sent, _, hw⟩
      · rw [hw]
        have hconn : (s.judged env i).conn (s.users i).fd = some c := hc
        have hbytes : keepalive.message.bytes = keepalive.bytes := (List.append_nil _).symm
        have hbulk : ∀ f ∈ [keepalive], Bulk f := by simp [Bulk, keepalive]
        refine hjudged.trans ⟨?_, ?_, hbulk⟩
        · simp [written, onConn, hconn, hbytes]
        · simp [framed, onConn, hconn, Act.framed, hbytes]
      · rw [hw] at hwrites
        exact absurd hc (closed_of_failed (s := s) hwrites List.mem_cons_self)
    · rw [if_neg (fun h => hc h.1)]
      exact hjudged.note fun h => absurd h hc
  · rw [State.swept_of_not_due hdue, if_neg (fun h => hdue h.2)]
    exact hjudged

theorem State.freed_emits (s : State) (fd : Fd) (c : Conn) : Emits c s.log (s.freed fd).log [] := by
  obtain ⟨new, hlog, _, hnew⟩ := s.freed_log fd
  rw [hlog]
  refine Emits.silent fun r hr _ => ?_
  rcases (hnew r hr).2.2 with hact | ⟨i, hact⟩
  · rw [hact]
    exact ⟨rfl, rfl⟩
  · rw [hact]
    exact ⟨rfl, rfl⟩

theorem State.consumed_emits (s : State) (fd : Fd) (msg : Message) (c : Conn) :
    Emits c s.log (s.consumed fd msg).log [] :=
  (((Emits.refl c s.log).note fun _ => ⟨rfl, rfl⟩).note fun _ => ⟨rfl, rfl⟩).note
    fun _ => ⟨rfl, rfl⟩

/-- While writes to open sockets succeed, connection `c` is sent frames other than keepalives. -/
structure Speaks (c : Conn) (s s' : State) : Prop where
  later : s.log <:+ s'.log
  frames : WritesSucceed s'.log →
    ∃ fs, Emits c s.log s'.log fs ∧ ∀ f ∈ fs, f.type ≠ msgHeartbeat

namespace Speaks

theorem of_silent {s' : State} (hlater : s.log <:+ s'.log) (h : Emits c s.log s'.log []) :
    Speaks c s s' := ⟨hlater, fun _ => ⟨[], h, by simp⟩⟩

theorem refl (c : Conn) (s : State) : Speaks c s s :=
  of_silent (List.suffix_refl _) (Emits.refl c s.log)

theorem trans {t s' : State} (h : Speaks c s t) (h' : Speaks c t s') : Speaks c s s' := by
  refine ⟨h.later.trans h'.later, fun hwrites => ?_⟩
  obtain ⟨fs, hfirst, hfs⟩ := h.frames (hwrites.inherit t s' h'.later)
  obtain ⟨gs, hsecond, hgs⟩ := h'.frames hwrites
  refine ⟨fs ++ gs, hfirst.trans hsecond, fun f hf => ?_⟩
  rcases List.mem_append.mp hf with hf | hf
  · exact hfs f hf
  · exact hgs f hf

theorem of_chain {s' : State} (h : Relation.ReflTransGen (Speaks c) s s') : Speaks c s s' := by
  induction h with
  | refl => exact refl c s
  | tail _ ht ih => exact ih.trans ht

end Speaks

theorem Dispatch.speaks {env : FrameEnv} {msg : Message} {flow : Flow State} (hcs : Connections s)
    (hnamed : Named s) (hw : s.watched fd = true) (h : Dispatch env fd msg s flow) (c : Conn) :
    Speaks c s flow.state := by
  refine ⟨h.quiet.log_suffix, fun hwrites => ?_⟩
  obtain ⟨fs, hemits, htype⟩ := h.emits hcs hnamed hw hwrites c
  refine ⟨fs, hemits, fun f hf => ?_⟩
  rw [htype f hf]
  decide

theorem Parse.speaks {env : FrameEnv} {flow : Flow State} (hcs : Connections s) (hnamed : Named s)
    (hw : s.watched fd = true) (h : Parse env fd s flow) (c : Conn) :
    ∀ s', flow = .next s' ∨ flow = .stop s' → Speaks c s s' := by
  intro s' hs'
  cases h with
  | waits =>
      obtain rfl : s = s' := by simpa using hs'
      exact Speaks.refl c s
  | left _ hframe =>
      obtain rfl := Flow.stop.inj (hs'.resolve_left (by simp))
      exact hframe.speaks hcs hnamed hw c
  | @passed _ t hframe _ =>
      obtain rfl := Flow.next.inj (hs'.resolve_right (by simp))
      exact (hframe.speaks hcs hnamed hw c).trans
        (.of_silent (t.consumed_steady fd _).log_suffix (t.consumed_emits fd _ c))
  | overran => simp at hs'

theorem Route.speaks {flow : Flow State} (hs : s.Bounded) (h : Route s flow) (c : Conn) :
    Speaks c s flow.state := by
  refine ⟨h.steady.log_suffix, fun hwrites => ?_⟩
  obtain ⟨fs, hemits, heq⟩ := h.emits hs hwrites c
  refine ⟨fs, hemits, fun f hf => ?_⟩
  rw [heq f hf]
  change msgDataRsb ≠ msgHeartbeat
  decide

theorem receive_emits (s : State) (fd : Fd) (bs : List UInt8) (c : Conn) :
    Emits c s.log (receive fd bs s).log [] := (Emits.refl c s.log).note fun _ => ⟨rfl, rfl⟩

theorem readClient_emits (s : State) (fd : Fd) (bs : List UInt8) (c : Conn) :
    Emits c s.log (readClient fd bs s).log [] :=
  ((Emits.refl c s.log).note fun _ => ⟨rfl, rfl⟩).note fun _ => ⟨rfl, rfl⟩

theorem processServer_emits (s : State) (fd : Fd) (added : Bool) (c : Conn) :
    Emits c s.log (processServer fd added s).log [] :=
  (Emits.refl c s.log).note fun _ => ⟨rfl, rfl⟩

theorem Pass.emits {s' : State} (hcs : Connections s) (hs : s.Bounded) (hnamed : Named s)
    (hp : Pass s s') (hwrites : WritesSucceed s'.log) (c : Conn) : ∃ fs, Emits c s.log s'.log fs := by
  have hspeaks : Speaks c s s' → ∃ fs, Emits c s.log s'.log fs := fun h => by
    obtain ⟨fs, hemits, _⟩ := h.frames hwrites
    exact ⟨fs, hemits⟩
  cases hp with
  | accept fd added _ => exact ⟨[], processServer_emits s fd added c⟩
  | hangup fd _ => exact ⟨[], s.freed_emits fd c⟩
  | read fd _ bs _ => exact ⟨[], readClient_emits s fd bs c⟩
  | parsed env fd hw hparse => exact hspeaks (hparse.speaks hcs hnamed hw c s' (.inl rfl))
  | parsedLast env fd hw hparse => exact hspeaks (hparse.speaks hcs hnamed hw c s' (.inr rfl))
  | readTun bs _ => exact ⟨[], receive_emits s s.tunFd bs c⟩
  | routed hroute => exact hspeaks (hroute.speaks hs c)
  | routedLast hroute => exact hspeaks (hroute.speaks hs c)
  | swept env i hsweep =>
      cases hsweep with
      | skipped => exact ⟨[], Emits.refl c s.log⟩
      | spared => exact ⟨_, s.swept_emits env i hwrites c⟩
      | stuck => exact ⟨_, s.swept_emits env i hwrites c⟩
      | evicted _ _ _ hw =>
          obtain ⟨new, hlog, _⟩ := (s.swept env i).freed_log (s.users i).fd
          have hearlier := hwrites.inherit (s.swept env i) _ ⟨new, hlog.symm⟩
          exact ⟨_, (s.swept_emits env i hearlier c).trans ((s.swept env i).freed_emits _ c)⟩

/-! ## One call -/

theorem parseLoop_speaks {env : Nat → FrameEnv} {fuel k : Nat} {s' : State} (hcs : Connections s)
    (hnamed : Named s) (hw : s.watched fd = true)
    (h : iterate (fun k => parseOnce (env k) fd) fuel k s = .stopped s') : Speaks c s s' := by
  apply Speaks.of_chain
  apply iterate_reaches (Speaks c) (fun t => Connections t ∧ Named t ∧ t.watched fd = true) _ _
    ⟨hcs, hnamed, hw⟩ h
  · intro k t t' ⟨hcs, hnamed, hw⟩ hb
    have hparse : Parse (env k) fd t (.next t') := hb ▸ parseOnce_parse (env k) fd t
    have hpass : Pass t t' := .parsed (env k) fd hw hparse
    refine ⟨hparse.speaks hcs hnamed hw c t' (.inl rfl), hcs.pass hpass, hnamed.change hpass.change, ?_⟩
    rwa [(hparse.quiet (.inl rfl)).watched]
  · intro k t t' ⟨hcs, hnamed, hw⟩ hb
    have hparse : Parse (env k) fd t (.stop t') := hb ▸ parseOnce_parse (env k) fd t
    exact hparse.speaks hcs hnamed hw c t' (.inr rfl)

theorem processTun_speaks {r : ReadResult} {env : Nat → RouteEnv} {fuel : Nat} {s' : State}
    (hs : s.Bounded) (hfits : r.Fits (s.bufs s.tunFd).room)
    (h : processTun r env fuel s = .stopped s') : Speaks c s s' := by
  cases r with
  | error =>
      obtain rfl := Outcome.stopped.inj h
      exact Speaks.refl c s
  | bytes bs =>
      have hread : Speaks c s (receive s.tunFd bs s) :=
        .of_silent (List.suffix_cons _ _) (receive_emits s s.tunFd bs c)
      refine hread.trans (Speaks.of_chain ?_)
      apply iterate_reaches (Speaks c) State.Bounded _ _ (hs.pass (.readTun bs hfits)) h
      · intro k t t' ht hb
        have hroute : Route t (.next t') := hb ▸ routeOnce_route (env k) t
        exact ⟨hroute.speaks ht c, ht.pass (.routed hroute)⟩
      · intro k t t' ht hb
        have hroute : Route t (.stop t') := hb ▸ routeOnce_route (env k) t
        exact hroute.speaks ht c

end OpenSocketsTakeAll

/-! ## Whole runs -/

/-- As long as writes to open sockets succeed, every connection has been sent whole frames, none of
them longer than a buffer. -/
theorem runFrom_framed {fds : Descriptors} {es : List Event} {s : State}
    (hrun : runFrom fds es = some s) (hwrites : WritesSucceed s.log) (c : Conn) :
    written c s.log = frameCode.stream (framed c s.log) ∧ ∀ f ∈ framed c s.log, Bulk f := by
  have hall : Connections s ∧ s.Bounded ∧ Named s ∧ ∃ fs, Emits c [] s.log fs := by
    refine passes_conditional (fun t => WritesSucceed t.log)
      (fun t => Connections t ∧ t.Bounded ∧ Named t ∧ ∃ fs, Emits c [] t.log fs)
      WritesSucceed.inherit ?_ (runFrom_passes hrun) ?_ hwrites
    · intro t t' hp ⟨hcs, hb, hnamed, fs, hemits⟩ hwrites
      obtain ⟨gs, hnew⟩ := hp.emits hcs hb hnamed hwrites c
      exact ⟨hcs.pass hp, hb.pass hp, hnamed.change hp.change, fs ++ gs, hemits.trans hnew⟩
    · exact ⟨.initState fds, .initState fds, fun _ => rfl, [], Emits.refl c []⟩
  obtain ⟨_, _, _, fs, hemits⟩ := hall
  have hbytes : written c s.log = frameCode.stream fs := hemits.bytes
  have hframes : framed c s.log = fs := hemits.frames
  rw [hframes]
  exact ⟨hbytes, hemits.bulk⟩

/-! ## One packet -/

/-- Bytes 16 to 19 of a packet. -/
def destination (packet : List UInt8) : UInt32 := UInt32.ofNat (leNat ((packet.drop 16).take 4))

theorem routeOnce_of_wrote {env : RouteEnv} {s : State} {i : Slot}
    (h₁ : ∀ k, ∃ n, env.write₁ k = .wrote n) (h₂ : ∀ k, ∃ n, env.write₂ k = .wrote n)
    (hlong : sizeofIphdr ≤ (s.bufs s.tunFd).used)
    (hsome : searchUserInfoByAddr s.users (s.bufs s.tunFd).daddr = some i)
    (hopen : s.isOpen (s.users i).fd = true) :
    routeOnce env s = .next (s.routedTo (s.users i).fd) := by
  have hheader := s.writeAll_of_wrote hopen h₁ (replyHeader (s.bufs s.tunFd).used)
  have hpacket := (s.note (s.users i).fd (.wrote (replyHeader (s.bufs s.tunFd).used) 5)).writeAll_of_wrote
    hopen h₂ s.packet
  rw [replyHeader_length] at hheader
  have hnonneg : ¬ ((s.packet.length : Nat) : Int) < 0 := Int.not_lt.mpr (Int.natCast_nonneg _)
  unfold routeOnce
  simp only [Int.not_lt.mpr hlong, if_false, hsome]
  rw [← replyHeader, ← State.packet]
  simp only [hheader, hpacket, hnonneg, Int.lt_irrefl, if_false, Nat.cast_ofNat, Int.sub_self]
  rfl

/-- What `process_tun` finds in its buffer when a packet comes into the empty one. -/
theorem receive_packet {s : State} (hs : s.Bounded) (hempty : (s.bufs s.tunFd).used = 0)
    (packet : List UInt8) :
    ((receive s.tunFd packet s).bufs s.tunFd).used = packet.length ∧
      (receive s.tunFd packet s).packet = packet := by
  have hentry : (receive s.tunFd packet s).bufs s.tunFd = (s.bufs s.tunFd).append packet :=
    Function.update_self ..
  have hcontent := BufferEntry.append_content (hs s.tunFd) packet
  have hnil : (s.bufs s.tunFd).content = [] := by
    rw [BufferEntry.content, hempty]
    rfl
  have hused : ((s.bufs s.tunFd).append packet).used = (s.bufs s.tunFd).used + packet.length := rfl
  rw [hnil, List.nil_append] at hcontent
  rw [hempty, Int.zero_add] at hused
  constructor
  · rw [hentry, hused]
  · change ((receive s.tunFd packet s).bufs s.tunFd).content = packet
    rw [hentry, hcontent]

theorem State.routedTo_used (s : State) (fd : Fd) :
    ((s.routedTo fd).bufs (s.routedTo fd).tunFd).used = 0 := by
  have hentry : (s.routedTo fd).bufs s.tunFd =
      { buf := (s.bufs s.tunFd).buf.move 0 (s.bufs s.tunFd).used.toNat 0, used := 0 } :=
    Function.update_self ..
  exact congrArg BufferEntry.used hentry

theorem routeOnce_of_short (env : RouteEnv) {s : State}
    (h : (s.bufs s.tunFd).used < sizeofIphdr) : routeOnce env s = .stop s := by
  unfold routeOnce
  simp only [h, if_true]

theorem daddr_of_packet {s : State} (hlong : 20 ≤ s.packet.length) :
    (s.bufs s.tunFd).daddr = destination s.packet := by
  rw [State.packet, CellMemory.load_length] at hlong
  rw [BufferEntry.daddr, destination, State.packet, CellMemory.load_drop _ (by omega),
    CellMemory.load_take _ (by omega), Nat.zero_add]

/-- While writes succeed, `process_tun` writes the packet to connection `c` as one frame and keeps
nothing back. -/
def FramesPacket (s : State) (c : Conn) (packet : List UInt8) : Prop :=
  ∀ env : Nat → RouteEnv, (∀ k j, ∃ n, (env k).write₁ j = .wrote n) →
    (∀ k j, ∃ n, (env k).write₂ j = .wrote n) →
    ∃ s', processTun (.bytes packet) env 2 s = .stopped s' ∧ (s'.bufs s'.tunFd).used = 0 ∧
      written c s'.log = written c s.log ++ Frame.bytes ⟨msgDataRsb, packet⟩

/-- A packet goes to whoever has its destination. -/
theorem processTun_frames {s : State} (hs : s.Bounded) (hempty : (s.bufs s.tunFd).used = 0)
    {packet : List UInt8} (hmin : 20 ≤ packet.length) (hmax : packet.length ≤ bufSize) {i : Slot}
    (hdest : searchUserInfoByAddr s.users (destination packet) = some i) {c : Conn}
    (hc : s.conn (s.users i).fd = some c) : FramesPacket s c packet := by
  intro env h₁ h₂
  obtain ⟨hused, hpacket⟩ := receive_packet hs hempty packet
  generalize htun : receive s.tunFd packet s = t at hused hpacket
  have hroom := (hs s.tunFd).room
  have ht : t.Bounded := by
    rw [← htun]
    exact hs.pass (.readTun packet (by omega))
  have hfd : t.tunFd = s.tunFd := by rw [← htun]; rfl
  have hlong : sizeofIphdr ≤ (t.bufs t.tunFd).used := by
    rw [hfd, hused]
    exact Int.ofNat_le.mpr hmin
  have haddr := daddr_of_packet (s := t) (by rw [hpacket]; exact hmin)
  have husers : t.users = s.users := by rw [← htun]; rfl
  have hconn : t.conn (t.users i).fd = some c := by rw [← htun]; exact hc
  have hsome : searchUserInfoByAddr t.users (t.bufs t.tunFd).daddr = some i := by
    rw [haddr, hpacket, husers, hdest]
  have hopen : t.isOpen (t.users i).fd = true := by simp [State.isOpen, hconn]
  have hfirst := routeOnce_of_wrote (h₁ 0) (h₂ 0) hlong hsome hopen
  have hempty' := t.routedTo_used (t.users i).fd
  have hshort : ((t.routedTo (t.users i).fd).bufs (t.routedTo (t.users i).fd).tunFd).used <
      sizeofIphdr := by
    rw [hempty']
    decide
  have hsecond := routeOnce_of_short (env 1) hshort
  have hemits := State.routedTo_emits ht hlong hconn
  have hread : written c t.log = written c s.log := by
    rw [← htun]
    exact (receive_emits s s.tunFd packet c).bytes.trans (List.append_nil _)
  refine ⟨t.routedTo (t.users i).fd, ?_, hempty', ?_⟩
  · unfold processTun
    simp only
    rw [htun, iterate_of_next _ hfirst, iterate_of_stop _ hsecond]
  · rw [hemits.bytes, hread, hpacket]
    simp

end Over6.Server
