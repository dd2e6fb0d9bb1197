import Over6.Server.Decoder
import Over6.Server.Hostile

/-! # From the connections to the tun

The packets that `process_client` writes to the tun are those of the type-102 frames it
takes out of its buffers, each in one `write_all`, in the order in which it does so;
nothing else is written to the tun.
-/

namespace Over6.Server

open MachineInt BoundedLoop EventRun Journal

/-! ## What the log says about the tun -/

def Act.chunks : Act → List (List UInt8)
  | wrote bs _ => [bs]
  | _ => []

def onFd (fd : Fd) (r : Record) : List (List UInt8) := if r.fd = fd then r.act.chunks else []

/-- The calls of `write_all` on the tun, each with the bytes it got across. -/
def State.tunWrites (s : State) : List (List UInt8) := gather (onFd s.tunFd) s.log

def Act.uploads : Act → List (List UInt8)
  | handled _ f => Over6.uploads [f]
  | _ => []

def Record.uploads (r : Record) : List (Conn × List UInt8) :=
  r.conn.toList.flatMap fun c => r.act.uploads.map fun packet => (c, packet)

/-- The packets in the frames that were handled, each with the connection it came on. -/
def uploaded (log : List Record) : List (Conn × List UInt8) := gather Record.uploads log

def TunTakesAll (log : List Record) : Prop := ∀ r ∈ log, r.act ≠ .failed .tunData

theorem TunTakesAll.inherit {log log' : List Record} (h : TunTakesAll log') (hlog : log <:+ log') :
    TunTakesAll log := fun r hr => h r (hlog.subset hr)

theorem Act.uploads_eq (act : Act) : act.uploads = Over6.uploads act.taken := by
  cases act <;> rfl

/-- The packets of one connection are those of its frames. -/
theorem part_uploaded (c : Conn) (log : List Record) :
    part c (uploaded log) = Over6.uploads (handled c log) := by
  induction log with
  | nil => rfl
  | cons r log ih =>
      have hlog : uploaded (r :: log) = uploaded log ++ r.uploads := rfl
      have hframes : handled c (r :: log) = handled c log ++ onConn c Act.taken r := rfl
      rw [hlog, hframes, part_append, ih, uploads_append]
      congr 1
      rw [Record.uploads, onConn]
      cases r.conn with
      | none => rfl
      | some d =>
          rw [Option.toList_some, List.flatMap_singleton]
          by_cases hd : d = c
          · subst hd
            rw [part_map_self, if_pos rfl, Act.uploads_eq]
          · rw [part_map_other hd, if_neg (fun h => hd (Option.some.inj h))]
            rfl

/-! ## The table and the tun -/

def ClearOfTun (s : State) : Prop := ∀ i, (s.users i).fd ≠ s.tunFd

namespace ClearOfTun

variable {s s' : State}

theorem initState (fds : Descriptors) : ClearOfTun (initState fds) := by
  intro i
  exact (ne_neg_one_of_nonneg fds.nonneg.2.1).symm

theorem steady (h : ClearOfTun s) (hs : Steady s s') : ClearOfTun s' := by
  intro i
  rw [(hs.owner i).2.2.1, State.tunFd, hs.fds]
  exact h i

theorem change (h : ClearOfTun s) (hcs : Connections s) (hc : Change s s') : ClearOfTun s' := by
  cases hc with
  | steady hs => exact h.steady hs
  | grant env fd i hw _ hs =>
      have hgrant : ClearOfTun (s.grantTo env fd i) := by
        intro j
        by_cases hj : j = i
        · subst hj
          obtain ⟨c, hc⟩ := hcs.watchedOpen fd hw
          have hfd : ((s.grantTo env fd j).users j).fd = fd := by
            simp [State.grantTo, UserInfo.grant]
          rw [hfd]
          exact (hcs.client fd c hc).2
        · have hfd : ((s.grantTo env fd i).users j).fd = (s.users j).fd := by
            simp [State.grantTo, State.noteRequest, hj]
          rw [hfd]
          exact h j
      exact hgrant.steady hs
  | @free t hs fd _ =>
      intro i
      obtain ⟨husers, _, hfds, _⟩ := t.freed_spec fd
      have ht : (t.users i).fd ≠ t.tunFd := h.steady hs i
      rw [State.tunFd, hfds, husers, releaseFirst]
      cases searchUserInfoByFd t.users fd with
      | none => exact ht
      | some j =>
          by_cases hj : i = j
          · subst hj
            simp only [Function.update_self]
            exact (ne_neg_one_of_nonneg t.fds.nonneg.2.1).symm
          · simp only [Function.update_of_ne hj]
            exact ht
  | accept => exact h

end ClearOfTun

/-! ## Passes that have nothing to do with packets for the tun -/

/-- Nothing is written to the tun and no packet is taken out of a buffer. -/
structure Aloof (s s' : State) : Prop where
  fds : s'.fds = s.fds
  log : ∃ new, s'.log = new ++ s.log ∧ ∀ r ∈ new, onFd s.tunFd r = [] ∧ r.uploads = []

namespace Aloof

variable {s t s' : State}

theorem refl (s : State) : Aloof s s := ⟨rfl, [], rfl, by simp⟩

theorem trans (h : Aloof s t) (h' : Aloof t s') : Aloof s s' := by
  obtain ⟨new, hlog, hnew⟩ := h.log
  obtain ⟨new', hlog', hnew'⟩ := h'.log
  have htun : t.tunFd = s.tunFd := congrArg Descriptors.tunFd h.fds
  refine ⟨h'.fds.trans h.fds, new' ++ new, by rw [hlog', hlog, List.append_assoc], ?_⟩
  intro r hr
  rcases List.mem_append.mp hr with hr | hr
  · exact htun ▸ hnew' r hr
  · exact hnew r hr

theorem of_chain (h : Relation.ReflTransGen Aloof s s') : Aloof s s' := by
  induction h with
  | refl => exact refl s
  | tail _ ht ih => exact ih.trans ht

/-- A record on another descriptor that takes no packet out. -/
theorem note (h : Aloof s t) {fd : Fd} (hfd : fd ≠ s.tunFd) {act : Act}
    (hact : act.uploads = [] := by rfl) : Aloof s (t.note fd act) := by
  refine h.trans ⟨rfl, [⟨t.conn fd, fd, act⟩], rfl, fun r hr => ?_⟩
  have htun : t.tunFd = s.tunFd := congrArg Descriptors.tunFd h.fds
  rw [List.mem_singleton.mp hr, htun]
  refine ⟨if_neg hfd, ?_⟩
  simp [Record.uploads, hact]

/-- A record that is neither a write nor a frame taken out. -/
theorem noteOther (h : Aloof s t) (fd : Fd) (act : Act) (hchunks : act.chunks = [] := by rfl)
    (hact : act.uploads = [] := by rfl) : Aloof s (t.note fd act) := by
  refine h.trans ⟨rfl, [⟨t.conn fd, fd, act⟩], rfl, fun r hr => ?_⟩
  rw [List.mem_singleton.mp hr]
  constructor
  · simp [onFd, hchunks]
  · simp [Record.uploads, hact]

theorem setBuf (h : Aloof s t) (fd : Fd) (e : BufferEntry) : Aloof s (t.setBuf fd e) :=
  h.trans ⟨rfl, [], rfl, by simp⟩

theorem setUser (h : Aloof s t) (i : Slot) (u : UserInfo) : Aloof s (t.setUser i u) :=
  h.trans ⟨rfl, [], rfl, by simp⟩

theorem freed (s : State) (fd : Fd) : Aloof s (s.freed fd) := by
  obtain ⟨new, hlog, _, hnew⟩ := s.freed_log fd
  refine ⟨(s.freed_spec fd).2.2.1, new, hlog, fun r hr => ?_⟩
  rcases (hnew r hr).2.2 with hact | ⟨i, hact⟩
  · simp [onFd, Record.uploads, hact, Act.chunks, Act.uploads]
  · simp [onFd, Record.uploads, hact, Act.chunks, Act.uploads]

end Aloof

theorem readClient_aloof (s : State) (fd : Fd) (bs : List UInt8) : Aloof s (readClient fd bs s) := by
  have htouched := (Aloof.refl s).noteOther fd (.touched (s.bufs fd).used (s.bufs fd).room)
  exact (htouched.setBuf fd _).noteOther fd (.received bs)

theorem processServer_aloof (s : State) (fd : Fd) (added : Bool) :
    Aloof s (processServer fd added s) := by
  have hlog : (processServer fd added s).log =
      [⟨Function.update s.conn fd (some s.accepted) fd, fd, .accepted⟩] ++ s.log := rfl
  refine ⟨rfl, _, hlog, fun r hr => ?_⟩
  rw [List.mem_singleton.mp hr]
  simp [onFd, Record.uploads, Act.chunks, Act.uploads]

theorem Route.aloof {s : State} {flow : Flow State} (hclear : ClearOfTun s) (h : Route s flow) :
    Aloof s flow.state := by
  cases h with
  | drained => exact .refl s
  | nobody => exact .refl s
  | header _ id => exact (Aloof.refl s).note (hclear id)
  | packet _ id => exact ((Aloof.refl s).note (hclear id)).note (hclear id)
  | routed _ id =>
      have hwrote : ∀ a b, Aloof s ((s.note (s.users id).fd (.wrote a b))) := fun a b =>
        (Aloof.refl s).note (hclear id)
      have hpacket : Aloof s ((s.note (s.users id).fd (.wrote (replyHeader (s.bufs s.tunFd).used)
          5)).note (s.users id).fd (.wrote s.packet s.packet.length)) :=
        (hwrote _ _).note (hclear id)
      exact (hpacket.setBuf s.tunFd _).noteOther _ (.routed (s.bufs s.tunFd).daddr s.packet)

theorem processTun_aloof {r : ReadResult} {env : Nat → RouteEnv} {fuel : Nat} {s s' : State}
    (hclear : ClearOfTun s) (h : processTun r env fuel s = .stopped s') : Aloof s s' := by
  cases r with
  | error =>
      obtain rfl := Outcome.stopped.inj h
      exact .refl s
  | bytes bs =>
      have hread : Aloof s (receive s.tunFd bs s) :=
        ((Aloof.refl s).setBuf s.tunFd _).noteOther s.tunFd (.received bs)
      have hclear' : ClearOfTun (receive s.tunFd bs s) := hclear
      refine hread.trans (.of_chain ?_)
      apply iterate_reaches Aloof ClearOfTun _ _ hclear' h
      · intro k t t' ht hb
        have hroute : Route t (.next t') := hb ▸ routeOnce_route (env k) t
        exact ⟨hroute.aloof ht, ht.steady hroute.steady⟩
      · intro k t t' ht hb
        have hroute : Route t (.stop t') := hb ▸ routeOnce_route (env k) t
        exact hroute.aloof ht

theorem State.swept_aloof {s : State} (hclear : ClearOfTun s) (env : SweepEnv) (i : Slot) :
    Aloof s (s.swept env i) := by
  have hjudged : Aloof s (s.note (s.users i).fd (.judged i (env.time i))) :=
    (Aloof.refl s).noteOther _ _
  unfold State.swept sendHeartbeat
  simp only
  split
  · exact (hjudged.note (hclear i)).setUser i _
  · exact hjudged

theorem sweep_aloof {s : State} (hcs : Connections s) (hclear : ClearOfTun s) (env : SweepEnv)
    (entries : List Slot) : Aloof s (entries.foldl (heartbeatEntry env) s) := by
  induction entries generalizing s with
  | nil => exact .refl s
  | cons i entries ih =>
      have hsweep := heartbeatEntry_sweep env i s
      have hpass : Pass s (heartbeatEntry env s i) := .swept env i hsweep
      have hfirst : Aloof s (heartbeatEntry env s i) := by
        generalize heartbeatEntry env s i = t at hsweep
        cases hsweep with
        | skipped => exact .refl s
        | spared => exact s.swept_aloof hclear env i
        | stuck => exact s.swept_aloof hclear env i
        | evicted => exact (s.swept_aloof hclear env i).trans (.freed _ _)
      exact hfirst.trans (ih (hcs.pass hpass) (hclear.change hcs hpass.change))

/-! ## One frame -/

/-- The packets that are taken out of the buffers are written to the tun. -/
structure Relays (s s' : State) : Prop where
  fds : s'.fds = s.fds
  packets : ∃ new, uploaded s'.log = uploaded s.log ++ new ∧
    s'.tunWrites = s.tunWrites ++ new.map Prod.snd

theorem Aloof.relays {s s' : State} (h : Aloof s s') : Relays s s' := by
  obtain ⟨new, hlog, hnew⟩ := h.log
  have htun : s'.tunFd = s.tunFd := congrArg Descriptors.tunFd h.fds
  refine ⟨h.fds, [], ?_, ?_⟩
  · rw [hlog, List.append_nil]
    exact gather_of_nil fun r hr => (hnew r hr).2
  · rw [State.tunWrites, htun, hlog, List.map_nil, List.append_nil]
    exact gather_of_nil fun r hr => (hnew r hr).1

section Frame

variable {s s' : State} {env : FrameEnv} {fd : Fd}

/-- Only frames with packets concern the tun. -/
theorem Dispatch.aloof {msg : Message} {flow : Flow State} (h : Dispatch env fd msg s flow)
    (htype : msg.type ≠ msgDataReq) (hfd : fd ≠ s.tunFd) : Aloof s flow.state := by
  have hgrant : ∀ i, Aloof s (s.grantTo env fd i) := fun i =>
    (((Aloof.refl s).note hfd).setUser i _).note hfd
  cases h with
  | poolFull => exact ((Aloof.refl s).note hfd).note hfd
  | replyHeader _ i => exact ((hgrant i).note hfd).note hfd
  | replyData _ i => exact (((hgrant i).note hfd).note hfd).note hfd
  | replied _ i => exact (((hgrant i).note hfd).note hfd).note hfd
  | tunData hdata => exact absurd hdata htype
  | forwarded hdata => exact absurd hdata htype
  | stray => exact (Aloof.refl s).note hfd
  | kept => exact ((Aloof.refl s).note hfd).setUser _ _
  | unknown => exact .refl s

theorem consumed_aloof (s : State) (fd : Fd) {msg : Message} (htype : msg.type ≠ msgDataReq) :
    Aloof s (s.consumed fd msg) := by
  have hmoved : ∀ a b, Aloof s ((s.note fd (.touched a b)).note fd (.touched 0 b)) := fun a b =>
    ((Aloof.refl s).noteOther fd _).noteOther fd _
  refine ((hmoved _ _).setBuf fd _).noteOther fd _ rfl ?_
  simp [Act.uploads, Over6.uploads, htype]

/-- The bytes handed to the tun for the frame at the front. -/
theorem dataSlice_of_front {f : Frame} {more : List UInt8} (hf : f.size ≤ bufSize)
    (hfront : (s.bufs fd).content = f.bytes ++ more) :
    dataLen f.message.length = f.payload.length ∧ s.dataSlice fd f.message.length = f.payload := by
  have hlen : dataLen f.message.length = (f.size : Int) - 5 :=
    dataLen_of_nonneg (Int.natCast_nonneg f.size) (Int.ofNat_le.mpr hf)
  have hsize : f.size = f.payload.length + 5 := rfl
  refine ⟨by omega, ?_⟩
  rw [State.dataSlice, hlen]
  exact BufferEntry.payload_frame hfront

theorem tunWrites_note (s : State) (fd : Fd) (act : Act) :
    (s.note fd act).tunWrites = s.tunWrites ++ onFd s.tunFd ⟨s.conn fd, fd, act⟩ := rfl

theorem uploaded_note (s : State) (fd : Fd) (act : Act) :
    uploaded (s.note fd act).log = uploaded s.log ++ Record.uploads ⟨s.conn fd, fd, act⟩ := rfl

/-- Taking out the frame at the front. -/
theorem consumed_uploads {f : Frame} {c : Conn} (hc : s.conn fd = some c)
    (hpayload : (s.bufs fd).buf.load sizeofMessage (f.message.length - sizeofMessage).toNat =
      f.payload) :
    (s.consumed fd f.message).tunWrites = s.tunWrites ∧
      uploaded (s.consumed fd f.message).log =
        uploaded s.log ++ (Over6.uploads [f]).map fun packet => (c, packet) := by
  have htouched : ∀ conn l k, onFd s.tunFd ⟨conn, fd, .touched l k⟩ = [] := fun _ _ _ => ite_self _
  have hhandled : ∀ conn l, onFd s.tunFd ⟨conn, fd, .handled l f⟩ = [] := fun _ _ => ite_self _
  have hframe : Frame.mk f.message.type f.payload = f := rfl
  unfold State.consumed
  simp only [hpayload, hframe]
  generalize sizeT 64 (int32 ((s.bufs fd).used - f.message.length)) = size
  constructor
  · change ((s.tunWrites ++ onFd s.tunFd ⟨_, fd, _⟩) ++ onFd s.tunFd ⟨_, fd, _⟩) ++
      onFd s.tunFd ⟨_, fd, _⟩ = s.tunWrites
    rw [htouched, htouched, hhandled]
    simp
  · change ((uploaded s.log ++ Record.uploads ⟨_, fd, .touched _ _⟩) ++
      Record.uploads ⟨_, fd, .touched _ _⟩) ++ Record.uploads ⟨s.conn fd, fd, .handled _ f⟩ = _
    rw [hc]
    simp [Record.uploads, Act.uploads]

/-- A packet is written to the tun before its frame is taken out. -/
theorem relays_packet {f : Frame} {c : Conn} (hc : s.conn fd = some c) (hfd : fd ≠ s.tunFd)
    (htype : f.type = msgDataReq)
    (hpayload : (s.bufs fd).buf.load sizeofMessage (f.message.length - sizeofMessage).toNat =
      f.payload) (slice ret : Int) :
    Relays s (((s.note fd (.touched sizeofMessage slice)).note s.tunFd
      (.wrote f.payload ret)).consumed fd f.message) := by
  generalize ht : (s.note fd (.touched sizeofMessage slice)).note s.tunFd (.wrote f.payload ret) = t
  have hconn : t.conn = s.conn := ht ▸ rfl
  have hbufs : t.bufs = s.bufs := ht ▸ rfl
  have hfds : t.fds = s.fds := ht ▸ rfl
  have hwrites : t.tunWrites = s.tunWrites ++ [f.payload] := by
    have htouched : onFd s.tunFd ⟨s.conn fd, fd, .touched sizeofMessage slice⟩ = [] := if_neg hfd
    have hwrote : onFd s.tunFd ⟨s.conn s.tunFd, s.tunFd, .wrote f.payload ret⟩ = [f.payload] :=
      if_pos rfl
    rw [← ht, tunWrites_note, tunWrites_note, htouched, List.append_nil]
    exact congrArg (s.tunWrites ++ ·) hwrote
  have hlog : uploaded t.log = uploaded s.log := by
    rw [← ht, uploaded_note, uploaded_note]
    simp [Record.uploads, Act.uploads]
  rw [← hconn] at hc
  rw [← hbufs] at hpayload
  obtain ⟨htun, hup⟩ := consumed_uploads hc hpayload
  have hpacket : Over6.uploads [f] = [f.payload] := by simp [Over6.uploads, htype]
  refine ⟨hfds, [(c, f.payload)], ?_, ?_⟩
  · rw [hup, hlog, hpacket]
    rfl
  · rw [htun, hwrites]
    rfl

/-- The `MSG_DATA_REQ` branch with the frame at the front. -/
theorem handleFrame_packet (env : FrameEnv) {f : Frame} {more : List UInt8} (hf : f.size ≤ bufSize)
    (hfront : (s.bufs fd).content = f.bytes ++ more) (htype : f.type = msgDataReq) :
    (∃ slice ret, handleFrame env fd f.message s =
      .next ((s.note fd (.touched sizeofMessage slice)).note s.tunFd (.wrote f.payload ret))) ∨
    ∃ t, handleFrame env fd f.message s = .stop t ∧ ¬ TunTakesAll t.log := by
  obtain ⟨hlen, hslice⟩ := dataSlice_of_front hf hfront
  have hframe : handleFrame env fd f.message s =
      let data := (s.note fd (.touched sizeofMessage (dataLen f.message.length))).writeAll
        env.write₁ s.tunFd (s.dataSlice fd f.message.length)
      if data.2 < dataLen f.message.length then .stop (data.1.note fd (.failed .tunData))
      else .next data.1 := by
    have hother : f.message.type ≠ msgIpReq := fun h => absurd (htype.symm.trans h) (by decide)
    unfold handleFrame
    rw [if_neg hother, if_pos (show f.message.type = msgDataReq from htype)]
    rfl
  rw [hframe, hlen, hslice]
  rcases (s.note fd (.touched sizeofMessage f.payload.length)).writeAll_spec env.write₁ s.tunFd
    f.payload with hw | ⟨part, _, hw⟩
  · left
    simp only [hw, Int.lt_irrefl, if_false]
    exact ⟨_, _, rfl⟩
  · right
    have hneg : (-1 : Int) < f.payload.length :=
      Int.lt_of_lt_of_le (by decide) (Int.natCast_nonneg _)
    simp only [hw, hneg, if_true]
    exact ⟨_, rfl, fun h => h _ List.mem_cons_self rfl⟩

/-- What one round of the parse loop does with a frame of a well-formed stream. -/
theorem parse_relays {sent : Conn → List Frame} (hvalid : ∀ c, ∀ f ∈ sent c, f.Valid)
    (hcs : Connections s) (hdec : Decoded sent s) (hsent : WellSent sent s)
    (hw : s.watched fd = true)
    (h : parseOnce env fd s = .next s' ∨ parseOnce env fd s = .stop s') (htun : TunTakesAll s'.log) :
    Relays s s' := by
  obtain ⟨c, hc⟩ := hcs.watchedOpen fd hw
  have hfd := (hcs.client fd c hc).2
  have hfill := hdec.used fd c hc
  by_cases hcomplete : (s.bufs fd).Complete
  · obtain ⟨f, tail, more, hsplit, hmsg, hfront⟩ := hdec.front hvalid hsent hc hcomplete
    have hf : f.size ≤ bufSize := by
      have hlen := hfill.length
      rw [hfront, List.length_append, Frame.bytes_length] at hlen
      have hcap := hfill.2
      omega
    have hlen : f.message.length ≤ (s.bufs fd).used := hmsg ▸ hcomplete.2
    have hmove : ∀ t : State, t.bufs = s.bufs →
        consume fd f.message t = .next (t.consumed fd f.message) := fun t ht =>
      consume_of_range fd (Int.natCast_nonneg f.size) (ht ▸ hlen) (ht ▸ hfill.2)
    rw [parseOnce_of_complete env hcomplete, hmsg] at h
    by_cases htype : f.type = msgDataReq
    · have hpacket := handleFrame_packet env hf hfront htype
      rcases hpacket with ⟨slice, ret, hflow⟩ | ⟨t, hflow, hbad⟩
      · have hconsumed := hmove ((s.note fd (.touched sizeofMessage slice)).note s.tunFd
          (.wrote f.payload ret)) rfl
        rw [hflow, Flow.bind_next, hconsumed] at h
        obtain rfl := Flow.next.inj (h.resolve_right (by simp))
        exact relays_packet hc hfd htype (BufferEntry.payload_frame hfront) slice ret
      · rw [hflow] at h
        obtain rfl := Flow.stop.inj (h.resolve_left (by simp [Flow.bind]))
        exact absurd htun hbad
    · have hframe := handleFrame_dispatch env fd f.message s
      cases hflow : handleFrame env fd f.message s with
      | next t =>
          rw [hflow] at h hframe
          rw [Flow.bind_next, hmove t hframe.bufs] at h
          obtain rfl := Flow.next.inj (h.resolve_right (by simp))
          exact ((hframe.aloof htype hfd).trans (consumed_aloof t fd htype)).relays
      | stop t =>
          rw [hflow] at h hframe
          obtain rfl := Flow.stop.inj (h.resolve_left (by simp [Flow.bind]))
          exact (hframe.aloof htype hfd).relays
      | fault t =>
          rw [hflow] at h
          simp [Flow.bind] at h
  · rw [parseOnce_of_not_complete env hcomplete] at h
    obtain rfl : s = s' := by simpa using h
    exact (Aloof.refl s).relays

end Frame

/-- A round of the parse loop on `fd` that does not fault. -/
def Round (fd : Fd) (s s' : State) : Prop :=
  ∃ env, parseOnce env fd s = .next s' ∨ parseOnce env fd s = .stop s'

theorem Round.pass {fd : Fd} {s s' : State} (h : Round fd s s') (hw : s.watched fd = true) :
    Pass s s' ∧ s'.watched fd = true := by
  obtain ⟨env, hflow⟩ := h
  have hparse := parseOnce_parse env fd s
  rcases hflow with hnext | hstop
  · rw [hnext] at hparse
    exact ⟨.parsed env fd hw hparse, (hparse.quiet (.inl rfl)).watched ▸ hw⟩
  · rw [hstop] at hparse
    exact ⟨.parsedLast env fd hw hparse, (hparse.quiet (.inr rfl)).watched ▸ hw⟩

theorem Round.log_suffix {fd : Fd} {s s' : State} (h : Round fd s s') : s.log <:+ s'.log := by
  obtain ⟨env, hflow⟩ := h
  exact ((parseOnce_parse env fd s).quiet (hflow.imp id id)).log_suffix

/-! ## Whole runs -/

/-- What the tun was given is what was taken out of the buffers. -/
structure Conveyed (sent : Conn → List Frame) (s : State) : Prop where
  connections : Connections s
  decoded : Decoded sent s
  clear : ClearOfTun s
  even : s.tunWrites = (uploaded s.log).map Prod.snd

namespace Conveyed

variable {sent : Conn → List Frame} {s s' : State}

theorem initState (fds : Descriptors) : Conveyed sent (initState fds) :=
  ⟨.initState fds, .initState sent fds, .initState fds, rfl⟩

/-- Passes that keep the tun and the buffers in step. -/
theorem passes (hvalid : ∀ c, ∀ f ∈ sent c, f.Valid) (h : Conveyed sent s) (hp : Passes s s')
    (hsent : WellSent sent s') (hr : Relays s s') : Conveyed sent s' := by
  have hclear : Connections s' ∧ ClearOfTun s' := by
    refine passes_conditional (fun _ => True) (fun t => Connections t ∧ ClearOfTun t)
      (fun _ _ _ _ => trivial) ?_ hp ⟨h.connections, h.clear⟩ trivial
    exact fun t t' hpass ht _ => ⟨ht.1.pass hpass, ht.2.change ht.1 hpass.change⟩
  refine ⟨hclear.1, hp.decoded hvalid h.connections h.decoded hsent, hclear.2, ?_⟩
  obtain ⟨new, hlog, hnew⟩ := hr.packets
  rw [hnew, hlog, List.map_append, h.even]

/-- The parse loop on one descriptor. -/
theorem parseLoop (hvalid : ∀ c, ∀ f ∈ sent c, f.Valid) {env : Nat → FrameEnv} {fd : Fd}
    {fuel : Nat} (h : Conveyed sent s) (hw : s.watched fd = true)
    (hcall : iterate (fun k => parseOnce (env k) fd) fuel 0 s = .stopped s')
    (hsent : WellSent sent s') (htun : TunTakesAll s'.log) : Conveyed sent s' := by
  have hchain : Relation.ReflTransGen (Round fd) s s' :=
    iterate_reaches (Round fd) (fun _ => True) (fun k _ _ _ hb => ⟨⟨env k, .inl hb⟩, trivial⟩)
      (fun k _ _ _ hb => ⟨env k, .inr hb⟩) trivial hcall
  have hboth : Conveyed sent s' ∧ s'.watched fd = true := by
    refine chain_conditional (fun t : State => WellSent sent t ∧ TunTakesAll t.log)
      (fun t => Conveyed sent t ∧ t.watched fd = true) ?_ ?_ hchain ⟨h, hw⟩ ⟨hsent, htun⟩
    · rintro t t' hround ⟨hsent, htun⟩
      exact ⟨hsent.inherit t t' hround.log_suffix, htun.inherit hround.log_suffix⟩
    · rintro t t' hround ⟨ht, hw⟩ ⟨hsent', htun'⟩
      obtain ⟨hpass, hw'⟩ := hround.pass hw
      have hsent := hsent'.inherit t t' hpass.log_suffix
      obtain ⟨env, hflow⟩ := hround
      have hrelays := parse_relays hvalid ht.connections ht.decoded hsent hw hflow htun'
      exact ⟨ht.passes hvalid (.single hpass) hsent' hrelays, hw'⟩
  exact hboth.1

theorem step (hvalid : ∀ c, ∀ f ∈ sent c, f.Valid) {e : Event} (h : Conveyed sent s)
    (hstep : step s e = some s') (hsent : WellSent sent s') (htun : TunTakesAll s'.log) :
    Conveyed sent s' := by
  have hpasses := step_passes hstep
  have haloof : Aloof s s' → Conveyed sent s' := fun ha =>
    h.passes hvalid hpasses hsent ha.relays
  cases step_call hstep with
  | refused => exact h
  | accepted fd added hcan =>
      exact haloof (processServer_aloof s fd added)
  | tun r env fuel _ hcall => exact haloof (processTun_aloof h.clear hcall)
  | ended fd r env removed fuel _ =>
      rcases freeClientFd_cases removed fd s with hf | ⟨_, hf⟩
      · rwa [hf]
      · rw [hf] at haloof ⊢
        exact haloof (.freed s fd)
  | read fd bs env removed fuel hw hfits hcall =>
      have hread : Passes s (readClient fd bs s) := .single (.read fd hw bs hfits)
      have hlater := (parseLoop_quiet hcall).log_suffix
      have hstart := h.passes hvalid hread (hsent.inherit _ _ hlater)
        (readClient_aloof s fd bs).relays
      exact hstart.parseLoop hvalid hw hcall hsent htun
  | heartbeat env => exact haloof (sweep_aloof h.connections h.clear env _)

end Conveyed

/-- On well-formed streams, as long as the tun takes every packet, it has been given exactly the
packets of the frames that were handled, in that order. -/
theorem runFrom_conveyed {sent : Conn → List Frame} (hvalid : ∀ c, ∀ f ∈ sent c, f.Valid)
    {fds : Descriptors} {es : List Event} {s : State} (hrun : runFrom fds es = some s)
    (hsent : WellSent sent s) (htun : TunTakesAll s.log) : Conveyed sent s := by
  refine run_conditional (fun t => WellSent sent t ∧ TunTakesAll t.log) (Conveyed sent) ?_ ?_
    (.initState fds) hrun ⟨hsent, htun⟩
  · rintro t e t' hstep ⟨hsent, htun⟩
    have hsuffix := step_log_suffix hstep
    exact ⟨hsent.inherit t t' hsuffix, htun.inherit hsuffix⟩
  · rintro t e t' ht hstep ⟨hsent, htun⟩
    exact ht.step hvalid hstep hsent htun

end Over6.Server
