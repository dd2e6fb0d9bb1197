import Over6.Client.Decoder

/-! # What the client answers on its pipe

An IP reply that comes in is answered with five addresses and the socket, the
command `FETCH_STATE` with the four counters. Nothing else is put on the pipe.
-/

namespace Over6.Client

open MachineInt BoundedLoop Journal

def Act.response : Act → List UInt8
  | responded bs => bs
  | _ => []

def responses (log : List Act) : List UInt8 := gather Act.response log

def replies (log : List Act) : Nat := (dispatched log).countP fun msg => msg.type = msgIpRsb

def configBytes (stale : Nat → Nat → UInt8) (text : List UInt8) (socketFd : Fd) : List UInt8 :=
  ((readIps stale text 5).ips ++ [leBytes 4 (sizeT 32 socketFd)]).flatten

/-- The five addresses that `READ_IP` finds in the frame, and the socket. -/
def ConfigOf (socketFd : Fd) (f : Frame) (bs : List UInt8) : Prop :=
  ∃ stale beyond, bs = configBytes stale (f.payload ++ beyond) socketFd

def stateBytes (s : State) : List UInt8 :=
  ([s.inBytes, s.outBytes, s.inPackets, s.outPackets].map fun n => leBytes 8 n.toNat).flatten

/-! ## Lengths -/

theorem readIps_ips_length (stale : Nat → Nat → UInt8) (text : List UInt8) (n : Nat) :
    (readIps stale text n).ips.length = n := by
  induction n with
  | zero => rfl
  | succ n ih =>
      unfold readIps at ih ⊢
      rw [List.range_succ, List.foldl_append, List.foldl_cons, List.foldl_nil, List.length_append,
        ih, List.length_singleton]

theorem length_flatten_of_all {l : List (List UInt8)} {k : Nat} (h : ∀ bs ∈ l, bs.length = k) :
    l.flatten.length = l.length * k := by
  rw [List.length_flatten, List.map_congr_left h, List.map_const', List.sum_replicate_nat]

theorem configBytes_length (stale : Nat → Nat → UInt8) (text : List UInt8) (socketFd : Fd) :
    (configBytes stale text socketFd).length = 24 := by
  have hall : ∀ bs ∈ (readIps stale text 5).ips ++ [leBytes 4 (sizeT 32 socketFd)],
      bs.length = 4 := by
    intro bs hbs
    rcases List.mem_append.mp hbs with hbs | hbs
    · exact readIps_length _ _ _ bs hbs
    · rw [List.mem_singleton.mp hbs, leBytes_length]
  rw [configBytes, length_flatten_of_all hall, List.length_append, readIps_ips_length]
  rfl

theorem ConfigOf.length {socketFd : Fd} {f : Frame} {bs : List UInt8} (h : ConfigOf socketFd f bs) :
    bs.length = 24 := by
  obtain ⟨stale, beyond, rfl⟩ := h
  exact configBytes_length _ _ _

theorem stateBytes_length (s : State) : (stateBytes s).length = 32 := by
  simp [stateBytes]

/-! ## Answering -/

theorem responses_note (s : State) (act : Act) :
    responses (s.note act).log = responses s.log ++ act.response := rfl

theorem taken_begins (write : WriteResult) (bs : List UInt8) : write.taken bs <+: bs :=
  List.take_prefix _ _

/-- As far as the writes go, the pipe gets the answers; all of them if the handler goes on. -/
theorem respond_responses (write : Nat → WriteResult) (k : Nat) (answers : List (List UInt8))
    (s : State) : ∃ bs, responses (respond write k answers s).state.log = responses s.log ++ bs ∧
      bs <+: answers.flatten ∧ ∀ t, respond write k answers s = .next t → bs = answers.flatten := by
  induction answers generalizing k s with
  | nil => exact ⟨[], (List.append_nil _).symm, List.prefix_refl _, fun _ _ => rfl⟩
  | cons first rest ih =>
      by_cases hret : (write k).ret first.length = first.length
      · obtain ⟨bs, hbs, hpre, hall⟩ := ih (k + 1) (s.note (.responded first))
        simp only [respond, hret, if_true, taken_of_ret hret]
        refine ⟨first ++ bs, ?_, ?_, fun t ht => ?_⟩
        · rw [hbs, responses_note, List.append_assoc]
          rfl
        · rw [List.flatten_cons]
          exact (List.prefix_append_right_inj first).mpr hpre
        · rw [hall t ht, List.flatten_cons]
      · simp only [respond, hret, if_false]
        refine ⟨(write k).taken first, ?_, ?_, by simp⟩
        · exact List.append_nil _
        · rw [List.flatten_cons]
          exact (taken_begins _ _).trans (List.prefix_append _ _)

/-- The payload of the frame at the front. -/
theorem payload_front {s : State} {f : Frame} {more : List UInt8}
    (hbytes : s.content = f.bytes ++ more) :
    s.socketBuffer.load sizeofMessage f.payload.length = f.payload := by
  have hlen : s.socketNreads.toNat = f.size + more.length := by
    rw [← s.content_length, hbytes, List.length_append, Frame.bytes_length]
  have hsize : f.size = f.payload.length + sizeofMessage := rfl
  have hpay := f.payload_of_bytes more
  rwa [← hbytes, State.content, CellMemory.load_drop _ (by omega), Nat.zero_add, hsize,
    Nat.add_sub_cancel, CellMemory.load_take _ (by omega)] at hpay

theorem replySize_message {f : Frame} (hf : f.Valid) :
    replySize f.message.length = f.payload.length := by
  have hlen : f.message.length = f.payload.length + sizeofMessage := Int.natCast_add _ _
  have hfive : (sizeofMessage : Int) = 5 := rfl
  have hsize : f.payload.length + 5 < 2 ^ 31 := hf
  rw [replySize, hlen, sizeT]
  omega

theorem handleIpReply_of_good (env : SocketEnv) {msg : Message} {s : State}
    (hgood : ¬ BadReply msg.length) : handleIpReply env msg s =
      respond env.response 0 ((readIps env.stale (s.socketBuffer.load sizeofMessage
          (replySize msg.length) ++ env.beyond) 5).ips ++ [leBytes 4 (sizeT 32 s.socketFd)])
        ((s.note (.resized (replySize msg.length) s.socketNreads)).note
          (.scanned (replySize msg.length) (readIps env.stale (s.socketBuffer.load sizeofMessage
            (replySize msg.length) ++ env.beyond) 5).seen)) := by
  unfold handleIpReply
  simp only
  rw [if_neg hgood]
  rfl

theorem Responded.same {s : State} {flow : Flow State} (h : Responded s flow) :
    flow.state.socketFd = s.socketFd ∧ flow.state.tunFd = s.tunFd := by
  cases h with
  | all hlog =>
      obtain ⟨new, rfl, _⟩ := hlog
      exact ⟨rfl, rfl⟩
  | gaveUp hlog =>
      obtain ⟨new, rfl, _⟩ := hlog
      exact ⟨rfl, rfl⟩

section Frame

variable {env : SocketEnv} {s : State} {f : Frame} {more : List UInt8}

/-- What is written on an IP reply whose copy can be read. -/
theorem handleFrame_reply (hf : f.Valid) (hbytes : s.content = f.bytes ++ more)
    (htype : f.type = msgIpRsb) (hgood : ¬ BadReply f.message.length) :
    handleFrame env f.message s =
      respond env.response 0 ((readIps env.stale (f.payload ++ env.beyond) 5).ips ++
          [leBytes 4 (sizeT 32 s.socketFd)])
        (((s.note (.dispatched f.message)).note (.resized f.payload.length s.socketNreads)).note
          (.scanned f.payload.length (readIps env.stale (f.payload ++ env.beyond) 5).seen)) := by
  have hload : (s.note (.dispatched f.message)).socketBuffer.load sizeofMessage
      (replySize f.message.length) = f.payload := by
    rw [replySize_message hf]
    exact payload_front hbytes
  rw [handleFrame_of_ipRsb env s htype, handleIpReply_of_good env hgood, hload,
    replySize_message hf]
  rfl

/-- An IP reply puts its answer on the pipe, as far as the writes go. -/
theorem handleFrame_config (hf : f.Valid) (hbytes : s.content = f.bytes ++ more)
    (htype : f.type = msgIpRsb) :
    ∃ bs full, responses (handleFrame env f.message s).state.log = responses s.log ++ bs ∧
      ConfigOf s.socketFd f full ∧ bs <+: full ∧
      ∀ t, handleFrame env f.message s = .next t → bs = full := by
  have hconfig : ConfigOf s.socketFd f
      (configBytes env.stale (f.payload ++ env.beyond) s.socketFd) := ⟨_, _, rfl⟩
  by_cases hbad : BadReply f.message.length
  · rw [handleFrame_of_ipRsb env s htype]
    refine ⟨[], _, ?_, hconfig, List.nil_prefix, ?_⟩
    · unfold handleIpReply
      simp [hbad, responses, State.note, Act.response]
    · unfold handleIpReply
      simp [hbad]
  · rw [handleFrame_reply hf hbytes htype hbad]
    obtain ⟨bs, hbs, hpre, hall⟩ := respond_responses env.response 0
      ((readIps env.stale (f.payload ++ env.beyond) 5).ips ++ [leBytes 4 (sizeT 32 s.socketFd)])
      (((s.note (.dispatched f.message)).note (.resized f.payload.length s.socketNreads)).note
        (.scanned f.payload.length (readIps env.stale (f.payload ++ env.beyond) 5).seen))
    have hlog : responses (((s.note (.dispatched f.message)).note
        (.resized f.payload.length s.socketNreads)).note
        (.scanned f.payload.length (readIps env.stale (f.payload ++ env.beyond) 5).seen)).log =
          responses s.log := by
      simp [responses_note, Act.response]
    rw [hlog] at hbs
    exact ⟨bs, _, hbs, hconfig, hpre, hall⟩

/-- No other frame is answered. -/
theorem handleFrame_quiet (htype : f.type ≠ msgIpRsb) :
    responses (handleFrame env f.message s).state.log = responses s.log := by
  have hframe := handleFrame_dispatch env f.message s
  cases hflow : handleFrame env f.message s with
  | next t =>
      rw [hflow] at hframe
      cases hframe with
      | answered htype' => exact absurd htype' htype
      | heartbeat => exact List.append_nil _
      | early => exact List.append_nil _
      | injected => simp [State.handed, State.countIn, State.note, responses, Act.response]
  | stop t =>
      rw [hflow] at hframe
      cases hframe with
      | unanswered htype' => exact absurd htype' htype
      | refused => simp [State.handed, State.fail, State.note, responses, Act.response]
      | unknown => exact List.append_nil _
  | fault t =>
      rw [hflow] at hframe
      cases hframe with
      | crashed htype' => exact absurd htype' htype

/-- The frame that ends a call was met, unless it has no branch. -/
theorem Dispatch.met_of_stop {s' : State} (h : Dispatch env f.message s (.stop s')) :
    dispatched s'.log = dispatched s.log ++ [f.message] ∨
      f.type ≠ msgIpRsb ∧ dispatched s'.log = dispatched s.log := by
  cases h with
  | unanswered _ _ hlog =>
      obtain ⟨new, rfl, hnew⟩ := hlog
      left
      have hnone : dispatched (new ++ .resized (replySize f.message.length) s.socketNreads ::
          .dispatched f.message :: s.log) = _ :=
        gather_of_nil fun act hact => (hnew act hact).not_read.2
      refine (List.append_nil _).trans (hnone.trans ?_)
      simp [dispatched, Act.met]
  | refused => exact .inl (by simp [State.handed, State.fail, State.note, dispatched, Act.met])
  | unknown h₁ => exact .inr ⟨h₁, List.append_nil _⟩

end Frame

/-! ## A call of `handle_socket` -/

/-- What the IP replies met between `s` and `t` have put on the pipe: `bs`, which is the beginning
of their answers. -/
structure Answered (sent : List Frame) (s : State) (answers : List (List UInt8)) (bs : List UInt8)
    (t : State) : Prop where
  responses : responses t.log = responses s.log ++ bs
  part : bs <+: answers.flatten
  replies : replies t.log = replies s.log + answers.length
  config : ∀ a ∈ answers, ∃ f ∈ sent, f.type = msgIpRsb ∧ ConfigOf s.socketFd f a
  socketFd : t.socketFd = s.socketFd
  tunFd : t.tunFd = s.tunFd

namespace Answered

variable {sent words : List Frame} {s t u : State} {answers : List (List UInt8)} {bs : List UInt8}
  {env : SocketEnv} {f : Frame} {more : List UInt8}

theorem replies_snoc {log log' : List Act} (h : dispatched log' = dispatched log ++ [f.message]) :
    Client.replies log' = Client.replies log + if f.type = msgIpRsb then 1 else 0 := by
  have htype : f.message.type = f.type := rfl
  rw [Client.replies, h, List.countP_append, Client.replies, List.countP_singleton]
  simp [htype]

theorem replies_congr {log log' : List Act} (h : dispatched log' = dispatched log) :
    Client.replies log' = Client.replies log := by rw [Client.replies, h, Client.replies]

theorem replies_consumed (s : State) (msg : Message) :
    Client.replies (s.consumed msg).log = Client.replies s.log :=
  replies_congr (List.append_nil _)

theorem consumed (h : Answered sent s answers bs t) (msg : Message) :
    Answered sent s answers bs (t.consumed msg) :=
  ⟨(List.append_nil _).trans h.responses, h.part, (replies_consumed t msg).trans h.replies, h.config,
    h.socketFd, h.tunFd⟩

/-- One more answer, as far as it went. -/
theorem reply (h : Answered sent s answers answers.flatten u) (hmem : f ∈ sent)
    (htype : f.type = msgIpRsb) {full : List UInt8} (hconfig : ConfigOf u.socketFd f full)
    (hpart : bs <+: full) (hlog : Client.responses t.log = Client.responses u.log ++ bs)
    (hmet : dispatched t.log = dispatched u.log ++ [f.message]) (hkept : Kept u t) :
    Answered sent s (answers ++ [full]) (answers.flatten ++ bs) t where
  responses := by rw [hlog, h.responses, List.append_assoc]
  part := by
    rw [List.flatten_append, List.flatten_singleton]
    exact (List.prefix_append_right_inj _).mpr hpart
  replies := by
    rw [replies_snoc hmet, if_pos htype, h.replies, List.length_append, List.length_singleton,
      Nat.add_assoc]
  config a ha := by
    rcases List.mem_append.mp ha with ha | ha
    · exact h.config a ha
    · rw [List.mem_singleton.mp ha, ← h.socketFd]
      exact ⟨f, hmem, htype, hconfig⟩
  socketFd := hkept.socketFd.trans h.socketFd
  tunFd := hkept.tunFd.trans h.tunFd

theorem unanswered (h : Answered sent s answers answers.flatten u)
    (hlog : Client.responses t.log = Client.responses u.log)
    (hreplies : Client.replies t.log = Client.replies u.log) (hkept : Kept u t) :
    Answered sent s answers answers.flatten t :=
  ⟨hlog.trans h.responses, List.prefix_refl _, hreplies.trans h.replies, h.config,
    hkept.socketFd.trans h.socketFd, hkept.tunFd.trans h.tunFd⟩

/-- The frame that was gone through last. -/
theorem passed (h : Answered sent s answers answers.flatten u) (hf : f.Valid) (hmem : f ∈ sent)
    (hbytes : u.content = f.bytes ++ more) (hframe : handleFrame env f.message u = .next t) :
    ∃ answers', Answered sent s answers' answers'.flatten (t.consumed f.message) := by
  have hdispatch := Dispatch.of_eq hframe
  have hkept : Kept u t := hdispatch.kept
  have hmet := hdispatch.met.2
  by_cases htype : f.type = msgIpRsb
  · obtain ⟨bs, full, hlog, hconfig, hpart, hall⟩ := handleFrame_config hf hbytes htype
    rw [hframe, Flow.state_next] at hlog
    obtain rfl := hall t hframe
    have hreply := h.reply hmem htype hconfig hpart hlog hmet hkept
    have hflat : (answers ++ [bs]).flatten = answers.flatten ++ bs := by
      rw [List.flatten_append, List.flatten_singleton]
    rw [← hflat] at hreply
    exact ⟨_, hreply.consumed _⟩
  · have hlog : Client.responses (handleFrame env f.message u).state.log = _ :=
      handleFrame_quiet htype
    rw [hframe, Flow.state_next] at hlog
    have hreplies := replies_snoc hmet
    rw [if_neg htype, Nat.add_zero] at hreplies
    exact ⟨answers, (h.unanswered hlog hreplies hkept).consumed _⟩

/-- The frame on which the call ended. -/
theorem stopped (h : Answered sent s answers answers.flatten u) (hf : f.Valid) (hmem : f ∈ sent)
    (hbytes : u.content = f.bytes ++ more) (hframe : handleFrame env f.message u = .stop t) :
    ∃ answers' bs, Answered sent s answers' bs t := by
  have hdispatch := Dispatch.of_eq hframe
  have hkept : Kept u t := hdispatch.kept
  by_cases htype : f.type = msgIpRsb
  · obtain ⟨bs, full, hlog, hconfig, hpart, _⟩ := handleFrame_config hf hbytes htype
    rw [hframe, Flow.state_stop] at hlog
    have hmet := hdispatch.met_of_stop.resolve_right fun hother => hother.1 htype
    exact ⟨_, _, h.reply hmem htype hconfig hpart hlog hmet hkept⟩
  · have hlog : Client.responses (handleFrame env f.message u).state.log = _ :=
      handleFrame_quiet htype
    rw [hframe, Flow.state_stop] at hlog
    have hreplies : Client.replies t.log = Client.replies u.log := by
      rcases hdispatch.met_of_stop with hmet | ⟨_, hmet⟩
      · rw [replies_snoc hmet, if_neg htype, Nat.add_zero]
      · exact replies_congr hmet
    exact ⟨_, _, h.unanswered hlog hreplies hkept⟩

end Answered

theorem replies_le {start t : State} {sent words : List Frame} {got : List UInt8}
    (h : Decoded start sent got words t) (hstart : dispatched start.log = []) :
    replies t.log = words.countP fun f => f.type = msgIpRsb := by
  rw [replies, h.met, hstart, List.nil_append, List.countP_map]
  rfl

/-- A call that ends has answered every IP reply it met, as far as the writes went; it met no more
than were sent. -/
theorem handleSocket_answers {start s s' : State} {sent words : List Frame} {got bs : List UInt8}
    {env : Nat → SocketEnv} {fuel : Nat} (hvalid : ∀ f ∈ sent, f.Valid)
    (h : Decoded start sent got words s) (hstart : dispatched start.log = [])
    (hfits : bs.length ≤ s.room) (hgot : got ++ bs <+: frameCode.stream sent)
    (hcall : handleSocket (.bytes bs) env fuel s = .stopped s') :
    (∃ answers rs, Answered sent s answers rs s') ∧
      replies s'.log ≤ (sent.countP fun f => f.type = msgIpRsb) ∧
      (s'.ret = 0 → ∃ words', Decoded start sent (got ++ bs) words' s') := by
  rw [handleSocket_of_bounded h.bounded hfits] at hcall
  have hfirst : Answered sent s [] ([] : List (List UInt8)).flatten (receive bs s) :=
    ⟨rfl, List.prefix_refl _, Answered.replies_congr (List.append_nil _), by simp, rfl, rfl⟩
  obtain ⟨words', t, hdec, ⟨answers, ht⟩, hend⟩ := parseLoop_last hvalid
    (fun _ u => ∃ answers, Answered sent s answers answers.flatten u)
    (fun _ _ f _ _ _ ⟨_, hu⟩ _ hbytes hf hframe => hu.passed (hvalid f hf) hf hbytes hframe)
    (h.receive hfits) hgot ⟨[], hfirst⟩ hcall
  have hmet := replies_le hdec hstart
  rcases hend with ⟨_, rfl⟩ | ⟨j, f, tail, more, hsplit, hbytes, hframe⟩
  · refine ⟨⟨answers, _, ht.responses, ht.part, ht.replies, ht.config, ht.socketFd, ht.tunFd⟩, ?_,
      fun _ => ⟨words', hdec.bounded, hdec.read, hdec.held, hdec.met⟩⟩
    obtain ⟨tail, rfl⟩ := hdec.held.1
    rw [List.countP_append]
    exact Nat.le_add_right_of_le (Nat.le_of_eq hmet)
  · have hmem : f ∈ sent := by simp [hsplit]
    have hdispatch := Dispatch.of_eq hframe
    obtain ⟨answers', rs, hanswered⟩ := ht.stopped (hvalid f hmem) hmem hbytes hframe
    refine ⟨⟨answers', rs, hanswered⟩, ?_, fun hret => ?_⟩
    · have hcount : (sent.countP fun f => f.type = msgIpRsb) = words'.countP (fun f =>
          f.type = msgIpRsb) + ((if f.type = msgIpRsb then 1 else 0) +
          tail.countP fun f => f.type = msgIpRsb) := by
        rw [hsplit, List.countP_append, List.countP_cons, Nat.add_comm (tail.countP _)]
        simp
      rcases hdispatch.met_of_stop with hlast | ⟨_, hlast⟩
      · rw [Answered.replies_snoc hlast, hmet, hcount]
        omega
      · rw [replies, hlast]
        exact Nat.le_trans (Nat.le_of_eq hmet) (by omega)
    · rw [hdispatch.ret_of_stop] at hret
      exact absurd hret (by decide)

/-! ## A call of `handle_command` -/

/-- What the pipe gets from a command, if it takes all of it. -/
def answerTo (command : UInt8) (s : State) : List UInt8 :=
  if command = ipcCommandFetchState then stateBytes s else []

theorem handleCommand_responses {env : CommandEnv} {fuel : Nat} {s s' : State} {command : UInt8}
    {rest : List UInt8} (hbyte : env.byte = .bytes (command :: rest))
    (hother : command ≠ ipcCommandSetTun) (h : handleCommand env fuel s = .stopped s') :
    s'.socketFd = s.socketFd ∧ s'.tunFd = s.tunFd ∧
      ∃ bs, responses s'.log = responses s.log ++ bs ∧ bs <+: answerTo command s := by
  unfold handleCommand at h
  rw [hbyte] at h
  simp only [hother, if_false] at h
  split at h
  · cases h
    exact ⟨rfl, rfl, [], rfl, List.nil_prefix⟩
  · split at h
    · split at h
      · cases h
        exact ⟨rfl, rfl, [], by simp [responses, State.note, Act.response], List.nil_prefix⟩
      · cases h
        exact ⟨rfl, rfl, [], by simp [responses, State.note, State.fail, Act.response],
          List.nil_prefix⟩
    · split at h
      · rename_i hstate
        cases h
        obtain ⟨bs, hbs, hpart, _⟩ := respond_responses env.write 0
          ([s.inBytes, s.outBytes, s.inPackets, s.outPackets].map fun n => leBytes 8 n.toNat)
          { s.note (.command command) with ret := 0 }
        have hlogged := respond_responded env.write 0
          ([s.inBytes, s.outBytes, s.inPackets, s.outPackets].map fun n => leBytes 8 n.toNat)
          { s.note (.command command) with ret := 0 }
        have hsame := hlogged.same
        have hstart : responses (s.note (.command command)).log = responses s.log :=
          List.append_nil _
        refine ⟨hsame.1, hsame.2, bs, hbs.trans (by rw [← hstart]), ?_⟩
        rw [answerTo, if_pos hstate]
        exact hpart
      · cases h
        exact ⟨rfl, rfl, [], rfl, List.nil_prefix⟩

/-! ## Reading a descriptor -/

theorem setTunOnce_of_short {bs : List UInt8} {p : State × List UInt8}
    (hfits : p.2.length + bs.length ≤ 4) (hshort : p.2.length < 4) :
    setTunOnce (.bytes bs) p = .next (p.1.setTunFd (int32 (leNat ((p.2 ++ bs) ++
      (leBytes 4 (sizeT 32 p.1.tunFd)).drop (p.2 ++ bs).length))), p.2 ++ bs) := by
  have htake : bs.take (4 - p.2.length) = bs := List.take_of_length_le (by omega)
  unfold setTunOnce
  rw [if_neg (Nat.not_le.mpr hshort)]
  simp only
  rw [htake]

theorem setTunOnce_of_done {r : ReadResult} {p : State × List UInt8} (hdone : 4 ≤ p.2.length) :
    setTunOnce r p = .stop p := by
  unfold setTunOnce
  rw [if_pos hdone]

/-- The descriptor stands in memory once its four bytes are there. -/
def Stored (s : State) (p : State × List UInt8) : Prop :=
  p.1 = s.setTunFd p.1.tunFd ∧ (p.2.length = 4 → p.1.tunFd = int32 (leNat p.2))

theorem Stored.set {s : State} {p : State × List UInt8} (h : Stored s p) {fd : Fd}
    {got : List UInt8} (hfd : got.length = 4 → fd = int32 (leNat got)) :
    Stored s (p.1.setTunFd fd, got) := by
  refine ⟨?_, hfd⟩
  rw [h.1]
  rfl

theorem Stored.read {s : State} {p : State × List UInt8} (h : Stored s p) (bs : List UInt8) :
    Stored s (p.1.setTunFd (int32 (leNat ((p.2 ++ bs) ++
      (leBytes 4 (sizeT 32 p.1.tunFd)).drop (p.2 ++ bs).length))), p.2 ++ bs) := by
  refine h.set fun hfour => ?_
  have hdrop : (leBytes 4 (sizeT 32 p.1.tunFd)).drop (p.2 ++ bs).length = [] := by
    rw [List.drop_eq_nil_iff, leBytes_length]
    exact Nat.le_of_eq hfour.symm
  rw [hdrop, List.append_nil]

/-- The loop is left with all four bytes that were read, and with the descriptor they stand for. -/
theorem iterate_setTunOnce {reads : Nat → ReadResult} {s : State} (chunks : List (List UInt8))
    (k : Nat) (hreads : ∀ i, reads (k + i) = .bytes (chunks.getD i []))
    {p q : State × List UInt8} (hp : Stored s p) (hfits : p.2.length + chunks.flatten.length ≤ 4)
    (h : iterate (fun k => setTunOnce (reads k)) (chunks.length + 1) k p = .stopped q) :
    Stored s q ∧ q.2 = p.2 ++ chunks.flatten ∧ q.2.length = 4 := by
  induction chunks generalizing k p with
  | nil =>
      by_cases hdone : 4 ≤ p.2.length
      · rw [iterate_of_stop _ (setTunOnce_of_done hdone)] at h
        obtain rfl := Outcome.stopped.inj h
        exact ⟨hp, (List.append_nil _).symm, by simp only [List.flatten_nil] at hfits; omega⟩
      · -- Nothing more comes, and the loop goes on.
        have hread : reads k = .bytes [] := hreads 0
        have hnext := setTunOnce_of_short hfits (Nat.not_le.mp hdone)
        rw [List.flatten_nil, ← hread] at hnext
        rw [List.length_nil, iterate_of_next _ hnext] at h
        cases h
  | cons bs chunks ih =>
      rw [List.flatten_cons, List.length_append] at hfits
      by_cases hdone : 4 ≤ p.2.length
      · rw [iterate_of_stop _ (setTunOnce_of_done hdone)] at h
        obtain rfl := Outcome.stopped.inj h
        have hnil : (bs :: chunks).flatten = [] := by
          rw [← List.length_eq_zero_iff, List.flatten_cons, List.length_append]
          omega
        exact ⟨hp, by rw [hnil, List.append_nil], by omega⟩
      · have hshort : p.2.length + bs.length ≤ 4 := by omega
        have hnext := setTunOnce_of_short hshort (Nat.not_le.mp hdone)
        have hread : reads k = .bytes bs := hreads 0
        rw [← hread] at hnext
        rw [List.length_cons, iterate_of_next _ hnext] at h
        have hrest : ∀ i, reads (k + 1 + i) = .bytes (chunks.getD i []) := by
          intro i
          rw [Nat.add_assoc, Nat.add_comm 1 i, hreads (i + 1)]
          rfl
        obtain ⟨hq, hall, hfour⟩ := ih (k + 1) hrest (hp.read bs)
          (by rw [List.length_append]; omega) h
        exact ⟨hq, by rw [hall, List.append_assoc, List.flatten_cons], hfour⟩

/-- A `SET_TUN` that comes with its four bytes, in any pieces. -/
theorem handleCommand_setTun {env : CommandEnv} {s s' : State} {rest : List UInt8}
    {chunks : List (List UInt8)} (hbyte : env.byte = .bytes (ipcCommandSetTun :: rest))
    (hreads : ∀ i, env.reads i = .bytes (chunks.getD i [])) (hfits : chunks.flatten.length ≤ 4)
    (h : handleCommand env (chunks.length + 1) s = .stopped s') :
    chunks.flatten.length = 4 ∧ s'.tunFd = int32 (leNat chunks.flatten) ∧
      s'.socketFd = s.socketFd ∧ responses s'.log = responses s.log := by
  unfold handleCommand at h
  rw [hbyte] at h
  simp only [show ipcCommandSetTun ≠ ipcCommandExit by decide,
    show ipcCommandSetTun ≠ ipcCommandFetchConfig by decide, if_false, if_true] at h
  unfold setTun at h
  cases hout : iterate (fun k => setTunOnce (env.reads k)) (chunks.length + 1) 0
      ({ s.note (.command ipcCommandSetTun) with ret := 0 }, []) with
  | running q =>
      rw [hout] at h
      cases h
  | faulted q =>
      rw [hout] at h
      cases h
  | stopped q =>
      obtain ⟨⟨hstate, hstored⟩, hall, hfour⟩ := iterate_setTunOnce chunks 0
        (fun i => by rw [Nat.zero_add]; exact hreads i)
        (s := { s.note (.command ipcCommandSetTun) with ret := 0 })
        ⟨rfl, fun hfour => by cases hfour⟩ (by simpa using hfits) hout
      have hbytes : q.2 = chunks.flatten := hall
      have htun := hstored hfour
      rw [hbytes] at hfour htun
      have hlog : responses q.1.log = responses s.log := by
        rw [hstate]
        exact List.append_nil _
      have hsock : q.1.socketFd = s.socketFd := by
        rw [hstate]
        rfl
      rw [hout] at h
      simp only at h
      split at h
      · cases h
        exact ⟨hfour, htun, hsock, hlog⟩
      · split at h
        · cases h
          exact ⟨hfour, htun, hsock, (List.append_nil _).trans hlog⟩
        · cases h
          exact ⟨hfour, htun, hsock, hlog⟩

/-! ## The other handlers -/

/-- The response pipe, `tunFd` and the IP replies are left alone. -/
structure Quiet (s s' : State) : Prop where
  responses : responses s'.log = responses s.log
  replies : replies s'.log = replies s.log
  socketFd : s'.socketFd = s.socketFd
  tunFd : s'.tunFd = s.tunFd

theorem Aside.replies_eq {s s' : State} (h : Aside s s') : replies s'.log = replies s.log :=
  Answered.replies_congr h.received_eq.2

theorem handleHeartbeat_quiet (now : Int) (write : WriteResult) (s : State) :
    Quiet s (handleHeartbeat now write s) := by
  have haside := handleHeartbeat_aside now write s
  have hbeat := handleHeartbeat_beat now write s
  generalize handleHeartbeat now write s = t at hbeat haside
  refine ⟨?_, haside.replies_eq, ?_, ?_⟩
  · cases hbeat with
    | timeout => exact List.append_nil _
    | sent => exact List.append_nil _
    | lost => simp [State.note, State.fail, Client.responses, Act.response]
    | early => rfl
  · cases hbeat <;> rfl
  · cases hbeat <;> rfl

theorem handleTunnel_quiet (r : ReadResult) (write₁ write₂ : WriteResult) (s : State) :
    Quiet s (handleTunnel r write₁ write₂ s) := by
  have haside := handleTunnel_aside r write₁ write₂ s
  have huplink := handleTunnel_uplink r write₁ write₂ s
  generalize handleTunnel r write₁ write₂ s = t at huplink haside
  refine ⟨?_, haside.replies_eq, ?_, ?_⟩
  · cases huplink with
    | failed => exact List.append_nil _
    | nothing => rfl
    | sent | headless | halved => simp [State.note, State.fail, Client.responses, Act.response]
  · cases huplink <;> rfl
  · cases huplink <;> rfl

end Over6.Client
