import Over6.Client.Halting
import Over6.Lib.Journal

/-! # The decoder of the client

What `handle_socket` hands to its branches, against the frames the server sends.
The frames met and the bytes left in the buffer together are the bytes received,
for every way `recv` cuts them up.
-/

namespace Over6.Client

open MachineInt BoundedLoop EventRun Journal

/-! ## What the log says -/

def Act.read : Act → List UInt8
  | received bs => bs
  | _ => []

def Act.met : Act → List Message
  | dispatched msg => [msg]
  | _ => []

def received (log : List Act) : List UInt8 := gather Act.read log

/-- The headers that came to the type dispatch. -/
def dispatched (log : List Act) : List Message := gather Act.met log

theorem Act.OfReply.not_read {act : Act} (h : act.OfReply) : act.read = [] ∧ act.met = [] := by
  cases act <;> first | exact ⟨rfl, rfl⟩ | exact h.elim

theorem Act.OfOther.not_read {act : Act} (h : act.OfOther) : act.read = [] ∧ act.met = [] := by
  cases act <;> first | exact ⟨rfl, rfl⟩ | exact h.elim

theorem Aside.received_eq {s s' : State} (h : Aside s s') :
    received s'.log = received s.log ∧ dispatched s'.log = dispatched s.log := by
  obtain ⟨new, hlog, hnew⟩ := h.log
  rw [hlog]
  exact ⟨gather_of_nil fun act hact => (hnew act hact).not_read.1,
    gather_of_nil fun act hact => (hnew act hact).not_read.2⟩

theorem Dispatch.passed_log {env : SocketEnv} {msg : Message} {s t : State}
    (h : Dispatch env msg s (.next t)) : ∃ new, t.log = new ++ .dispatched msg :: s.log ∧
      ∀ act ∈ new, act.read = [] ∧ act.met = [] := by
  cases h with
  | answered _ _ hlog =>
      obtain ⟨new, rfl, hnew⟩ := hlog
      refine ⟨new ++ [.resized (replySize msg.length) s.socketNreads], by simp [State.note], ?_⟩
      intro act hact
      rcases List.mem_append.mp hact with hact | hact
      · exact (hnew act hact).not_read
      · rw [List.mem_singleton.mp hact]
        exact ⟨rfl, rfl⟩
  | heartbeat => exact ⟨[], rfl, by simp⟩
  | early => exact ⟨[], rfl, by simp⟩
  | injected => exact ⟨[_, _], rfl, by simp [Act.read, Act.met]⟩

/-- A frame that goes on to be taken out was met once. -/
theorem Dispatch.met {env : SocketEnv} {msg : Message} {s t : State}
    (h : Dispatch env msg s (.next t)) :
    received t.log = received s.log ∧ dispatched t.log = dispatched s.log ++ [msg] := by
  obtain ⟨new, hlog, hnew⟩ := h.passed_log
  rw [hlog, received, dispatched, gather_of_nil fun act hact => (hnew act hact).1,
    gather_of_nil fun act hact => (hnew act hact).2]
  exact ⟨List.append_nil _, rfl⟩

/-! ## The invariant -/

/-- Since the state `start` the bytes `got` have come in and the frames `words` of `sent` have been
met; the buffer holds what came behind them. -/
structure Decoded (start : State) (sent : List Frame) (got : List UInt8) (words : List Frame)
    (s : State) : Prop where
  bounded : s.Bounded
  read : received s.log = received start.log ++ got
  held : frameCode.Partway sent got words s.content
  met : dispatched s.log = dispatched start.log ++ words.map Frame.message

namespace Decoded

variable {start s s' : State} {sent words : List Frame} {got : List UInt8}

theorem refl (sent : List Frame) (hbounded : start.Bounded) (hempty : start.content = []) :
    Decoded start sent [] [] start where
  bounded := hbounded
  read := (List.append_nil _).symm
  held := by
    rw [hempty]
    exact PrefixCode.Partway.start sent
  met := (List.append_nil _).symm

/-- The server may go on sending. -/
theorem mono {sent' : List Frame} (h : Decoded start sent got words s) (hle : sent <+: sent') :
    Decoded start sent' got words s := { h with held := h.held.mono hle }

theorem of_aside (h : Decoded start sent got words s) (ha : Aside s s') :
    Decoded start sent got words s' := by
  obtain ⟨hreceived, hmet⟩ := ha.received_eq
  refine ⟨?_, hreceived.trans h.read, ?_, hmet.trans h.met⟩
  · rw [State.Bounded, ha.socketNreads]
    exact h.bounded
  · rw [State.content, ha.socketBuffer, ha.socketNreads]
    exact h.held

theorem receive (h : Decoded start sent got words s) {bs : List UInt8}
    (hfits : bs.length ≤ s.room) : Decoded start sent (got ++ bs) words (receive bs s) := by
  have hread : received (Client.receive bs s).log = received s.log ++ bs := rfl
  refine ⟨h.bounded.receive hfits, ?_, ?_, ?_⟩
  · rw [hread, h.read, List.append_assoc]
  · rw [receive_content h.bounded]
    exact h.held.more bs
  · exact (List.append_nil _).trans h.met

theorem front (h : Decoded start sent got words s) (hvalid : ∀ f ∈ sent, f.Valid)
    (hgot : got <+: frameCode.stream sent) (hcomplete : s.Complete) :
    ∃ f tail more, sent = words ++ f :: tail ∧ s.header = f.message ∧
      s.content = f.bytes ++ more := by
  have hfront := (State.front_iff h.bounded).mp hcomplete
  have hheader := (State.front_of_content h.bounded rfl hfront).2
  obtain ⟨f, tail, more, hsplit, hmsg, hbytes⟩ :=
    front_of_partway h.held hvalid hgot (by omega) (by omega)
  exact ⟨f, tail, more, hsplit, hheader.trans hmsg, hbytes⟩

theorem settled (h : Decoded start sent got words s) (hvalid : ∀ f ∈ sent, f.Valid)
    (hgot : got <+: frameCode.stream sent) (hwait : ¬ s.Complete) :
    frameCode.Settled sent got words := by
  rw [State.front_iff h.bounded, not_not] at hwait
  exact settled_of_partway h.held hvalid hgot (by omega)

/-- Taking out the frame in front. -/
theorem passed {t : State} {env : SocketEnv} {f : Frame} {tail : List Frame} {more : List UInt8}
    (h : Decoded start sent got words s) (hcomplete : s.Complete)
    (hsplit : sent = words ++ f :: tail) (hheader : s.header = f.message)
    (hbytes : s.content = f.bytes ++ more) (hframe : Dispatch env f.message s (.next t)) :
    Decoded start sent got (words ++ [f]) (t.consumed f.message) := by
  have hk : Kept s t := hframe.kept
  have ht := h.bounded.of_kept hk
  have hlen : 0 ≤ f.message.length := Int.natCast_nonneg f.size
  have hle : f.message.length ≤ t.socketNreads := by
    rw [hk.socketNreads, ← hheader]
    exact hcomplete.2
  have hcontent : (t.consumed f.message).content = more := by
    have hsame : t.content = f.bytes ++ more := by
      rw [State.content, hk.socketBuffer, hk.socketNreads]
      exact hbytes
    have htake : f.message.length.toNat = f.bytes.length := (Frame.bytes_length f).symm
    rw [State.consumed_content ht hlen hle, hsame, htake, List.drop_left]
  obtain ⟨hreceived, hmet⟩ := hframe.met
  have hread : received (t.consumed f.message).log = received s.log :=
    (List.append_nil _).trans hreceived
  have hdispatched : dispatched (t.consumed f.message).log = dispatched s.log ++ [f.message] :=
    (List.append_nil _).trans hmet
  refine ⟨ht.consumed hlen hle, hread.trans h.read, ?_, ?_⟩
  · rw [hcontent]
    exact h.held.word hsplit hbytes
  · rw [hdispatched, h.met, List.map_append, List.map_singleton, List.append_assoc]

end Decoded

/-! ## A call that goes well -/

theorem handleFrame_of_stop {env : SocketEnv} {s s' : State} (hcomplete : s.Complete)
    (h : socketOnce env s = .stop s') : handleFrame env s.header s = .stop s' := by
  rw [socketOnce_of_complete env hcomplete] at h
  cases hframe : handleFrame env s.header s with
  | next t =>
      rw [hframe, Flow.bind_next, consume] at h
      split at h <;> cases h
  | stop t =>
      rw [hframe] at h
      exact h
  | fault t =>
      rw [hframe] at h
      cases h

theorem Dispatch.ret_of_stop {env : SocketEnv} {msg : Message} {s s' : State}
    (h : Dispatch env msg s (.stop s')) : s'.ret = -1 := by
  cases h with
  | unanswered => rfl
  | refused => rfl
  | unknown => rfl

theorem handleFrame_of_next {env : SocketEnv} {s s' : State} (hs : s.Bounded)
    (h : socketOnce env s = .next s') :
    s.Complete ∧ ∃ t, handleFrame env s.header s = .next t ∧ s' = t.consumed s.header := by
  by_cases hcomplete : s.Complete
  · refine ⟨hcomplete, ?_⟩
    rw [socketOnce_of_complete env hcomplete] at h
    cases hframe : handleFrame env s.header s with
    | next t =>
        have hk : Kept s t := (Dispatch.of_eq hframe).kept
        rw [hframe, Flow.bind_next] at h
        by_cases hlen : 0 ≤ s.header.length
        · rw [consume_of_range (hs.of_kept hk) hlen (by rw [hk.socketNreads]; exact hcomplete.2)] at h
          exact ⟨t, rfl, (Flow.next.inj h).symm⟩
        · obtain ⟨u, hfault⟩ := consume_of_neg (s := t) (Int.not_le.mp hlen)
          rw [hfault] at h
          cases h
    | stop t =>
        rw [hframe] at h
        cases h
    | fault t =>
        rw [hframe] at h
        cases h
  · rw [socketOnce_of_not_complete env hcomplete] at h
    cases h

section Calls

variable {start s s' : State} {sent words : List Frame} {got : List UInt8}
  (hvalid : ∀ f ∈ sent, f.Valid) (I : List Frame → State → Prop)
  {env : Nat → SocketEnv} {fuel : Nat}

section Last

variable (pass : ∀ k words f more s t, I words s → s.Bounded → s.content = f.bytes ++ more →
    f ∈ sent → handleFrame (env k) f.message s = .next t → I (words ++ [f]) (t.consumed f.message))

include hvalid pass
/-- What holds of the frames met and of the state, and is kept by every frame that is taken out,
holds when the loop is left: for want of a complete frame, or on the frame in front. -/
theorem parseLoop_last {k : Nat} (h : Decoded start sent got words s)
    (hgot : got <+: frameCode.stream sent) (hi : I words s)
    (hstop : iterate (fun k => socketOnce (env k)) fuel k s = .stopped s') :
    ∃ words' t, Decoded start sent got words' t ∧ I words' t ∧
      (¬ t.Complete ∧ s' = { t with ret := 0 } ∨
        ∃ j f tail more, sent = words' ++ f :: tail ∧ t.content = f.bytes ++ more ∧
          handleFrame (env j) f.message t = .stop s') := by
  induction fuel generalizing k words s with
  | zero => cases hstop
  | succ fuel ih =>
      have hpass := socketOnce_pass h.bounded (env k)
      cases hflow : socketOnce (env k) s with
      | next t =>
          rw [iterate_of_next _ hflow] at hstop
          obtain ⟨hcomplete, u, hframe, rfl⟩ := handleFrame_of_next h.bounded hflow
          obtain ⟨f, tail, more, hsplit, hheader, hbytes⟩ := h.front hvalid hgot hcomplete
          rw [hheader] at hframe hstop
          have hmem : f ∈ sent := by simp [hsplit]
          have hdec := h.passed hcomplete hsplit hheader hbytes (.of_eq hframe)
          have hnext := pass k words f more s u hi h.bounded hbytes hmem hframe
          exact ih hdec hnext hstop
      | stop t =>
          rw [iterate_of_stop _ hflow] at hstop
          obtain rfl := Outcome.stopped.inj hstop
          rw [hflow] at hpass
          cases hpass with
          | waits hwait => exact ⟨words, s, h, hi, .inl ⟨hwait, rfl⟩⟩
          | left hcomplete _ =>
              obtain ⟨f, tail, more, hsplit, hheader, hbytes⟩ := h.front hvalid hgot hcomplete
              have hframe := handleFrame_of_stop hcomplete hflow
              rw [hheader] at hframe
              exact ⟨words, s, h, hi, .inr ⟨k, f, tail, more, hsplit, hbytes, hframe⟩⟩
      | fault t =>
          rw [iterate_of_fault _ hflow] at hstop
          cases hstop

end Last

variable (pass : ∀ k words f more s t, I words s → s.Bounded → s.content = f.bytes ++ more →
    f ∈ sent → Dispatch (env k) f.message s (.next t) → I (words ++ [f]) (t.consumed f.message))
  (left : ∀ k words f s, I words s → f ∈ sent → handleFrame (env k) f.message s ≠ .stop s')
  (wait : ∀ words s, I words s → I words { s with ret := 0 })

include hvalid pass left wait

/-- If no frame ends the loop, the value to return is zero. -/
theorem parseLoop_decoded {k : Nat} (h : Decoded start sent got words s)
    (hgot : got <+: frameCode.stream sent) (hi : I words s)
    (hstop : iterate (fun k => socketOnce (env k)) fuel k s = .stopped s') :
    ∃ words', Decoded start sent got words' s' ∧ I words' s' ∧ s'.ret = 0 ∧ ¬ s'.Complete := by
  obtain ⟨words', t, hdec, ht, hend⟩ := parseLoop_last hvalid I
    (fun k words f more s t hi hs hbytes hf hframe =>
      pass k words f more s t hi hs hbytes hf (.of_eq hframe)) h hgot hi hstop
  rcases hend with ⟨hwait, rfl⟩ | ⟨j, f, tail, more, hsplit, _, hframe⟩
  · exact ⟨words', ⟨hdec.bounded, hdec.read, hdec.held, hdec.met⟩, wait words' t ht, rfl, hwait⟩
  · exact absurd hframe (left j words' f t ht (by simp [hsplit]))

theorem handleSocket_decoded {bs : List UInt8} (h : Decoded start sent got words s)
    (hfits : bs.length ≤ s.room) (hgot : got ++ bs <+: frameCode.stream sent)
    (hi : I words (receive bs s)) (hcall : handleSocket (.bytes bs) env fuel s = .stopped s') :
    ∃ words', Decoded start sent (got ++ bs) words' s' ∧ I words' s' ∧ s'.ret = 0 ∧
      ¬ s'.Complete := by
  rw [handleSocket_of_bounded h.bounded hfits] at hcall
  exact parseLoop_decoded hvalid I pass left wait (h.receive hfits) hgot hi hcall

end Calls

/-- What `recv` delivered stays in the log. -/
theorem handleSocket_received {s s' : State} {env : Nat → SocketEnv} {fuel : Nat} {bs : List UInt8}
    (hs : s.Bounded) (hfits : bs.length ≤ s.room)
    (hcall : handleSocket (.bytes bs) env fuel s = .stopped s') :
    received s.log ++ bs <+: received s'.log := by
  rw [handleSocket_of_bounded hs hfits] at hcall
  have hlater : (receive bs s).log <:+ s'.log := by
    have hrun := iterate_invariant (fun t : State => (receive bs s).log <:+ t.log)
      (fun k t ht => ht.trans (socketOnce_log_suffix (env k) t)) fuel 0 _ (List.suffix_refl _)
    rw [hcall] at hrun
    exact hrun
  obtain ⟨new, hlog⟩ := hlater
  have hread : received (receive bs s).log = received s.log ++ bs := rfl
  have hsplit : received s'.log = received (receive bs s).log ++ received new := by
    rw [← hlog, received, gather_append]
    rfl
  rw [hsplit, hread]
  exact List.prefix_append _ _

/-- A beginning of a stream of frames that are long enough is gone through. -/
theorem drains_of_prefix (tun : Bool) {frames : List Frame} (hvalid : ∀ f ∈ frames, f.Valid)
    (hlong : ∀ f ∈ frames, LongEnough f.message) {bytes : List UInt8}
    (h : bytes <+: frameCode.stream frames) : drains tun bytes = true := by
  induction frames generalizing bytes with
  | nil =>
      unfold drains
      rw [List.prefix_nil.mp h, dif_pos (.inl (by decide))]
  | cons f frames ih =>
      unfold drains
      by_cases hfront : bytes.length < sizeofMessage ∨
          (bytes.length : Int) < (Message.ofBytes bytes).length
      · rw [dif_pos hfront]
      · have hmsg := ofBytes_of_prefix (hvalid f List.mem_cons_self) h (by omega)
        rw [Message.ofBytes_take] at hmsg
        rw [dif_neg hfront, hmsg]
        split
        · rfl
        · rw [hmsg, not_or] at hfront
          have hwhole : (frameCode.encode f).length ≤ bytes.length := by
            rw [frameCode_encode, Frame.bytes_length]
            exact Int.ofNat_le.mp (Int.not_lt.mp hfront.2)
          obtain ⟨more, hmore, hrest⟩ := frameCode.first_of_long h hwhole
          have hsize : f.message.length.toNat = (frameCode.encode f).length :=
            (Frame.bytes_length f).symm
          rw [dif_pos (hlong f List.mem_cons_self), hsize, hmore, List.drop_left]
          exact ih (fun g hg => hvalid g (List.mem_cons_of_mem f hg))
            (fun g hg => hlong g (List.mem_cons_of_mem f hg)) hrest

/-- In the middle of a stream of frames that are long enough every call returns. -/
theorem Decoded.returns {start s : State} {frames words : List Frame} {got bs : List UInt8}
    (h : Decoded start frames got words s) (hvalid : ∀ f ∈ frames, f.Valid)
    (hlong : ∀ f ∈ frames, LongEnough f.message) (hfits : bs.length ≤ s.room)
    (hgot : got ++ bs <+: frameCode.stream frames) (env : Nat → SocketEnv) :
    ∃ fuel s', handleSocket (.bytes bs) env fuel s = .stopped s' := by
  have hread := h.receive hfits
  obtain ⟨tail, hsplit, hpre⟩ := hread.held.front hvalid hgot
  have htail : ∀ f ∈ tail, f ∈ frames := fun f hf => by simp [hsplit, hf]
  have hdrains := drains_of_prefix s.hasTun (fun f hf => hvalid f (htail f hf))
    (fun f hf => hlong f (htail f hf)) hpre
  simp only [handleSocket_of_bounded h.bounded hfits]
  exact terminates_of_drains env s.hasTun _ hdrains 0 _ hread.bounded rfl rfl

end Over6.Client
