import Over6.Client.Calculus

/-! # The client on hostile bytes

Which frames make the client form a size or a range that is not inside what it
belongs to, over whole runs and at every pass of a call under way.
-/

namespace Over6.Client

open MachineInt BoundedLoop EventRun

/-! ## Sizes and ranges -/

/-- The copy of an IP reply comes out of the bytes held, the slice of a packet out of its frame,
and a move stays in the buffer. A size of zero names no bytes. -/
def Act.Inside : Act → Prop
  | .resized size held => (size : Int) ≤ held - sizeofMessage
  | .sliced msglen size => size = 0 ∨ (sizeofMessage + size : Int) ≤ msglen
  | .moved source size => size = 0 ∨ 0 ≤ source ∧ source + size ≤ bufferSize
  | _ => True

instance (act : Act) : Decidable act.Inside :=
  match act with
  | .resized .. => inferInstanceAs (Decidable (_ ≤ _))
  | .sliced .. | .moved .. => inferInstanceAs (Decidable (_ ∨ _))
  | .received _ | .dispatched _ | .scanned .. | .responded _ | .injected _ | .sent _ | .command _
  | .failed _ => inferInstanceAs (Decidable True)

def State.Contained (s : State) : Prop := ∀ act ∈ s.log, act.Inside

instance (s : State) : Decidable s.Contained := inferInstanceAs (Decidable (∀ act ∈ s.log, act.Inside))

structure State.InBounds (s : State) : Prop where
  fill : s.Bounded
  contained : s.Contained

namespace State.Contained

variable {s s' : State}

theorem note (h : s.Contained) {act : Act} (hact : act.Inside := by trivial) :
    (s.note act).Contained := by
  intro a ha
  rcases List.mem_cons.mp ha with rfl | ha
  · exact hact
  · exact h a ha

theorem fail (h : s.Contained) (why : Failure) : (s.fail why).Contained := by
  intro a ha
  rcases List.mem_cons.mp ha with rfl | ha
  · trivial
  · exact h a ha

theorem append (h : s.Contained) {new : List Act} (hlog : s'.log = new ++ s.log)
    (hnew : ∀ act ∈ new, act.Inside) : s'.Contained := by
  intro a ha
  rw [hlog] at ha
  rcases List.mem_append.mp ha with ha | ha
  · exact hnew a ha
  · exact h a ha

theorem logged {P : Act → Prop} (h : s.Contained) (hlog : Logged P s s')
    (hP : ∀ act, P act → act.Inside) : s'.Contained := by
  obtain ⟨new, rfl, hnew⟩ := hlog
  exact h.append rfl fun act hact => hP act (hnew act hact)

theorem countIn (h : s.Contained) (msglen : Int) : (s.countIn msglen).Contained := h

theorem of_suffix (h : s'.Contained) (hlog : s.log <:+ s'.log) : s.Contained :=
  fun a ha => h a (hlog.subset ha)

end State.Contained

theorem Act.OfReply.inside {act : Act} (h : act.OfReply) : act.Inside := by
  cases act with
  | responded => trivial
  | scanned => trivial
  | _ => exact h.elim

theorem Act.OfOther.inside {act : Act} (h : act.OfOther) : act.Inside := by
  cases act with
  | responded => trivial
  | sent => trivial
  | command => trivial
  | failed => trivial
  | _ => exact h.elim

/-! ## One pass -/

/-- The frame at the front is complete, and its length is negative, or too short for an IP reply,
or it is a packet with bytes for a tun that is there. -/
def Overruns (s : State) : Prop :=
  s.Complete ∧
    (s.header.type = msgIpRsb ∧ s.header.length < sizeofMessage ∨
      s.header.type = msgHeartbeat ∧ s.header.length < 0 ∨
      s.header.type = msgDataRsb ∧ s.tunFd < 0 ∧ s.header.length < 0 ∨
      s.header.type = msgDataRsb ∧ 0 ≤ s.tunFd ∧ s.header.length ≠ 0)

theorem replySize_of_ge {msglen : Int} (hlen : (sizeofMessage : Int) ≤ msglen)
    (hhi : msglen ≤ bufferSize) : (replySize msglen : Int) = msglen - sizeofMessage := by
  have hcap : (bufferSize : Int) = 4194304 := rfl
  exact sizeT_32 (by omega) (by omega)

/-- A length below that of a header makes the size wrap. -/
theorem replySize_of_lt {msglen : Int} (hlo : -2 ^ 31 ≤ msglen)
    (hlen : msglen < (sizeofMessage : Int)) : (bufferSize : Int) < replySize msglen := by
  have hcap : (bufferSize : Int) = 4194304 := rfl
  have hfive : (sizeofMessage : Int) = 5 := rfl
  rw [replySize, sizeT]
  omega

theorem tunSize_of_ne {msglen : Int} (hlo : -2 ^ 31 ≤ msglen) (hhi : msglen < 2 ^ 31)
    (hne : msglen ≠ 0) :
    sizeT 32 msglen ≠ 0 ∧ msglen < (sizeofMessage + sizeT 32 msglen : Int) := by
  have hfive : (sizeofMessage : Int) = 5 := rfl
  rw [sizeT]
  omega

theorem moveSize_of_neg {s : State} (hs : s.Bounded) {msglen : Int} (hneg : msglen < 0)
    (hlo : -2 ^ 31 ≤ msglen) : sizeT 32 (s.socketNreads - msglen) ≠ 0 := by
  obtain ⟨hfill, hcap⟩ := hs
  have hsize : (bufferSize : Int) = 4194304 := rfl
  rw [sizeT]
  omega

theorem mem_consume (msg : Message) (s : State) :
    .moved msg.length (sizeT 32 (s.socketNreads - msg.length)) ∈ (consume msg s).state.log := by
  unfold consume
  simp only
  split
  · exact List.mem_cons_self
  · exact List.mem_cons_self

theorem consume_log_suffix (msg : Message) (s : State) : s.log <:+ (consume msg s).state.log := by
  unfold consume
  simp only
  split
  · exact List.suffix_cons _ _
  · exact List.suffix_cons _ _

theorem bind_consume_log_suffix (msg : Message) (flow : Flow State) :
    flow.state.log <:+ (flow.bind (consume msg)).state.log := by
  cases flow with
  | next t => exact consume_log_suffix msg t
  | stop s' => exact List.suffix_refl _
  | fault s' => exact List.suffix_refl _

theorem socketOnce_log_suffix (env : SocketEnv) (s : State) :
    s.log <:+ (socketOnce env s).state.log := by
  by_cases h : s.Complete
  · rw [socketOnce_of_complete env h]
    exact (handleFrame_dispatch env s.header s).kept.log.trans (bind_consume_log_suffix _ _)
  · rw [socketOnce_of_not_complete env h]
    exact List.suffix_refl _

/-- What the dispatch on a frame that does not overrun forms is inside. -/
theorem Dispatch.contained {env : SocketEnv} {s : State} {flow : Flow State} (hs : s.Bounded)
    (hin : s.Contained) (hcomplete : s.Complete) (hgood : ¬ Overruns s)
    (h : Dispatch env s.header s flow) : flow.state.Contained := by
  have hle := hcomplete.2
  have hcap := hs.2
  have hreply : s.header.type = msgIpRsb → ((s.note (.dispatched s.header)).note
      (.resized (replySize s.header.length) s.socketNreads)).Contained := by
    intro htype
    have hlen : (sizeofMessage : Int) ≤ s.header.length := by
      by_cases hlen : (sizeofMessage : Int) ≤ s.header.length
      · exact hlen
      · exact absurd ⟨hcomplete, .inl ⟨htype, Int.not_le.mp hlen⟩⟩ hgood
    have hsize := replySize_of_ge hlen (Int.le_trans hle hcap)
    have hinside : Act.Inside (.resized (replySize s.header.length) s.socketNreads) := by
      change (replySize s.header.length : Int) ≤ s.socketNreads - sizeofMessage
      omega
    exact hin.note.note hinside
  have hpacket : s.header.type = msgDataRsb → 0 ≤ s.tunFd → ∀ ret,
      (s.handed s.header ret).Contained := by
    intro htype htun ret
    have hzero : s.header.length = 0 := by
      by_cases hzero : s.header.length = 0
      · exact hzero
      · exact absurd ⟨hcomplete, .inr (.inr (.inr ⟨htype, htun, hzero⟩))⟩ hgood
    have hinside : Act.Inside (.sliced s.header.length (sizeT 32 s.header.length)) := by
      rw [hzero]
      exact .inl rfl
    have hdispatched : (s.note (.dispatched s.header)).Contained := hin.note
    exact (hdispatched.note hinside).note
  cases h with
  | crashed htype => exact hreply htype
  | answered htype _ hlog => exact (hreply htype).logged hlog fun _ => (·.inside)
  | unanswered htype _ hlog => exact ((hreply htype).logged hlog fun _ => (·.inside)).fail _
  | heartbeat => exact hin.note
  | early => exact hin.note
  | injected htype htun => exact (hpacket htype htun _).countIn _
  | refused htype htun => exact (hpacket htype htun _).fail _
  | unknown => exact hin.fail _

theorem socketOnce_contained {s : State} (hs : s.Bounded) (env : SocketEnv) (hin : s.Contained)
    (hgood : ¬ Overruns s) : (socketOnce env s).state.Contained := by
  have hpass := socketOnce_pass hs env
  cases hflow : socketOnce env s with
  | next s' =>
      rw [hflow] at hpass
      cases hpass with
      | @passed hcomplete t hframe hlen =>
          have ht : t.Contained := hframe.contained hs hin hcomplete hgood
          have hk : Kept s t := hframe.kept
          have hle : s.header.length ≤ t.socketNreads := by
            rw [hk.socketNreads]
            exact hcomplete.2
          have hsize := moveSize_eq (hs.of_kept hk) hlen hle
          have hcap := (hs.of_kept hk).2
          have hmoved : Act.Inside (.moved s.header.length
              (sizeT 32 (t.socketNreads - s.header.length))) := .inr ⟨hlen, by omega⟩
          have hnote := ht.note hmoved
          exact fun act hact => hnote act hact
  | stop s' =>
      rw [hflow] at hpass
      cases hpass with
      | waits => exact hin
      | left hcomplete hframe => exact hframe.contained hs hin hcomplete hgood
  | fault s' =>
      rw [hflow] at hpass
      cases hpass with
      | crashed hcomplete hframe => exact hframe.contained hs hin hcomplete hgood
      | @overran hcomplete t _ hframe hneg _ =>
          -- Every type with a move behind it is excluded for negative lengths.
          refine absurd ⟨hcomplete, ?_⟩ hgood
          have hfive : (0 : Int) < sizeofMessage := by decide
          cases hframe with
          | answered htype => exact .inl ⟨htype, Int.lt_trans hneg hfive⟩
          | heartbeat htype => exact .inr (.inl ⟨htype, hneg⟩)
          | early htype htun => exact .inr (.inr (.inl ⟨htype, htun, hneg⟩))
          | injected htype htun =>
              exact .inr (.inr (.inr ⟨htype, htun, Int.ne_of_lt hneg⟩))

theorem socketOnce_escapes {s : State} (hs : s.Bounded) (env : SocketEnv) (hbad : Overruns s) :
    ¬ (socketOnce env s).state.Contained := by
  obtain ⟨hcomplete, hwhy⟩ := hbad
  obtain ⟨hlo, hhi⟩ := Message.length_range (s.socketBuffer.load 0 sizeofMessage)
  have hlo : -2 ^ 31 ≤ s.header.length := hlo
  have hhi : s.header.length < 2 ^ 31 := hhi
  rw [socketOnce_of_complete env hcomplete]
  intro hout
  -- A negative length that gets as far as the move is enough.
  have hmove : ∀ t, Kept s t → s.header.length < 0 → ¬ (consume s.header t).state.Contained := by
    intro t hk hneg h
    rcases h _ (mem_consume s.header t) with hzero | ⟨hstart, _⟩
    · exact moveSize_of_neg (hs.of_kept hk) hneg hlo hzero
    · omega
  rcases hwhy with ⟨htype, hlen⟩ | ⟨htype, hneg⟩ | ⟨htype, htun, hneg⟩ | ⟨htype, htun, hne⟩
  · have hwrap := replySize_of_lt hlo hlen
    rw [handleFrame_of_crash env s htype (.inr (by omega))] at hout
    have hsize : Act.Inside (.resized (replySize s.header.length) s.socketNreads) :=
      hout _ List.mem_cons_self
    have hcap := hs.2
    change (replySize s.header.length : Int) ≤ s.socketNreads - sizeofMessage at hsize
    omega
  · have hframe := handleFrame_of_heartbeat env s htype
    have hk := hframe ▸ (handleFrame_dispatch env s.header s).kept
    rw [hframe, Flow.bind_next] at hout
    exact hmove _ hk hneg hout
  · have hframe := handleFrame_of_early env htype htun
    have hk := hframe ▸ (handleFrame_dispatch env s.header s).kept
    rw [hframe, Flow.bind_next] at hout
    exact hmove _ hk hneg hout
  · obtain ⟨hsize, hlong⟩ := tunSize_of_ne hlo hhi hne
    have hall := hout.of_suffix (bind_consume_log_suffix _ _)
    have hsliced : Act.Inside (.sliced s.header.length (sizeT 32 s.header.length)) := by
      apply hall
      rw [handleFrame_of_packet env htype htun]
      split
      · exact List.mem_cons_of_mem _ List.mem_cons_self
      · exact List.mem_cons_of_mem _ (List.mem_cons_of_mem _ List.mem_cons_self)
    rcases hsliced with hzero | hle
    · exact hsize hzero
    · exact absurd hle (Int.not_le.mpr hlong)

theorem socketOnce_contained_iff {s : State} (hs : s.Bounded) (env : SocketEnv) :
    (socketOnce env s).state.Contained ↔ s.Contained ∧ ¬ Overruns s := by
  constructor
  · intro h
    exact ⟨h.of_suffix (socketOnce_log_suffix env s), fun hbad => socketOnce_escapes hs env hbad h⟩
  · rintro ⟨hin, hgood⟩
    exact socketOnce_contained hs env hin hgood

/-! ## Calls and runs -/

def State.CallOverruns (s : State) (r : ReadResult) (env : Nat → SocketEnv) (passes : Nat) : Prop :=
  match r with
  | .error => False
  | .bytes bs => ∃ k < passes, ∃ t,
      iterate (fun k => socketOnce (env k)) k 0 (receive bs s) = .running t ∧ Overruns t

def Event.Overruns (s : State) : Event → Prop
  | .socket r env fuel => s.CallOverruns r env fuel
  | _ => False

/-- A call, returned or not, has stayed inside exactly if none of its passes overran. -/
theorem handleSocket_contained_iff {s : State} (hs : s.Bounded) {r : ReadResult}
    (hfits : r.Fits s.room) (env : Nat → SocketEnv) (passes : Nat) :
    (handleSocket r env passes s).state.Contained ↔
      s.Contained ∧ ¬ s.CallOverruns r env passes := by
  cases r with
  | error =>
      have hback : (s.fail .recv).Contained → s.Contained :=
        fun h => h.of_suffix (List.suffix_cons _ _)
      exact ⟨fun h => ⟨hback h, id⟩, fun h => h.1.fail _⟩
  | bytes bs =>
      have hread : (receive bs s).Contained ↔ s.Contained := by
        constructor
        · exact fun h => h.of_suffix (List.suffix_cons _ _)
        · intro h
          have hnew : ∀ act ∈ [Act.received bs], act.Inside := by simp [Act.Inside]
          exact h.append rfl hnew
      have hloop := iterate_safe_iff (fun _ t => Overruns t) State.Bounded State.Contained
        (fun k t t' ht hb => by
          have hnext := ht.socketOnce (env k)
          rwa [hb] at hnext)
        (fun k t ht => socketOnce_contained_iff ht (env k)) passes 0 _ (hs.receive hfits)
      rw [handleSocket_of_bounded hs hfits, hloop, hread, and_congr_right_iff]
      intro _
      simp only [State.CallOverruns, not_exists, not_and]

theorem State.Bounded.step {s s' : State} {e : Event} (h : s.Bounded) (hstep : step s e = some s') :
    s'.Bounded := by
  cases step_call hstep with
  | heartbeat now write =>
      rw [State.Bounded, (handleHeartbeat_aside now write s).socketNreads]
      exact h
  | command env fuel hcall =>
      rw [State.Bounded, (handleCommand_aside hcall).socketNreads]
      exact h
  | socket r env fuel hfits hcall =>
      have hs := h.handleSocket hfits env fuel
      rwa [hcall] at hs
  | tunnel r write₁ write₂ =>
      rw [State.Bounded, (handleTunnel_aside r write₁ write₂ s).socketNreads]
      exact h

theorem Aside.contained_iff {s s' : State} (h : Aside s s') : s'.Contained ↔ s.Contained := by
  obtain ⟨new, hlog, hnew⟩ := h.log
  constructor
  · intro h'
    exact h'.of_suffix ⟨new, hlog.symm⟩
  · intro hs
    exact hs.append hlog fun act hact => (hnew act hact).inside

/-- A call that returns breaks out exactly if one of its passes overruns. -/
theorem step_contained_iff {s s' : State} {e : Event} (hs : s.Bounded) (h : step s e = some s') :
    s'.Contained ↔ s.Contained ∧ ¬ e.Overruns s := by
  cases step_call h with
  | heartbeat now write =>
      rw [(handleHeartbeat_aside now write s).contained_iff]
      exact ⟨fun h => ⟨h, id⟩, And.left⟩
  | command env fuel hcall =>
      rw [(handleCommand_aside hcall).contained_iff]
      exact ⟨fun h => ⟨h, id⟩, And.left⟩
  | socket r env fuel hfits hcall =>
      have hiff := handleSocket_contained_iff hs hfits env fuel
      rwa [hcall] at hiff
  | tunnel r write₁ write₂ =>
      rw [(handleTunnel_aside r write₁ write₂ s).contained_iff]
      exact ⟨fun h => ⟨h, id⟩, And.left⟩

theorem runFrom_bounded {fds : Descriptors} {time₁ time₂ : Int} {stale : CellMemory UInt8}
    {es : List Event} {s : State} (h : runFrom fds time₁ time₂ stale es = some s) : s.Bounded :=
  run_invariant State.Bounded (fun _ _ _ ht hstep => ht.step hstep)
    (State.Bounded.protocolInit fds time₁ time₂ stale) h

theorem runFrom_contained_iff {fds : Descriptors} {time₁ time₂ : Int} {stale : CellMemory UInt8}
    {es : List Event} {s : State} (h : runFrom fds time₁ time₂ stale es = some s) :
    s.Contained ↔ ∀ pre e post t, es = pre ++ e :: post →
      runFrom fds time₁ time₂ stale pre = some t → ¬ e.Overruns t := by
  have hrun := run_safe_iff (fun t e => e.Overruns t) State.Bounded State.Contained
    (fun _ _ _ ht hstep => ht.step hstep) (fun _ _ _ ht hstep => step_contained_iff ht hstep)
    (State.Bounded.protocolInit fds time₁ time₂ stale) h
  have hstart : (protocolInit fds time₁ time₂ stale).Contained := by
    intro act hact
    cases hact
  rw [hrun]
  exact and_iff_right hstart

/-- In every run of the client, and at every pass of a call of `handle_socket` behind it, the fill is
a fill and all sizes and ranges formed so far are inside what they belong to, exactly if no pass so
far met a complete frame whose length is negative, or below five for an IP reply, or that is a
packet with bytes for a tun that is there. -/
theorem handle_socket_in_bounds (fds : Descriptors) (time₁ time₂ : Int) (stale : CellMemory UInt8)
    (es : List Event) (s : State) (hrun : runFrom fds time₁ time₂ stale es = some s)
    (r : ReadResult) (hfits : r.Fits s.room) (env : Nat → SocketEnv) (passes : Nat) :
    (handleSocket r env passes s).state.InBounds ↔
      (∀ pre e post t, es = pre ++ e :: post → runFrom fds time₁ time₂ stale pre = some t →
        ¬ e.Overruns t) ∧ ¬ s.CallOverruns r env passes := by
  have hs := runFrom_bounded hrun
  have hcall := handleSocket_contained_iff hs hfits env passes
  rw [runFrom_contained_iff hrun] at hcall
  constructor
  · intro h
    exact hcall.mp h.contained
  · intro h
    exact ⟨hs.handleSocket hfits env passes, hcall.mpr h⟩

theorem handle_socket_in_bounds_tunnelUp :
    ∃ s, runFrom .usual 0 0 (fun _ => 0) tunnelUp = some s ∧
      (ReadResult.bytes [5, 0, 0, 0, 104]).Fits s.room ∧
      ((handleSocket (.bytes [5, 0, 0, 0, 104]) (.prompt 0) 2 s).state.InBounds ↔
        (∀ pre e post t, tunnelUp = pre ++ e :: post →
          runFrom .usual 0 0 (fun _ => 0) pre = some t → ¬ e.Overruns t) ∧
        ¬ s.CallOverruns (.bytes [5, 0, 0, 0, 104]) (.prompt 0) 2) := by
  have hany : ((runFrom .usual 0 0 (fun _ => 0) tunnelUp).any fun s =>
      decide ((ReadResult.bytes [5, 0, 0, 0, 104]).Fits s.room)) = true := by decide +kernel
  obtain ⟨s, hrun, hs⟩ := (Option.any_eq_true _ _).mp hany
  have hfits := of_decide_eq_true hs
  exact ⟨s, hrun, hfits,
    handle_socket_in_bounds .usual 0 0 (fun _ => 0) tunnelUp s hrun _ hfits (.prompt 0) 2⟩

def packetFrame : List UInt8 := Frame.bytes ⟨msgDataRsb, List.replicate 20 69⟩

/-- The tun is given the five bytes behind the frame of every packet as well. -/
theorem packet_slice_escapes :
    ∃ s, runFrom .usual 0 0 (fun _ => 0) tunnelUp = some s ∧
      (ReadResult.bytes packetFrame).Fits s.room ∧
      ¬ (handleSocket (.bytes packetFrame) (.prompt 0) 1 s).state.InBounds := by
  have hany : ((runFrom .usual 0 0 (fun _ => 0) tunnelUp).any fun s =>
      decide ((ReadResult.bytes packetFrame).Fits s.room ∧
        ¬ (handleSocket (.bytes packetFrame) (.prompt 0) 1 s).state.Contained)) = true := by
    decide +kernel
  obtain ⟨s, hrun, hs⟩ := (Option.any_eq_true _ _).mp hany
  obtain ⟨hfits, hout⟩ := of_decide_eq_true hs
  exact ⟨s, hrun, hfits, fun h => hout h.contained⟩

end Over6.Client
