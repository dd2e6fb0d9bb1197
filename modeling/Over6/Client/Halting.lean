import Over6.Client.Hostile

/-! # Which bytes hold the client up

Whether the parse loop of `handle_socket` is left depends on the frames in front of
it and on there being a tun, and on nothing else.
-/

namespace Over6.Client

open MachineInt BoundedLoop EventRun

/-! ## The bytes as the loop goes through them -/

/-- The frame makes `handle_socket` return `-1`, whatever the kernel answers. -/
def Refused (tun : Bool) (msg : Message) : Prop :=
  msg.type ≠ msgIpRsb ∧ msg.type ≠ msgHeartbeat ∧ msg.type ≠ msgDataRsb ∨
    msg.type = msgDataRsb ∧ tun = true ∧ msg.length < -1

def LongEnough (msg : Message) : Prop :=
  msg.type = msgIpRsb ∧ (sizeofMessage : Int) < msg.length ∨
    (msg.type = msgHeartbeat ∨ msg.type = msgDataRsb) ∧ 0 < msg.length

instance (tun : Bool) (msg : Message) : Decidable (Refused tun msg) :=
  inferInstanceAs (Decidable (_ ∨ _))

instance (msg : Message) : Decidable (LongEnough msg) := inferInstanceAs (Decidable (_ ∨ _))

theorem LongEnough.pos {msg : Message} (h : LongEnough msg) : 0 < msg.length := by
  have hfive : (sizeofMessage : Int) = 5 := rfl
  rcases h with ⟨_, h⟩ | ⟨_, h⟩
  · omega
  · exact h

/-- Going by the length fields the loop comes to an incomplete frame or to one that is refused. -/
def drains (tun : Bool) (bytes : List UInt8) : Bool :=
  if _hshort : bytes.length < sizeofMessage ∨
      (bytes.length : Int) < (Message.ofBytes bytes).length then true
  else if Refused tun (Message.ofBytes bytes) then true
  else if _hlong : LongEnough (Message.ofBytes bytes) then
    drains tun (bytes.drop (Message.ofBytes bytes).length.toNat)
  else false
termination_by bytes.length
decreasing_by
  have hpos := _hlong.pos
  rw [List.length_drop]
  omega

/-! ## One pass -/

def State.hasTun (s : State) : Bool := decide (0 ≤ s.tunFd)

theorem writeTun_of_neg (tun : WriteResult) {msglen : Int} (hlo : -2 ^ 31 ≤ msglen)
    (hneg : msglen < 0) : writeTun tun (sizeT 32 msglen) = -1 := by
  unfold writeTun
  rw [if_neg]
  rw [sizeT]
  omega

theorem socketOnce_of_refused {s : State} (env : SocketEnv) (hcomplete : s.Complete)
    (h : Refused s.hasTun s.header) : ∃ s', socketOnce env s = .stop s' := by
  have hlo : -2 ^ 31 ≤ s.header.length := (Message.length_range _).1
  rw [socketOnce_of_complete env hcomplete]
  rcases h with ⟨h₁, h₂, h₃⟩ | ⟨htype, htun, hlen⟩
  · unfold handleFrame
    rw [if_neg h₁, if_neg h₂, if_neg h₃, Flow.bind_stop]
    exact ⟨_, rfl⟩
  · have hwrite := writeTun_of_neg env.tun hlo (by omega)
    rw [handleFrame_of_packet env htype (of_decide_eq_true htun), hwrite, if_neg (by omega),
      Flow.bind_stop]
    exact ⟨_, rfl⟩

/-- The state behind a frame that was taken out. -/
theorem passed_spec {s t : State} (hs : s.Bounded) {env : SocketEnv} (hcomplete : s.Complete)
    (hframe : Dispatch env s.header s (.next t)) (hlen : 0 ≤ s.header.length) :
    consume s.header t = .next (t.consumed s.header) ∧ (t.consumed s.header).Bounded ∧
      (t.consumed s.header).hasTun = s.hasTun ∧
      (t.consumed s.header).content = s.content.drop s.header.length.toNat := by
  have hk : Kept s t := hframe.kept
  have ht := hs.of_kept hk
  have hle : s.header.length ≤ t.socketNreads := by
    rw [hk.socketNreads]
    exact hcomplete.2
  refine ⟨consume_of_range ht hlen hle, ht.consumed hlen hle, ?_, ?_⟩
  · change decide (0 ≤ t.tunFd) = decide (0 ≤ s.tunFd)
    rw [hk.tunFd]
  · rw [State.consumed_content ht hlen hle, State.content, State.content, hk.socketBuffer,
      hk.socketNreads]

theorem badReply_iff {msglen : Int} (hlo : -2 ^ 31 ≤ msglen) (hhi : msglen ≤ bufferSize) :
    BadReply msglen ↔ msglen ≤ sizeofMessage := by
  have hcap : (bufferSize : Int) = 4194304 := rfl
  have hfive : (sizeofMessage : Int) = 5 := rfl
  unfold BadReply replySize sizeT
  omega

/-- A frame that is long enough ends the call or is gone from the front. -/
theorem socketOnce_advances {s : State} (hs : s.Bounded) (env : SocketEnv) (hcomplete : s.Complete)
    (hlong : LongEnough s.header) :
    (∃ s', socketOnce env s = .stop s') ∨
      ∃ s', socketOnce env s = .next s' ∧ s'.Bounded ∧ s'.hasTun = s.hasTun ∧
        s'.content = s.content.drop s.header.length.toNat := by
  have hlo : -2 ^ 31 ≤ s.header.length := (Message.length_range _).1
  have hhi := Int.le_trans hcomplete.2 hs.2
  have hframe := handleFrame_dispatch env s.header s
  rw [socketOnce_of_complete env hcomplete]
  cases hflow : handleFrame env s.header s with
  | next t =>
      rw [hflow] at hframe
      obtain ⟨hconsume, hrest⟩ := passed_spec hs hcomplete hframe (Int.le_of_lt hlong.pos)
      rw [Flow.bind_next, hconsume]
      exact .inr ⟨_, rfl, hrest⟩
  | stop s' => exact .inl ⟨s', rfl⟩
  | fault s' =>
      rw [hflow] at hframe
      cases hframe with
      | crashed htype hbad =>
          rw [badReply_iff hlo hhi] at hbad
          rcases hlong with ⟨_, hlen⟩ | ⟨hother, _⟩
          · omega
          · rw [htype] at hother
            exact absurd hother (by decide)

/-! ## Bytes that are gone through -/

theorem terminates_of_drains (env : Nat → SocketEnv) (tun : Bool) (bytes : List UInt8)
    (h : drains tun bytes = true) :
    ∀ (k : Nat) (s : State), s.Bounded → s.hasTun = tun → s.content = bytes →
      Terminates (fun k => socketOnce (env k)) k s := by
  fun_induction drains tun bytes with
  | case1 bytes hshort =>
      intro k s hs _ hcontent
      have hwait : ¬ s.Complete := by
        rw [State.front_iff hs, hcontent, not_not]
        exact hshort
      exact .of_stop (socketOnce_of_not_complete (env k) hwait)
  | case2 bytes hfront hrefused =>
      intro k s hs htun hcontent
      obtain ⟨hcomplete, hheader⟩ := State.front_of_content hs hcontent hfront
      rw [← hheader, ← htun] at hrefused
      obtain ⟨s', hstop⟩ := socketOnce_of_refused (env k) hcomplete hrefused
      exact .of_stop hstop
  | case3 bytes hfront _ hlong ih =>
      intro k s hs htun hcontent
      obtain ⟨hcomplete, hheader⟩ := State.front_of_content hs hcontent hfront
      rw [← hheader] at hlong
      rcases socketOnce_advances hs (env k) hcomplete hlong with
        ⟨s', hstop⟩ | ⟨s', hnext, hs', htun', hcontent'⟩
      · exact .of_stop hstop
      · rw [hcontent, hheader] at hcontent'
        have hterm := ih h (k + 1) s' hs' (htun'.trans htun) hcontent'
        exact .of_next hnext hterm
  | case4 => cases h

/-! ## Bytes that are not -/

structure SocketEnv.Obliging (env : SocketEnv) : Prop where
  response : ∀ k, TakesAll (env.response k)
  tun : TakesAll env.tun

theorem SocketEnv.Obliging.prompt (now : Int) (k : Nat) : (SocketEnv.prompt now k).Obliging where
  response _ := writesAll_takesAll
  tun := writesAll_takesAll

theorem readIps_length (stale : Nat → Nat → UInt8) (text : List UInt8) (n : Nat) :
    ∀ ip ∈ (readIps stale text n).ips, ip.length = 4 := by
  induction n with
  | zero =>
      intro ip hip
      cases hip
  | succ n ih =>
      intro ip hip
      unfold readIps at hip ih
      rw [List.range_succ, List.foldl_append] at hip
      rcases List.mem_append.mp hip with hip | hip
      · exact ih ip hip
      · rw [List.mem_singleton.mp hip]
        simp [readIp]

theorem respond_of_obliging {write : Nat → WriteResult} {answers : List (List UInt8)}
    (h : ∀ bs ∈ answers, ∀ k, (write k).ret bs.length = bs.length) (k : Nat) (s : State) :
    ∃ t, respond write k answers s = .next t := by
  induction answers generalizing k s with
  | nil => exact ⟨s, rfl⟩
  | cons bs rest ih =>
      have hret := h bs List.mem_cons_self k
      simp only [respond, hret, if_true]
      exact ih (fun bs hbs => h bs (List.mem_cons_of_mem _ hbs)) (k + 1) _

theorem handleIpReply_of_obliging {env : SocketEnv} (henv : env.Obliging) {msg : Message}
    (hgood : ¬ BadReply msg.length) (s : State) : ∃ t, handleIpReply env msg s = .next t := by
  unfold handleIpReply
  simp only [hgood, if_false]
  apply respond_of_obliging
  intro bs hbs k
  have hlen : bs.length = 4 := by
    rcases List.mem_append.mp hbs with hbs | hbs
    · exact readIps_length _ _ _ bs hbs
    · rw [List.mem_singleton.mp hbs, leBytes_length]
  rw [hlen]
  exact henv.response k 4 (by decide)

/-- While every write goes through, only a refused frame ends the call by itself. -/
theorem handleFrame_of_obliging {env : SocketEnv} (henv : env.Obliging) {msg : Message} {s : State}
    (hhi : msg.length ≤ bufferSize) (hlo : -2 ^ 31 ≤ msg.length) (h : ¬ Refused s.hasTun msg) :
    (∃ t, handleFrame env msg s = .next t) ∨
      msg.type = msgIpRsb ∧ msg.length ≤ sizeofMessage := by
  have hcap : (bufferSize : Int) = 4194304 := rfl
  by_cases h₁ : msg.type = msgIpRsb
  · by_cases hbad : BadReply msg.length
    · exact .inr ⟨h₁, (badReply_iff hlo hhi).mp hbad⟩
    · rw [handleFrame_of_ipRsb env s h₁]
      exact .inl (handleIpReply_of_obliging henv hbad _)
  · left
    by_cases h₂ : msg.type = msgHeartbeat
    · exact ⟨_, handleFrame_of_heartbeat env s h₂⟩
    · by_cases h₃ : msg.type = msgDataRsb
      · by_cases htun : 0 ≤ s.tunFd
        · have hret : writeTun env.tun (sizeT 32 msg.length) = msg.length := by
            by_cases hneg : msg.length < 0
            · have hone : msg.length = -1 := by
                by_contra hne
                exact h (.inr ⟨h₃, decide_eq_true htun, by omega⟩)
              rw [writeTun_of_neg env.tun hlo hneg, hone]
            · have hsize : (sizeT 32 msg.length : Int) = msg.length :=
                sizeT_32 (Int.not_lt.mp hneg) (by omega)
              have htaken := henv.tun (sizeT 32 msg.length) (by omega)
              rw [writeTun, if_pos (by omega), htaken, hsize]
          rw [handleFrame_of_packet env h₃ htun, if_pos hret]
          exact ⟨_, rfl⟩
        · exact ⟨_, handleFrame_of_early env h₃ (Int.not_le.mp htun)⟩
      · exact absurd (.inl ⟨h₁, h₂, h₃⟩) h

/-- The frame takes the program out of its memory, whatever the kernel answers. -/
def Crashing (msg : Message) : Prop :=
  msg.length < 0 ∨ msg.type = msgIpRsb ∧ msg.length ≤ sizeofMessage

instance (msg : Message) : Decidable (Crashing msg) := inferInstanceAs (Decidable (_ ∨ _))

theorem LongEnough.not_crashing {msg : Message} (h : LongEnough msg) : ¬ Crashing msg := by
  have hpos := h.pos
  rintro (hneg | ⟨htype, hshort⟩)
  · omega
  · rcases h with ⟨_, hlen⟩ | ⟨hother, _⟩
    · omega
    · rw [htype] at hother
      exact absurd hother (by decide)

/-- Between the frames that end the call, crash and are taken out lie those of length zero. -/
theorem zero_of_stuck {tun : Bool} {msg : Message} (h : ¬ Refused tun msg)
    (hshort : ¬ LongEnough msg) (hgood : ¬ Crashing msg) : msg.length = 0 := by
  by_contra hne
  have hlen : 0 ≤ msg.length := Int.not_lt.mp fun hneg => hgood (.inl hneg)
  by_cases h₁ : msg.type = msgIpRsb
  · exact hgood (.inr ⟨h₁, Int.not_lt.mp fun hlong => hshort (.inl ⟨h₁, hlong⟩)⟩)
  · by_cases h₂ : msg.type = msgHeartbeat ∨ msg.type = msgDataRsb
    · exact hshort (.inr ⟨h₂, by omega⟩)
    · rw [not_or] at h₂
      exact h (.inl ⟨h₁, h₂⟩)

section AllWritesSucceed

variable {env : SocketEnv} {s : State}

theorem socketOnce_faults (henv : env.Obliging) (hs : s.Bounded) (hcomplete : s.Complete)
    (hframe : ¬ Refused s.hasTun s.header) (hbad : Crashing s.header) :
    ∃ s', socketOnce env s = .fault s' := by
  have hlo : -2 ^ 31 ≤ s.header.length := (Message.length_range _).1
  have hhi := Int.le_trans hcomplete.2 hs.2
  rw [socketOnce_of_complete env hcomplete]
  by_cases hreply : s.header.type = msgIpRsb ∧ s.header.length ≤ sizeofMessage
  · rw [handleFrame_of_crash env s hreply.1 ((badReply_iff hlo hhi).mpr hreply.2), Flow.bind_fault]
    exact ⟨_, rfl⟩
  · have hneg := hbad.resolve_right hreply
    rcases handleFrame_of_obliging henv hhi hlo hframe with ⟨t, ht⟩ | hreply'
    · rw [ht, Flow.bind_next]
      exact consume_of_neg hneg
    · exact absurd hreply' hreply

theorem socketOnce_moves (henv : env.Obliging) (hs : s.Bounded) (hcomplete : s.Complete)
    (hframe : ¬ Refused s.hasTun s.header) (hgood : ¬ Crashing s.header) :
    ∃ s', socketOnce env s = .next s' ∧ s'.Bounded ∧ s'.hasTun = s.hasTun ∧
      s'.content = s.content.drop s.header.length.toNat := by
  have hlo : -2 ^ 31 ≤ s.header.length := (Message.length_range _).1
  have hhi := Int.le_trans hcomplete.2 hs.2
  have hlen : 0 ≤ s.header.length := Int.not_lt.mp fun hneg => hgood (.inl hneg)
  rcases handleFrame_of_obliging henv hhi hlo hframe with ⟨t, ht⟩ | hreply
  · have hdispatch : Dispatch env s.header s (.next t) := by
      rw [← ht]
      exact handleFrame_dispatch env s.header s
    obtain ⟨hconsume, hrest⟩ := passed_spec hs hcomplete hdispatch hlen
    rw [socketOnce_of_complete env hcomplete, ht, Flow.bind_next, hconsume]
    exact ⟨_, rfl, hrest⟩
  · exact absurd (.inr hreply) hgood

end AllWritesSucceed

/-- While every write goes through, the loop is not left on bytes it does not get through. -/
theorem not_terminates_of_not_drains {env : Nat → SocketEnv} (henv : ∀ k, (env k).Obliging)
    (tun : Bool) (bytes : List UInt8) (h : drains tun bytes = false) :
    ∀ (k : Nat) (s : State), s.Bounded → s.hasTun = tun → s.content = bytes →
      ¬ Terminates (fun k => socketOnce (env k)) k s := by
  fun_induction drains tun bytes with
  | case1 => cases h
  | case2 => cases h
  | case3 bytes hfront hframe hlong ih =>
      intro k s hs htun hcontent
      obtain ⟨hcomplete, hheader⟩ := State.front_of_content hs hcontent hfront
      rw [← hheader, ← htun] at hframe
      rw [← hheader] at hlong
      obtain ⟨s', hnext, hs', htun', hcontent'⟩ :=
        socketOnce_moves (henv k) hs hcomplete hframe hlong.not_crashing
      rw [hcontent, hheader] at hcontent'
      rw [terminates_of_next_iff hnext]
      exact ih h (k + 1) s' hs' (htun'.trans htun) hcontent'
  | case4 bytes hfront hframe hshort =>
      intro k s hs htun hcontent
      by_cases hbad : Crashing (Message.ofBytes bytes)
      · obtain ⟨hcomplete, hheader⟩ := State.front_of_content hs hcontent hfront
        rw [← hheader, ← htun] at hframe
        rw [← hheader] at hbad
        obtain ⟨s', hfault⟩ := socketOnce_faults (henv k) hs hcomplete hframe hbad
        exact not_terminates_of_fault hfault
      · -- A length of zero leads back to the same bytes.
        have hzero : (Message.ofBytes bytes).length = 0 := zero_of_stuck hframe hshort hbad
        refine not_terminates_of_recurrent
          (fun t => t.Bounded ∧ t.hasTun = tun ∧ t.content = bytes) ?_ k s ⟨hs, htun, hcontent⟩
        intro j t ⟨ht, htun, hcontent⟩
        obtain ⟨hcomplete, hheader⟩ := State.front_of_content ht hcontent hfront
        rw [← hheader, ← htun] at hframe
        rw [← hheader] at hbad
        obtain ⟨t', hnext, ht', htun', hcontent'⟩ :=
          socketOnce_moves (henv j) ht hcomplete hframe hbad
        rw [hcontent, hheader, hzero] at hcontent'
        exact ⟨t', hnext, ht', htun'.trans htun, hcontent'⟩

/-! ## Every reachable state -/

/-- The values `handle_socket` is meant to return: zero with less in the buffer than the next frame
needs, or `-1`. -/
def State.Returned (s : State) : Prop := s.ret = 0 ∧ ¬ s.Complete ∨ s.ret = -1

theorem Pass.returned {env : SocketEnv} {s s' : State} (h : Pass env s (.stop s')) :
    s'.Returned := by
  cases h with
  | waits hwait => exact .inl ⟨rfl, hwait⟩
  | left _ hframe =>
      cases hframe with
      | unanswered => exact .inr rfl
      | refused => exact .inr rfl
      | unknown => exact .inr rfl

theorem iterate_returned {env : Nat → SocketEnv} {fuel : Nat} {s s' : State} (hs : s.Bounded)
    (h : iterate (fun k => socketOnce (env k)) fuel 0 s = .stopped s') : s'.Returned := by
  obtain ⟨n, t, hrun, hstop⟩ := iterate_stopped_last h
  have ht := iterate_invariant State.Bounded (fun k u hu => hu.socketOnce (env k)) n 0 s hs
  rw [hrun, Outcome.state_running] at ht
  have hpass := socketOnce_pass ht (env (0 + n))
  rw [hstop] at hpass
  exact hpass.returned

/-- The call of `handle_socket` on what `recv` returned comes to an end by the bytes alone. -/
def Drains (r : ReadResult) (tun : Bool) (held : List UInt8) : Prop :=
  match r with
  | .error => True
  | .bytes bs => drains tun (held ++ bs) = true

instance (r : ReadResult) (tun : Bool) (held : List UInt8) : Decidable (Drains r tun held) :=
  match r with
  | .error => inferInstanceAs (Decidable True)
  | .bytes _ => inferInstanceAs (Decidable (_ = true))

/-- In every reachable state a call of `handle_socket` comes back with zero and an incomplete frame
in front, or with `-1`, whatever the clock and the writes answer, exactly if it comes to the end of
the bytes by their headers. -/
theorem handle_socket_returns_iff (fds : Descriptors) (time₁ time₂ : Int) (stale : CellMemory UInt8)
    (es : List Event) (s : State) (hrun : runFrom fds time₁ time₂ stale es = some s)
    (r : ReadResult) (hfits : r.Fits s.room) :
    (∀ env, ∃ fuel s', handleSocket r env fuel s = .stopped s' ∧ s'.Returned) ↔
      Drains r s.hasTun s.content := by
  have hs := runFrom_bounded hrun
  cases r with
  | error => exact ⟨fun _ => trivial, fun _ _ => ⟨0, _, rfl, .inr rfl⟩⟩
  | bytes bs =>
      have hread := hs.receive hfits
      have hcontent := receive_content hs bs
      simp only [handleSocket_of_bounded hs hfits]
      constructor
      · intro h
        obtain ⟨fuel, s', hstop, _⟩ := h (.prompt 0)
        cases hdrains : drains s.hasTun (s.content ++ bs) with
        | true => exact hdrains
        | false =>
            exact absurd ⟨fuel, s', hstop⟩ (not_terminates_of_not_drains
              (fun k => SocketEnv.Obliging.prompt 0 k) _ _ hdrains 0 _ hread rfl hcontent)
      · intro h env
        obtain ⟨fuel, s', hstop⟩ := terminates_of_drains env _ _ h 0 _ hread rfl hcontent
        exact ⟨fuel, s', hstop, iterate_returned hread hstop⟩

theorem handle_socket_returns_tunnelUp :
    ∃ s, runFrom .usual 0 0 (fun _ => 0) tunnelUp = some s ∧
      (ReadResult.bytes [5, 0, 0, 0, 104, 9]).Fits s.room ∧
      ∀ env, ∃ fuel s', handleSocket (.bytes [5, 0, 0, 0, 104, 9]) env fuel s = .stopped s' ∧
        s'.Returned := by
  have hany : ((runFrom .usual 0 0 (fun _ => 0) tunnelUp).any fun s =>
      decide ((ReadResult.bytes [5, 0, 0, 0, 104, 9]).Fits s.room ∧
        Drains (.bytes [5, 0, 0, 0, 104, 9]) s.hasTun s.content)) = true := by decide +kernel
  obtain ⟨s, hrun, hs⟩ := (Option.any_eq_true _ _).mp hany
  obtain ⟨hfits, hdrains⟩ := of_decide_eq_true hs
  exact ⟨s, hrun, hfits, (handle_socket_returns_iff .usual 0 0 (fun _ => 0) tunnelUp s hrun
    _ hfits).mpr hdrains⟩

/-- Bytes that the loop does not come to the end of keep the call for ever. -/
theorem never_returns {s : State} (hs : s.Bounded) {bs : List UInt8} (hfits : bs.length ≤ s.room)
    (h : drains s.hasTun (s.content ++ bs) = false) (now : Int) (fuel : Nat) (s' : State) :
    handleSocket (.bytes bs) (.prompt now) fuel s ≠ .stopped s' := by
  intro hstop
  rw [handleSocket_of_bounded hs hfits] at hstop
  exact not_terminates_of_not_drains (fun k => SocketEnv.Obliging.prompt now k) _ _ h 0 _
    (hs.receive hfits) rfl (receive_content hs _) ⟨fuel, s', hstop⟩

/-- A heartbeat that announces the length zero is handled for ever. -/
theorem zero_heartbeat_hangs :
    ∃ s, runFrom .usual 0 0 (fun _ => 0) [] = some s ∧
      (ReadResult.bytes [0, 0, 0, 0, 104]).Fits s.room ∧
      ∀ fuel s', handleSocket (.bytes [0, 0, 0, 0, 104]) (.prompt 0) fuel s ≠ .stopped s' := by
  have hs := State.Bounded.protocolInit .usual 0 0 (fun _ => 0)
  exact ⟨_, rfl, by decide +kernel,
    never_returns hs (by decide +kernel) (by decide +kernel) 0⟩

end Over6.Client
