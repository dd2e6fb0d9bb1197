import Over6.Server.Buffer

/-! # The parser on hostile bytes

Nothing is assumed about what a peer sends. A frame that announces a negative
length is what takes the parser out of its buffer; without one every range it
forms stays inside, over whole runs and at every pass of a call under way.
-/

namespace Over6.Server

open MachineInt BoundedLoop EventRun

/-! ## Ranges of a buffer -/

/-- The `size` bytes from `start` on lie in a buffer; a size below one names no bytes. -/
def Inside (start size : Int) : Prop := size ≤ 0 ∨ 0 ≤ start ∧ start + size ≤ bufSize

def Act.Inside : Act → Prop
  | .touched start size => Server.Inside start size
  | _ => True

/-- Every range handed to `read`, `write_all` and `memmove` so far was inside its buffer. -/
def State.Contained (s : State) : Prop := ∀ r ∈ s.log, r.act.Inside

instance (act : Act) : Decidable act.Inside := by
  cases act <;> unfold Act.Inside <;> first | exact instDecidableTrue | exact instDecidableOr

instance (s : State) : Decidable s.Contained :=
  inferInstanceAs (Decidable (∀ r ∈ s.log, r.act.Inside))

structure State.InBounds (s : State) : Prop where
  fill : s.Bounded
  room : ∀ fd, Inside (s.bufs fd).used (s.bufs fd).room
  contained : s.Contained

theorem State.Contained.note {s : State} (h : s.Contained) (fd : Fd) {act : Act}
    (hact : act.Inside := by trivial) : (s.note fd act).Contained := by
  intro r hr
  rcases List.mem_cons.mp hr with rfl | hr
  · exact hact
  · exact h r hr

theorem State.Contained.setBuf {s : State} (h : s.Contained) (fd : Fd) (e : BufferEntry) :
    (s.setBuf fd e).Contained := h

theorem State.Contained.setUser {s : State} (h : s.Contained) (i : Slot) (u : UserInfo) :
    (s.setUser i u).Contained := h

theorem State.Contained.of_suffix {s s' : State} (h : s'.Contained) (hlog : s.log <:+ s'.log) :
    s.Contained := fun r hr => h r (hlog.subset hr)

/-- The room behind a fill is inside. -/
theorem BufferEntry.Bounded.room_inside {e : BufferEntry} (h : e.Bounded) :
    Inside e.used e.room := by
  have hroom := h.room
  have hlo := h.1
  exact .inr ⟨hlo, by omega⟩

/-! ## One pass -/

/-- The frame at the front is complete, announces a negative length and is not an IP request
that is turned away. -/
def Overruns (env : FrameEnv) (fd : Fd) (s : State) : Prop :=
  (s.bufs fd).Complete ∧ (s.bufs fd).header.length < 0 ∧
    ((s.bufs fd).header.type = msgIpReq →
      ∃ i, firstFree s.users = some i ∧ s.Replies env fd (s.users i).addr)

theorem dataLen_eq (msglen : Int) : dataLen msglen = int32 (msglen - 5) := by
  have hfive : (sizeofMessage : Int) = 5 := rfl
  simp only [dataLen, int32, sizeT, Int.bmod_def]
  omega

/-- A length that is not negative makes a slice that ends with the frame. -/
theorem dataLen_of_nonneg {msglen : Int} (hlo : 0 ≤ msglen) (hhi : msglen ≤ bufSize) :
    dataLen msglen = msglen - 5 := by
  have hcap : (bufSize : Int) = 65536 := rfl
  rw [dataLen_eq, int32_of_range (by omega) (by omega)]

/-- The subtraction wraps for the five lowest lengths. -/
theorem dataLen_of_wrap {msglen : Int} (hneg : msglen < 0) (hlo : -2 ^ 31 ≤ msglen)
    (hwrap : -1 < dataLen msglen) : bufSize < dataLen msglen := by
  have hcap : (bufSize : Int) = 65536 := rfl
  rw [dataLen_eq, int32, Int.bmod_def] at hwrap ⊢
  omega

theorem moveSize_pos {used msglen : Int} (hused : 0 ≤ used) (hcap : used ≤ bufSize)
    (hneg : msglen < 0) (hlo : -2 ^ 31 ≤ msglen) : 0 < sizeT 64 (int32 (used - msglen)) := by
  have hsize : (bufSize : Int) = 65536 := rfl
  rw [sizeT, int32, Int.bmod_def]
  omega

/-- The source of a move by a negative length lies in front of the buffer. -/
theorem consume_escapes {fd : Fd} {msg : Message} {s : State} (hs : s.Bounded)
    (hneg : msg.length < 0) (hlo : -2 ^ 31 ≤ msg.length) :
    ¬ (consume fd msg s).state.Contained := by
  intro h
  have hpos := moveSize_pos (hs fd).1 (hs fd).2 hneg hlo
  have hmem : ⟨s.conn fd, fd, .touched msg.length (sizeT 64 (int32 ((s.bufs fd).used - msg.length)))⟩ ∈
      (consume fd msg s).state.log := by
    unfold consume
    simp only
    rw [if_neg (by omega)]
    simp
  have hinside := h _ hmem
  rcases hinside with hsize | ⟨hstart, _⟩
  · omega
  · omega

theorem Dispatch.contained {env : FrameEnv} {fd : Fd} {msg : Message} {s : State}
    {flow : Flow State} (h : Dispatch env fd msg s flow) (hs : s.Contained)
    (hslice : msg.type = msgDataReq → Inside sizeofMessage (dataLen msg.length)) :
    flow.state.Contained := by
  have hgrant : ∀ i, (s.grantTo env fd i).Contained :=
    fun i => ((hs.note fd).setUser i _).note fd
  have htouched : msg.type = msgDataReq →
      (s.note fd (.touched sizeofMessage (dataLen msg.length))).Contained :=
    fun htype => hs.note fd (hslice htype)
  cases h with
  | poolFull => exact (hs.note fd).note fd
  | replyHeader _ i => exact ((hgrant i).note fd).note fd
  | replyData _ i => exact (((hgrant i).note fd).note fd).note fd
  | replied _ i => exact (((hgrant i).note fd).note fd).note fd
  | tunData htype => exact ((htouched htype).note _).note fd
  | forwarded htype => exact (htouched htype).note _
  | stray => exact hs.note fd
  | kept => exact (hs.note fd).setUser _ _
  | unknown => exact hs

theorem State.Contained.consumed {s : State} (h : s.Contained) {fd : Fd} {msg : Message}
    (hs : s.Bounded) (hlen : 0 ≤ msg.length) (hle : msg.length ≤ (s.bufs fd).used) :
    (s.consumed fd msg).Contained := by
  have hsize := (s.bufs fd).behind_size (hs fd) hlen hle
  have hcap := (hs fd).2
  have hsource : (s.note fd (.touched msg.length
      (sizeT 64 (int32 ((s.bufs fd).used - msg.length))))).Contained :=
    h.note fd (.inr ⟨hlen, by omega⟩)
  have hdest : Act.Inside (.touched 0 (sizeT 64 (int32 ((s.bufs fd).used - msg.length)))) :=
    .inr ⟨Int.le_refl 0, by omega⟩
  exact ((hsource.note fd hdest).setBuf fd _).note fd

/-- Of a complete frame that does not overrun, the slice for the tun is inside. -/
theorem slice_inside {s : State} (hs : s.Bounded) {env : FrameEnv} {fd : Fd}
    (hcomplete : (s.bufs fd).Complete) (hgood : ¬ Overruns env fd s)
    (htype : (s.bufs fd).header.type = msgDataReq) :
    Inside sizeofMessage (dataLen (s.bufs fd).header.length) := by
  have hother : (s.bufs fd).header.type ≠ msgIpReq := by
    rw [htype]
    decide
  have hlen : 0 ≤ (s.bufs fd).header.length := by
    by_cases hlen : 0 ≤ (s.bufs fd).header.length
    · exact hlen
    · exact absurd ⟨hcomplete, Int.not_le.mp hlen, fun h => absurd h hother⟩ hgood
  have hle := hcomplete.2
  have hcap := (hs fd).2
  have hfive : (sizeofMessage : Int) = 5 := rfl
  rw [dataLen_of_nonneg hlen (Int.le_trans hle hcap)]
  exact .inr ⟨by decide, by omega⟩

theorem parseOnce_contained {s : State} (hs : s.Bounded) {env : FrameEnv} {fd : Fd}
    (hin : s.Contained) (hgood : ¬ Overruns env fd s) : (parseOnce env fd s).state.Contained := by
  have hparse := parseOnce_parse env fd s
  cases hflow : parseOnce env fd s with
  | next s' =>
      rw [hflow] at hparse
      cases hparse with
      | passed hcomplete hframe hlen =>
          have ht := hframe.contained hin (slice_inside hs hcomplete hgood)
          have hbufs := hframe.bufs
          refine ht.consumed (hs.of_bufs hbufs) hlen ?_
          rw [Flow.state_next] at hbufs ⊢
          rw [hbufs]
          exact hcomplete.2
  | stop s' =>
      rw [hflow] at hparse
      cases hparse with
      | waits => exact hin
      | left hcomplete hframe => exact hframe.contained hin (slice_inside hs hcomplete hgood)
  | fault s' =>
      rw [hflow] at hparse
      cases hparse with
      | @overran hcomplete t _ hframe hmove =>
          -- A move goes wrong for negative lengths only.
          exfalso
          have hbufs : t.bufs = s.bufs := hframe.bufs
          by_cases hlen : 0 ≤ (s.bufs fd).header.length
          · have hle : (s.bufs fd).header.length ≤ (t.bufs fd).used := by
              rw [hbufs]
              exact hcomplete.2
            have hcap : (t.bufs fd).used ≤ bufSize := ((hs.of_bufs hbufs) fd).2
            rw [consume_of_range fd hlen hle hcap] at hmove
            cases hmove
          · refine hgood ⟨hcomplete, Int.not_le.mp hlen, fun htype => ?_⟩
            cases hframe with
            | replied _ i hfree hreplies => exact ⟨i, hfree, hreplies⟩
            | forwarded h₂ => exact absurd (htype.symm.trans h₂) (by decide)
            | stray h₃ => exact absurd (htype.symm.trans h₃) (by decide)
            | kept h₃ => exact absurd (htype.symm.trans h₃) (by decide)
            | unknown h₁ => exact absurd htype h₁

theorem parseOnce_escapes {s : State} (hs : s.Bounded) {env : FrameEnv} {fd : Fd}
    (hbad : Overruns env fd s) : ¬ (parseOnce env fd s).state.Contained := by
  obtain ⟨hcomplete, hneg, hrequest⟩ := hbad
  have hlo : -2 ^ 31 ≤ (s.bufs fd).header.length := (Message.length_range _).1
  have hframe := handleFrame_dispatch env fd (s.bufs fd).header s
  rw [parseOnce_of_complete env hcomplete]
  cases hflow : handleFrame env fd (s.bufs fd).header s with
  | next t =>
      rw [hflow] at hframe
      rw [Flow.bind_next]
      exact consume_escapes (hs.of_bufs hframe.bufs) hneg hlo
  | stop s' =>
      rw [hflow] at hframe
      intro hin
      cases hframe with
      | poolFull htype hfull =>
          obtain ⟨i, hfree, _⟩ := hrequest htype
          rw [hfull] at hfree
          cases hfree
      | replyHeader htype i hfree sent hfails =>
          obtain ⟨j, hj, hreplies⟩ := hrequest htype
          obtain rfl := Option.some.inj (hfree.symm.trans hj)
          exact hfails hreplies
      | replyData htype i hfree sent hfails =>
          obtain ⟨j, hj, hreplies⟩ := hrequest htype
          obtain rfl := Option.some.inj (hfree.symm.trans hj)
          exact hfails hreplies
      | tunData _ sent hwrap =>
          have hhuge := dataLen_of_wrap hneg hlo hwrap
          have hcap : (0 : Int) ≤ bufSize := Int.natCast_nonneg _
          have hfive : (sizeofMessage : Int) = 5 := rfl
          have hslice : Inside sizeofMessage (dataLen (s.bufs fd).header.length) :=
            hin ⟨s.conn fd, fd, .touched sizeofMessage (dataLen (s.bufs fd).header.length)⟩ (by simp)
          rcases hslice with hsize | ⟨_, hend⟩
          · omega
          · omega
  | fault s' =>
      rw [hflow] at hframe
      cases hframe

theorem parseOnce_log_suffix (env : FrameEnv) (fd : Fd) (s : State) :
    s.log <:+ (parseOnce env fd s).state.log := by
  by_cases hcomplete : (s.bufs fd).Complete
  · rw [parseOnce_of_complete env hcomplete]
    have hframe := handleFrame_dispatch env fd (s.bufs fd).header s
    cases hflow : handleFrame env fd (s.bufs fd).header s with
    | next t =>
        rw [hflow] at hframe
        have hfirst : s.log <:+ t.log := hframe.quiet.log_suffix
        have hconsume : t.log <:+ (consume fd (s.bufs fd).header t).state.log := by
          unfold consume
          simp only
          split
          · exact List.suffix_append [_, _, _] t.log
          · exact List.suffix_append [_, _] t.log
        rw [Flow.bind_next]
        exact hfirst.trans hconsume
    | stop s' =>
        rw [hflow] at hframe
        exact hframe.quiet.log_suffix
    | fault s' =>
        rw [hflow] at hframe
        cases hframe
  · rw [parseOnce_of_not_complete env hcomplete]
    exact List.suffix_refl _

/-- A pass stays inside exactly if it does not overrun. -/
theorem parseOnce_contained_iff {s : State} (hs : s.Bounded) (env : FrameEnv) (fd : Fd) :
    (parseOnce env fd s).state.Contained ↔ s.Contained ∧ ¬ Overruns env fd s := by
  constructor
  · intro h
    exact ⟨h.of_suffix (parseOnce_log_suffix env fd s), fun hbad => parseOnce_escapes hs hbad h⟩
  · rintro ⟨hin, hgood⟩
    exact parseOnce_contained hs hin hgood

/-! ## Calls and runs -/

def State.CallOverruns (s : State) (fd : Fd) (r : ReadResult) (env : Nat → FrameEnv)
    (passes : Nat) : Prop :=
  match r with
  | .error | .bytes [] => False
  | .bytes bs => ∃ k < passes, ∃ t,
      iterate (fun k => parseOnce (env k) fd) k 0 (readClient fd bs s) = .running t ∧
        Overruns (env k) fd t

def Event.Overruns (s : State) : Event → Prop
  | .client fd r env _ fuel => s.CallOverruns fd r env fuel
  | _ => False

namespace State.Contained

variable {s s' : State}

theorem initState (fds : Descriptors) : (initState fds).Contained := by
  intro r hr
  cases hr

theorem processServer (h : s.Contained) (fd : Fd) (added : Bool) :
    (processServer fd added s).Contained := by
  intro r hr
  rcases List.mem_cons.mp hr with rfl | hr
  · trivial
  · exact h r hr

theorem freed (h : s.Contained) (fd : Fd) : (s.freed fd).Contained := by
  obtain ⟨new, hlog, _, hnew⟩ := s.freed_log fd
  intro r hr
  rw [hlog] at hr
  rcases List.mem_append.mp hr with hr | hr
  · rcases (hnew r hr).2.2 with hact | ⟨i, hact⟩
    · rw [hact]
      trivial
    · rw [hact]
      trivial
  · exact h r hr

theorem freeClientFd (h : s.Contained) (removed : Bool) (fd : Fd) :
    (freeClientFd removed fd s).Contained := by
  rcases freeClientFd_cases removed fd s with hf | ⟨_, hf⟩
  · rwa [hf]
  · rw [hf]
    exact h.freed fd

theorem route (h : s.Contained) {flow : Flow State} (hr : Route s flow) :
    flow.state.Contained := by
  cases hr with
  | drained => exact h
  | nobody => exact h
  | header => exact h.note _
  | packet => exact (h.note _).note _
  | routed => exact (((h.note _).note _).setBuf _ _).note _

theorem processTun (h : s.Contained) (r : ReadResult) (env : Nat → RouteEnv) (fuel : Nat) :
    (processTun r env fuel s).state.Contained := by
  cases r with
  | error => exact h
  | bytes bs =>
      have hread : (receive s.tunFd bs s).Contained := (h.setBuf s.tunFd _).note s.tunFd
      exact iterate_invariant State.Contained
        (fun k t ht => ht.route (routeOnce_route (env k) t)) fuel 0 _ hread

theorem swept (h : s.Contained) (env : SweepEnv) (i : Slot) : (s.swept env i).Contained := by
  obtain ⟨new, hlog, hnew⟩ := (s.swept_quiet env i).log
  intro r hr
  rw [hlog] at hr
  rcases List.mem_append.mp hr with hr | hr
  · have hact := (hnew r hr).2
    cases hkind : r.act with
    | touched =>
        rw [hkind] at hact
        exact hact.elim
    | _ => trivial
  · exact h r hr

theorem sweep (h : s.Contained) {env : SweepEnv} {i : Slot} (hs : Sweep env i s s') :
    s'.Contained := by
  cases hs with
  | skipped => exact h
  | spared => exact h.swept env i
  | stuck => exact h.swept env i
  | evicted => exact (h.swept env i).freed _

theorem processHeartbeat (h : s.Contained) (env : SweepEnv) :
    (processHeartbeat env s).Contained := by
  have hall : ∀ entries : List Slot, (entries.foldl (Server.heartbeatEntry env) s).Contained := by
    intro entries
    induction entries generalizing s with
    | nil => exact h
    | cons i entries ih => exact ih (h.sweep (heartbeatEntry_sweep env i s))
  exact hall (List.finRange clientNum)

end State.Contained

/-- A call, returned or not, has stayed inside exactly if none of its passes overran. -/
theorem processClient_contained_iff {s : State} (hs : s.Bounded) {fd : Fd} {r : ReadResult}
    (hfits : r.Fits (s.bufs fd).room) (env : Nat → FrameEnv) (removed : Bool) (passes : Nat) :
    (processClient r env removed passes fd s).state.Contained ↔
      s.Contained ∧ ¬ s.CallOverruns fd r env passes := by
  have hended : (freeClientFd removed fd s).Contained ↔ s.Contained ∧ ¬ False := by
    rw [not_false_eq_true, and_true]
    exact ⟨fun h => h.of_suffix (freeClientFd_log_suffix removed fd s),
      fun h => h.freeClientFd removed fd⟩
  cases r with
  | error => exact hended
  | bytes bs =>
      cases bs with
      | nil => exact hended
      | cons b bs =>
          have hread : (readClient fd (b :: bs) s).Bounded := hs.readClient hfits
          have hstart : (readClient fd (b :: bs) s).Contained ↔ s.Contained := by
            constructor
            · exact fun h => h.of_suffix (List.suffix_append [_, _] s.log)
            · intro h
              have htouched : (s.note fd (.touched (s.bufs fd).used (s.bufs fd).room)).Contained :=
                h.note fd (hs fd).room_inside
              exact (htouched.setBuf fd _).note fd
          have hloop := iterate_safe_iff (fun k t => Overruns (env k) fd t) State.Bounded
            State.Contained
            (fun k t t' ht hb => by
              have hparse := ht.parse (parseOnce_parse (env k) fd t)
              rwa [hb] at hparse)
            (fun k t ht => parseOnce_contained_iff ht (env k) fd) passes 0 _ hread
          rw [hstart] at hloop
          simp only [Nat.zero_add] at hloop
          rw [processClient_of_ne_nil (List.cons_ne_nil b bs), hloop, and_congr_right_iff]
          intro _
          simp only [State.CallOverruns, not_exists, not_and]

/-- A call that returns breaks out exactly if one of its passes overruns. -/
theorem step_contained_iff {s s' : State} {e : Event} (hs : s.Bounded) (h : step s e = some s') :
    s'.Contained ↔ s.Contained ∧ ¬ e.Overruns s := by
  have hback : s'.Contained → s.Contained := fun h' => h'.of_suffix (step_log_suffix h)
  have hother : (s.Contained → s'.Contained) → (s'.Contained ↔ s.Contained ∧ ¬ False) :=
    fun hforth => ⟨fun h' => ⟨hback h', id⟩, fun h' => hforth h'.1⟩
  cases e with
  | client fd r env removed fuel =>
      unfold step at h
      simp only [Option.ite_none_right_eq_some] at h
      obtain ⟨⟨_, hfits⟩, hret⟩ := h
      have hcall := processClient_contained_iff hs hfits env removed fuel
      rwa [Outcome.returned_eq_some.mp hret] at hcall
  | server r =>
      apply hother
      intro hin
      cases step_call h with
      | refused => exact hin
      | accepted fd added _ => exact hin.processServer fd added
  | tun r env fuel =>
      apply hother
      intro hin
      cases step_call h with
      | tun _ _ _ _ hcall =>
          have htun := hin.processTun r env fuel
          rwa [hcall] at htun
  | heartbeat env =>
      apply hother
      intro hin
      cases step_call h with
      | heartbeat => exact hin.processHeartbeat env

/-- Over a run the ranges stay inside exactly if no call of it overruns. -/
theorem runFrom_contained_iff {fds : Descriptors} {es : List Event} {s : State}
    (h : runFrom fds es = some s) :
    s.Contained ↔ ∀ pre e post t, es = pre ++ e :: post → runFrom fds pre = some t →
      ¬ e.Overruns t := by
  have hrun := run_safe_iff (fun t e => e.Overruns t) State.Bounded State.Contained
    (fun t e t' ht hstep => ht.passes (step_passes hstep))
    (fun t e t' ht hstep => step_contained_iff ht hstep) (State.Bounded.initState fds) h
  rw [hrun]
  exact and_iff_right (State.Contained.initState fds)

/-- In every run, and at every pass of a call under way behind it, all fills are fills and all
ranges handed to `read`, `write_all` and `memmove` lie inside their buffers, exactly if no pass so
far took out a complete frame that announces a negative length. -/
theorem parser_in_bounds (fds : Descriptors) (es : List Event) (s : State)
    (hrun : runFrom fds es = some s) (fd : Fd) (r : ReadResult)
    (hfits : r.Fits (s.bufs fd).room) (env : Nat → FrameEnv) (removed : Bool) (passes : Nat) :
    (processClient r env removed passes fd s).state.InBounds ↔
      (∀ pre e post t, es = pre ++ e :: post → runFrom fds pre = some t → ¬ e.Overruns t) ∧
        ¬ s.CallOverruns fd r env passes := by
  have hs := State.Bounded.runFrom hrun
  have hcall := processClient_contained_iff hs hfits env removed passes
  have hfill := hs.processClient hfits env removed passes
  rw [runFrom_contained_iff hrun] at hcall
  constructor
  · intro h
    exact hcall.mp h.contained
  · intro h
    exact ⟨hfill, fun x => (hfill x).room_inside, hcall.mpr h⟩

theorem parser_in_bounds_twoClients :
    ∃ s, runFrom .usual twoClients = some s ∧ (ReadResult.bytes [0, 0, 104]).Fits (s.bufs 7).room ∧
      ((processClient (.bytes [0, 0, 104]) (.prompt 0) true 9 7 s).state.InBounds ↔
        (∀ pre e post t, twoClients = pre ++ e :: post → runFrom .usual pre = some t →
          ¬ e.Overruns t) ∧ ¬ s.CallOverruns 7 (.bytes [0, 0, 104]) (.prompt 0) 9) := by
  have hany : ((runFrom .usual twoClients).any fun s =>
      decide ((ReadResult.bytes [0, 0, 104]).Fits (s.bufs 7).room)) = true := by decide +kernel
  obtain ⟨s, hrun, hs⟩ := (Option.any_eq_true _ _).mp hany
  have hfits := of_decide_eq_true hs
  exact ⟨s, hrun, hfits, parser_in_bounds .usual twoClients s hrun 7 _ hfits (.prompt 0) true 9⟩

/-- A keepalive that announces the length `-1` moves bytes from in front of the buffer. -/
theorem negative_length_escapes :
    ∃ s, runFrom .usual [.server (some (7, true))] = some s ∧ s.watched 7 = true ∧
      (ReadResult.bytes [255, 255, 255, 255, 104]).Fits (s.bufs 7).room ∧
      ¬ (processClient (.bytes [255, 255, 255, 255, 104]) (.prompt 0) true 1 7 s).state.InBounds := by
  have hany : ((runFrom .usual [.server (some (7, true))]).any fun s =>
      decide (s.watched 7 = true ∧
        (ReadResult.bytes [255, 255, 255, 255, 104]).Fits (s.bufs 7).room ∧
        ¬ (processClient (.bytes [255, 255, 255, 255, 104]) (.prompt 0) true 1 7
          s).state.Contained)) = true := by
    decide +kernel
  obtain ⟨s, hrun, hs⟩ := (Option.any_eq_true _ _).mp hany
  obtain ⟨hw, hfits, hout⟩ := of_decide_eq_true hs
  exact ⟨s, hrun, hw, hfits, fun h => hout h.contained⟩

end Over6.Server
