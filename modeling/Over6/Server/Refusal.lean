import Over6.Server.Hostile
import Over6.Server.Routing

/-! # Frames whose handler fails

`process_client` leaves the frame it could not handle at the front of the buffer, for
the next call to try again. Which frames these are, and that all others are tried once.
-/

namespace Over6.Server

open MachineInt BoundedLoop EventRun Journal

/-! ## What fails -/

/-- The handler of the frame at the front fails: an IP request finds no free address or its reply
does not get across, or the tun does not take a packet. -/
def Fails (env : FrameEnv) (fd : Fd) (s : State) : Prop :=
  ((s.bufs fd).header.type = msgIpReq ∧
      ∀ i, firstFree s.users = some i → ¬ s.Replies env fd (s.users i).addr) ∨
    ((s.bufs fd).header.type = msgDataReq ∧
      (s.writeAll env.write₁ s.tunFd (s.dataSlice fd (s.bufs fd).header.length)).2 <
        dataLen (s.bufs fd).header.length)

def Refuses (env : FrameEnv) (fd : Fd) (s : State) : Prop := (s.bufs fd).Complete ∧ Fails env fd s

def State.CallRefuses (s : State) (fd : Fd) (r : ReadResult) (env : Nat → FrameEnv)
    (passes : Nat) : Prop :=
  match r with
  | .error | .bytes [] => False
  | .bytes bs => ∃ k < passes, ∃ t,
      iterate (fun k => parseOnce (env k) fd) k 0 (readClient fd bs s) = .running t ∧
        Refuses (env k) fd t

def Event.Refuses (s : State) : Event → Prop
  | .client fd r env _ fuel => s.CallRefuses fd r env fuel
  | _ => False

def Act.tries : Act → List Unit
  | handled _ _ | failed _ => [()]
  | _ => []

def attempts (c : Conn) (log : List Record) : Nat := (gather (onConn c Act.tries) log).length

/-- Every complete frame of connection `c` was tried once and taken out of the buffer, and no IP
request was granted two addresses. -/
structure HandledOnce (sent : Conn → List Frame) (c : Conn) (s : State) : Prop where
  settled : frameCode.Settled (sent c) (received c s.log) (handled c s.log)
  once : attempts c s.log = (handled c s.log).length
  single : (grants c s.log).length ≤ (handled c s.log).countP isIpReq

/-! ## One pass -/

section Pass

variable {env : FrameEnv} {fd : Fd} {s : State}

/-- A handler that fails leaves a record of it on the connection. -/
theorem handleFrame_of_fails (h : Fails env fd s) :
    ∃ s' why, handleFrame env fd (s.bufs fd).header s = .stop s' ∧
      ⟨s.conn fd, fd, .failed why⟩ ∈ s'.log := by
  have hframe := handleFrame_dispatch env fd (s.bufs fd).header s
  rcases h with ⟨htype, hfails⟩ | ⟨htype, hshort⟩
  · generalize handleFrame env fd (s.bufs fd).header s = flow at hframe ⊢
    have hdata : (s.bufs fd).header.type ≠ msgDataReq := by
      rw [htype]
      decide
    have hbeat : (s.bufs fd).header.type ≠ msgHeartbeat := by
      rw [htype]
      decide
    cases hframe with
    | poolFull => exact ⟨_, _, rfl, List.mem_cons_self⟩
    | replyHeader => exact ⟨_, _, rfl, List.mem_cons_self⟩
    | replyData => exact ⟨_, _, rfl, List.mem_cons_self⟩
    | replied _ i hfree hreplies => exact absurd hreplies (hfails i hfree)
    | tunData h => exact absurd h hdata
    | forwarded h => exact absurd h hdata
    | stray h => exact absurd h hbeat
    | kept h => exact absurd h hbeat
    | unknown h => exact absurd htype h
  · have hreq : (s.bufs fd).header.type ≠ msgIpReq := by
      rw [htype]
      decide
    unfold handleFrame
    rw [if_neg hreq, if_pos htype]
    unfold handleDataReq
    refine ⟨_, .tunData, if_pos ?_, List.mem_cons_self⟩
    exact hshort

theorem Dispatch.noneGaveUp {msg : Message} {flow : Flow State} (h : Dispatch env fd msg s flow)
    (hnone : NoneGaveUp s.log) (hmsg : msg = (s.bufs fd).header) (hgood : ¬ Fails env fd s) :
    NoneGaveUp flow.state.log := by
  subst hmsg
  have hnote : ∀ {t : State} {x : Fd} {act : Act}, NoneGaveUp t.log → act.gaveUp = false →
      NoneGaveUp (t.note x act).log := by
    intro t x act ht hact r hr
    rcases List.mem_cons.mp hr with rfl | hr
    · exact hact
    · exact ht r hr
  have hgrant : ∀ i, NoneGaveUp (s.grantTo env fd i).log := fun i => hnote (hnote hnone rfl) rfl
  cases h with
  | poolFull htype hfull =>
      refine absurd (.inl ⟨htype, fun i hi => ?_⟩) hgood
      rw [hfull] at hi
      cases hi
  | replyHeader htype i hfree _ hfails =>
      refine absurd (.inl ⟨htype, fun j hj => ?_⟩) hgood
      rwa [Option.some.inj (hj.symm.trans hfree)]
  | replyData htype i hfree _ hfails =>
      refine absurd (.inl ⟨htype, fun j hj => ?_⟩) hgood
      rwa [Option.some.inj (hj.symm.trans hfree)]
  | replied _ i => exact hnote (hnote (hnote (hgrant i) rfl) rfl) rfl
  | tunData htype _ hlen hret =>
      refine absurd (.inr ⟨htype, ?_⟩) hgood
      rw [hret]
      exact hlen
  | forwarded => exact hnote (hnote hnone rfl) rfl
  | stray => exact hnote hnone rfl
  | kept => exact hnote hnone rfl
  | unknown => exact hnone

theorem consume_noneGaveUp {msg : Message} (hnone : NoneGaveUp s.log) :
    NoneGaveUp (consume fd msg s).state.log := by
  unfold consume
  simp only
  split
  · intro r hr
    simp only [Flow.state_next, State.note_log, State.setBuf_log, List.mem_cons] at hr
    rcases hr with rfl | rfl | rfl | hr
    · rfl
    · rfl
    · rfl
    · exact hnone r hr
  · intro r hr
    simp only [Flow.state_fault, State.note_log, List.mem_cons] at hr
    rcases hr with rfl | rfl | hr
    · rfl
    · rfl
    · exact hnone r hr

/-- A pass that refuses ends the loop. -/
theorem parseOnce_of_refuses (h : Refuses env fd s) :
    ∃ s' why, parseOnce env fd s = .stop s' ∧ ⟨s.conn fd, fd, .failed why⟩ ∈ s'.log := by
  obtain ⟨s', why, hflow, hmem⟩ := handleFrame_of_fails h.2
  refine ⟨s', why, ?_, hmem⟩
  rw [parseOnce_of_complete env h.1, hflow]
  rfl

theorem parseOnce_noneGaveUp_iff (env : FrameEnv) (fd : Fd) (s : State) :
    NoneGaveUp (parseOnce env fd s).state.log ↔ NoneGaveUp s.log ∧ ¬ Refuses env fd s := by
  constructor
  · intro h
    refine ⟨h.earlier (parseOnce_log_suffix env fd s), fun hrefuses => ?_⟩
    obtain ⟨s', why, hflow, hmem⟩ := parseOnce_of_refuses hrefuses
    rw [hflow] at h
    exact absurd (h _ hmem) (by simp [Act.gaveUp])
  · rintro ⟨hnone, hgood⟩
    by_cases hcomplete : (s.bufs fd).Complete
    · have hframe := (handleFrame_dispatch env fd (s.bufs fd).header s).noneGaveUp hnone rfl
        fun hfails => hgood ⟨hcomplete, hfails⟩
      rw [parseOnce_of_complete env hcomplete]
      cases hflow : handleFrame env fd (s.bufs fd).header s with
      | next t =>
          rw [hflow] at hframe
          rw [Flow.bind_next]
          exact consume_noneGaveUp hframe
      | stop t =>
          rw [hflow] at hframe
          exact hframe
      | fault t =>
          rw [hflow] at hframe
          exact hframe
    · rw [parseOnce_of_not_complete env hcomplete]
      exact hnone

end Pass

/-! ## The other handlers -/

/-- The log has grown by records of nothing that concerns frames or addresses. -/
def Idles (s s' : State) : Prop :=
  ∃ new, s'.log = new ++ s.log ∧ ∀ r ∈ new, r.act.gaveUp = false ∧ r.act.taken = [] ∧ r.act.grants = []

namespace Idles

variable {s t s' : State}

theorem refl (s : State) : Idles s s := ⟨[], rfl, by simp⟩

theorem trans (h : Idles s t) (h' : Idles t s') : Idles s s' := by
  obtain ⟨new, hlog, hnew⟩ := h
  obtain ⟨new', hlog', hnew'⟩ := h'
  refine ⟨new' ++ new, by rw [hlog', hlog, List.append_assoc], ?_⟩
  intro r hr
  rcases List.mem_append.mp hr with hr | hr
  · exact hnew' r hr
  · exact hnew r hr

theorem of_chain (h : Relation.ReflTransGen Idles s s') : Idles s s' := by
  induction h with
  | refl => exact Idles.refl s
  | tail _ ht ih => exact ih.trans ht

theorem of_quiet {P : Act → Prop} (h : Quiet P s s')
    (hP : ∀ act, P act → act.gaveUp = false ∧ act.taken = [] ∧ act.grants = []) : Idles s s' := by
  obtain ⟨new, hlog, hnew⟩ := h.log
  exact ⟨new, hlog, fun r hr => hP r.act (hnew r hr).2⟩

theorem receive (fd : Fd) (bs : List UInt8) (s : State) : Idles s (receive fd bs s) :=
  ⟨[⟨s.conn fd, fd, .received bs⟩], rfl, by simp [Act.gaveUp, Act.taken, Act.grants]⟩

theorem readClient (fd : Fd) (bs : List UInt8) (s : State) : Idles s (readClient fd bs s) :=
  ⟨[_, _], rfl, by simp [Act.gaveUp, Act.taken, Act.grants]⟩

theorem processServer (fd : Fd) (added : Bool) (s : State) : Idles s (processServer fd added s) :=
  ⟨[_], rfl, by simp [Act.gaveUp, Act.taken, Act.grants]⟩

theorem freed (fd : Fd) (s : State) : Idles s (s.freed fd) := by
  obtain ⟨new, hlog, _, hnew⟩ := s.freed_log fd
  refine ⟨new, hlog, fun r hr => ?_⟩
  rcases (hnew r hr).2.2 with hact | ⟨i, hact⟩
  · rw [hact]
    exact ⟨rfl, rfl, rfl⟩
  · rw [hact]
    exact ⟨rfl, rfl, rfl⟩

theorem freeClientFd (removed : Bool) (fd : Fd) (s : State) : Idles s (freeClientFd removed fd s) := by
  rcases freeClientFd_cases removed fd s with hf | ⟨_, hf⟩
  · rw [hf]
    exact Idles.refl s
  · rw [hf]
    exact Idles.freed fd s

theorem route {flow : Flow State} (h : Route s flow) : Idles s flow.state := by
  cases h with
  | drained => exact Idles.refl s
  | nobody => exact Idles.refl s
  | header => exact ⟨[_], rfl, by simp [Act.gaveUp, Act.taken, Act.grants]⟩
  | packet => exact ⟨[_, _], rfl, by simp [Act.gaveUp, Act.taken, Act.grants]⟩
  | routed => exact ⟨[_, _, _], rfl, by simp [Act.gaveUp, Act.taken, Act.grants]⟩

theorem processTun {r : ReadResult} {env : Nat → RouteEnv} {fuel : Nat}
    (h : processTun r env fuel s = .stopped s') : Idles s s' := by
  cases r with
  | error =>
      obtain rfl := Outcome.stopped.inj h
      exact Idles.refl s
  | bytes bs =>
      refine (Idles.receive s.tunFd bs s).trans (of_chain ?_)
      apply iterate_reaches Idles (fun _ => True) _ _ trivial h
      · intro k t t' _ hb
        have hroute : Route t (.next t') := hb ▸ routeOnce_route (env k) t
        exact ⟨route hroute, trivial⟩
      · intro k t t' _ hb
        have hroute : Route t (.stop t') := hb ▸ routeOnce_route (env k) t
        exact route hroute

theorem sweep {env : SweepEnv} {i : Slot} (h : Sweep env i s s') : Idles s s' := by
  have hswept : Idles s (s.swept env i) := by
    refine of_quiet (s.swept_quiet env i) fun act hact => ?_
    cases act <;> first | exact hact.elim | exact ⟨rfl, rfl, rfl⟩
  cases h with
  | skipped => exact Idles.refl s
  | spared => exact hswept
  | stuck => exact hswept
  | evicted => exact hswept.trans (Idles.freed _ _)

theorem processHeartbeat (env : SweepEnv) (s : State) : Idles s (processHeartbeat env s) := by
  have hall : ∀ (entries : List Slot) (s : State),
      Idles s (entries.foldl (heartbeatEntry env) s) := by
    intro entries
    induction entries with
    | nil => exact Idles.refl
    | cons i entries ih => exact fun s => (sweep (heartbeatEntry_sweep env i s)).trans (ih _)
  exact hall (List.finRange clientNum) s

theorem noneGaveUp_iff (h : Idles s s') : NoneGaveUp s'.log ↔ NoneGaveUp s.log := by
  obtain ⟨new, hlog, hnew⟩ := h
  rw [hlog]
  constructor
  · exact fun hnone => hnone.earlier (List.suffix_append new s.log)
  · intro hnone r hr
    rcases List.mem_append.mp hr with hr | hr
    · exact (hnew r hr).1
    · exact hnone r hr

/-- The counts of a connection are as they were. -/
theorem counts (h : Idles s s') (c : Conn) :
    handled c s'.log = handled c s.log ∧ grants c s'.log = grants c s.log := by
  obtain ⟨new, hlog, hnew⟩ := h
  rw [hlog]
  exact ⟨gather_of_nil fun r hr => onConn_eq_nil fun _ => (hnew r hr).2.1,
    gather_of_nil fun r hr => onConn_eq_nil fun _ => (hnew r hr).2.2⟩

end Idles

/-! ## Calls -/

section Calls

variable {s s' : State} {e : Event}

theorem parseLoop_noneGaveUp_iff (env : Nat → FrameEnv) (fd : Fd) (fuel : Nat) (s : State) :
    NoneGaveUp (iterate (fun k => parseOnce (env k) fd) fuel 0 s).state.log ↔ NoneGaveUp s.log ∧
      ∀ k < fuel, ∀ t, iterate (fun k => parseOnce (env k) fd) k 0 s = .running t →
        ¬ Refuses (env k) fd t := by
  have hloop := iterate_safe_iff (fun k t => Refuses (env k) fd t) (fun _ => True)
    (fun t : State => NoneGaveUp t.log) (fun _ _ _ _ _ => trivial)
    (fun k t _ => parseOnce_noneGaveUp_iff (env k) fd t) fuel 0 s trivial
  simpa only [Nat.zero_add] using hloop

theorem step_noneGaveUp_iff (h : step s e = some s') :
    NoneGaveUp s'.log ↔ NoneGaveUp s.log ∧ ¬ e.Refuses s := by
  have hidle : Idles s s' → (NoneGaveUp s'.log ↔ NoneGaveUp s.log ∧ ¬ False) := fun hidle => by
    rw [hidle.noneGaveUp_iff, not_false_eq_true, and_true]
  cases e with
  | server r =>
      apply hidle
      cases step_call h with
      | refused => exact Idles.refl s
      | accepted fd added _ => exact .processServer fd added s
  | tun r env fuel =>
      apply hidle
      cases step_call h with
      | tun _ _ _ _ hcall => exact .processTun hcall
  | heartbeat env =>
      apply hidle
      cases step_call h with
      | heartbeat => exact .processHeartbeat env s
  | client fd r env removed fuel =>
      unfold step at h
      simp only [Option.ite_none_right_eq_some] at h
      have hcall := Outcome.returned_eq_some.mp h.2
      match r, hcall with
      | .error, hcall =>
          obtain rfl := Outcome.stopped.inj hcall
          exact hidle (.freeClientFd removed fd s)
      | .bytes [], hcall =>
          obtain rfl := Outcome.stopped.inj hcall
          exact hidle (.freeClientFd removed fd s)
      | .bytes (b :: bs), hcall =>
          have hloop := parseLoop_noneGaveUp_iff env fd fuel (readClient fd (b :: bs) s)
          have hstate : iterate (fun k => parseOnce (env k) fd) fuel 0 (readClient fd (b :: bs) s) =
              .stopped s' := hcall
          rw [hstate, Outcome.state_stopped, (Idles.readClient fd (b :: bs) s).noneGaveUp_iff]
            at hloop
          rw [hloop]
          simp only [Event.Refuses, State.CallRefuses, not_exists, not_and]

/-- A call that refuses a frame leaves a record of it on a connection that stays open. -/
theorem step_of_refuses (hcs : Connections s) (h : step s e = some s') (hbad : e.Refuses s) :
    ∃ fd c why, s'.conn fd = some c ∧ ⟨some c, fd, .failed why⟩ ∈ s'.log := by
  cases e with
  | server r => exact hbad.elim
  | tun r env fuel => exact hbad.elim
  | heartbeat env => exact hbad.elim
  | client fd r env removed fuel =>
      unfold step at h
      simp only [Option.ite_none_right_eq_some] at h
      obtain ⟨⟨hw, _⟩, hret⟩ := h
      have hcall := Outcome.returned_eq_some.mp hret
      match r, hcall, hbad with
      | .bytes (b :: bs), hcall, ⟨k, hk, t, hrun, hrefuses⟩ =>
          have hloop : iterate (fun k => parseOnce (env k) fd) fuel 0 (readClient fd (b :: bs) s) =
              .stopped s' := hcall
          obtain ⟨c, hc⟩ := hcs.watchedOpen fd hw
          have ht : t.conn fd = some c := by
            have hread : (readClient fd (b :: bs) s).conn fd = some c := hc
            refine iterate_running_invariant (fun u : State => u.conn fd = some c) ?_ hread hrun
            intro k u u' hu hb
            have hparse : Parse (env k) fd u (.next u') := hb ▸ parseOnce_parse (env k) fd u
            rwa [(hparse.quiet (.inl rfl)).conn]
          obtain ⟨u, why, hstop, hmem⟩ := parseOnce_of_refuses hrefuses
          have hlast : iterate (fun k => parseOnce (env k) fd) (k + 1) 0
              (readClient fd (b :: bs) s) = .stopped u := by
            rw [iterate_add, hrun]
            exact iterate_of_stop 0 (by rw [Nat.zero_add, hstop])
          obtain rfl := iterate_stopped_unique hloop hlast
          rw [ht] at hmem
          exact ⟨fd, c, why, by rwa [(parseLoop_quiet hloop).conn], hmem⟩

end Calls

/-! ## Whole runs -/

section Runs

variable {s s' : State} {c : Conn}

/-- Where no handler has given up, a frame was tried when it was handled. -/
theorem attempts_of_noneGaveUp {log : List Record} (h : NoneGaveUp log) (c : Conn) :
    attempts c log = (handled c log).length := by
  rw [attempts, handled]
  induction log with
  | nil => rfl
  | cons r log ih =>
      have hrest := ih (h.earlier (List.suffix_cons r log))
      have hgood := h r List.mem_cons_self
      have hone : (onConn c Act.tries r).length = (onConn c Act.taken r).length := by
        unfold onConn
        split
        · cases hact : r.act with
          | failed why =>
              rw [hact] at hgood
              cases hgood
          | _ => rfl
        · rfl
      rw [gather_cons, gather_cons, List.length_append, List.length_append, hrest, hone]

theorem handled_le_attempts (c : Conn) (log : List Record) :
    (handled c log).length ≤ attempts c log := by
  rw [attempts, handled]
  induction log with
  | nil => exact Nat.le_refl _
  | cons r log ih =>
      have hone : (onConn c Act.taken r).length ≤ (onConn c Act.tries r).length := by
        unfold onConn
        split
        · cases r.act <;> simp [Act.taken, Act.tries]
        · exact Nat.le_refl _
      rw [gather_cons, gather_cons, List.length_append, List.length_append]
      omega

/-- A frame that was tried in vain makes one more. -/
theorem attempts_of_failed {log : List Record} {fd : Fd} {why : Failure}
    (h : ⟨some c, fd, .failed why⟩ ∈ log) : (handled c log).length < attempts c log := by
  obtain ⟨newer, older, rfl⟩ := List.append_of_mem h
  have hnew := handled_le_attempts c newer
  have hold := handled_le_attempts c older
  rw [attempts, handled] at hnew hold ⊢
  simp only [gather_append, gather_cons, List.length_append]
  have hfailed : (onConn c Act.tries ⟨some c, fd, .failed why⟩).length = 1 := by
    simp [onConn, Act.tries]
  have hnone : (onConn c Act.taken ⟨some c, fd, .failed why⟩).length = 0 := by
    simp [onConn, Act.taken]
  omega

/-- A handler grants an address for an IP request only. -/
theorem Dispatch.grants_eq {env : FrameEnv} {fd : Fd} {msg : Message} {t : State}
    (h : Dispatch env fd msg s (.next t)) (c : Conn) :
    grants c t.log = grants c s.log ∨
      s.conn fd = some c ∧ msg.type = msgIpReq ∧ ∃ i, grants c t.log = grants c s.log ++ [i] := by
  cases h with
  | replied htype i =>
      by_cases hc : s.conn fd = some c
      · refine .inr ⟨hc, htype, i, ?_⟩
        simp [State.grantTo, State.noteRequest, grants, onConn, hc, Act.grants]
      · refine .inl ?_
        simp [State.grantTo, State.noteRequest, grants, onConn, hc]
  | forwarded => exact .inl (by simp [grants, onConn, Act.grants])
  | stray => exact .inl (by simp [grants, onConn, Act.grants])
  | kept => exact .inl (by simp [grants, onConn, Act.grants])
  | unknown => exact .inl rfl

theorem consumed_grants (t : State) (fd : Fd) (msg : Message) (c : Conn) :
    grants c (t.consumed fd msg).log = grants c t.log :=
  Ledger.grants_steady (t.consumed_steady fd msg) c

/-- A pass grants an address for an IP request only, and takes that out. -/
theorem Pass.grants_le (h : (grants c s.log).length ≤ (handled c s.log).countP isIpReq)
    (hp : Pass s s') (hnone : NoneGaveUp s'.log) :
    (grants c s'.log).length ≤ (handled c s'.log).countP isIpReq := by
  have hidle : Idles s s' → (grants c s'.log).length ≤ (handled c s'.log).countP isIpReq := by
    intro hidle
    obtain ⟨hhandled, hgrants⟩ := hidle.counts c
    rwa [hhandled, hgrants]
  cases hp with
  | accept fd added _ => exact hidle (.processServer fd added s)
  | hangup fd _ => exact hidle (.freed fd s)
  | read fd _ bs _ => exact hidle (.readClient fd bs s)
  | parsed env fd _ hparse =>
      cases hparse with
      | @passed _ t hframe _ =>
          have hbefore : handled c t.log = handled c s.log := (hframe.untouched c).2
          have hsame : t.conn = s.conn := hframe.quiet.conn
          have hconn : t.conn fd = s.conn fd := by rw [hsame]
          rw [consumed_grants]
          by_cases hc : s.conn fd = some c
          · rw [State.consumed_handled (hconn.trans hc), hbefore, List.countP_append]
            rcases hframe.grants_eq c with hsame | ⟨_, htype, i, hmore⟩
            · rw [hsame]
              exact Nat.le_trans h (Nat.le_add_right _ _)
            · rw [hmore, List.length_append]
              refine Nat.add_le_add h ?_
              simp [isIpReq, htype]
          · have hc' : t.conn fd ≠ some c := by rwa [hconn]
            rw [(consumed_untouched hc' _).2, hbefore]
            rcases hframe.grants_eq c with hsame | ⟨hsame, _⟩
            · rwa [hsame]
            · exact absurd hsame hc
  | parsedLast env fd _ hparse =>
      cases hparse with
      | waits => exact h
      | left _ hframe =>
          cases hframe with
          | poolFull => exact absurd (hnone _ List.mem_cons_self) (by simp [Act.gaveUp])
          | replyHeader => exact absurd (hnone _ List.mem_cons_self) (by simp [Act.gaveUp])
          | replyData => exact absurd (hnone _ List.mem_cons_self) (by simp [Act.gaveUp])
          | tunData => exact absurd (hnone _ List.mem_cons_self) (by simp [Act.gaveUp])
  | readTun bs _ => exact hidle (.receive s.tunFd bs s)
  | routed hroute => exact hidle (.route hroute)
  | routedLast hroute => exact hidle (.route hroute)
  | swept env i hsweep => exact hidle (.sweep hsweep)

theorem HandledOnce.of_noneGaveUp {sent : Conn → List Frame}
    (hvalid : ∀ c, ∀ f ∈ sent c, f.Valid) {fds : Descriptors} {es : List Event}
    (hrun : runFrom fds es = some s) (hsent : WellSent sent s) (hnone : NoneGaveUp s.log)
    (c : Conn) : HandledOnce sent c s := by
  refine ⟨runFrom_settled hvalid hrun hsent hnone c, attempts_of_noneGaveUp hnone c, ?_⟩
  refine passes_conditional (fun t => NoneGaveUp t.log)
    (fun t => (grants c t.log).length ≤ (handled c t.log).countP isIpReq) ?_ ?_
    (runFrom_passes hrun) (Nat.le_refl 0) hnone
  · exact fun t t' hlog hnone => hnone.earlier hlog
  · exact fun t t' hp h hnone => hp.grants_le h hnone

end Runs

theorem runFrom_noneGaveUp_iff {fds : Descriptors} {es : List Event} {s : State}
    (hrun : runFrom fds es = some s) : NoneGaveUp s.log ↔
      ∀ pre e post t, es = pre ++ e :: post → runFrom fds pre = some t → ¬ e.Refuses t := by
  have hsafe := run_safe_iff (fun u e => e.Refuses u) (fun _ => True)
    (fun u : State => NoneGaveUp u.log) (fun _ _ _ _ _ => trivial)
    (fun u e u' _ hstep => step_noneGaveUp_iff hstep) trivial hrun
  have hstart : NoneGaveUp (initState fds).log := fun r hr => absurd hr List.not_mem_nil
  rw [hsafe]
  exact and_iff_right hstart

/-- In every state of a run the complete frames of every open connection have been tried once and
taken out, with one address for an IP request at most, exactly if no pass of the run met a frame
whose handler fails. -/
theorem frames_handled_once_iff (sent : Conn → List Frame) (hvalid : ∀ c, ∀ f ∈ sent c, f.Valid)
    (fds : Descriptors) (es : List Event) (s : State) (hrun : runFrom fds es = some s)
    (hsent : WellSent sent s) :
    (∀ pre post t, es = pre ++ post → runFrom fds pre = some t →
      ∀ c fd, t.conn fd = some c → HandledOnce sent c t) ↔
      ∀ pre e post t, es = pre ++ e :: post → runFrom fds pre = some t → ¬ e.Refuses t := by
  constructor
  · intro h pre e post t hsplit hpre hrefuses
    rw [hsplit] at hrun
    obtain ⟨u, hu, htail⟩ := run_append_iff.mp hrun
    obtain rfl := Option.some.inj (hpre.symm.trans hu)
    obtain ⟨t', hstep, _⟩ := run_cons_iff.mp htail
    obtain ⟨fd, c, why, hc, hmem⟩ := step_of_refuses (.runFrom hpre) hstep hrefuses
    have hnext : runFrom fds (pre ++ [e]) = some t' := run_snoc_iff.mpr ⟨t, hpre, hstep⟩
    have honce := (h (pre ++ [e]) post t' (by simp [hsplit]) hnext c fd hc).once
    have hmore := attempts_of_failed hmem
    omega
  · intro h pre post t hsplit hpre c fd _
    have hnone : NoneGaveUp t.log := by
      refine (runFrom_noneGaveUp_iff hpre).mpr ?_
      intro pre' e post' u hsplit' hu
      exact h pre' e (post' ++ post) u (by simp [hsplit, hsplit']) hu
    rw [hsplit] at hrun
    obtain ⟨u, hu, htail⟩ := run_append_iff.mp hrun
    obtain rfl := Option.some.inj (hpre.symm.trans hu)
    exact .of_noneGaveUp hvalid hpre (hsent.inherit t s (run_log_suffix htail)) hnone c

theorem frames_handled_once_twoClients : ∃ s, runFrom .usual twoClients = some s ∧
    HandledOnce twoStreams 1 s := by
  obtain ⟨s, hs, hsent, hok, hconn, _⟩ := twoClients_sent
  have hvalid : ∀ c, ∀ f ∈ twoStreams c, f.Valid := fun c f hf =>
    Nat.lt_of_le_of_lt (twoStreams_size c f hf) (by decide)
  have hgood := (runFrom_noneGaveUp_iff hs).mp hok.noneGaveUp
  have hall := (frames_handled_once_iff twoStreams hvalid .usual twoClients s hs hsent).mpr hgood
  exact ⟨s, hs, hall twoClients [] s (List.append_nil _).symm hs 1 7 hconn⟩

/-- A client whose IP request is answered with a failing write, and tried again. -/
def retried : List Event :=
  [.server (some (7, true)),
    .client 7 (.bytes [5, 0, 0, 0, 100]) (fun _ => ⟨0, 0, fun _ => .error, fun _ => .error⟩) true 9,
    .client 7 (.bytes [5, 0, 0, 0, 104]) (.prompt 0) true 9]

/-- One IP request is given two addresses when the first reply fails. -/
theorem failed_reply_grants_again : ∃ s, runFrom .usual retried = some s ∧
    s.conn 7 = some 0 ∧ received 0 s.log = frameCode.stream [⟨msgIpReq, []⟩, ⟨msgHeartbeat, []⟩] ∧
    handled 0 s.log = [⟨msgIpReq, []⟩, ⟨msgHeartbeat, []⟩] ∧ grants 0 s.log = [2, 3] ∧
    attempts 0 s.log = 3 ∧ ∀ sent, ¬ HandledOnce sent 0 s := by
  have hrun : ((runFrom .usual retried).any fun s =>
      decide (s.conn 7 = some 0 ∧
        received 0 s.log = frameCode.stream [⟨msgIpReq, []⟩, ⟨msgHeartbeat, []⟩] ∧
        handled 0 s.log = [⟨msgIpReq, []⟩, ⟨msgHeartbeat, []⟩] ∧ grants 0 s.log = [2, 3] ∧
        attempts 0 s.log = 3)) = true := by
    decide +kernel
  obtain ⟨s, hs, hfacts⟩ := (Option.any_eq_true _ _).mp hrun
  obtain ⟨hconn, hreceived, hhandled, hgrants, hattempts⟩ := of_decide_eq_true hfacts
  refine ⟨s, hs, hconn, hreceived, hhandled, hgrants, hattempts, ?_⟩
  intro sent h
  have honce := h.once
  rw [hattempts, hhandled] at honce
  exact absurd honce (by decide)

end Over6.Server
