import Over6.Server.Decoder
import Over6.Server.Ownership

/-! # Whose packets go where

A packet from the tun is written to the descriptor in the entry that holds its
destination. For clients that ask for one address each, every such write goes to
the connection that was granted the address and told so, and that has been open
since; nobody else was granted it in the meantime.
-/

namespace Over6.Server

open BoundedLoop EventRun Journal

def Act.writeFails : Act → Bool
  | wrote _ ret => ret < 0
  | _ => false

def WritesSucceed (log : List Record) : Prop :=
  ∀ r ∈ log, r.conn.isSome = true → r.act.writeFails = false

theorem WritesSucceed.inherit (s s' : State) (h : s.log <:+ s'.log) (hs : WritesSucceed s'.log) :
    WritesSucceed s.log := fun r hr => hs r (h.subset hr)

def isIpReq (f : Frame) : Bool := f.type == msgIpReq

/-! ## Where an entry comes from -/

/-- What may lie between a grant of entry `i` on `fd` and now. -/
def Undisturbed (fd : Fd) (i : Slot) (r : Record) : Prop :=
  (r.fd = fd → r.act ≠ .accepted ∧ r.act ≠ .closed) ∧ ∀ t, r.act ≠ .granted i t

/-- Connection `c` was granted entry `i` on `fd` and told its address; neither has the descriptor
changed hands since nor the entry been granted again. -/
def Origin (fd : Fd) (c : Conn) (i : Slot) (log : List Record) : Prop :=
  ∃ since before t, log = since ++ ⟨some c, fd, .granted i t⟩ :: before ∧
    ⟨some c, fd, .replied (ipReply (slotText i))⟩ ∈ since ∧ ∀ r ∈ since, Undisturbed fd i r

/-- Records of passes that neither grant nor open nor close leave every origin in place. -/
theorem Undisturbed.of_plain {r : Record} (h : r.act.Plain) (fd : Fd) (i : Slot) :
    Undisturbed fd i r := by
  constructor
  · intro _
    constructor
    · intro hact
      rw [hact] at h
      exact h
    · intro hact
      rw [hact] at h
      exact h
  · intro t hact
    rw [hact] at h
    exact h

theorem Origin.extend {fd : Fd} {c : Conn} {i : Slot} {log new : List Record}
    (h : Origin fd c i log) (hnew : ∀ r ∈ new, Undisturbed fd i r) : Origin fd c i (new ++ log) := by
  obtain ⟨since, before, t, hlog, hreply, hsince⟩ := h
  refine ⟨new ++ since, before, t, by rw [hlog, List.append_assoc],
    List.mem_append_right new hreply, ?_⟩
  intro r hr
  rcases List.mem_append.mp hr with hr | hr
  · exact hnew r hr
  · exact hsince r hr

/-- Every data frame in the log went to the connection its destination belongs to. -/
def RoutedSafely : List Record → Prop
  | [] => True
  | r :: log => (∀ addr packet, r.act = .routed addr packet →
      ∃ c i, r.conn = some c ∧ addr = slotAddr i ∧ Origin r.fd c i log) ∧ RoutedSafely log

theorem RoutedSafely.extend {log new : List Record} (h : RoutedSafely log)
    (hnew : ∀ r ∈ new, ∀ addr packet, r.act ≠ .routed addr packet) : RoutedSafely (new ++ log) := by
  induction new with
  | nil => exact h
  | cons r new ih =>
      refine ⟨?_, ih fun x hx => hnew x (List.mem_cons_of_mem r hx)⟩
      intro addr packet hact
      exact absurd hact (hnew r List.mem_cons_self addr packet)

theorem RoutedSafely.note {s : State} (h : RoutedSafely s.log) (fd : Fd) {act : Act}
    (hact : ∀ addr packet, act ≠ .routed addr packet) : RoutedSafely (s.note fd act).log :=
  ⟨fun addr packet hr => absurd hr (hact addr packet), h⟩

theorem RoutedSafely.quiet {P : Act → Prop} {s s' : State} (h : RoutedSafely s.log)
    (hq : Quiet P s s') (hP : ∀ act, P act → ∀ addr packet, act ≠ .routed addr packet) :
    RoutedSafely s'.log := by
  obtain ⟨new, hlog, hnew⟩ := hq.log
  rw [hlog]
  exact h.extend fun r hr => hP r.act (hnew r hr).2

theorem RoutedSafely.at {log : List Record} (h : RoutedSafely log) {later older : List Record}
    {r : Record} (hsplit : log = later ++ r :: older) {addr : UInt32} {packet : List UInt8}
    (hact : r.act = .routed addr packet) :
    ∃ c i, r.conn = some c ∧ addr = slotAddr i ∧ Origin r.fd c i older := by
  subst hsplit
  induction later with
  | nil => exact h.1 addr packet hact
  | cons x later ih => exact ih h.2

/-! ## One frame when writes succeed -/

def State.answered (s : State) (env : FrameEnv) (fd : Fd) (i : Slot) : State :=
  (((s.grantTo env fd i).note fd (.wrote (ipReplyHeader (s.users i).addr) 5)).note fd
    (.wrote (ipReply (s.users i).addr) (ipReply (s.users i).addr).length)).note fd
      (.replied (ipReply (s.users i).addr))

/-- With nothing going wrong on open sockets an IP request is answered, or the pool is full. -/
theorem Dispatch.orderly {env : FrameEnv} {fd : Fd} {msg : Message} {s : State} {flow : Flow State}
    {c : Conn} (h : Dispatch env fd msg s flow) (hc : s.conn fd = some c)
    (hwrites : WritesSucceed flow.state.log) :
    (Steady s flow.state ∧ ∀ t, flow = .next t → msg.type ≠ msgIpReq) ∨
      ∃ i, msg.type = msgIpReq ∧ firstFree s.users = some i ∧ flow = .next (s.answered env fd i) := by
  have hsome : (s.conn fd).isSome = true := by rw [hc]; rfl
  by_cases htype : msg.type = msgIpReq
  · cases hfree : firstFree s.users with
    | none =>
        left
        refine ⟨h.steady fun _ => hfree, ?_⟩
        intro t ht
        have hnone : ∀ {i}, firstFree s.users = some i → False := by
          intro i hi
          rw [hfree] at hi
          cases hi
        cases h with
        | poolFull => cases ht
        | replyHeader => cases ht
        | replyData => cases ht
        | replied _ i hi => exact (hnone hi).elim
        | tunData => cases ht
        | forwarded h₂ => exact absurd (htype.symm.trans h₂) (by decide)
        | stray h₃ => exact absurd (htype.symm.trans h₃) (by decide)
        | kept h₃ => exact absurd (htype.symm.trans h₃) (by decide)
        | unknown h₁ => exact h₁
    | some i =>
        right
        refine ⟨i, htype, rfl, ?_⟩
        cases h with
        | poolFull _ hnone =>
            rw [hnone] at hfree
            cases hfree
        | replyHeader _ j _ sent =>
            have hgood := hwrites ⟨s.conn fd, fd, .wrote sent (-1)⟩
              (List.mem_cons_of_mem _ List.mem_cons_self) hsome
            exact absurd hgood (by simp [Act.writeFails])
        | replyData _ j _ sent =>
            have hgood := hwrites ⟨s.conn fd, fd, .wrote sent (-1)⟩
              (List.mem_cons_of_mem _ List.mem_cons_self) hsome
            exact absurd hgood (by simp [Act.writeFails])
        | replied _ j hj =>
            obtain rfl := Option.some.inj (hj.symm.trans hfree)
            rfl
        | tunData h₂ => exact absurd (htype.symm.trans h₂) (by decide)
        | forwarded h₂ => exact absurd (htype.symm.trans h₂) (by decide)
        | stray h₃ => exact absurd (htype.symm.trans h₃) (by decide)
        | kept h₃ => exact absurd (htype.symm.trans h₃) (by decide)
        | unknown h₁ => exact absurd htype h₁
  · exact .inl ⟨h.steady fun h₁ => absurd h₁ htype, fun _ _ => htype⟩

theorem Act.OfParse.not_routed {act : Act} (h : act.OfParse) (addr : UInt32)
    (packet : List UInt8) : act ≠ .routed addr packet := by
  intro hact
  rw [hact] at h
  rcases h with h | ⟨_, _, h⟩
  · exact h
  · cases h

/-! ## The invariant -/

/-- What holds along a run of well-behaved clients. -/
structure Routable (sent : Conn → List Frame) (s : State) : Prop where
  conns : Connections s
  decoded : Decoded sent s
  ledger : Ledger s
  text : ∀ i, (s.users i).addr = slotText i
  addr : ∀ i, reserved i = false → (s.users i).status = false → (s.users i).v4addr = slotAddr i
  requests : ∀ c, (grants c s.log).length = (handled c s.log).countP isIpReq
  origin : ∀ fd i, 0 ≤ fd → Owns s.users fd i → ∃ c, s.conn fd = some c ∧ Origin fd c i s.log
  routed : RoutedSafely s.log

namespace Routable

variable {sent : Conn → List Frame} {s s' : State}

theorem initState (sent : Conn → List Frame) (fds : Descriptors) :
    Routable sent (initState fds) where
  conns := .initState fds
  decoded := .initState sent fds
  ledger := .initState fds
  text _ := rfl
  addr i hi hst := by
    rw [reserved_of_status, hi] at hst
    exact absurd hst (by simp)
  requests _ := rfl
  origin fd i hfd hi := absurd hi.1.symm (ne_neg_one_of_nonneg hfd)
  routed := trivial

/-- A pass that leaves the owners alone. -/
theorem steady (h : Routable sent s) (hcs : Connections s') (hdec : Decoded sent s')
    (hs : Steady s s') (hhandled : ∀ c, (handled c s'.log).countP isIpReq =
      (handled c s.log).countP isIpReq)
    (hrouted : RoutedSafely s'.log) : Routable sent s' where
  conns := hcs
  decoded := hdec
  ledger := h.ledger.steady hs
  text i := (hs.owner i).1.trans (h.text i)
  addr i hi hst := by
    obtain ⟨_, hstatus, _, hv⟩ := hs.owner i
    rw [hv]
    exact h.addr i hi (hstatus ▸ hst)
  requests c := by
    rw [Ledger.grants_steady hs, hhandled c]
    exact h.requests c
  origin fd i hfd hi := by
    obtain ⟨c, hc, horigin⟩ := h.origin fd i hfd (hs.owns_iff.mp hi)
    obtain ⟨new, hlog, hnew⟩ := hs.log
    refine ⟨c, by rwa [hs.conn], ?_⟩
    rw [hlog]
    exact horigin.extend fun r hr => .of_plain (hnew r hr).2 fd i
  routed := hrouted

theorem freed (h : Routable sent s) {fd : Fd} (hw : s.watched fd = true) :
    Routable sent (s.freed fd) := by
  obtain ⟨c₀, hc₀⟩ := h.conns.watchedOpen fd hw
  have hpos : 0 ≤ fd := (h.conns.client fd c₀ hc₀).1
  obtain ⟨_, _, _, hconn, _, _⟩ := s.freed_spec fd
  obtain ⟨new, hlog, _, hnew⟩ := s.freed_log fd
  have hentry := h.ledger.freed_entry hpos
  refine ⟨h.conns.freed fd, h.decoded.freed fd, h.ledger.freed h.conns hw, ?_, ?_, ?_, ?_, ?_⟩
  · intro i
    rcases hentry i with ⟨heq, _⟩ | ⟨_, heq⟩
    · rw [heq]
      exact h.text i
    · rw [heq]
      exact h.text i
  · intro i hi hst
    rcases hentry i with ⟨heq, _⟩ | ⟨_, heq⟩
    · rw [heq] at hst ⊢
      exact h.addr i hi hst
    · rw [heq] at hst
      exact absurd hst (by simp [UserInfo.release])
  · intro c
    rw [Ledger.grants_freed, (Untouched.freed c s fd).2]
    exact h.requests c
  · intro x i hx hi
    rcases hentry i with ⟨heq, hne⟩ | ⟨_, heq⟩
    · rw [Owns, heq] at hi
      obtain ⟨c, hc, horigin⟩ := h.origin x i hx hi
      have hxf : x ≠ fd := fun he => hne (hi.1.trans he)
      refine ⟨c, ?_, ?_⟩
      · rw [hconn, Function.update_of_ne hxf]
        exact hc
      · rw [hlog]
        apply horigin.extend
        intro r hr
        obtain ⟨_, hrfd, hact⟩ := hnew r hr
        refine ⟨fun he => absurd (he.symm.trans hrfd) hxf, ?_⟩
        intro t ht
        rcases hact with hact | ⟨j, hact⟩
        · rw [hact] at ht
          cases ht
        · rw [hact] at ht
          cases ht
    · rw [Owns, heq] at hi
      exact absurd hi.2 (by simp [UserInfo.release])
  · rw [hlog]
    apply h.routed.extend
    intro r hr addr packet hrouted
    rcases (hnew r hr).2.2 with hact | ⟨j, hact⟩
    · rw [hact] at hrouted
      cases hrouted
    · rw [hact] at hrouted
      cases hrouted

theorem accept (h : Routable sent s) {fd : Fd} (hcan : s.CanAccept fd) (added : Bool) :
    Routable sent (processServer fd added s) := by
  refine ⟨h.conns.processServer hcan added, h.decoded.processServer h.conns fd added,
    h.ledger.processServer h.conns hcan added, h.text, h.addr, ?_, ?_, ?_⟩
  · intro c
    have hgrants : grants c (processServer fd added s).log = grants c s.log := by
      simp [processServer, grants, onConn, Act.grants]
    rw [hgrants, (Untouched.processServer c s fd added).2]
    exact h.requests c
  · intro x i hx hi
    obtain ⟨c, hc, horigin⟩ := h.origin x i hx hi
    have hxf : x ≠ fd := by
      intro he
      rw [he, hcan.2.1] at hc
      cases hc
    have hconn : (processServer fd added s).conn x = some c :=
      (Function.update_of_ne hxf ..).trans hc
    refine ⟨c, hconn, ?_⟩
    have hlog : (processServer fd added s).log =
        [⟨Function.update s.conn fd (some s.accepted) fd, fd, .accepted⟩] ++ s.log := rfl
    rw [hlog]
    apply horigin.extend
    intro r hr
    rw [List.mem_singleton.mp hr]
    exact ⟨fun he => absurd he.symm hxf, fun t ht => by cases ht⟩
  · refine ⟨?_, h.routed⟩
    intro addr packet hact
    cases hact

/-- Whoever has an address was granted it. -/
theorem granted (h : Routable sent s) {fd : Fd} {c : Conn} (hc : s.conn fd = some c) {j : Slot}
    (hj : Owns s.users fd j) : j ∈ grants c s.log := by
  obtain ⟨c', hc', since, before, t, hlog, _, _⟩ := h.origin fd j (h.conns.client fd c hc).1 hj
  obtain rfl := Option.some.inj (hc'.symm.trans hc)
  refine mem_gather.mpr ⟨⟨some c', fd, .granted j t⟩, by simp [hlog], ?_⟩
  simp [onConn, Act.grants]

/-- Whoever has an address has had its one request. -/
theorem first_request (h : Routable sent s) (hvalid : ∀ c, ∀ f ∈ sent c, f.Valid)
    (hone : ∀ c, (sent c).countP isIpReq ≤ 1) (hsent : WellSent sent s) {fd : Fd} {c : Conn}
    (hc : s.conn fd = some c) (hcomplete : (s.bufs fd).Complete)
    (htype : (s.bufs fd).header.type = msgIpReq) : ∀ j, ¬ Owns s.users fd j := by
  intro j hj
  have hmem := h.granted hc hj
  obtain ⟨f, tail, more, hsplit, hmsg, _⟩ := h.decoded.front hvalid hsent hc hcomplete
  have hfront : isIpReq f = true := by
    have hft : f.type = msgIpReq := by rw [← htype, hmsg]; rfl
    simp [isIpReq, hft]
  have hcount := hone c
  rw [hsplit, List.countP_append, List.countP_cons_of_pos hfront, ← h.requests c] at hcount
  have hgranted := List.length_pos_of_mem hmem
  omega

/-- What an answered and consumed IP request has put into the log, the grant first. -/
theorem answered_log (s : State) (env : FrameEnv) (fd : Fd) (i : Slot) (msg : Message) :
    ∃ since, ((s.answered env fd i).consumed fd msg).log =
        since ++ ⟨s.conn fd, fd, .granted i env.time₂⟩ ::
          ⟨s.conn fd, fd, .requested (grantsTwice s.users fd)⟩ :: s.log ∧
      ⟨s.conn fd, fd, .replied (ipReply (s.users i).addr)⟩ ∈ since ∧
      ∀ r ∈ since, r.act.Plain ∧ ∀ addr packet, r.act ≠ .routed addr packet := by
  have hq : Quiet (fun act => act.Plain ∧ ∀ addr packet, act ≠ .routed addr packet)
      (s.answered env fd i) ((s.answered env fd i).consumed fd msg) :=
    ((((Quiet.refl _).note fd ⟨trivial, by simp⟩).note fd ⟨trivial, by simp⟩).setBuf fd _).note fd
      ⟨trivial, by simp⟩
  obtain ⟨new, hlog, hnew⟩ := hq.log
  refine ⟨new ++ [⟨s.conn fd, fd, .replied (ipReply (s.users i).addr)⟩,
    ⟨s.conn fd, fd, .wrote (ipReply (s.users i).addr) (ipReply (s.users i).addr).length⟩,
    ⟨s.conn fd, fd, .wrote (ipReplyHeader (s.users i).addr) 5⟩], ?_, by simp, ?_⟩
  · rw [hlog, List.append_assoc]
    rfl
  · intro r hr
    rcases List.mem_append.mp hr with hr | hr
    · exact (hnew r hr).2
    · simp only [List.mem_cons, List.not_mem_nil, or_false] at hr
      rcases hr with rfl | rfl | rfl <;> exact ⟨trivial, by simp⟩

theorem answered_requests (h : Routable sent s) {fd : Fd} {env : FrameEnv} {i : Slot}
    {msg : Message} (htype : msg.type = msgIpReq) (c : Conn) :
    (grants c ((s.answered env fd i).consumed fd msg).log).length =
      (handled c ((s.answered env fd i).consumed fd msg).log).countP isIpReq := by
  have hsteady : Steady (s.grantTo env fd i) ((s.answered env fd i).consumed fd msg) :=
    ((((Steady.refl _).note fd).note fd).note fd).trans (State.consumed_steady _ fd msg)
  have hbefore : handled c (s.answered env fd i).log = handled c s.log := by
    simp [State.answered, State.grantTo, State.noteRequest, handled, onConn, Act.taken]
  rw [Ledger.grants_steady hsteady]
  by_cases hc : s.conn fd = some c
  · have hgrants : grants c (s.grantTo env fd i).log = grants c s.log ++ [i] := by
      simp [State.grantTo, State.noteRequest, grants, onConn, hc, Act.grants]
    have hc' : (s.answered env fd i).conn fd = some c := hc
    rw [hgrants, State.consumed_handled hc', hbefore, List.countP_append, List.length_append,
      h.requests c]
    simp [isIpReq, htype]
  · have hgrants : grants c (s.grantTo env fd i).log = grants c s.log := by
      simp [State.grantTo, State.noteRequest, grants, onConn, hc]
    have hc' : (s.answered env fd i).conn fd ≠ some c := hc
    rw [hgrants, (consumed_untouched hc' msg).2, hbefore]
    exact h.requests c

theorem answered (h : Routable sent s) {fd : Fd} {c : Conn} (hw : s.watched fd = true)
    (hc : s.conn fd = some c) (hnone : ∀ j, ¬ Owns s.users fd j) {env : FrameEnv} {i : Slot}
    (hfree : firstFree s.users = some i) {msg : Message} (htype : msg.type = msgIpReq)
    (hcs : Connections ((s.answered env fd i).consumed fd msg))
    (hdec : Decoded sent ((s.answered env fd i).consumed fd msg)) :
    Routable sent ((s.answered env fd i).consumed fd msg) := by
  have hsteady : Steady (s.grantTo env fd i) ((s.answered env fd i).consumed fd msg) :=
    ((((Steady.refl _).note fd).note fd).note fd).trans (State.consumed_steady _ fd msg)
  have hself : ((s.answered env fd i).consumed fd msg).users i =
      (s.users i).grant fd env.time₁ env.time₂ := Function.update_self ..
  have hother : ∀ j, j ≠ i →
      ((s.answered env fd i).consumed fd msg).users j = s.users j := fun j hj =>
    Function.update_of_ne hj ..
  obtain ⟨since, hlog, hreply, hsince⟩ := answered_log s env fd i msg
  refine ⟨hcs, hdec, (h.ledger.grant h.conns hw hfree hnone).steady hsteady, ?_, ?_,
    h.answered_requests htype, ?_, ?_⟩
  · intro j
    by_cases hji : j = i
    · rw [hji, hself]
      exact h.text i
    · rw [hother j hji]
      exact h.text j
  · intro j hj hst
    by_cases hji : j = i
    · rw [hji, hself]
      simp [UserInfo.grant, h.text i, inetPton_slotText]
    · rw [hother j hji] at hst ⊢
      exact h.addr j hj hst
  · intro x j hx hj
    by_cases hji : j = i
    · rw [Owns, hji, hself] at hj
      have hxf : fd = x := hj.1
      rw [hc] at hlog hreply
      rw [h.text i] at hreply
      rw [← hxf, hji]
      exact ⟨c, hc, since, _, env.time₂, hlog, hreply,
        fun r hr => .of_plain (hsince r hr).1 fd i⟩
    · rw [Owns, hother j hji] at hj
      obtain ⟨c', hc', horigin⟩ := h.origin x j hx hj
      have hgrant : ∀ r ∈ [(⟨s.conn fd, fd, .granted i env.time₂⟩ : Record),
          ⟨s.conn fd, fd, .requested (grantsTwice s.users fd)⟩], Undisturbed x j r := by
        intro r hr
        simp only [List.mem_cons, List.not_mem_nil, or_false] at hr
        rcases hr with rfl | rfl
        · refine ⟨fun _ => ⟨by simp, by simp⟩, fun t ht => hji ?_⟩
          cases ht
          rfl
        · exact ⟨fun _ => ⟨by simp, by simp⟩, by simp⟩
      refine ⟨c', hc', ?_⟩
      rw [hlog]
      exact (horigin.extend hgrant).extend fun r hr => .of_plain (hsince r hr).1 x j
  · rw [hlog]
    refine RoutedSafely.extend ?_ fun r hr => (hsince r hr).2
    exact ⟨by simp, by simp, h.routed⟩

/-- A packet that gets through goes to whom its destination was granted. -/
theorem route (h : Routable sent s) {flow : Flow State} (hroute : Route s flow) :
    Routable sent flow.state := by
  have hcs : Connections flow.state := h.conns.quiet hroute.steady.toQuiet
  refine h.steady hcs (h.decoded.route h.conns hroute) hroute.steady
    (fun c => by rw [(hroute.untouched c).2]) ?_
  cases hroute with
  | drained => exact h.routed
  | nobody => exact h.routed
  | header => exact h.routed.note _ (by simp)
  | packet => exact RoutedSafely.note (h.routed.note _ (by simp)) _ (by simp)
  | routed _ id hsome hopen =>
      refine ⟨?_, RoutedSafely.note (h.routed.note _ (by simp)) _ (by simp)⟩
      intro addr packet hact
      cases hact
      obtain ⟨haddr, hstatus⟩ := searchUserInfoByAddr_eq_some hsome
      have hneg : s.isOpen (-1) = false := by
        cases hconn : s.conn (-1) with
        | some c => exact absurd (h.conns.client (-1) c hconn).1 (by decide)
        | none =>
            have htun : (-1 : Fd) ≠ s.tunFd := (ne_neg_one_of_nonneg s.fds.nonneg.2.1).symm
            simp [State.isOpen, hconn, htun]
      have hres : reserved id = false := by
        by_cases hr : reserved id = true
        · rw [(h.ledger.withheld id hr).2, hneg] at hopen
          exact absurd hopen (by simp)
        · simpa using hr
      obtain ⟨c, hc⟩ := h.conns.watchedOpen _ (h.ledger.live id hres hstatus)
      have hpos := (h.conns.client _ c hc).1
      obtain ⟨c', hc', horigin⟩ := h.origin _ id hpos ⟨rfl, hstatus⟩
      refine ⟨c', id, hc', haddr.symm.trans (h.addr id hres hstatus), ?_⟩
      have hwrote : ∀ r ∈ [(⟨s.conn (s.users id).fd, (s.users id).fd,
          .wrote s.packet s.packet.length⟩ : Record), ⟨s.conn (s.users id).fd, (s.users id).fd,
          .wrote (replyHeader (s.bufs s.tunFd).used) 5⟩], Undisturbed (s.users id).fd id r := by
        intro r hr
        simp only [List.mem_cons, List.not_mem_nil, or_false] at hr
        rcases hr with rfl | rfl <;> exact .of_plain (by trivial) _ _
      exact horigin.extend hwrote

/-- A frame that is not an IP request was handled. -/
theorem passed (h : Routable sent s) {fd : Fd} {t : State} {msg : Message}
    (hs : Steady s t) (hq : Quiet Act.OfParse s t) (hlog : ∀ c, Untouched c s t)
    (htype : msg.type ≠ msgIpReq) (hcs : Connections (t.consumed fd msg))
    (hdec : Decoded sent (t.consumed fd msg)) : Routable sent (t.consumed fd msg) := by
  have hrouted := h.routed.quiet (hq.trans (t.consumed_quiet fd msg)) fun act hact =>
    Act.OfParse.not_routed hact
  refine h.steady hcs hdec (hs.trans (t.consumed_steady fd msg)) ?_ hrouted
  intro c
  by_cases hc : t.conn fd = some c
  · rw [State.consumed_handled hc, (hlog c).2, List.countP_append]
    simp [isIpReq, htype]
  · rw [(consumed_untouched hc msg).2, (hlog c).2]

theorem pass (h : Routable sent s) (hvalid : ∀ c, ∀ f ∈ sent c, f.Valid)
    (hone : ∀ c, (sent c).countP isIpReq ≤ 1) (hp : Pass s s') (hsent : WellSent sent s')
    (hwrites : WritesSucceed s'.log) : Routable sent s' := by
  have hsent₀ : WellSent sent s := hsent.inherit s s' hp.log_suffix
  have hcs : Connections s' := h.conns.pass hp
  have hdec : Decoded sent s' := h.decoded.pass h.conns hvalid hsent₀ hp
  cases hp with
  | accept fd added hcan => exact h.accept hcan added
  | hangup fd hw => exact h.freed hw
  | read fd hw bs _ =>
      have hs : Steady s (readClient fd bs s) := (((Steady.refl s).note fd).setBuf fd _).note fd
      refine h.steady hcs hdec hs (fun c => ?_) ?_
      · have hsame : handled c (readClient fd bs s).log = handled c s.log := by
          simp [readClient, receive, handled, onConn, Act.taken]
        rw [hsame]
      · exact RoutedSafely.note (h.routed.note fd (by simp)) fd (by simp)
  | parsed env fd hw hparse =>
      obtain ⟨c, hc⟩ := h.conns.watchedOpen fd hw
      cases hparse with
      | @passed hcomplete t hframe _ =>
          have hlater : t.log <:+ (t.consumed fd (s.bufs fd).header).log :=
            (t.consumed_steady fd _).log_suffix
          have horderly := hframe.orderly hc (hwrites.inherit t _ hlater)
          rcases horderly with ⟨hs, hne⟩ | ⟨i, htype, hfree, hflow⟩
          · exact h.passed hs (hframe.quiet.mono fun _ hact => .inl hact) hframe.untouched
              (hne t rfl) hcs hdec
          · obtain rfl := Flow.next.inj hflow
            have hnone := h.first_request hvalid hone hsent₀ hc hcomplete htype
            exact h.answered hw hc hnone hfree htype hcs hdec
  | parsedLast env fd hw hparse =>
      obtain ⟨c, hc⟩ := h.conns.watchedOpen fd hw
      cases hparse with
      | waits => exact h
      | left _ hframe =>
          rcases hframe.orderly hc hwrites with ⟨hs, _⟩ | ⟨i, _, _, hflow⟩
          · refine h.steady hcs hdec hs (fun c => ?_) ?_
            · have hlog : Untouched c s s' := hframe.untouched c
              rw [hlog.2]
            · exact h.routed.quiet hframe.quiet fun act hact =>
                Act.OfParse.not_routed (.inl hact)
          · cases hflow
  | readTun bs _ =>
      have hs : Steady s (receive s.tunFd bs s) := ((Steady.refl s).setBuf _ _).note _
      refine h.steady hcs hdec hs (fun c => ?_) (h.routed.note _ (by simp))
      have hsame : handled c (receive s.tunFd bs s).log = handled c s.log := by
        simp [receive, handled, onConn, Act.taken]
      rw [hsame]
  | routed hroute => exact h.route hroute
  | routedLast hroute => exact h.route hroute
  | swept env i hsweep =>
      have hq := s.swept_quiet env i
      have hswept : Routable sent (s.swept env i) := by
        refine h.steady (h.conns.quiet hq) ?_ (s.swept_steady env i) (fun c => ?_) ?_
        · exact h.decoded.of_quiet hq (fun c => .quiet hq fun _ hact => hact.not_read)
            (s.swept_bufs env i)
        · have hlog : Untouched c s (s.swept env i) := .quiet hq fun _ hact => hact.not_read
          rw [hlog.2]
        · refine h.routed.quiet hq fun act hact addr packet hrouted => ?_
          rw [hrouted] at hact
          exact hact
      cases hsweep with
      | skipped => exact h
      | spared => exact hswept
      | stuck => exact hswept
      | evicted _ _ _ hw => exact hswept.freed hw

theorem passes (h : Routable sent s) (hvalid : ∀ c, ∀ f ∈ sent c, f.Valid)
    (hone : ∀ c, (sent c).countP isIpReq ≤ 1) (hp : Passes s s') (hsent : WellSent sent s')
    (hwrites : WritesSucceed s'.log) : Routable sent s' := by
  refine passes_conditional (fun t => WellSent sent t ∧ WritesSucceed t.log) (Routable sent) ?_ ?_
    hp h ⟨hsent, hwrites⟩
  · intro t t' hsuffix ⟨hsent, hwrites⟩
    exact ⟨hsent.inherit t t' hsuffix, hwrites.inherit t t' hsuffix⟩
  · intro t t' hp h ⟨hsent, hwrites⟩
    exact h.pass hvalid hone hp hsent hwrites

/-- The clients may go on sending. -/
theorem mono {sent' : Conn → List Frame} (h : Routable sent s) (hle : ∀ c, sent c <+: sent' c) :
    Routable sent' s := { h with decoded := h.decoded.mono hle }

end Routable

theorem runFrom_routable {sent : Conn → List Frame} (hvalid : ∀ c, ∀ f ∈ sent c, f.Valid)
    (hone : ∀ c, (sent c).countP isIpReq ≤ 1) {fds : Descriptors} {es : List Event} {s : State}
    (hrun : runFrom fds es = some s) (hsent : WellSent sent s) (hwrites : WritesSucceed s.log) :
    Routable sent s :=
  (Routable.initState sent fds).passes hvalid hone (runFrom_passes hrun) hsent hwrites

/-! ## Whole runs -/

/-- Every data frame written for a packet to `addr` goes to the connection that is open on the
descriptor, was granted `addr` and told so, has been open since, and is the last to be granted
it. -/
theorem routing_confidential (sent : Conn → List Frame) (hvalid : ∀ c, ∀ f ∈ sent c, f.Valid)
    (hone : ∀ c, (sent c).countP isIpReq ≤ 1) (fds : Descriptors) (es : List Event) (s : State)
    (hrun : runFrom fds es = some s) (hsent : WellSent sent s) (hwrites : WritesSucceed s.log)
    (later older : List Record) (conn : Option Conn) (fd : Fd) (addr : UInt32)
    (packet : List UInt8) (hlog : s.log = later ++ ⟨conn, fd, .routed addr packet⟩ :: older) :
    ∃ c i since before t, conn = some c ∧ inetPton (slotText i) = some addr ∧
      older = since ++ ⟨some c, fd, .granted i t⟩ :: before ∧
      ⟨some c, fd, .replied (ipReply (slotText i))⟩ ∈ since ∧
      (∀ r ∈ since, r.fd = fd → r.act ≠ .accepted ∧ r.act ≠ .closed) ∧
      ∀ r ∈ since, ∀ j u, r.act = .granted j u → inetPton (slotText j) ≠ some addr := by
  have h := runFrom_routable hvalid hone hrun hsent hwrites
  obtain ⟨c, i, hconn, haddr, since, before, t, hsplit, hreply, hsince⟩ := h.routed.at hlog rfl
  refine ⟨c, i, since, before, t, hconn, by rw [haddr, inetPton_slotText], hsplit, hreply,
    fun r hr => (hsince r hr).1, ?_⟩
  intro r hr j u hact hsame
  rw [inetPton_slotText, haddr] at hsame
  have hji : j = i := slotAddr_injective (Option.some.inj hsame)
  exact (hsince r hr).2 u (hji ▸ hact)

def packetToTwo : List UInt8 := [69, 0, 0, 20, 0, 0, 0, 0, 64, 17, 0, 0, 8, 8, 8, 8, 13, 8, 0, 2]

/-- A client is given that address, and the packet arrives. -/
def onePacket : List Event :=
  [.server (some (7, true)),
    .client 7 (.bytes [5, 0, 0, 0, 100]) (.prompt 0) true 9,
    .tun (.bytes packetToTwo) .prompt 9]

theorem routing_confidential_onePacket :
    ∃ s older, runFrom .usual onePacket = some s ∧
      s.log = [] ++ ⟨some 0, 7, .routed (slotAddr 2) packetToTwo⟩ :: older ∧
      ∃ c i since before t, some 0 = some c ∧ inetPton (slotText i) = some (slotAddr 2) ∧
        older = since ++ ⟨some c, 7, .granted i t⟩ :: before := by
  have hrun : ((runFrom .usual onePacket).any fun s =>
      decide (s.accepted = 1 ∧ received 0 s.log = frameCode.stream [⟨msgIpReq, []⟩] ∧
        (∀ r ∈ s.log, r.conn.isSome = true → r.act.writeFails = false) ∧
        s.log.head? = some ⟨some 0, 7, .routed (slotAddr 2) packetToTwo⟩)) = true := by
    decide +kernel
  obtain ⟨s, hs, hfacts⟩ := (Option.any_eq_true _ _).mp hrun
  obtain ⟨haccepted, hzero, hwrites, hhead⟩ := of_decide_eq_true hfacts
  obtain ⟨older, hlog⟩ := List.head?_eq_some_iff.mp hhead
  let sent : Conn → List Frame := fun c => if c = 0 then [⟨msgIpReq, []⟩] else []
  have hvalid : ∀ c, ∀ f ∈ sent c, f.Valid := by
    intro c f hf
    by_cases hc : c = 0
    · simp only [sent, hc, if_true, List.mem_singleton] at hf
      rw [hf]
      decide
    · simp [sent, hc] at hf
  have hone : ∀ c, (sent c).countP isIpReq ≤ 1 := by
    intro c
    exact List.countP_le_length.trans (by by_cases hc : c = 0 <;> simp [sent, hc])
  have hsent : WellSent sent s := by
    intro c
    by_cases hc : c < s.accepted
    · rw [haccepted] at hc
      rw [Nat.lt_one_iff.mp hc, hzero]
      exact List.prefix_refl _
    · rw [(Connections.runFrom hs).received_of_new hc]
      exact List.nil_prefix
  obtain ⟨c, i, since, before, t, hc, haddr, hsplit, _⟩ :=
    routing_confidential sent hvalid hone .usual onePacket s hs hsent hwrites [] older (some 0) 7
      (slotAddr 2) packetToTwo hlog
  exact ⟨s, older, hs, hlog, c, i, since, before, t, hc, haddr, hsplit⟩

end Over6.Server
