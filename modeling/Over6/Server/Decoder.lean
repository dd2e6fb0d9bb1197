import Over6.Server.Buffer
import Over6.Server.Connections

/-! # The decoder of the server

What `process_client` hands to its handlers, against the stream each connection
sends. While the bytes received begin a stream of frames, the bytes taken out of
the buffer and those left in it together are the bytes received, for every way
`read` cuts them up and whatever happens on the other descriptors.
-/

namespace Over6.Server

open MachineInt BoundedLoop EventRun Journal

/-! ## What the log says about one connection -/

def Act.read : Act → List UInt8
  | .received bs => bs
  | _ => []

def Act.taken : Act → List Frame
  | .handled _ f => [f]
  | _ => []

def received (c : Conn) (log : List Record) : List UInt8 := gather (onConn c Act.read) log

def handled (c : Conn) (log : List Record) : List Frame := gather (onConn c Act.taken) log

/-- Nothing was read or handled for `c` in between. -/
def Untouched (c : Conn) (s s' : State) : Prop :=
  received c s'.log = received c s.log ∧ handled c s'.log = handled c s.log

namespace Untouched

variable {c : Conn} {s t s' : State}

theorem refl (c : Conn) (s : State) : Untouched c s s := ⟨rfl, rfl⟩

theorem trans (h : Untouched c s t) (h' : Untouched c t s') : Untouched c s s' :=
  ⟨h'.1.trans h.1, h'.2.trans h.2⟩

/-- Whatever is logged on other connections or is neither a read nor a frame taken out. -/
theorem of_log {new : List Record} (hlog : s'.log = new ++ s.log)
    (hnew : ∀ r ∈ new, r.conn = some c → r.act.read = [] ∧ r.act.taken = []) :
    Untouched c s s' := by
  have hreceived : received c new = [] :=
    gather_eq_nil fun r hr => onConn_eq_nil fun hc => (hnew r hr hc).1
  have hhandled : handled c new = [] :=
    gather_eq_nil fun r hr => onConn_eq_nil fun hc => (hnew r hr hc).2
  constructor
  · rw [hlog, received, gather_append, ← received, ← received, hreceived, List.append_nil]
  · rw [hlog, handled, gather_append, ← handled, ← handled, hhandled, List.append_nil]

theorem note {fd : Fd} {act : Act} (h : Untouched c s t)
    (hact : t.conn fd = some c → act.read = [] ∧ act.taken = []) :
    Untouched c s (t.note fd act) := by
  have hlog : (t.note fd act).log = [⟨t.conn fd, fd, act⟩] ++ t.log := rfl
  refine h.trans (of_log hlog ?_)
  intro r hr hrc
  rw [List.mem_singleton.mp hr] at hrc ⊢
  exact hact hrc

theorem quiet {P : Act → Prop} (h : Quiet P s s')
    (hP : ∀ act, P act → act.read = [] ∧ act.taken = []) : Untouched c s s' := by
  obtain ⟨new, hlog, hnew⟩ := h.log
  exact of_log hlog fun r hr _ => hP r.act (hnew r hr).2

theorem freed (c : Conn) (s : State) (fd : Fd) : Untouched c s (s.freed fd) := by
  obtain ⟨new, hlog, _, hnew⟩ := s.freed_log fd
  refine of_log hlog fun r hr _ => ?_
  rcases (hnew r hr).2.2 with hact | ⟨i, hact⟩
  · rw [hact]
    exact ⟨rfl, rfl⟩
  · rw [hact]
    exact ⟨rfl, rfl⟩

theorem processServer (c : Conn) (s : State) (fd : Fd) (added : Bool) :
    Untouched c s (processServer fd added s) := by
  have hlog : (Server.processServer fd added s).log =
      [⟨Function.update s.conn fd (some s.accepted) fd, fd, .accepted⟩] ++ s.log := rfl
  refine of_log hlog fun r hr _ => ?_
  rw [List.mem_singleton.mp hr]
  exact ⟨rfl, rfl⟩

end Untouched

theorem Act.OfFrame.not_read {act : Act} (h : act.OfFrame) : act.read = [] ∧ act.taken = [] := by
  cases act <;> first | exact ⟨rfl, rfl⟩ | exact h.elim

theorem Act.OfSweep.not_read {act : Act} (h : act.OfSweep) : act.read = [] ∧ act.taken = [] := by
  cases act <;> first | exact ⟨rfl, rfl⟩ | exact h.elim

theorem Dispatch.untouched {env : FrameEnv} {fd : Fd} {msg : Message} {s : State}
    {flow : Flow State} (h : Dispatch env fd msg s flow) (c : Conn) : Untouched c s flow.state :=
  .quiet h.quiet fun _ hact => hact.not_read

theorem receive_untouched {c : Conn} {fd : Fd} {s : State} (hc : s.conn fd ≠ some c)
    (bs : List UInt8) : Untouched c s (receive fd bs s) :=
  (Untouched.refl c s).note fun h => absurd h hc

theorem readClient_untouched {c : Conn} {fd : Fd} {s : State} (hc : s.conn fd ≠ some c)
    (bs : List UInt8) : Untouched c s (readClient fd bs s) :=
  ((Untouched.refl c s).note fun h => absurd h hc).note fun h => absurd h hc

theorem consumed_untouched {c : Conn} {fd : Fd} {s : State} (hc : s.conn fd ≠ some c)
    (msg : Message) : Untouched c s (s.consumed fd msg) := by
  have htouched : ∀ a b, Untouched c s ((s.note fd a).note fd b) := by
    intro a b
    exact ((Untouched.refl c s).note fun h => absurd h hc).note fun h => absurd h hc
  exact (htouched _ _).note fun h => absurd h hc

theorem Route.untouched {s : State} {flow : Flow State} (h : Route s flow) (c : Conn) :
    Untouched c s flow.state := by
  have hwrote : ∀ {t : State} {fd : Fd} {bs : List UInt8} {ret : Int}, Untouched c s t →
      Untouched c s (t.note fd (.wrote bs ret)) := fun ht => ht.note fun _ => ⟨rfl, rfl⟩
  cases h with
  | drained => exact Untouched.refl c s
  | nobody => exact Untouched.refl c s
  | header => exact hwrote (Untouched.refl c s)
  | packet => exact hwrote (hwrote (Untouched.refl c s))
  | routed => exact (hwrote (hwrote (Untouched.refl c s))).note fun _ => ⟨rfl, rfl⟩

theorem Sweep.untouched {env : SweepEnv} {i : Slot} {s s' : State} (h : Sweep env i s s')
    (c : Conn) : Untouched c s s' := by
  have hswept : Untouched c s (s.swept env i) :=
    .quiet (s.swept_quiet env i) fun _ hact => hact.not_read
  cases h with
  | skipped => exact Untouched.refl c s
  | spared => exact hswept
  | stuck => exact hswept
  | evicted => exact hswept.trans (.freed c _ _)

/-- A round of the parse loop concerns the connection on its own descriptor only. -/
theorem Parse.untouched {env : FrameEnv} {fd : Fd} {s : State} {flow : Flow State}
    (h : Parse env fd s flow) {c : Conn} (hc : s.conn fd ≠ some c) :
    ∀ s', flow = .next s' ∨ flow = .stop s' → Untouched c s s' := by
  intro s' hs'
  cases h with
  | waits =>
      obtain rfl : s = s' := by simpa using hs'
      exact Untouched.refl c s
  | left _ hframe =>
      obtain rfl := Flow.stop.inj (hs'.resolve_left (by simp))
      exact hframe.untouched c
  | passed _ hframe _ =>
      obtain rfl := Flow.next.inj (hs'.resolve_right (by simp))
      refine (hframe.untouched c).trans (consumed_untouched ?_ _)
      rwa [hframe.quiet.conn]
  | overran => simp at hs'

/-! ## The invariant -/

theorem State.consumed_handled {s : State} {fd : Fd} {c : Conn} (hc : s.conn fd = some c)
    (msg : Message) : handled c (s.consumed fd msg).log = handled c s.log ++
      [⟨msg.type, (s.bufs fd).buf.load sizeofMessage (msg.length - sizeofMessage).toNat⟩] := by
  simp [State.consumed, handled, onConn, hc, Act.taken]

theorem State.consumed_received (s : State) (fd : Fd) (c : Conn) (msg : Message) :
    received c (s.consumed fd msg).log = received c s.log := by
  simp [State.consumed, received, onConn, Act.read]

/-- Taking out a frame leaves what came behind it. -/
theorem BufferEntry.behind_frame {e : BufferEntry} {f : Frame} {more : List UInt8}
    (he : e.Bounded) (h : e.content = f.bytes ++ more) :
    (e.behind f.size).Bounded ∧ (e.behind f.size).content = more := by
  have hlen := he.length
  rw [h, List.length_append, Frame.bytes_length] at hlen
  have hlo : (0 : Int) ≤ f.size := Int.natCast_nonneg _
  have hhi : (f.size : Int) ≤ e.used := by omega
  refine ⟨he.behind hlo hhi, ?_⟩
  rw [behind_content he hlo hhi, h, Int.toNat_natCast, List.drop_left' f.bytes_length]

theorem BufferEntry.payload_frame {e : BufferEntry} {f : Frame} {more : List UInt8}
    (h : e.content = f.bytes ++ more) :
    e.buf.load sizeofMessage ((f.size : Int) - sizeofMessage).toNat = f.payload := by
  have hfive : sizeofMessage = 5 := rfl
  have hge := f.size_ge
  have hlen : e.used.toNat = f.size + more.length := by
    rw [← e.content_length, h, List.length_append, Frame.bytes_length]
  have hpay := f.payload_of_bytes more
  have hcount : ((f.size : Int) - sizeofMessage).toNat = f.size - sizeofMessage := by omega
  rw [← h, BufferEntry.content, CellMemory.load_drop _ (by omega),
    CellMemory.load_take _ (by omega), Nat.zero_add] at hpay
  rw [hcount, hpay]

/-- The streams of `sent` have been taken in as far as the log says, and the buffer of an open
descriptor holds what was received and not taken out again. -/
structure Decoded (sent : Conn → List Frame) (s : State) : Prop where
  partway : ∀ c, ∃ rest, frameCode.Partway (sent c) (received c s.log) (handled c s.log) rest
  used : ∀ fd c, s.conn fd = some c → (s.bufs fd).Bounded
  held : ∀ fd c, s.conn fd = some c →
    frameCode.Partway (sent c) (received c s.log) (handled c s.log) (s.bufs fd).content

/-- So far the connections have sent frames that fit an `int`. -/
def WellSent (sent : Conn → List Frame) (s : State) : Prop :=
  ∀ c, received c s.log <+: frameCode.stream (sent c)

namespace Decoded

variable {sent : Conn → List Frame} {s s' : State}

theorem initState (sent : Conn → List Frame) (fds : Descriptors) :
    Decoded sent (initState fds) := by
  refine ⟨fun c => ⟨[], PrefixCode.Partway.start _⟩, ?_, ?_⟩
  · intro fd c hc
    simp [Server.initState] at hc
  · intro fd c hc
    simp [Server.initState] at hc

/-- Nothing read, nothing taken out, and the buffers of open descriptors left alone. -/
theorem of_untouched (h : Decoded sent s) (hlog : ∀ c, Untouched c s s')
    (hopen : ∀ fd c, s'.conn fd = some c → s.conn fd = some c ∧ s'.bufs fd = s.bufs fd) :
    Decoded sent s' := by
  refine ⟨?_, ?_, ?_⟩
  · intro c
    rw [(hlog c).1, (hlog c).2]
    exact h.partway c
  · intro fd c hc
    obtain ⟨hc, hbuf⟩ := hopen fd c hc
    rw [hbuf]
    exact h.used fd c hc
  · intro fd c hc
    obtain ⟨hc, hbuf⟩ := hopen fd c hc
    rw [hbuf, (hlog c).1, (hlog c).2]
    exact h.held fd c hc

theorem of_quiet (h : Decoded sent s) {P : Act → Prop} (hq : Quiet P s s')
    (hlog : ∀ c, Untouched c s s') (hbufs : s'.bufs = s.bufs) : Decoded sent s' :=
  h.of_untouched hlog fun fd c hc => ⟨hq.conn ▸ hc, by rw [hbufs]⟩

theorem freed (h : Decoded sent s) (fd : Fd) : Decoded sent (s.freed fd) := by
  obtain ⟨_, hbufs, _, hconn, _, _⟩ := s.freed_spec fd
  refine h.of_untouched (fun c => .freed c s fd) ?_
  intro x c hx
  rw [hconn] at hx
  have hxf : x ≠ fd := by
    intro he
    rw [he, Function.update_self] at hx
    exact absurd hx (by simp)
  rw [Function.update_of_ne hxf] at hx
  exact ⟨hx, by rw [hbufs]⟩

/-- Routing empties the buffer of the tun only. -/
theorem route (h : Decoded sent s) (hcs : Connections s) {flow : Flow State} (hr : Route s flow) :
    Decoded sent flow.state := by
  refine h.of_untouched hr.untouched ?_
  intro x c hx
  rw [hr.steady.conn] at hx
  refine ⟨hx, ?_⟩
  cases hr with
  | drained => rfl
  | nobody => rfl
  | header => rfl
  | packet => rfl
  | routed => exact Function.update_of_ne (hcs.client x c hx).2 _ _

/-- The connections may go on sending. -/
theorem mono {sent' : Conn → List Frame} (h : Decoded sent s) (hle : ∀ c, sent c <+: sent' c) :
    Decoded sent' s := by
  refine ⟨?_, h.used, fun fd c hc => (h.held fd c hc).mono (hle c)⟩
  intro c
  obtain ⟨rest, hrest⟩ := h.partway c
  exact ⟨rest, hrest.mono (hle c)⟩

/-- One connection makes progress; the buffers of the others are left alone. -/
theorem of_progress (h : Decoded sent s) (hcs : Connections s) {fd : Fd} {c : Conn}
    (hc : s.conn fd = some c) (hconn : s'.conn = s.conn)
    (hother : ∀ x, x ≠ fd → s'.bufs x = s.bufs x)
    (hlog : ∀ c', s.conn fd ≠ some c' → Untouched c' s s')
    (hused : (s'.bufs fd).Bounded)
    (hheld : frameCode.Partway (sent c) (received c s'.log) (handled c s'.log)
      (s'.bufs fd).content) : Decoded sent s' := by
  refine ⟨?_, ?_, ?_⟩
  · intro c'
    by_cases hcc : s.conn fd = some c'
    · obtain rfl := Option.some.inj (hc.symm.trans hcc)
      exact ⟨_, hheld⟩
    · rw [(hlog c' hcc).1, (hlog c' hcc).2]
      exact h.partway c'
  · intro x c' hx
    by_cases hxf : x = fd
    · rw [hxf]
      exact hused
    · rw [hother x hxf]
      exact h.used x c' (hconn ▸ hx)
  · intro x c' hx
    rw [hconn] at hx
    by_cases hxf : x = fd
    · subst hxf
      obtain rfl := Option.some.inj (hc.symm.trans hx)
      exact hheld
    · have hcc : s.conn fd ≠ some c' := fun hf => hxf (hcs.unique x fd c' hx hf)
      rw [hother x hxf, (hlog c' hcc).1, (hlog c' hcc).2]
      exact h.held x c' hx

/-- A complete front frame is the next frame of the stream. -/
theorem front (h : Decoded sent s) (hvalid : ∀ c, ∀ f ∈ sent c, f.Valid) (hsent : WellSent sent s)
    {fd : Fd} {c : Conn} (hc : s.conn fd = some c) (hcomplete : (s.bufs fd).Complete) :
    ∃ f tail more, sent c = handled c s.log ++ f :: tail ∧ (s.bufs fd).header = f.message ∧
      (s.bufs fd).content = f.bytes ++ more := by
  obtain ⟨hlen, hbody⟩ := (BufferEntry.complete_iff (h.used fd c hc)).mp hcomplete
  obtain ⟨f, tail, more, hsplit, hmsg, hfront⟩ :=
    front_of_partway (h.held fd c hc) (hvalid c) (hsent c) hlen hbody
  exact ⟨f, tail, more, hsplit, (BufferEntry.header_eq hlen).trans hmsg, hfront⟩

theorem read (h : Decoded sent s) (hcs : Connections s) {fd : Fd} {c : Conn}
    (hc : s.conn fd = some c) {bs : List UInt8} (hfits : bs.length ≤ (s.bufs fd).room) :
    Decoded sent (readClient fd bs s) := by
  have hfill := h.used fd c hc
  have hbuf : (readClient fd bs s).bufs fd = (s.bufs fd).append bs := by
    rw [readClient_bufs, Function.update_self]
  have hreceived : received c (readClient fd bs s).log = received c s.log ++ bs := by
    simp [readClient, receive, received, onConn, hc, Act.read]
  have hhandled : handled c (readClient fd bs s).log = handled c s.log := by
    simp [readClient, receive, handled, onConn, Act.taken]
  refine h.of_progress hcs hc rfl ?_ (fun c' hc' => readClient_untouched hc' bs) ?_ ?_
  · intro x hx
    rw [readClient_bufs, Function.update_of_ne hx]
  · rw [hbuf]
    exact hfill.append hfits
  · rw [hbuf, BufferEntry.append_content hfill, hreceived, hhandled]
    exact (h.held fd c hc).more bs

/-- The frame taken out is the one in front. -/
theorem parsed_handled {fd : Fd} {c : Conn} (hc : s.conn fd = some c) {env : FrameEnv} {f : Frame}
    {more : List UInt8} {t : State} (hfront : (s.bufs fd).content = f.bytes ++ more)
    (hframe : Dispatch env fd f.message s (.next t)) :
    handled c (t.consumed fd f.message).log = handled c s.log ++ [f] := by
  have hbufs : t.bufs = s.bufs := hframe.bufs
  have hconn : t.conn = s.conn := hframe.quiet.conn
  have htouch : Untouched c s t := hframe.untouched c
  rw [State.consumed_handled (by rwa [hconn]), htouch.2, hbufs]
  congr 2
  exact congrArg (Frame.mk f.type) (BufferEntry.payload_frame hfront)

theorem parsed (h : Decoded sent s) (hcs : Connections s)
    (hvalid : ∀ c, ∀ f ∈ sent c, f.Valid) (hsent : WellSent sent s) {fd : Fd} {c : Conn}
    (hc : s.conn fd = some c) {env : FrameEnv} {t : State} (hcomplete : (s.bufs fd).Complete)
    (hframe : Dispatch env fd (s.bufs fd).header s (.next t)) :
    Decoded sent (t.consumed fd (s.bufs fd).header) := by
  obtain ⟨f, tail, more, hsplit, hmsg, hfront⟩ := h.front hvalid hsent hc hcomplete
  have hbufs : t.bufs = s.bufs := hframe.bufs
  have hconn : t.conn = s.conn := hframe.quiet.conn
  have htouch : ∀ c', Untouched c' s t := hframe.untouched
  obtain ⟨hbounded, hcontent⟩ := BufferEntry.behind_frame (h.used fd c hc) hfront
  have hown : (t.consumed fd f.message).bufs fd = (s.bufs fd).behind f.size := by
    rw [State.consumed_bufs, hbufs, Function.update_self]
    rfl
  rw [hmsg] at hframe ⊢
  have hhandled := parsed_handled hc hfront hframe
  refine h.of_progress hcs hc hconn ?_ ?_ ?_ ?_
  · intro x hx
    rw [State.consumed_bufs, hbufs, Function.update_of_ne hx]
  · intro c' hc'
    exact (htouch c').trans (consumed_untouched (by rwa [hconn]) _)
  · rw [hown]
    exact hbounded
  · rw [hown, hcontent, hhandled, State.consumed_received, (htouch c).1]
    exact (h.held fd c hc).word hsplit hfront

theorem processServer (h : Decoded sent s) (hcs : Connections s) (fd : Fd) (added : Bool) :
    Decoded sent (processServer fd added s) := by
  have hnone : received s.accepted s.log = [] ∧ handled s.accepted s.log = [] := by
    constructor
    · exact gather_eq_nil fun r hr => onConn_eq_nil fun hc =>
        absurd (hcs.logged r hr _ hc) (Nat.lt_irrefl _)
    · exact gather_eq_nil fun r hr => onConn_eq_nil fun hc =>
        absurd (hcs.logged r hr _ hc) (Nat.lt_irrefl _)
  have hlog : ∀ c, Untouched c s (Server.processServer fd added s) :=
    fun c => .processServer c s fd added
  have hbuf : (Server.processServer fd added s).bufs =
      Function.update s.bufs fd { s.bufs fd with used := 0 } := rfl
  refine ⟨?_, ?_, ?_⟩
  · intro c
    rw [(hlog c).1, (hlog c).2]
    exact h.partway c
  · intro x c hx
    rcases processServer_conn hx with ⟨rfl, rfl⟩ | ⟨hxf, hx⟩
    · rw [hbuf, Function.update_self]
      exact ⟨Int.le_refl 0, Int.natCast_nonneg bufSize⟩
    · rw [hbuf, Function.update_of_ne hxf]
      exact h.used x c hx
  · intro x c hx
    rw [(hlog c).1, (hlog c).2]
    rcases processServer_conn hx with ⟨rfl, rfl⟩ | ⟨hxf, hx⟩
    · rw [hbuf, Function.update_self, hnone.1, hnone.2]
      exact PrefixCode.Partway.start _
    · rw [hbuf, Function.update_of_ne hxf]
      exact h.held x c hx

theorem pass (h : Decoded sent s) (hcs : Connections s) (hvalid : ∀ c, ∀ f ∈ sent c, f.Valid)
    (hsent : WellSent sent s) (hp : Pass s s') : Decoded sent s' := by
  cases hp with
  | accept fd added _ => exact h.processServer hcs fd added
  | hangup fd _ => exact h.freed fd
  | read fd hw bs hfits =>
      obtain ⟨c, hc⟩ := hcs.watchedOpen fd hw
      exact h.read hcs hc hfits
  | parsed env fd hw hparse =>
      obtain ⟨c, hc⟩ := hcs.watchedOpen fd hw
      cases hparse with
      | passed hcomplete hframe _ => exact h.parsed hcs hvalid hsent hc hcomplete hframe
  | parsedLast env fd _ hparse =>
      cases hparse with
      | waits => exact h
      | left _ hframe => exact h.of_quiet hframe.quiet hframe.untouched hframe.bufs
  | readTun bs _ =>
      have htun : ∀ x c, s.conn x = some c → x ≠ s.tunFd := fun x c hx => (hcs.client x c hx).2
      refine h.of_untouched (fun c => receive_untouched (fun hx => htun _ c hx rfl) bs) ?_
      intro x c hx
      exact ⟨hx, Function.update_of_ne (htun x c hx) _ _⟩
  | routed hroute => exact h.route hcs hroute
  | routedLast hroute => exact h.route hcs hroute
  | swept env i hsweep =>
      have hswept : Decoded sent (s.swept env i) := by
        have hq := s.swept_quiet env i
        exact h.of_quiet hq (fun c => .quiet hq fun _ hact => hact.not_read) (s.swept_bufs env i)
      cases hsweep with
      | skipped => exact h
      | spared => exact hswept
      | stuck => exact hswept
      | evicted => exact hswept.freed _

end Decoded

/-- Nothing has been read for a connection that has not been accepted yet. -/
theorem Connections.received_of_new {s : State} (h : Connections s) {c : Conn}
    (hc : ¬ c < s.accepted) : received c s.log = [] :=
  gather_eq_nil fun r hr => onConn_eq_nil fun hrc => absurd (h.logged r hr c hrc) hc

theorem received_mono {s s' : State} (h : s.log <:+ s'.log) (c : Conn) :
    received c s.log <+: received c s'.log := by
  obtain ⟨new, hlog⟩ := h
  exact ⟨received c new, by rw [← hlog, received, received, received, gather_append]⟩

theorem WellSent.inherit {sent : Conn → List Frame} (s s' : State) (h : s.log <:+ s'.log)
    (hsent : WellSent sent s') : WellSent sent s := fun c => (received_mono h c).trans (hsent c)

theorem WellSent.mono {sent sent' : Conn → List Frame} {s : State} (h : WellSent sent s)
    (hle : ∀ c, sent c <+: sent' c) : WellSent sent' s := fun c =>
  (h c).trans (frameCode.stream_prefix (hle c))

theorem Passes.decoded {sent : Conn → List Frame} {s s' : State} (hp : Passes s s')
    (hvalid : ∀ c, ∀ f ∈ sent c, f.Valid) (hcs : Connections s) (h : Decoded sent s)
    (hsent : WellSent sent s') : Decoded sent s' := by
  have both : Connections s' ∧ Decoded sent s' := by
    refine passes_conditional (WellSent sent) (fun t => Connections t ∧ Decoded sent t)
      WellSent.inherit ?_ hp ⟨hcs, h⟩ hsent
    intro t t' hpass hi hsent'
    have hsent : WellSent sent t := hsent'.inherit t t' hpass.log_suffix
    exact ⟨hi.1.pass hpass, hi.2.pass hi.1 hvalid hsent hpass⟩
  exact both.2

/-! ## No complete frame is left over -/

/-- A handler gives up, or a keepalive comes from a connection without an address. -/
def Act.fails : Act → Bool
  | failed _ | kept none _ => true
  | _ => false

def HandlersSucceed (log : List Record) : Prop := ∀ r ∈ log, r.act.fails = false

def Act.gaveUp : Act → Bool
  | failed _ => true
  | _ => false

def NoneGaveUp (log : List Record) : Prop := ∀ r ∈ log, r.act.gaveUp = false

theorem NoneGaveUp.earlier {log log' : List Record} (h : NoneGaveUp log') (hlog : log <:+ log') :
    NoneGaveUp log := fun r hr => h r (hlog.subset hr)

theorem HandlersSucceed.noneGaveUp {log : List Record} (h : HandlersSucceed log) :
    NoneGaveUp log := by
  intro r hr
  have hgood := h r hr
  cases hact : r.act with
  | failed why =>
      rw [hact] at hgood
      cases hgood
  | _ => rfl

def AllSettled (sent : Conn → List Frame) (s : State) : Prop :=
  ∀ c, frameCode.Settled (sent c) (received c s.log) (handled c s.log)

theorem AllSettled.of_untouched {sent : Conn → List Frame} {s s' : State} (h : AllSettled sent s)
    (hlog : ∀ c, Untouched c s s') : AllSettled sent s' := by
  intro c
  rw [(hlog c).1, (hlog c).2]
  exact h c

theorem Untouched.of_chain {c : Conn} {s s' : State}
    (h : Relation.ReflTransGen (Untouched c) s s') : Untouched c s s' := by
  induction h with
  | refl => exact Untouched.refl c s
  | tail _ ht ih => exact ih.trans ht

theorem processTun_untouched {c : Conn} {r : ReadResult} {env : Nat → RouteEnv} {fuel : Nat}
    {s s' : State} (hcs : Connections s) (h : processTun r env fuel s = .stopped s') :
    Untouched c s s' := by
  cases r with
  | error =>
      obtain rfl := Outcome.stopped.inj h
      exact Untouched.refl c s
  | bytes bs =>
      have hread : Untouched c s (receive s.tunFd bs s) :=
        receive_untouched (fun hc => (hcs.client _ c hc).2 rfl) bs
      refine hread.trans (Untouched.of_chain ?_)
      apply iterate_reaches (Untouched c) (fun _ => True) _ _ trivial h
      · intro k t t' _ hb
        have hroute := routeOnce_route (env k) t
        rw [hb] at hroute
        exact ⟨hroute.untouched c, trivial⟩
      · intro k t t' _ hb
        have hroute := routeOnce_route (env k) t
        rw [hb] at hroute
        exact hroute.untouched c

theorem sweep_untouched (c : Conn) (env : SweepEnv) (entries : List Slot) (s : State) :
    Untouched c s (entries.foldl (heartbeatEntry env) s) := by
  induction entries generalizing s with
  | nil => exact Untouched.refl c s
  | cons i entries ih =>
      exact ((heartbeatEntry_sweep env i s).untouched c).trans (ih (heartbeatEntry env s i))

/-- The parse loop on one descriptor concerns the connection on it only. -/
theorem parseLoop_untouched {c : Conn} {fd : Fd} {env : Nat → FrameEnv} {fuel k : Nat}
    {s s' : State} (hc : s.conn fd ≠ some c)
    (h : iterate (fun k => parseOnce (env k) fd) fuel k s = .stopped s') : Untouched c s s' := by
  apply Untouched.of_chain
  apply iterate_reaches (Untouched c) (fun t => t.conn fd ≠ some c) _ _ hc h
  · intro k t t' ht hb
    have hparse : Parse (env k) fd t (.next t') := hb ▸ parseOnce_parse (env k) fd t
    exact ⟨hparse.untouched ht t' (.inl rfl), by rwa [(hparse.quiet (.inl rfl)).conn]⟩
  · intro k t t' ht hb
    have hparse : Parse (env k) fd t (.stop t') := hb ▸ parseOnce_parse (env k) fd t
    exact hparse.untouched ht t' (.inr rfl)

/-- Whoever leaves the parse loop without a failure has less than a frame in the buffer. -/
theorem parseLoop_drained {fd : Fd} {env : Nat → FrameEnv} {fuel k : Nat} {s s' : State}
    (h : iterate (fun k => parseOnce (env k) fd) fuel k s = .stopped s')
    (hok : NoneGaveUp s'.log) : ¬ (s'.bufs fd).Complete := by
  obtain ⟨n, t, _, hstop⟩ := iterate_stopped_last h
  have hparse : Parse (env (k + n)) fd t (.stop s') := hstop ▸ parseOnce_parse (env (k + n)) fd t
  cases hparse with
  | waits h => exact h
  | left _ hframe =>
      have hfailed : ∃ r ∈ s'.log, r.act.gaveUp = true := by
        cases hframe with
        | poolFull => exact ⟨_, List.mem_cons_self, rfl⟩
        | replyHeader => exact ⟨_, List.mem_cons_self, rfl⟩
        | replyData => exact ⟨_, List.mem_cons_self, rfl⟩
        | tunData => exact ⟨_, List.mem_cons_self, rfl⟩
      obtain ⟨r, hr, hact⟩ := hfailed
      exact absurd (hact.symm.trans (hok r hr)) (by simp)

theorem Decoded.settled {sent : Conn → List Frame} {s : State} (h : Decoded sent s)
    (hvalid : ∀ c, ∀ f ∈ sent c, f.Valid) (hsent : WellSent sent s) {fd : Fd} {c : Conn}
    (hc : s.conn fd = some c) (hdrained : ¬ (s.bufs fd).Complete) :
    frameCode.Settled (sent c) (received c s.log) (handled c s.log) := by
  refine settled_of_partway (h.held fd c hc) (hvalid c) (hsent c) fun hfront => ?_
  exact hdrained ((BufferEntry.complete_iff (h.used fd c hc)).mpr hfront)

theorem AllSettled.step {sent : Conn → List Frame} {s s' : State} {e : Event}
    (h : AllSettled sent s) (hcs : Connections s) (hdec : Decoded sent s)
    (hvalid : ∀ c, ∀ f ∈ sent c, f.Valid) (hstep : step s e = some s') (hsent : WellSent sent s')
    (hok : NoneGaveUp s'.log) : AllSettled sent s' := by
  have hpasses := step_passes hstep
  have hdec' : Decoded sent s' := hpasses.decoded hvalid hcs hdec hsent
  cases step_call hstep with
  | refused => exact h
  | accepted fd added _ => exact h.of_untouched fun c => .processServer c s fd added
  | tun r env fuel _ hcall => exact h.of_untouched fun c => processTun_untouched hcs hcall
  | ended fd r env removed fuel _ =>
      rcases freeClientFd_cases removed fd s with hf | ⟨_, hf⟩
      · rwa [hf]
      · rw [hf]
        exact h.of_untouched fun c => .freed c s fd
  | read fd bs env removed fuel _ _ hcall =>
      intro c
      by_cases hc : s.conn fd = some c
      · have hconn : s'.conn fd = some c := by rwa [(parseLoop_quiet hcall).conn]
        exact hdec'.settled hvalid hsent hconn (parseLoop_drained hcall hok)
      · have hlog : Untouched c s s' :=
          (readClient_untouched hc bs).trans (parseLoop_untouched hc hcall)
        rw [hlog.1, hlog.2]
        exact h c
  | heartbeat env => exact h.of_untouched fun c => sweep_untouched c env _ s

/-- The invariant of whole runs on well-formed streams with handlers that succeed. -/
theorem runFrom_decoded {sent : Conn → List Frame} (hvalid : ∀ c, ∀ f ∈ sent c, f.Valid)
    {fds : Descriptors} {es : List Event} {s : State} (hrun : runFrom fds es = some s)
    (hsent : WellSent sent s) : Connections s ∧ Decoded sent s := by
  have hpasses := runFrom_passes hrun
  have hstart := Connections.initState fds
  exact ⟨hstart.passes hpasses, hpasses.decoded hvalid hstart (.initState sent fds) hsent⟩

theorem runFrom_settled {sent : Conn → List Frame} (hvalid : ∀ c, ∀ f ∈ sent c, f.Valid)
    {fds : Descriptors} {es : List Event} {s : State} (hrun : runFrom fds es = some s)
    (hsent : WellSent sent s) (hok : NoneGaveUp s.log) : AllSettled sent s := by
  have hall : Connections s ∧ Decoded sent s ∧ AllSettled sent s := by
    refine run_conditional (fun t => WellSent sent t ∧ NoneGaveUp t.log)
      (fun t => Connections t ∧ Decoded sent t ∧ AllSettled sent t) ?_ ?_ ?_ hrun ⟨hsent, hok⟩
    · intro t e t' hstep ⟨hsent, hok⟩
      have hsuffix := step_log_suffix hstep
      exact ⟨hsent.inherit t t' hsuffix, hok.earlier hsuffix⟩
    · intro t e t' ⟨hcs, hdec, hset⟩ hstep ⟨hsent, hok⟩
      have hpasses := step_passes hstep
      exact ⟨hcs.passes hpasses, hpasses.decoded hvalid hcs hdec hsent,
        hset.step hcs hdec hvalid hstep hsent hok⟩
    · exact ⟨.initState fds, .initState sent fds, fun c => frameCode.settled_start (sent c)⟩
  exact hall.2.2

/-- One round of the parse loop on a well-formed stream: it ends, or a frame is gone. -/
theorem parse_shortens {sent : Conn → List Frame} (hvalid : ∀ c, ∀ f ∈ sent c, f.Valid)
    {s : State} (hcs : Connections s) (hdec : Decoded sent s) (hsent : WellSent sent s) {fd : Fd}
    {c : Conn} (hc : s.conn fd = some c) (env : FrameEnv) :
    (∃ s', parseOnce env fd s = .stop s') ∨
      ∃ s', parseOnce env fd s = .next s' ∧ Decoded sent s' ∧ WellSent sent s' ∧
        (s'.bufs fd).used.toNat < (s.bufs fd).used.toNat := by
  have hparse := parseOnce_parse env fd s
  cases hflow : parseOnce env fd s with
  | stop s' => exact .inl ⟨s', rfl⟩
  | next s' =>
      rw [hflow] at hparse
      cases hparse with
      | @passed hcomplete t hframe hlen =>
          obtain ⟨f, _, more, _, hmsg, hfront⟩ := hdec.front hvalid hsent hc hcomplete
          have hbufs : t.bufs = s.bufs := hframe.bufs
          refine .inr ⟨_, rfl, hdec.parsed hcs hvalid hsent hc hcomplete hframe, ?_, ?_⟩
          · intro c'
            rw [State.consumed_received]
            have hlog : Untouched c' s t := hframe.untouched c'
            rw [hlog.1]
            exact hsent c'
          · rw [hmsg, State.consumed_bufs, hbufs, Function.update_self, ← BufferEntry.content_length,
              ← BufferEntry.content_length]
            have hcontent : ((s.bufs fd).behind f.message.length).content = more :=
              (BufferEntry.behind_frame (hdec.used fd c hc) hfront).2
            have hpos : 0 < f.size := Nat.lt_of_lt_of_le (by decide) f.size_ge
            rw [hcontent, hfront, List.length_append, Frame.bytes_length]
            omega
  | fault s' =>
      rw [hflow] at hparse
      cases hparse with
      | @overran hcomplete t _ hframe hmove =>
          obtain ⟨hlo, hhi⟩ := hdec.used fd c hc
          obtain ⟨f, _, more, _, hmsg, _⟩ := hdec.front hvalid hsent hc hcomplete
          have hbufs : t.bufs = s.bufs := hframe.bufs
          have hle := hcomplete.2
          have hnonneg : 0 ≤ f.message.length := Int.natCast_nonneg f.size
          rw [hmsg] at hmove hle
          rw [consume_of_range fd hnonneg (by rwa [hbufs]) (by rwa [hbufs])] at hmove
          cases hmove

/-- On the streams of `sent` every call of `process_client` returns. -/
theorem processClient_returns {sent : Conn → List Frame} (hvalid : ∀ c, ∀ f ∈ sent c, f.Valid)
    {s : State} (hcs : Connections s) (hdec : Decoded sent s) {fd : Fd} {c : Conn}
    (hw : s.watched fd = true) (hc : s.conn fd = some c) {bs : List UInt8}
    (hfits : bs.length ≤ (s.bufs fd).room) (hsent : WellSent sent (readClient fd bs s))
    (env : Nat → FrameEnv) (removed : Bool) :
    ∃ fuel s', processClient (.bytes bs) env removed fuel fd s = .stopped s' := by
  by_cases hne : bs = []
  · rw [hne]
    exact ⟨0, _, rfl⟩
  · simp only [processClient_of_ne_nil hne]
    apply terminates_of_measure
      (fun t => Connections t ∧ Decoded sent t ∧ WellSent sent t ∧ t.conn fd = some c ∧
        t.watched fd = true)
      (fun t => (t.bufs fd).used.toNat)
    · intro k t ⟨hcs, hdec, hsent, hc, hw⟩
      rcases parse_shortens hvalid hcs hdec hsent hc (env k) with hstop | ⟨t', hnext, hdec', hsent', hlt⟩
      · exact .inl hstop
      · have hparse : Parse (env k) fd t (.next t') := hnext ▸ parseOnce_parse (env k) fd t
        have hq := hparse.quiet (.inl rfl)
        exact .inr ⟨t', hnext, ⟨hcs.pass (.parsed (env k) fd hw hparse), hdec', hsent',
          by rwa [hq.conn], by rwa [hq.watched]⟩, hlt⟩
    · exact ⟨hcs.pass (.read fd hw bs hfits), hdec.read hcs hc hfits, hsent, hc, hw⟩

/-! ## Whole runs -/

/-- Frames of at most `BUF_SIZE` bytes arrive exactly as they were sent: what has been handled for
a connection is a beginning of its frames, the bytes received beyond it are less than one frame
and lie in its buffer, `read` always has room, and every call on such a stream returns. -/
theorem server_decodes (sent : Conn → List Frame) (hsize : ∀ c, ∀ f ∈ sent c, f.size ≤ bufSize)
    (fds : Descriptors) (es : List Event) (s : State) (hrun : runFrom fds es = some s)
    (hsent : WellSent sent s) (hok : HandlersSucceed s.log) :
    (∀ c, ∃ tail rest, sent c = handled c s.log ++ tail ∧
      received c s.log = frameCode.stream (handled c s.log) ++ rest ∧
      frameCode.Pending rest tail ∧
      (received c s.log = frameCode.stream (sent c) → handled c s.log = sent c) ∧
      ∀ fd, s.conn fd = some c → (s.bufs fd).used = rest.length ∧ (s.bufs fd).content = rest ∧
        0 < (s.bufs fd).room) ∧
    ∀ fd bs, s.watched fd = true → bs.length ≤ (s.bufs fd).room →
      WellSent sent (readClient fd bs s) → ∀ env removed,
        ∃ fuel s', processClient (.bytes bs) env removed fuel fd s = .stopped s' := by
  have hvalid : ∀ c, ∀ f ∈ sent c, f.Valid := by
    intro c f hf
    have hle := hsize c f hf
    have hcap : bufSize = 65536 := rfl
    change f.size < 2 ^ 31
    omega
  obtain ⟨hcs, hdec⟩ := runFrom_decoded hvalid hrun hsent
  have hset := runFrom_settled hvalid hrun hsent hok.noneGaveUp
  constructor
  · intro c
    obtain ⟨tail, rest, hsplit, hgot, hpending⟩ := hset c
    refine ⟨tail, rest, hsplit, hgot, hpending, ?_, ?_⟩
    · intro hall
      have hsettled := hset c
      rw [hall] at hsettled
      exact hsettled.complete
    · intro fd hc
      obtain ⟨hlo, hhi⟩ := hdec.used fd c hc
      have hcontent : (s.bufs fd).content = rest := by
        have hheld := (hdec.held fd c hc).2
        rw [hgot] at hheld
        exact (List.append_cancel_left hheld).symm
      have hlen := (s.bufs fd).content_length
      rw [hcontent] at hlen
      have hcap : (bufSize : Int) = 65536 := rfl
      have hshort : rest.length < bufSize := by
        cases tail with
        | nil =>
            have hnil : rest = [] := hpending
            rw [hnil]
            decide
        | cons f tail =>
            have hlt := hpending.length_lt
            rw [frameCode_encode, Frame.bytes_length] at hlt
            have hle := hsize c f (by simp [hsplit])
            omega
      have hroom := (hdec.used fd c hc).room
      refine ⟨by omega, hcontent, ?_⟩
      have hshort' : (rest.length : Int) < bufSize := by exact_mod_cast hshort
      omega
  · intro fd bs hw hfits hbs env removed
    obtain ⟨c, hc⟩ := hcs.watchedOpen fd hw
    exact processClient_returns hvalid hcs hdec hw hc hfits hbs env removed

def twoStreams (c : Conn) : List Frame :=
  if c = 0 then [⟨msgIpReq, []⟩, ⟨msgDataReq, [69, 0, 9]⟩, ⟨msgHeartbeat, []⟩]
  else if c = 1 then [⟨msgIpReq, []⟩, ⟨msgHeartbeat, []⟩]
  else []

theorem twoStreams_size : ∀ c, ∀ f ∈ twoStreams c, f.size ≤ bufSize := by
  intro c f hf
  unfold twoStreams at hf
  split at hf
  · revert f
    decide
  · split at hf
    · revert f
      decide
    · exact absurd hf List.not_mem_nil

theorem twoClients_sent :
    ∃ s, runFrom .usual twoClients = some s ∧ WellSent twoStreams s ∧ HandlersSucceed s.log ∧
      s.conn 7 = some 1 ∧ received 0 s.log = frameCode.stream (twoStreams 0) := by
  have hrun : ((runFrom .usual twoClients).any fun s =>
      decide (s.accepted = 2 ∧ s.conn 7 = some 1 ∧
        received 0 s.log = frameCode.stream (twoStreams 0) ∧
        received 1 s.log <+: frameCode.stream (twoStreams 1) ∧
        ∀ r ∈ s.log, r.act.fails = false)) = true := by decide +kernel
  obtain ⟨s, hs, hfacts⟩ := (Option.any_eq_true _ _).mp hrun
  obtain ⟨haccepted, hconn, hzero, hone, hok⟩ := of_decide_eq_true hfacts
  refine ⟨s, hs, ?_, hok, hconn, hzero⟩
  intro c
  by_cases hc : c < s.accepted
  · rw [haccepted] at hc
    rcases Nat.le_one_iff_eq_zero_or_eq_one.mp (Nat.le_of_lt_succ hc) with rfl | rfl
    · exact hzero ▸ List.prefix_refl _
    · exact hone
  · rw [(Connections.runFrom hs).received_of_new hc]
    exact List.nil_prefix

theorem server_decodes_twoClients :
    ∃ s, runFrom .usual twoClients = some s ∧ WellSent twoStreams s ∧ HandlersSucceed s.log ∧
      handled 0 s.log = twoStreams 0 ∧
      ∃ tail rest, twoStreams 1 = handled 1 s.log ++ tail ∧
        received 1 s.log = frameCode.stream (handled 1 s.log) ++ rest ∧
        frameCode.Pending rest tail ∧ (s.bufs 7).content = rest := by
  obtain ⟨s, hs, hsent, hok, hconn, hzero⟩ := twoClients_sent
  obtain ⟨hdecoded, _⟩ := server_decodes twoStreams twoStreams_size .usual twoClients s hs hsent hok
  obtain ⟨_, _, _, _, _, hall, _⟩ := hdecoded 0
  obtain ⟨tail, rest, hsplit, hgot, hpending, _, hbuf⟩ := hdecoded 1
  exact ⟨s, hs, hsent, hok, hall hzero, tail, rest, hsplit, hgot, hpending, (hbuf 7 hconn).2.1⟩

end Over6.Server
