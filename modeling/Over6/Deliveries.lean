import Over6.Downstream
import Over6.IpReply
import Over6.Network

/-! # From the tun of the server to the tuns of its clients

What a client puts on its tun are packets that the server routed to it, for the very
address that it was told before.
-/

namespace Over6.Client

open BoundedLoop EventRun Journal

/-! ## The packets a client puts on its tun -/

/-- Of the packets among the frames `words`, those that found a tun have been handed to it, in order. -/
def Brought (words : List Frame) (s : State) : Prop :=
  ∃ ps, ps.Sublist (packets words) ∧ List.Forall₂ Overlong ps (injected s.log)

section Calls

variable {start s s' t : State} {sent words : List Frame} {got bs : List UInt8} {f : Frame}
  {env : SocketEnv}

theorem Brought.congr (h : Brought words s) (hlog : injected s'.log = injected s.log) :
    Brought words s' := by
  rw [Brought, hlog]
  exact h

/-- A frame that leaves the tun alone. -/
theorem Brought.passes (h : Brought words s) (f : Frame) (hlog : injected t.log = injected s.log) :
    Brought (words ++ [f]) t := by
  obtain ⟨ps, hps, hbss⟩ := h
  refine ⟨ps, hps.trans ?_, hlog ▸ hbss⟩
  rw [packets, packets, List.filter_append, List.map_append]
  exact List.sublist_append_left _ _

theorem Brought.packet {more : List UInt8} (h : Brought words s) (hs : s.Bounded)
    (hbytes : s.content = f.bytes ++ more) (htype : f.type = msgDataRsb) :
    Brought (words ++ [f])
      ((s.handed f.message f.message.length).countIn f.message.length) := by
  obtain ⟨ps, hps, hbss⟩ := h
  have hnew : injected ((s.handed f.message f.message.length).countIn f.message.length).log =
      injected s.log ++ [s.socketBuffer.load sizeofMessage f.message.length.toNat] := by
    simp [State.countIn, State.handed, State.note, injected, Act.injections]
  refine ⟨ps ++ [f.payload], ?_, ?_⟩
  · rw [packets_snoc_data words htype]
    exact hps.append (List.Sublist.refl _)
  · rw [hnew]
    exact List.rel_append hbss (.cons (Forwarded.slice_overlong hs hbytes) .nil)

theorem Brought.passed {more : List UInt8} (h : Brought words s) (hs : s.Bounded)
    (hbytes : s.content = f.bytes ++ more) (hframe : Dispatch env f.message s (.next t)) :
    Brought (words ++ [f]) (t.consumed f.message) := by
  have ht : Brought (words ++ [f]) t := by
    cases hframe with
    | answered _ _ hlog =>
        obtain ⟨new, rfl, hnew⟩ := hlog
        refine h.passes f ?_
        have hnone : ∀ log, injected (new ++ log) = injected log := fun log =>
          gather_of_nil fun act hact => (hnew act hact).not_injected
        exact (hnone _).trans (by simp [State.note, injected, Act.injections])
    | heartbeat => exact h.passes f (List.append_nil _)
    | early => exact h.passes f (List.append_nil _)
    | injected htype => exact h.packet hs hbytes htype
  exact ht.congr (Forwarded.injected_consumed t _)

theorem handleSocket_brings (hvalid : ∀ f ∈ sent, f.Valid) {env : Nat → SocketEnv} {fuel : Nat}
    (h : Decoded start sent got words s) (hi : Brought words s) (hfits : bs.length ≤ s.room)
    (hgot : got ++ bs <+: frameCode.stream sent)
    (hcall : handleSocket (.bytes bs) env fuel s = .stopped s') (hret : s'.ret = 0) :
    ∃ words', Decoded start sent (got ++ bs) words' s' ∧ Brought words' s' := by
  have hends : ∃ words', Decoded start sent (got ++ bs) words' s' ∧ Brought words' s' ∧
      s'.ret = 0 ∧ ¬ s'.Complete := by
    refine handleSocket_decoded hvalid Brought ?_ ?_ ?_ h hfits hgot
      (hi.congr (List.append_nil _)) hcall
    · exact fun _ _ _ _ _ _ hu hs hbytes _ hframe => hu.passed hs hbytes hframe
    · intro k words' f u _ _ hframe
      rw [(Dispatch.of_eq hframe).ret_of_stop] at hret
      exact absurd hret (by decide)
    · exact fun words' u hu => hu
  obtain ⟨words', hdec, hbrought, _⟩ := hends
  exact ⟨words', hdec, hbrought⟩

theorem Act.OfOther.not_injected {act : Act} (h : act.OfOther) : act.injections = [] := by
  cases act <;> first | rfl | exact h.elim

theorem Aside.injected_eq (h : Aside s s') : injected s'.log = injected s.log := by
  obtain ⟨new, hlog, hnew⟩ := h.log
  rw [hlog]
  exact gather_of_nil fun act hact => (hnew act hact).not_injected

def Goes (start : State) (sent : List Frame) (s : State) : Prop :=
  ∃ words, Decoded start sent (received s.log) words s ∧ Brought words s

theorem Goes.step {e : Event} (hvalid : ∀ f ∈ sent, f.Valid) (hstart : received start.log = [])
    (h : Goes start sent s) (hstep : step s e = some s') (hret : s'.ret = 0)
    (hgot : received s'.log <+: frameCode.stream sent) : Goes start sent s' := by
  obtain ⟨words, hdec, hbrought⟩ := h
  have hcall := step_call hstep
  rcases hcall.aside with ⟨r, env, fuel, rfl⟩ | ⟨haside, _⟩
  · cases hcall with
    | socket _ _ _ hfits hcall =>
        cases r with
        | error =>
            obtain rfl := Outcome.stopped.inj hcall
            exact absurd hret (show (-1 : Int) ≠ 0 by decide)
        | bytes bs =>
            have hlater := handleSocket_received hdec.bounded hfits hcall
            obtain ⟨words', hdec', hbrought'⟩ :=
              handleSocket_brings hvalid hdec hbrought hfits (hlater.trans hgot) hcall hret
            have hread : received s'.log = received s.log ++ bs := by
              rw [hdec'.read, hstart, List.nil_append]
            exact ⟨words', hread ▸ hdec', hbrought'⟩
  · refine ⟨words, haside.received_eq.1 ▸ hdec.of_aside haside, ?_⟩
    exact hbrought.congr haside.injected_eq

/-- A client that goes on has met a beginning of the frames it was sent, and put the packets among
them on its tun if it had one by then. -/
theorem runFrom_goes {fds : Descriptors} {time₁ time₂ : Int} {stale : CellMemory UInt8}
    {es : List Event} (hvalid : ∀ f ∈ sent, f.Valid)
    (hrun : runFrom fds time₁ time₂ stale es = some s) (hret : s.ret = 0)
    (hgot : received s.log <+: frameCode.stream sent) :
    Goes (protocolInit fds time₁ time₂ stale) sent s := by
  induction es using List.reverseRecOn generalizing s with
  | nil =>
      obtain rfl := Option.some.inj hrun
      have hbounded := State.Bounded.protocolInit fds time₁ time₂ stale
      exact ⟨[], Decoded.refl sent hbounded rfl, [], List.Sublist.refl _, .nil⟩
  | append_singleton es e ih =>
      obtain ⟨t, ht, hstep⟩ := run_snoc_iff.mp hrun
      have hbefore := step_received (runFrom_bounded ht) hstep
      exact (ih ht (step_ret hstep) (hbefore.trans hgot)).step hvalid rfl hstep hret hgot

end Calls

end Over6.Client

namespace Over6.Server

open MachineInt BoundedLoop EventRun Journal

/-! ## The packets the server puts on a connection -/

/-- Every packet was routed by its own destination, which it was long enough to have. -/
def Addressed (log : List Record) : Prop :=
  ∀ r ∈ log, ∀ addr packet, r.act = .routed addr packet →
    addr = destination packet ∧ 20 ≤ packet.length

namespace Addressed

variable {s s' : State}

theorem extend {log new : List Record} (h : Addressed log)
    (hnew : ∀ r ∈ new, ∀ addr packet, r.act ≠ .routed addr packet) : Addressed (new ++ log) := by
  intro r hr addr packet hact
  rcases List.mem_append.mp hr with hr | hr
  · exact absurd hact (hnew r hr addr packet)
  · exact h r hr addr packet hact

theorem note (h : Addressed s.log) (fd : Fd) {act : Act}
    (hact : ∀ addr packet, act ≠ .routed addr packet) : Addressed (s.note fd act).log := by
  intro r hr addr packet hrouted
  rcases List.mem_cons.mp hr with rfl | hr
  · exact absurd hrouted (hact addr packet)
  · exact h r hr addr packet hrouted

theorem quiet {P : Act → Prop} (h : Addressed s.log) (hq : Quiet P s s')
    (hP : ∀ act, P act → ∀ addr packet, act ≠ .routed addr packet) : Addressed s'.log := by
  obtain ⟨new, hlog, hnew⟩ := hq.log
  rw [hlog]
  exact h.extend fun r hr => hP r.act (hnew r hr).2

theorem freed (h : Addressed s.log) (fd : Fd) : Addressed (s.freed fd).log := by
  obtain ⟨new, hlog, _, hnew⟩ := s.freed_log fd
  rw [hlog]
  refine h.extend fun r hr addr packet hact => ?_
  rcases (hnew r hr).2.2 with hclosed | ⟨i, hreleased⟩
  · rw [hclosed] at hact
    cases hact
  · rw [hreleased] at hact
    cases hact

theorem route (h : Addressed s.log) (hs : s.Bounded) {flow : Flow State} (hr : Route s flow) :
    Addressed flow.state.log := by
  cases hr with
  | drained => exact h
  | nobody => exact h
  | header _ id => exact h.note _ nofun
  | packet _ id =>
      have hheader : Addressed (s.note (s.users id).fd
          (.wrote (replyHeader (s.bufs s.tunFd).used) 5)).log := h.note _ nofun
      exact hheader.note _ nofun
  | routed hlong id =>
      have hheader : Addressed (s.note (s.users id).fd
          (.wrote (replyHeader (s.bufs s.tunFd).used) 5)).log := h.note _ nofun
      have hpacket : Addressed ((s.note (s.users id).fd (.wrote (replyHeader (s.bufs s.tunFd).used)
          5)).note (s.users id).fd (.wrote s.packet s.packet.length)).log := hheader.note _ nofun
      have hlen : (s.packet.length : Int) = (s.bufs s.tunFd).used := (hs s.tunFd).length
      have htwenty : sizeofIphdr = 20 := rfl
      intro r hr addr packet hrouted
      rcases List.mem_cons.mp hr with rfl | hr
      · obtain ⟨rfl, rfl⟩ := Act.routed.inj hrouted
        exact ⟨daddr_of_packet (by omega), by omega⟩
      · exact hpacket r hr addr packet hrouted

theorem pass (h : Addressed s.log) (hs : s.Bounded) (hp : Pass s s') : Addressed s'.log := by
  have hparsed : Quiet Act.OfParse s s' → Addressed s'.log := fun hq =>
    h.quiet hq fun _ hact => hact.not_routed
  cases hp with
  | accept fd added =>
      have hlog : (processServer fd added s).log =
          [⟨Function.update s.conn fd (some s.accepted) fd, fd, .accepted⟩] ++ s.log := rfl
      rw [hlog]
      exact h.extend (by simp)
  | hangup fd _ => exact h.freed fd
  | read fd _ bs _ =>
      have htouched : Addressed (s.note fd (.touched (s.bufs fd).used (s.bufs fd).room)).log :=
        h.note fd nofun
      have hlog : (readClient fd bs s).log = [⟨s.conn fd, fd, .received bs⟩] ++
          (s.note fd (.touched (s.bufs fd).used (s.bufs fd).room)).log := rfl
      rw [hlog]
      exact htouched.extend (by simp)
  | parsed env fd _ hparse => exact hparsed (hparse.quiet (.inl rfl))
  | parsedLast env fd _ hparse => exact hparsed (hparse.quiet (.inr rfl))
  | readTun bs _ => exact h.note s.tunFd nofun
  | routed hroute => exact h.route hs hroute
  | routedLast hroute => exact h.route hs hroute
  | swept env i hsweep =>
      have hswept : Addressed (s.swept env i).log :=
        h.quiet (s.swept_quiet env i) fun act hact addr packet hrouted => by
          rw [hrouted] at hact
          exact hact
      cases hsweep with
      | skipped => exact h
      | spared => exact hswept
      | stuck => exact hswept
      | evicted => exact hswept.freed _

theorem runFrom {fds : Descriptors} {es : List Event} (hrun : runFrom fds es = some s) :
    Addressed s.log := by
  have hboth : s.Bounded ∧ Addressed s.log := by
    refine passes_conditional (fun _ => True) (fun t => t.Bounded ∧ Addressed t.log)
      (fun _ _ _ _ => trivial) ?_ (runFrom_passes hrun) ⟨.initState fds, nofun⟩ trivial
    exact fun t t' hp ht _ => ⟨ht.1.pass hp, ht.2.pass ht.1 hp⟩
  exact hboth.2

end Addressed

theorem Act.framed_length (act : Act) : act.framed.length ≤ 1 := by
  cases act with
  | wrote bs ret =>
      rw [Act.framed]
      split <;> simp
  | _ => simp [Act.framed]

theorem onConn_framed_length (c : Conn) (r : Record) : (onConn c Act.framed r).length ≤ 1 := by
  unfold onConn
  split
  · exact r.act.framed_length
  · simp

/-- Only `process_tun` completes frames with packets. -/
theorem routed_of_framed {act : Act} {packet : List UInt8} (h : act.framed = [⟨msgDataRsb, packet⟩]) :
    ∃ addr, act = .routed addr packet := by
  cases act with
  | routed addr p =>
      obtain ⟨rfl⟩ : p = packet := by simpa [Act.framed] using h
      exact ⟨addr, rfl⟩
  | replied text =>
      simp only [Act.framed, List.cons.injEq, Frame.mk.injEq] at h
      exact absurd h.1.1 (by decide)
  | wrote bs ret =>
      rw [Act.framed] at h
      split at h
      · simp only [keepalive, List.cons.injEq, Frame.mk.injEq] at h
        exact absurd h.1.1 (by decide)
      · cases h
  | _ => cases h

theorem octets_of_destination {packet : List UInt8} {i : Slot} (hlong : 20 ≤ packet.length)
    (h : destination packet = slotAddr i) :
    (packet.drop 16).take 4 = [13, 8, 0, UInt8.ofNat i] := by
  have hfour : ((packet.drop 16).take 4).length = 4 := by
    rw [List.length_take, List.length_drop]
    omega
  have hword : (256 : Nat) ^ 4 = UInt32.size := rfl
  have hleft := leNat_lt ((packet.drop 16).take 4)
  have hright := leNat_lt [13, 8, 0, UInt8.ofNat i]
  rw [hfour, hword] at hleft
  rw [List.length_cons, List.length_cons, List.length_cons, List.length_singleton, hword] at hright
  apply leNat_injective hfour
  have hnat := congrArg UInt32.toNat h
  rwa [destination, slotAddr, UInt32.toNat_ofNat_of_lt' hleft,
    UInt32.toNat_ofNat_of_lt' hright] at hnat

/-- Before a packet is sent on a connection its destination was, in an IP reply. -/
theorem replied_before {sent : Conn → List Frame} (hvalid : ∀ c, ∀ f ∈ sent c, f.Valid)
    (hone : ∀ c, (sent c).countP isIpReq ≤ 1) {fds : Descriptors} {es : List Event} {s : State}
    (hrun : Server.runFrom fds es = some s) (hsent : WellSent sent s)
    (hwrites : WritesSucceed s.log) {c : Conn} {pre post : List Frame} {packet : List UInt8}
    (hsplit : framed c s.log = pre ++ ⟨msgDataRsb, packet⟩ :: post) :
    ∃ i, replyFrame i ∈ pre ∧ (packet.drop 16).take 4 = [13, 8, 0, UInt8.ofNat i] := by
  have hroutable := runFrom_routable hvalid hone hrun hsent hwrites
  obtain ⟨later, r, older, hlog, hframed, hpre⟩ := gather_split (onConn_framed_length c) hsplit
  have hconn : r.conn = some c := by
    by_contra hother
    rw [onConn, if_neg hother] at hframed
    cases hframed
  rw [onConn, if_pos hconn] at hframed
  obtain ⟨addr, hact⟩ := routed_of_framed hframed
  obtain ⟨haddr, hlong⟩ := Addressed.runFrom hrun r (by simp [hlog]) addr packet hact
  obtain ⟨d, i, hd, hslot, since, before, t, hold, hreply, _⟩ := hroutable.routed.at hlog hact
  obtain rfl := Option.some.inj (hconn.symm.trans hd)
  refine ⟨i, ?_, octets_of_destination hlong (haddr.symm.trans hslot)⟩
  rw [← hpre]
  refine mem_gather.mpr ⟨_, hold ▸ List.mem_append_left _ hreply, ?_⟩
  simp [onConn, Act.framed, replyFrame]

end Over6.Server

namespace Over6.Network

open MachineInt BoundedLoop EventRun Journal
open Server (Conn)

/-- The addresses a client is told before a packet comes are the ones the packet may be for. -/
def Told (words : List Frame) : Prop :=
  ∀ pre packet post, words = pre ++ ⟨msgDataRsb, packet⟩ :: post →
    ∃ f ∈ pre, f.type = msgIpRsb ∧ ∀ stale beyond,
      (Client.readIps stale (f.payload ++ beyond) 5).ips.head? = some ((packet.drop 16).take 4)

section Runs

variable {fds : Server.Descriptors} {clients : Clients} {es : List Event} {n : Network}

theorem told_of_replied {words : List Frame}
    (h : ∀ pre packet post, words = pre ++ ⟨msgDataRsb, packet⟩ :: post →
      ∃ i, Server.replyFrame i ∈ pre ∧ (packet.drop 16).take 4 = [13, 8, 0, UInt8.ofNat i]) :
    Told words := by
  intro pre packet post hsplit
  obtain ⟨i, hreply, hoctets⟩ := h pre packet post hsplit
  refine ⟨Server.replyFrame i, hreply, rfl, fun stale beyond => ?_⟩
  rw [Client.readIps_replyFrame, hoctets]
  rfl

/-- However the calls come and however the connections cut up what is sent: a client that asked for one
address goes through a beginning of the frames that the server put on its connection. Its tun is
given packets among them, in order and each once, every one of them with five bytes too many. And each
was for the address that the client had read from the reply of the server before. -/
theorem packets_reach_clients (fds : Server.Descriptors) (clients : Clients) (es : List Event)
    (n : Network) (hrun : run next (start fds clients) es = some n)
    (hwrites : Server.WritesSucceed n.server.log)
    (hone : ∀ c, Client.fetches (n.client c).log ≤ 1) (c : Conn) (hret : (n.client c).ret = 0) :
    ∃ words, words <+: Server.framed c n.server.log ∧
      Client.dispatched (n.client c).log = words.map Frame.message ∧ Told words ∧
      ∃ ps, ps.Sublist (Client.packets words) ∧
        List.Forall₂ Client.Overlong ps (Client.injected (n.client c).log) := by
  have hlinked := linked_of_run hrun
  obtain ⟨sent, hspoken, _, hsent⟩ := hlinked.says
  have hvalid : ∀ d, ∀ f ∈ sent d, f.Valid := fun d => (hspoken d).valid
  have hasked : ∀ d, (sent d).countP Server.isIpReq ≤ 1 := fun d =>
    (hspoken d).asked.trans (hone d)
  obtain ⟨hstream, hbulk⟩ := Server.runFrom_framed hlinked.server hwrites c
  have hdown := hlinked.down c
  rw [hstream] at hdown
  obtain ⟨words, hdecoded, ps, hps, hinjected⟩ :=
    Client.runFrom_goes (fun f hf => (hbulk f hf).valid) (hlinked.client c) hret hdown
  obtain ⟨hbegun, _⟩ := hdecoded.held
  refine ⟨words, hbegun, ?_, ?_, ps, hps, hinjected⟩
  · exact hdecoded.met.trans (List.nil_append _)
  · apply told_of_replied
    intro pre packet post hsplit
    obtain ⟨rest, hrest⟩ := hbegun
    have hframed : Server.framed c n.server.log =
        pre ++ ⟨msgDataRsb, packet⟩ :: (post ++ rest) := by
      rw [← hrest, hsplit, List.append_assoc, List.cons_append]
    exact Server.replied_before hvalid hasked hlinked.server hsent hwrites hframed

end Runs

/-- A client asks for an address, and a packet for it comes before it has read the reply. Behind the
packet the buffer still holds `.111.` from the reply. -/
def answered : List Event :=
  [.server (.server (some (7, true))),
    .client 0 (.command ⟨.bytes [Client.ipcCommandFetchConfig], fun _ => .error,
      fun _ => Client.writesAll⟩ 9),
    .server (.client 7 (.bytes [5, 0, 0, 0, 100]) (.prompt 0) true 9),
    .client 0 (.command (.setTun 6) 9),
    .server (.tun (.bytes Server.packetToTwo) .prompt 9),
    .client 0 (.socket (.bytes ((Server.replyFrame 2).bytes ++ [25, 0])) (.prompt 0) 9),
    .client 0 (.socket (.bytes ([0, 0, 103] ++ Server.packetToTwo)) (.prompt 0) 9)]

theorem packets_reach_clients_answered :
    ∃ n, run next (start .usual .usual) answered = some n ∧
      ∃ words, words <+: [Server.replyFrame 2, ⟨msgDataRsb, Server.packetToTwo⟩] ∧
        words.length = 2 ∧ Told words ∧
        ∃ ps, ps.Sublist (Client.packets words) ∧
          List.Forall₂ Client.Overlong ps [Server.packetToTwo ++ [46, 49, 49, 49, 46]] := by
  have hview : (run next (start .usual .usual) answered).map (fun n =>
      decide ((∀ r ∈ n.server.log, r.conn.isSome = true → r.act.writeFails = false) ∧
        Client.fetches (n.client 0).log ≤ 1 ∧ (n.client 0).ret = 0 ∧
        Server.framed 0 n.server.log =
          [Server.replyFrame 2, ⟨msgDataRsb, Server.packetToTwo⟩] ∧
        (Client.dispatched (n.client 0).log).length = 2 ∧
        Client.injected (n.client 0).log = [Server.packetToTwo ++ [46, 49, 49, 49, 46]])) =
          some true := by decide +kernel
  obtain ⟨n, hrun, hn⟩ := Option.map_eq_some_iff.mp hview
  obtain ⟨hwrites, hzero, hret, hframed, hmet, hinjected⟩ := of_decide_eq_true hn
  have hone : ∀ c, Client.fetches (n.client c).log ≤ 1 := by
    intro c
    by_cases hc : c = 0
    · rw [hc]
      exact hzero
    · have hidle : answered.flatMap (Event.atClient c) = [] := by
        simp [answered, Event.atClient, Ne.symm hc]
      have hclient := (linked_of_run hrun).client c
      rw [hidle] at hclient
      rw [← Option.some.inj hclient]
      exact Nat.zero_le 1
  obtain ⟨words, hbegun, hwords, htold, ps, hps, hover⟩ :=
    packets_reach_clients .usual .usual answered n hrun hwrites hone 0 hret
  rw [hframed] at hbegun
  rw [hwords, List.length_map] at hmet
  rw [hinjected] at hover
  exact ⟨n, hrun, words, hbegun, hmet, htold, ps, hps, hover⟩

end Over6.Network
