import Over6.Client.Uplink
import Over6.Server.Output
import Over6.Server.Upstream

/-! # The server and its clients

The epoll server with a client behind each connection it has accepted or will accept.
All of them make their calls in any order; between two of them lies a TCP connection,
on which nobody receives what the other has not written.
-/

namespace Over6

open EventRun Journal
open Server (Conn)

structure Network where
  server : Server.State
  client : Conn → Client.State

structure Clients where
  fds : Conn → Client.Descriptors
  time₁ : Conn → Int
  time₂ : Conn → Int
  stale : Conn → CellMemory UInt8

def Clients.usual : Clients where
  fds _ := .usual
  time₁ _ := 0
  time₂ _ := 0
  stale _ _ := 0

namespace Network

inductive Event where
  | server (e : Server.Event)
  | client (c : Conn) (e : Client.Event)

def start (fds : Server.Descriptors) (clients : Clients) : Network where
  server := Server.initState fds
  client c := Client.protocolInit (clients.fds c) (clients.time₁ c) (clients.time₂ c)
    (clients.stale c)

def next (n : Network) : Event → Option Network
  | .server e =>
      (Server.step n.server e).bind fun s =>
        if ∀ c < s.accepted, Server.received c s.log <+: Client.written (n.client c).log then
          some { n with server := s }
        else none
  | .client c e =>
      (Client.step (n.client c) e).bind fun t =>
        if Client.received t.log <+: Server.written c n.server.log then
          some { n with client := Function.update n.client c t }
        else none

def Event.atServer : Event → List Server.Event
  | .server e => [e]
  | .client _ _ => []

def Event.atClient (c : Conn) : Event → List Client.Event
  | .server _ => []
  | .client d e => if d = c then [e] else []

def taken (c : Conn) (es : List Event) : List (List UInt8) :=
  (es.flatMap (Event.atClient c)).flatMap Client.Event.packets

/-! ## The parties of a run -/

/-- Both ends of every connection, each in a run of its own. -/
structure Linked (fds : Server.Descriptors) (clients : Clients) (es : List Event) (n : Network) :
    Prop where
  server : Server.runFrom fds (es.flatMap Event.atServer) = some n.server
  client : ∀ c, Client.runFrom (clients.fds c) (clients.time₁ c) (clients.time₂ c) (clients.stale c)
    (es.flatMap (Event.atClient c)) = some (n.client c)
  up : ∀ c, Server.received c n.server.log <+: Client.written (n.client c).log
  down : ∀ c, Client.received (n.client c).log <+: Server.written c n.server.log

section Runs

variable {fds : Server.Descriptors} {clients : Clients} {es : List Event} {e : Event}
  {n n' : Network}

theorem next_server {e : Server.Event} (h : next n (.server e) = some n') :
    Server.step n.server e = some n'.server ∧ n'.client = n.client ∧
      ∀ c < n'.server.accepted,
        Server.received c n'.server.log <+: Client.written (n.client c).log := by
  obtain ⟨s, hs, hn⟩ := Option.bind_eq_some_iff.mp h
  split at hn
  · rename_i hreceived
    obtain rfl := Option.some.inj hn
    exact ⟨hs, rfl, hreceived⟩
  · cases hn

theorem next_client {c : Conn} {e : Client.Event} (h : next n (.client c e) = some n') :
    n'.server = n.server ∧ ∃ t, Client.step (n.client c) e = some t ∧
      n'.client = Function.update n.client c t ∧
      Client.received t.log <+: Server.written c n.server.log := by
  obtain ⟨t, ht, hn⟩ := Option.bind_eq_some_iff.mp h
  split at hn
  · rename_i hreceived
    obtain rfl := Option.some.inj hn
    exact ⟨rfl, t, ht, rfl, hreceived⟩
  · cases hn

theorem Linked.next (h : Linked fds clients es n) (hnext : next n e = some n') :
    Linked fds clients (es ++ [e]) n' := by
  cases e with
  | server e =>
      obtain ⟨hstep, hclient, hreceived⟩ := next_server hnext
      have hrun : Server.runFrom fds (es.flatMap Event.atServer ++ [e]) = some n'.server :=
        run_snoc_iff.mpr ⟨_, h.server, hstep⟩
      refine ⟨?_, fun c => ?_, fun c => ?_, fun c => ?_⟩
      · rw [List.flatMap_append]
        exact hrun
      · rw [List.flatMap_append, hclient]
        simpa [Event.atClient] using h.client c
      · rw [hclient]
        by_cases hc : c < n'.server.accepted
        · exact hreceived c hc
        · rw [(Server.Connections.runFrom hrun).received_of_new hc]
          exact List.nil_prefix
      · rw [hclient]
        exact (h.down c).trans (gather_begun _ (Server.step_log_suffix hstep))
  | client d e =>
      obtain ⟨hserver, t, hstep, hclient, hreceived⟩ := next_client hnext
      refine ⟨?_, fun c => ?_, fun c => ?_, fun c => ?_⟩
      · rw [List.flatMap_append, hserver]
        simpa [Event.atServer] using h.server
      · rw [List.flatMap_append, hclient]
        by_cases hc : d = c
        · subst hc
          have hrun : Client.runFrom (clients.fds d) (clients.time₁ d) (clients.time₂ d)
              (clients.stale d) (es.flatMap (Event.atClient d) ++ [e]) = some t :=
            run_snoc_iff.mpr ⟨_, h.client d, hstep⟩
          rw [Function.update_self]
          simpa [Event.atClient] using hrun
        · rw [Function.update_of_ne (Ne.symm hc)]
          simpa [Event.atClient, hc] using h.client c
      · rw [hserver, hclient]
        by_cases hc : c = d
        · subst hc
          rw [Function.update_self]
          have hlog := Client.step_log_suffix (Client.runFrom_bounded (h.client c)) hstep
          exact (h.up c).trans (gather_begun _ hlog)
        · rw [Function.update_of_ne hc]
          exact h.up c
      · rw [hserver, hclient]
        by_cases hc : c = d
        · subst hc
          rw [Function.update_self]
          exact hreceived
        · rw [Function.update_of_ne hc]
          exact h.down c

theorem linked_of_run (hrun : run next (start fds clients) es = some n) :
    Linked fds clients es n := by
  induction es using List.reverseRecOn generalizing n with
  | nil =>
      obtain rfl := Option.some.inj hrun
      exact ⟨rfl, fun _ => rfl, fun _ => List.nil_prefix, fun _ => List.nil_prefix⟩
  | append_singleton es e ih =>
      obtain ⟨m, hm, hnext⟩ := run_snoc_iff.mp hrun
      exact (ih hm).next hnext

/-! ## From the tuns of the clients to the tun of the server -/

/-- What the clients say: frames with the packets they have taken, as far as they are through. -/
theorem Linked.says (h : Linked fds clients es n) : ∃ sent : Conn → List Frame,
    (∀ c, Client.Says (n.client c) (sent c)) ∧ (∀ c, uploads (sent c) = taken c es) ∧
      Server.WellSent sent n.server := by
  choose sent hspoken hpackets using fun c => Client.runFrom_says (h.client c)
  exact ⟨sent, hspoken, hpackets, fun c => (h.up c).trans (hspoken c).begun⟩

theorem uploads_prefix {fs gs : List Frame} (h : fs <+: gs) : uploads fs <+: uploads gs := by
  obtain ⟨rest, rfl⟩ := h
  rw [uploads_append]
  exact List.prefix_append _ _

/-- However the calls of the server and of any number of clients come, and however the connections cut
up what is sent: as long as the tun of the server takes every packet, it is given an interleaving of
what the clients took from theirs, of each client the packets in order, none twice and none left out,
up to the last that has arrived. Once all that a client has written is received, that is all of them. -/
theorem packets_reach_tun (fds : Server.Descriptors) (clients : Clients) (es : List Event)
    (n : Network) (hrun : run next (start fds clients) es = some n)
    (htun : Server.TunTakesAll n.server.log) :
    ∃ src : List (Conn × List UInt8), n.server.tunWrites = src.map Prod.snd ∧
      (∀ c, part c src <+: taken c es) ∧
      (Server.NoneGaveUp n.server.log → ∀ c, (n.client c).ret = 0 →
        Server.received c n.server.log = Client.written (n.client c).log →
          part c src = taken c es) := by
  have hlinked := linked_of_run hrun
  obtain ⟨sent, hspoken, hpackets, hsent⟩ := hlinked.says
  have hvalid : ∀ c, ∀ f ∈ sent c, f.Valid := fun c => (hspoken c).valid
  have hconveyed := Server.runFrom_conveyed hvalid hlinked.server hsent htun
  refine ⟨Server.uploaded n.server.log, hconveyed.even, fun c => ?_, fun hok c hret hall => ?_⟩
  · obtain ⟨_, hbegun, _⟩ := hconveyed.decoded.partway c
    rw [Server.part_uploaded, ← hpackets c]
    exact uploads_prefix hbegun
  · have hsettled := Server.runFrom_settled hvalid hlinked.server hsent hok c
    rw [hall, (hspoken c).whole hret] at hsettled
    rw [Server.part_uploaded, hsettled.complete, hpackets]

end Runs

/-- Two clients take a packet each, and a third packet is still under way. -/
def crossing : List Event :=
  [.server (.server (some (7, true))), .server (.server (some (8, true))),
    .client 0 (.command (.setTun 6) 9), .client 1 (.command (.setTun 6) 9),
    .client 0 (.tunnel (.bytes [69, 1]) Client.writesAll Client.writesAll),
    .server (.client 7 (.bytes [7, 0, 0, 0, 102, 69]) (.prompt 0) true 9),
    .client 1 (.tunnel (.bytes [69, 2]) Client.writesAll Client.writesAll),
    .client 1 (.tunnel (.bytes [69, 3]) Client.writesAll Client.writesAll),
    .server (.client 8 (.bytes [7, 0, 0, 0, 102, 69, 2, 7]) (.prompt 0) true 9),
    .server (.client 7 (.bytes [1]) (.prompt 0) true 9)]

theorem packets_reach_tun_crossing :
    ∃ n, run next (start .usual .usual) crossing = some n ∧
      ∃ src : List (Conn × List UInt8), [[69, 2], [69, 1]] = src.map Prod.snd ∧
        (∀ c, part c src <+: taken c crossing) ∧ part 0 src = [[69, 1]] := by
  have hview : (run next (start .usual .usual) crossing).map (fun n =>
      decide (n.server.tunWrites = [[69, 2], [69, 1]] ∧ (n.client 0).ret = 0 ∧
        Server.received 0 n.server.log = Client.written (n.client 0).log ∧
        (∀ r ∈ n.server.log, r.act ≠ .failed .tunData) ∧
        ∀ r ∈ n.server.log, r.act.gaveUp = false)) = some true := by decide +kernel
  obtain ⟨n, hrun, hn⟩ := Option.map_eq_some_iff.mp hview
  obtain ⟨hwrites, hret, hall, htun, hok⟩ := of_decide_eq_true hn
  obtain ⟨src, hsrc, hparts, hwhole⟩ := packets_reach_tun .usual .usual crossing n hrun htun
  exact ⟨n, hrun, src, hwrites.symm.trans hsrc, hparts, (hwhole hok 0 hret hall).trans (by decide)⟩

end Network

end Over6
