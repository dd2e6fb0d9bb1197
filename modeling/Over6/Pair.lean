import Over6.Client.Clocks
import Over6.Lib.Keepalive
import Over6.Server.Standing

/-! # One client and the server on one clock

The server with any number of connections, and the client behind one of them. Both
make their calls in any order; every call is made at one value of the clock. What
they write is on its way until the other has handled it.
-/

namespace Over6

/-! ## Frames on their way -/

structure Stamped where
  time : Int
  frame : Frame
deriving DecidableEq, Repr

def stamp (now : Int) (fs : List Frame) : List Stamped := fs.map fun f => ⟨now, f⟩

def frames (l : List Stamped) : List Frame := l.map Stamped.frame

@[simp] theorem frames_stamp (now : Int) (fs : List Frame) : frames (stamp now fs) = fs := by
  rw [frames, stamp, List.map_map]
  exact List.map_id fs

@[simp] theorem frames_append (l m : List Stamped) : frames (l ++ m) = frames l ++ frames m := by
  simp [frames]

/-- Heartbeats and the frames that carry a request for an address or the answer. -/
def Frame.Urgent (f : Frame) : Prop :=
  f.type = msgIpReq ∨ f.type = msgIpRsb ∨ f.type = msgHeartbeat

instance (f : Frame) : Decidable f.Urgent := inferInstanceAs (Decidable (_ ∨ _))

/-- At the time `now` no urgent frame is on its way for more than ten seconds. -/
def InTime (now : Int) (l : List Stamped) : Prop :=
  ∀ m ∈ l, m.frame.Urgent → now ≤ m.time + 10

instance (now : Int) (l : List Stamped) : Decidable (InTime now l) :=
  inferInstanceAs (Decidable (∀ m ∈ l, m.frame.Urgent → now ≤ m.time + 10))

/-! ## The parties -/

/-- What each party has written, and whether either has looked at its heartbeats since the clock
went on. -/
structure Pair where
  now : Int
  server : Server.State
  client : Client.State
  up : List Stamped
  down : List Stamped
  swept : Bool
  beaten : Bool

namespace Pair

def unhandledUp (p : Pair) (c : Server.Conn) : List Stamped :=
  p.up.drop (Server.handled c p.server.log).length

def unhandledDown (p : Pair) : List Stamped :=
  p.down.drop (Client.dispatched p.client.log).length

/-- What all clients have sent; the one on connection `c` is this one. -/
def heard (p : Pair) (c : Server.Conn) (others : Server.Conn → List Frame) :
    Server.Conn → List Frame :=
  Function.update others c (frames p.up)

end Pair

def Server.Event.isHeartbeat : Server.Event → Bool
  | .heartbeat _ => true
  | _ => false

def Client.Event.isHeartbeat : Client.Event → Bool
  | .heartbeat _ _ => true
  | _ => false

/-- The clock goes on when both have looked at it, no urgent frame is late and the request is not
late; else one party makes a call. -/
inductive Pair.Step (c : Server.Conn) (others : Server.Conn → List Frame) (start : Int) (p : Pair) :
    Pair → Prop
  | tick (hbeaten : p.beaten = true) (hswept : p.swept = true)
      (hup : InTime (p.now + 1) (p.unhandledUp c)) (hdown : InTime (p.now + 1) p.unhandledDown)
      (hsetup : (∃ f ∈ frames p.up, f.type = msgIpReq) ∨ p.now + 1 ≤ start + 5) :
      Step c others start p { p with now := p.now + 1, swept := false, beaten := false }
  | server (e : Server.Event) (s' : Server.State) (fs : List Frame)
      (hcall : Server.step p.server e = some s') (hnow : e.At p.now) (hopen : ¬ e.Ends c p.server)
      (hwrites : Server.WritesSucceed s'.log) (hsent : Server.WellSent (p.heard c others) s')
      (hframes : ∀ f ∈ fs, f.Valid)
      (hwritten : Server.written c s'.log = Server.written c p.server.log ++ frameCode.stream fs) :
      Step c others start p { p with
        server := s'
        down := p.down ++ stamp p.now fs
        swept := p.swept || e.isHeartbeat }
  | client (e : Client.Event) (t' : Client.State) (fs : List Frame)
      (hcall : Client.step p.client e = some t') (hnow : e.At p.now) (hwrites : e.WritesSucceed)
      (hreceived : Client.received t'.log <+: frameCode.stream (frames p.down))
      (hframes : ∀ f ∈ fs, f.Valid)
      (hwritten : Client.written t'.log = Client.written p.client.log ++ frameCode.stream fs)
      (hone : (frames p.up ++ fs).countP Server.isIpReq ≤ 1) :
      Step c others start p { p with
        client := t'
        up := p.up ++ stamp p.now fs
        beaten := p.beaten || e.isHeartbeat }

/-- At the time `start` the client has called `protocol_init` and nothing has been sent. -/
structure Pair.Starts (c : Server.Conn) (others : Server.Conn → List Frame) (start : Int)
    (p : Pair) : Prop where
  now : p.now = start
  client : ∃ fds stale, p.client = Client.protocolInit fds start start stale
  server : ∃ fds es, Server.runFrom fds es = some p.server
  writes : Server.WritesSucceed p.server.log
  sent : Server.WellSent (p.heard c others) p.server
  up : p.up = []
  down : p.down = []
  swept : p.swept = false
  beaten : p.beaten = false

def Pair.Reachable (c : Server.Conn) (others : Server.Conn → List Frame) (start : Int)
    (p : Pair) : Prop :=
  ∃ p₀ : Pair, p₀.Starts c others start ∧ Relation.ReflTransGen (Step c others start) p₀ p

end Over6
