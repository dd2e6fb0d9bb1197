import Over6.Server.ClosedPeer

/-! # The loop of `main`

`epoll_wait` reports descriptors, the handler of each goes by its number, and a
heartbeat pass ends the turn. What is reported stays true until its handler is
called, in each of the servers, so that a run of `main` is a run of its handlers.
-/

namespace Over6.Server

open BoundedLoop EventRun

/-- `server/main.cpp`, the server that `run.sh` builds, and `server/cy/main.cpp`, which routes like
the second and hears of closed peers like the first. -/
inductive Program where
  | server
  | built
  | cy
deriving DecidableEq, Repr

namespace Program

def processTun : Program → ProcessTun
  | server => Server.processTun
  | built | cy => Built.processTun

def processClient : Program → ProcessClient
  | server | cy => Server.processClient
  | built => Built.processClient

def step (p : Program) (s : State) : Event → Option State
  | .server none => some s
  | .server (some (fd, added)) =>
      if s.CanAccept fd then some (processServer fd added s) else none
  | .tun r env fuel =>
      if r.Fits (s.bufs s.tunFd).room then (p.processTun r env fuel s).returned else none
  | .client fd r env removed fuel =>
      if s.watched fd = true ∧ r.Fits (s.bufs fd).room then
        (p.processClient r env removed fuel fd s).returned
      else none
  | .heartbeat env => some (processHeartbeat env s)

def runFrom (p : Program) (fds : Descriptors) (es : List Event) : Option State :=
  run p.step (initState fds) es

theorem runFrom_server (fds : Descriptors) (es : List Event) :
    server.runFrom fds es = Server.runFrom fds es := by
  have hstep : server.step = Server.step := by
    funext s e
    cases e <;> rfl
  rw [runFrom, Server.runFrom, hstep]

end Program

def epollMaxEvents : Nat := 2048

/-- `events[i].data.fd`, and what the kernel has for the handler that is called with it. -/
structure Report where
  fd : Fd
  accepted : Option (Fd × Bool)
  read : ReadResult
  routes : Nat → RouteEnv
  frames : Nat → FrameEnv
  removed : Bool
  fuel : Nat

/-- The body of the loop over `events`. -/
def handleEvent (p : Program) (s : State) (r : Report) : Option State :=
  if r.fd = s.fds.serverFd then
    match r.accepted with
    | none => some s
    | some (fd, added) => if s.CanAccept fd then some (processServer fd added s) else none
  else if r.fd = s.tunFd then
    if r.read.Fits (s.bufs s.tunFd).room then
      (p.processTun r.read r.routes r.fuel s).returned
    else none
  else if r.read.Fits (s.bufs r.fd).room then
    (p.processClient r.read r.frames r.removed r.fuel r.fd s).returned
  else none

/-- What `epoll_wait` may report: descriptors it watches, each of them once. -/
structure Reported (s : State) (events : List Report) : Prop where
  once : (events.map Report.fd).Nodup
  watched : ∀ r ∈ events, r.fd = s.fds.serverFd ∨ r.fd = s.tunFd ∨ s.watched r.fd = true
  atMost : events.length ≤ epollMaxEvents

instance (s : State) (events : List Report) : Decidable (Reported s events) :=
  decidable_of_iff ((events.map Report.fd).Nodup ∧
      (∀ r ∈ events, r.fd = s.fds.serverFd ∨ r.fd = s.tunFd ∨ s.watched r.fd = true) ∧
      events.length ≤ epollMaxEvents)
    ⟨fun h => ⟨h.1, h.2.1, h.2.2⟩, fun h => ⟨h.once, h.watched, h.atMost⟩⟩

structure Turn where
  events : List Report
  sweep : SweepEnv

def turn (p : Program) (s : State) (t : Turn) : Option State :=
  if Reported s t.events then
    (run (handleEvent p) s t.events).map (processHeartbeat t.sweep)
  else none

def mainFrom (p : Program) (fds : Descriptors) (ts : List Turn) : Option State :=
  run (turn p) (initState fds) ts

theorem turn_eq_some {p : Program} {s s' : State} {t : Turn} :
    turn p s t = some s' ↔ Reported s t.events ∧
      ∃ u, run (handleEvent p) s t.events = some u ∧ processHeartbeat t.sweep u = s' := by
  rw [turn]
  by_cases h : Reported s t.events
  · rw [if_pos h, Option.map_eq_some_iff]
    exact ⟨fun hu => ⟨h, hu⟩, fun hu => hu.2⟩
  · rw [if_neg h]
    exact ⟨fun hu => (Option.some_ne_none s' hu.symm).elim, fun hu => absurd hu.1 h⟩

/-! ## What a handler leaves alone -/

/-- `x` denotes the same connection, watched or not, with the same bytes in its buffer. -/
def SameAt (s s' : State) (x : Fd) : Prop :=
  s'.conn x = s.conn x ∧ s'.watched x = s.watched x ∧ s'.bufs x = s.bufs x

theorem SameAt.trans {s t s' : State} {x : Fd} (h : SameAt s t x) (h' : SameAt t s' x) :
    SameAt s s' x :=
  ⟨h'.1.trans h.1, h'.2.1.trans h.2.1, h'.2.2.trans h.2.2⟩

def closings (c : Conn) (log : List Record) : Nat :=
  log.countP fun r => decide (r.conn = some c ∧ r.act = .closed)

/-- What a call makes of a descriptor: it is left as it is, or closed once, and then epoll has let go
of it. -/
inductive Fate (fd : Fd) (s s' : State) : Prop
  | stays (hconn : s'.conn fd = s.conn fd) (hwatched : s'.watched fd = s.watched fd)
      (hclosings : ∀ c, closings c s'.log = closings c s.log)
  | closes (hwas : s.watched fd = true) (hconn : s'.conn fd = none) (hwatched : s'.watched fd = false)
      (hclosings : ∀ c, closings c s'.log =
        closings c s.log + if s.conn fd = some c then 1 else 0)

/-- The other descriptors are left as they are. -/
structure KeepsTo (fd : Fd) (s s' : State) : Prop where
  fds : s'.fds = s.fds
  accepted : s'.accepted = s.accepted
  other : ∀ x, x ≠ fd → SameAt s s' x
  own : Fate fd s s'

/-- Only `free_client_fd` closes anything. -/
theorem Act.Plain.lasting {act : Act} (h : act.Plain) : act ≠ .closed := by
  rintro rfl
  exact h

theorem Act.OfParse.lasting {act : Act} (h : act.OfParse) : act ≠ .closed := by
  rintro rfl
  rcases h with h | ⟨_, _, h⟩
  · exact h
  · cases h

theorem Act.OfSweep.lasting {act : Act} (h : act.OfSweep) : act ≠ .closed := by
  rintro rfl
  exact h

theorem closings_append (c : Conn) (new log : List Record) :
    closings c (new ++ log) = closings c log + closings c new := by
  rw [closings, List.countP_append, Nat.add_comm]
  rfl

theorem State.freed_closings (s : State) (fd : Fd) (c : Conn) :
    closings c (s.freed fd).log = closings c s.log + if s.conn fd = some c then 1 else 0 := by
  unfold State.freed deallocateIpAddr
  cases searchUserInfoByFd s.users fd <;>
    simp [closings, State.close, State.note, List.countP_cons]

namespace KeepsTo

variable {fd : Fd} {s t s' : State}

theorem refl (fd : Fd) (s : State) : KeepsTo fd s s :=
  ⟨rfl, rfl, fun _ _ => ⟨rfl, rfl, rfl⟩, .stays rfl rfl fun _ => rfl⟩

theorem trans (h : KeepsTo fd s t) (h' : KeepsTo fd t s') : KeepsTo fd s s' := by
  refine ⟨h'.fds.trans h.fds, h'.accepted.trans h.accepted,
    fun x hx => (h.other x hx).trans (h'.other x hx), ?_⟩
  cases h.own with
  | stays hconn hwatched hclosings =>
      cases h'.own with
      | stays hconn' hwatched' hclosings' =>
          exact .stays (hconn'.trans hconn) (hwatched'.trans hwatched)
            fun c => (hclosings' c).trans (hclosings c)
      | closes hwas hgone hgone' hclosings' =>
          refine .closes (hwatched ▸ hwas) hgone hgone' fun c => ?_
          rw [hclosings', hclosings, hconn]
  | closes hwas hgone hgone' hclosings =>
      cases h'.own with
      | stays hconn' hwatched' hclosings' =>
          exact .closes hwas (hconn'.trans hgone) (hwatched'.trans hgone')
            fun c => (hclosings' c).trans (hclosings c)
      | closes hwas' =>
          rw [hgone'] at hwas'
          cases hwas'

theorem of_chain (h : Relation.ReflTransGen (KeepsTo fd) s s') : KeepsTo fd s s' := by
  induction h with
  | refl => exact refl fd s
  | tail _ hlast ih => exact ih.trans hlast

/-- A call that neither opens nor closes anything. -/
theorem of_quiet {P : Act → Prop} (hP : ∀ act, P act → act ≠ .closed) (hq : Quiet P s s')
    (hbufs : ∀ x, x ≠ fd → s'.bufs x = s.bufs x) : KeepsTo fd s s' := by
  refine ⟨hq.fds, hq.accepted, fun x hx => ?_, .stays ?_ ?_ fun c => ?_⟩
  · rw [SameAt, hq.conn, hq.watched]
    exact ⟨rfl, rfl, hbufs x hx⟩
  · rw [hq.conn]
  · rw [hq.watched]
  · obtain ⟨new, hlog, hnew⟩ := hq.log
    have hnone : closings c new = 0 := by
      refine List.countP_eq_zero.mpr fun r hr hclosed => ?_
      exact hP r.act (hnew r hr).2 (of_decide_eq_true hclosed).2
    rw [hlog, closings_append, hnone, Nat.add_zero]

theorem setBuf (fd : Fd) (s : State) (e : BufferEntry) : KeepsTo fd s (s.setBuf fd e) := by
  have hq : Quiet Act.Plain s (s.setBuf fd e) := (Quiet.refl s).setBuf fd e
  exact of_quiet (fun _ => Act.Plain.lasting) hq fun x hx => Function.update_of_ne hx _ _

theorem receive (fd : Fd) (bs : List UInt8) (s : State) : KeepsTo fd s (receive fd bs s) := by
  have hq : Quiet Act.Plain s (Server.receive fd bs s) :=
    (((Quiet.refl s).note fd).setBuf fd _)
  exact of_quiet (fun _ => Act.Plain.lasting) hq fun x hx => Function.update_of_ne hx _ _

theorem readClient (fd : Fd) (bs : List UInt8) (s : State) :
    KeepsTo fd s (readClient fd bs s) := by
  have hq : Quiet Act.Plain s (Server.readClient fd bs s) :=
    (((Quiet.refl s).note fd).setBuf fd _).note fd
  exact of_quiet (fun _ => Act.Plain.lasting) hq fun x hx => Function.update_of_ne hx _ _

theorem parse {env : FrameEnv} {flow : Flow State} (h : Parse env fd s flow)
    (hs : flow = .next s' ∨ flow = .stop s') : KeepsTo fd s s' := by
  refine of_quiet (fun _ => Act.OfParse.lasting) (h.quiet hs) fun x hx => ?_
  cases h with
  | waits =>
      obtain rfl : s = s' := by simpa using hs
      rfl
  | left _ hframe =>
      obtain rfl := Flow.stop.inj (hs.resolve_left (by simp))
      exact congrFun hframe.bufs x
  | passed _ hframe _ =>
      obtain rfl := Flow.next.inj (hs.resolve_right (by simp))
      rw [State.consumed_bufs, Function.update_of_ne hx]
      exact congrFun hframe.bufs x
  | overran => simp at hs

theorem parseLoop {env : Nat → FrameEnv} {fuel k : Nat}
    (h : iterate (fun k => parseOnce (env k) fd) fuel k s = .stopped s') : KeepsTo fd s s' := by
  apply of_chain
  apply iterate_reaches (KeepsTo fd) (fun _ => True) _ _ trivial h
  · intro k t t' _ hb
    exact ⟨parse (hb ▸ parseOnce_parse (env k) fd t) (.inl rfl), trivial⟩
  · intro k t t' _ hb
    exact parse (hb ▸ parseOnce_parse (env k) fd t) (.inr rfl)

theorem freed (hwas : s.watched fd = true) : KeepsTo fd s (s.freed fd) := by
  obtain ⟨_, hbufs, hfds, hconn, hwatched, haccepted⟩ := s.freed_spec fd
  refine ⟨hfds, haccepted, fun x hx => ?_, .closes hwas ?_ ?_ (s.freed_closings fd)⟩
  · rw [SameAt, hconn, hwatched, hbufs, Function.update_of_ne hx, Function.update_of_ne hx]
    exact ⟨rfl, rfl, rfl⟩
  · rw [hconn, Function.update_self]
  · rw [hwatched, Function.update_self]

theorem freeClientFd (removed : Bool) (fd : Fd) (s : State) :
    KeepsTo fd s (freeClientFd removed fd s) := by
  rcases freeClientFd_cases removed fd s with hkept | ⟨hwas, hfreed⟩
  · rw [hkept]
    exact refl fd s
  · rw [hfreed]
    exact freed hwas

theorem route {flow : Flow State} (h : Route s flow) : KeepsTo s.tunFd s flow.state := by
  refine of_quiet (fun _ => Act.Plain.lasting) h.steady.toQuiet fun x hx => ?_
  cases h with
  | routed => exact Function.update_of_ne hx _ _
  | _ => rfl

end KeepsTo

/-! ## The drain loop of the other server -/

/-- There is no whole header in the buffer of the tun, or somebody holds the destination. -/
def State.Routable (s : State) : Prop :=
  (s.bufs s.tunFd).used < sizeofIphdr ∨
    ∃ i, searchUserInfoByAddr s.users (s.bufs s.tunFd).daddr = some i

namespace Built

/-- A packet for nobody is dropped, and all others are routed. -/
theorem routeOnce_cases (env : RouteEnv) (s : State) :
    s.Routable ∧ Built.routeOnce env s = Server.routeOnce env s ∨
      ¬ s.Routable ∧ ∃ e, Built.routeOnce env s = .next (s.setBuf s.tunFd e) := by
  by_cases hshort : (s.bufs s.tunFd).used < sizeofIphdr
  · refine .inl ⟨.inl hshort, ?_⟩
    unfold Built.routeOnce Server.routeOnce
    simp only [hshort, if_true]
  · cases hsearch : searchUserInfoByAddr s.users (s.bufs s.tunFd).daddr with
    | none =>
        refine .inr ⟨fun h => ?_, ?_⟩
        · obtain ⟨i, hi⟩ := h.resolve_left hshort
          rw [hsearch] at hi
          cases hi
        · unfold Built.routeOnce
          simp only [hshort, if_false, hsearch, Int.lt_irrefl]
          exact ⟨_, rfl⟩
    | some i =>
        refine .inl ⟨.inr ⟨i, hsearch⟩, ?_⟩
        unfold Built.routeOnce Server.routeOnce
        simp only [hshort, if_false, hsearch, Int.lt_irrefl]

theorem routeOnce_keepsTo {env : RouteEnv} {s s' : State}
    (h : Built.routeOnce env s = .next s' ∨ Built.routeOnce env s = .stop s') :
    KeepsTo s.tunFd s s' := by
  rcases Built.routeOnce_cases env s with ⟨_, hsame⟩ | ⟨_, e, hdropped⟩
  · have hroute := KeepsTo.route (routeOnce_route env s)
    rw [← hsame] at hroute
    rcases h with hnext | hstop
    · rwa [hnext] at hroute
    · rwa [hstop] at hroute
  · rw [hdropped] at h
    obtain rfl := Flow.next.inj (h.resolve_right (by simp))
    exact .setBuf s.tunFd s e

end Built

/-! ## Both programs -/

namespace Program

variable {p : Program} {s s' : State}

theorem processTun_keepsTo {r : ReadResult} {env : Nat → RouteEnv} {fuel : Nat}
    (h : p.processTun r env fuel s = .stopped s') : KeepsTo s.tunFd s s' := by
  cases r with
  | error =>
      have hsame : s = s' := by cases p <;> exact Outcome.stopped.inj h
      rw [hsame]
      exact .refl _ s'
  | bytes bs =>
      have hread : KeepsTo s.tunFd s (receive s.tunFd bs s) := .receive s.tunFd bs s
      refine hread.trans (KeepsTo.of_chain ?_)
      have hloop : ∀ once : RouteEnv → State → Flow State,
          (∀ env t t', once env t = .next t' ∨ once env t = .stop t' → KeepsTo t.tunFd t t') →
          iterate (fun k => once (env k)) fuel 0 (receive s.tunFd bs s) = .stopped s' →
          Relation.ReflTransGen (KeepsTo s.tunFd) (receive s.tunFd bs s) s' := by
        intro once hkeeps hiterate
        have hstart : (receive s.tunFd bs s).tunFd = s.tunFd := rfl
        apply iterate_reaches (KeepsTo s.tunFd) (fun t => t.tunFd = s.tunFd) _ _ hstart hiterate
        · intro k t t' htun hb
          have hkept := hkeeps (env k) t t' (.inl hb)
          have htun' : t'.tunFd = s.tunFd := by
            rw [State.tunFd, hkept.fds]
            exact htun
          exact ⟨htun ▸ hkept, htun'⟩
        · intro k t t' htun hb
          exact htun ▸ hkeeps (env k) t t' (.inr hb)
      cases p with
      | server =>
          refine hloop Server.routeOnce (fun env t t' hflow => ?_) h
          have hroute := KeepsTo.route (routeOnce_route env t)
          rcases hflow with hnext | hstop
          · rwa [hnext] at hroute
          · rwa [hstop] at hroute
      | built | cy => exact hloop Built.routeOnce (fun env t t' => Built.routeOnce_keepsTo) h

theorem processClient_keepsTo {r : ReadResult} {env : Nat → FrameEnv} {removed : Bool} {fuel : Nat}
    {fd : Fd} (h : p.processClient r env removed fuel fd s = .stopped s') : KeepsTo fd s s' := by
  have hparsed : ∀ bs, iterate (fun k => parseOnce (env k) fd) fuel 0 (readClient fd bs s) =
      .stopped s' → KeepsTo fd s s' := fun bs hloop =>
    (KeepsTo.readClient fd bs s).trans (.parseLoop hloop)
  have hended : Outcome.stopped (freeClientFd removed fd s) = .stopped s' → KeepsTo fd s s' := by
    intro hfreed
    rw [← Outcome.stopped.inj hfreed]
    exact .freeClientFd removed fd s
  cases p with
  | server | cy =>
      cases r with
      | error => exact hended h
      | bytes bs =>
          cases bs with
          | nil => exact hended h
          | cons b bs => exact hparsed (b :: bs) h
  | built =>
      cases r with
      | error => exact hended h
      | bytes bs => exact hparsed bs h

end Program

/-! ## What was reported stays true -/

def State.WatchesOpen (s : State) : Prop := ∀ x, s.watched x = true → ∃ c, s.conn x = some c

structure Orderly (fd : Fd) (s s' : State) : Prop where
  fds : s'.fds = s.fds
  watchesOpen : s'.WatchesOpen
  other : ∀ x, s.watched x = true → x ≠ fd → SameAt s s' x

section Reports

variable {p : Program} {s s' : State} {fd : Fd} {r : Report}

theorem KeepsTo.watchesOpen (h : KeepsTo fd s s') (hopen : s.WatchesOpen) : s'.WatchesOpen := by
  intro x hx
  by_cases hxf : x = fd
  · subst hxf
    cases h.own with
    | stays hconn hwatched =>
        rw [hconn]
        exact hopen x (hwatched ▸ hx)
    | closes _ _ hgone =>
        rw [hgone] at hx
        cases hx
  · obtain ⟨hconn, hwatched, _⟩ := h.other x hxf
    rw [hconn]
    exact hopen x (hwatched ▸ hx)

theorem KeepsTo.orderly (h : KeepsTo fd s s') (hopen : s.WatchesOpen) : Orderly fd s s' :=
  ⟨h.fds, h.watchesOpen hopen, fun x _ hx => h.other x hx⟩

/-- `accept` returns a number that nothing else goes by. -/
theorem processServer_orderly {x : Fd} {added : Bool} (hcan : s.CanAccept x) (hopen : s.WatchesOpen)
    (fd : Fd) : Orderly fd s (processServer x added s) := by
  refine ⟨rfl, ?_, ?_⟩
  · intro y hy
    change Function.update s.watched x added y = true at hy
    change ∃ c, Function.update s.conn x (some s.accepted) y = some c
    by_cases hyx : y = x
    · rw [hyx, Function.update_self]
      exact ⟨s.accepted, rfl⟩
    · rw [Function.update_of_ne hyx] at hy ⊢
      exact hopen y hy
  · intro y hy _
    have hyx : y ≠ x := by
      rintro rfl
      obtain ⟨c, hc⟩ := hopen y hy
      rw [hcan.2.1] at hc
      cases hc
    exact ⟨Function.update_of_ne hyx _ _, Function.update_of_ne hyx _ _,
      Function.update_of_ne hyx _ _⟩

/-- A call accepts a connection, or keeps to the descriptor it is called for. -/
theorem handleEvent_cases (h : handleEvent p s r = some s') :
    KeepsTo r.fd s s' ∧ (r.fd = s.fds.serverFd → r.accepted = none) ∨
      ∃ x added, r.fd = s.fds.serverFd ∧ r.accepted = some (x, added) ∧
        s.CanAccept x ∧ s' = processServer x added s := by
  rw [handleEvent] at h
  by_cases hserver : r.fd = s.fds.serverFd
  · rw [if_pos hserver] at h
    cases haccepted : r.accepted with
    | none =>
        simp only [haccepted] at h
        obtain rfl := Option.some.inj h
        exact .inl ⟨.refl r.fd s, fun _ => rfl⟩
    | some new =>
        simp only [haccepted, Option.ite_none_right_eq_some] at h
        exact .inr ⟨new.1, new.2, hserver, rfl, h.1, (Option.some.inj h.2).symm⟩
  · rw [if_neg hserver] at h
    refine .inl ⟨?_, fun heq => absurd heq hserver⟩
    by_cases htun : r.fd = s.tunFd
    · simp only [htun, if_true, Option.ite_none_right_eq_some] at h
      rw [htun]
      exact Program.processTun_keepsTo (Outcome.returned_eq_some.mp h.2)
    · simp only [htun, if_false, Option.ite_none_right_eq_some] at h
      exact Program.processClient_keepsTo (Outcome.returned_eq_some.mp h.2)

theorem handleEvent_orderly (hopen : s.WatchesOpen) (h : handleEvent p s r = some s') :
    Orderly r.fd s s' := by
  rcases handleEvent_cases h with ⟨hkeeps, _⟩ | ⟨x, added, _, _, hcan, rfl⟩
  · exact hkeeps.orderly hopen
  · exact processServer_orderly hcan hopen r.fd

theorem heartbeatEntry_keepsTo (env : SweepEnv) (s : State) (i : Slot) :
    KeepsTo (s.users i).fd s (heartbeatEntry env s i) := by
  have hswept : KeepsTo (s.users i).fd s (s.swept env i) :=
    .of_quiet (fun _ => Act.OfSweep.lasting) (s.swept_quiet env i)
      fun x _ => congrFun (s.swept_bufs env i) x
  have hsweep := heartbeatEntry_sweep env i s
  generalize heartbeatEntry env s i = t at hsweep
  cases hsweep with
  | skipped => exact .refl _ s
  | spared => exact hswept
  | stuck => exact hswept
  | evicted _ _ _ hwatched => exact hswept.trans (.freed hwatched)

/-- What calls that keep to their descriptors leave is left by a heartbeat pass. -/
theorem processHeartbeat_keepsTo {P : State → Prop} (hP : ∀ fd s s', P s → KeepsTo fd s s' → P s')
    (env : SweepEnv) (h : P s) : P (processHeartbeat env s) := by
  have hfold : ∀ (entries : List Slot) (t : State), P t →
      P (entries.foldl (heartbeatEntry env) t) := by
    intro entries
    induction entries with
    | nil => exact fun t ht => ht
    | cons i entries ih => exact fun t ht => ih _ (hP _ t _ ht (heartbeatEntry_keepsTo env t i))
  exact hfold (List.finRange clientNum) s h

theorem processHeartbeat_orderly (env : SweepEnv) (hopen : s.WatchesOpen) :
    (processHeartbeat env s).fds = s.fds ∧ (processHeartbeat env s).WatchesOpen :=
  processHeartbeat_keepsTo (P := fun t => t.fds = s.fds ∧ t.WatchesOpen)
    (fun _ _ _ ⟨hfds, ht⟩ hkeeps => ⟨hkeeps.fds.trans hfds, hkeeps.watchesOpen ht⟩) env ⟨rfl, hopen⟩

/-- The loop over `events` leaves a watched descriptor alone that is not among them. -/
theorem events_orderly {events : List Report} (hopen : s.WatchesOpen)
    (hrun : run (handleEvent p) s events = some s') :
    s'.fds = s.fds ∧ s'.WatchesOpen ∧
      ∀ x, s.watched x = true → x ∉ events.map Report.fd → SameAt s s' x := by
  induction events generalizing s with
  | nil =>
      obtain rfl := Option.some.inj hrun
      exact ⟨rfl, hopen, fun x _ _ => ⟨rfl, rfl, rfl⟩⟩
  | cons r events ih =>
      obtain ⟨t, hone, hrest⟩ := run_cons_iff.mp hrun
      have horderly := handleEvent_orderly hopen hone
      obtain ⟨hfds, hend, hother⟩ := ih horderly.watchesOpen hrest
      refine ⟨hfds.trans horderly.fds, hend, fun x hx hnot => ?_⟩
      rw [List.map_cons, List.mem_cons, not_or] at hnot
      have hsame := horderly.other x hx hnot.1
      exact hsame.trans (hother x (hsame.2.1.trans hx) hnot.2)

theorem turn_orderly {t : Turn} (hopen : s.WatchesOpen) (h : turn p s t = some s') :
    s'.fds = s.fds ∧ s'.WatchesOpen := by
  obtain ⟨_, u, hevents, rfl⟩ := turn_eq_some.mp h
  obtain ⟨hfds, hu, _⟩ := events_orderly hopen hevents
  obtain ⟨hsweep, hend⟩ := processHeartbeat_orderly t.sweep hu
  exact ⟨hsweep.trans hfds, hend⟩

theorem mainFrom_orderly {fds : Descriptors} {ts : List Turn} (hrun : mainFrom p fds ts = some s) :
    s.fds = fds ∧ s.WatchesOpen := by
  refine run_invariant (fun t => t.fds = fds ∧ t.WatchesOpen) ?_ ?_ hrun
  · intro t e t' ⟨hfds, hopen⟩ hturn
    obtain ⟨hfds', hopen'⟩ := turn_orderly hopen hturn
    exact ⟨hfds'.trans hfds, hopen'⟩
  · exact ⟨rfl, fun x hx => by cases hx⟩

end Reports

/-- Whatever the handlers of the descriptors reported before it did, a client descriptor is still open and
watched when its own is called, and denotes the connection that it was reported for, with the bytes
that were in its buffer. -/
theorem reports_stay_true (p : Program) (fds : Descriptors) (ts : List Turn) (s : State)
    (hrun : mainFrom p fds ts = some s) (pre : List Report) (r : Report) (post : List Report)
    (hreported : Reported s (pre ++ r :: post)) (hserver : r.fd ≠ fds.serverFd)
    (htun : r.fd ≠ fds.tunFd) (u : State) (hu : run (handleEvent p) s pre = some u) :
    u.watched r.fd = true ∧ (∃ c, s.conn r.fd = some c ∧ u.conn r.fd = some c) ∧
      u.bufs r.fd = s.bufs r.fd := by
  obtain ⟨hfds, hopen⟩ := mainFrom_orderly hrun
  have hmem : r ∈ pre ++ r :: post := by simp
  have hwatched : s.watched r.fd = true := by
    rcases hreported.watched r hmem with h | h | h
    · exact absurd (hfds ▸ h) hserver
    · exact absurd (hfds ▸ h) htun
    · exact h
  have hnew : r.fd ∉ pre.map Report.fd := by
    have honce := hreported.once
    rw [List.map_append, List.map_cons] at honce
    exact fun h => (List.nodup_append.mp honce).2.2 r.fd h r.fd List.mem_cons_self rfl
  obtain ⟨hconn, hw, hbufs⟩ := (events_orderly hopen hu).2.2 r.fd hwatched hnew
  obtain ⟨c, hc⟩ := hopen r.fd hwatched
  exact ⟨hw.trans hwatched, ⟨c, hc, hconn.trans hc⟩, hbufs⟩

def Report.connects (fd : Fd) : Report := ⟨3, some (fd, true), .error, .prompt, .prompt 0, true, 9⟩

def Report.brings (fd : Fd) (bs : List UInt8) : Report :=
  ⟨fd, none, .bytes bs, .prompt, .prompt 0, true, 9⟩

/-- Two clients connect, and the first sends half a frame. -/
def twoConnect : List Turn :=
  [⟨[.connects 7], .prompt 0⟩, ⟨[.connects 8, .brings 7 [5, 0]], .prompt 0⟩]

/-- The second hangs up, and its number goes to a third client before the call for the first. -/
theorem reports_stay_true_twoConnect :
    ∃ s u, mainFrom .server .usual twoConnect = some s ∧
      run (handleEvent .server) s [.brings 8 [], .connects 8] = some u ∧
      u.conn 8 = some 2 ∧ u.watched 7 = true ∧
      (∃ c, s.conn 7 = some c ∧ u.conn 7 = some c) ∧ u.bufs 7 = s.bufs 7 := by
  have hview : ((mainFrom .server .usual twoConnect).bind fun s =>
      (run (handleEvent .server) s [.brings 8 [], .connects 8]).map fun u =>
        decide (u.conn 8 = some 2 ∧
          Reported s ([.brings 8 [], .connects 8] ++ .brings 7 [0, 0, 100] :: []))) = some true := by
    decide +kernel
  obtain ⟨s, hrun, hrest⟩ := Option.bind_eq_some_iff.mp hview
  obtain ⟨u, hu, hfacts⟩ := Option.map_eq_some_iff.mp hrest
  obtain ⟨hthird, hreported⟩ := of_decide_eq_true hfacts
  have hstill := reports_stay_true .server .usual twoConnect s hrun [.brings 8 [], .connects 8]
    (.brings 7 [0, 0, 100]) [] hreported (by decide) (by decide) u hu
  exact ⟨s, u, hrun, hu, hthird, hstill⟩

/-! ## The calls of the loop -/

def Report.call (fds : Descriptors) (r : Report) : Event :=
  if r.fd = fds.serverFd then .server r.accepted
  else if r.fd = fds.tunFd then .tun r.read r.routes r.fuel
  else .client r.fd r.read r.frames r.removed r.fuel

def Turn.calls (fds : Descriptors) (t : Turn) : List Event :=
  t.events.map (Report.call fds) ++ [.heartbeat t.sweep]

section Calls

variable {p : Program} {fds : Descriptors} {s s' : State} {r : Report}

theorem step_of_handleEvent (hfds : s.fds = fds)
    (hwatched : r.fd = s.fds.serverFd ∨ r.fd = s.tunFd ∨ s.watched r.fd = true)
    (h : handleEvent p s r = some s') : p.step s (r.call fds) = some s' := by
  subst hfds
  rw [handleEvent] at h
  rw [Report.call]
  by_cases hserver : r.fd = s.fds.serverFd
  · rw [if_pos hserver] at h ⊢
    cases haccepted : r.accepted with
    | none =>
        simp only [haccepted] at h
        exact h
    | some new =>
        simp only [haccepted] at h
        exact h
  · rw [if_neg hserver] at h ⊢
    by_cases htun : r.fd = s.tunFd
    · rw [if_pos htun] at h ⊢
      exact h
    · rw [if_neg htun] at h ⊢
      have hw : s.watched r.fd = true := (hwatched.resolve_left hserver).resolve_left htun
      simp only [Option.ite_none_right_eq_some] at h
      rw [Program.step, if_pos ⟨hw, h.1⟩]
      exact h.2

theorem run_of_events {events : List Report} (hfds : s.fds = fds) (hopen : s.WatchesOpen)
    (honce : (events.map Report.fd).Nodup)
    (hwatched : ∀ r ∈ events, r.fd = s.fds.serverFd ∨ r.fd = s.tunFd ∨ s.watched r.fd = true)
    (hrun : run (handleEvent p) s events = some s') :
    run p.step s (events.map (Report.call fds)) = some s' := by
  induction events generalizing s with
  | nil => exact hrun
  | cons r events ih =>
      obtain ⟨t, hone, hrest⟩ := run_cons_iff.mp hrun
      have horderly := handleEvent_orderly hopen hone
      obtain ⟨hnew, honce⟩ := List.nodup_cons.mp honce
      have hcall := step_of_handleEvent hfds (hwatched r List.mem_cons_self) hone
      refine run_cons_iff.mpr ⟨t, hcall, ?_⟩
      refine ih (horderly.fds.trans hfds) horderly.watchesOpen honce (fun r' hr' => ?_) hrest
      rw [State.tunFd, horderly.fds]
      rcases hwatched r' (List.mem_cons_of_mem _ hr') with h | h | h
      · exact .inl h
      · exact .inr (.inl h)
      · have hne : r'.fd ≠ r.fd := fun heq => hnew (heq ▸ List.mem_map_of_mem hr')
        exact .inr (.inr ((horderly.other r'.fd h hne).2.1.trans h))

end Calls

/-- What holds of any order of calls of its handlers holds of `main`, which makes them in turns. -/
theorem main_runs_handlers (p : Program) (fds : Descriptors) (ts : List Turn) (s : State)
    (hrun : mainFrom p fds ts = some s) :
    p.runFrom fds (ts.flatMap (Turn.calls fds)) = some s ∧
      (p = .server → runFrom fds (ts.flatMap (Turn.calls fds)) = some s) := by
  have hturn : ∀ t e t', t.fds = fds ∧ t.WatchesOpen → turn p t e = some t' →
      run p.step t (e.calls fds) = some t' ∧ t'.fds = fds ∧ t'.WatchesOpen := by
    rintro t e t' ⟨hfds, hopen⟩ hturn
    obtain ⟨hreported, u, hevents, rfl⟩ := turn_eq_some.mp hturn
    obtain ⟨hfds', hopen'⟩ := turn_orderly hopen hturn
    have hrun' := run_of_events hfds hopen hreported.once hreported.watched hevents
    exact ⟨run_snoc_iff.mpr ⟨u, hrun', rfl⟩, hfds'.trans hfds, hopen'⟩
  have hcalls : p.runFrom fds (ts.flatMap (Turn.calls fds)) = some s :=
    (run_refines (Turn.calls fds) _ hturn ⟨rfl, fun x hx => by cases hx⟩ hrun).1
  refine ⟨hcalls, fun hserver => ?_⟩
  rw [hserver] at hcalls
  rwa [← Program.runFrom_server]

def oneHangsUp : List Turn := twoConnect ++ [⟨[.brings 7 []], .prompt 0⟩]

/-- `.built` goes on to the parse loop where the others free the descriptor. -/
theorem main_runs_handlers_oneHangsUp :
    ∃ s, s.accepted = 2 ∧ s.watched 7 = true ∧
      Program.built.runFrom .usual (oneHangsUp.flatMap (Turn.calls .usual)) = some s := by
  have hview : ((mainFrom .built .usual oneHangsUp).any fun s =>
      decide (s.accepted = 2 ∧ s.watched 7 = true)) = true := by decide +kernel
  obtain ⟨s, hrun, hs⟩ := (Option.any_eq_true _ _).mp hview
  obtain ⟨haccepted, hwatched⟩ := of_decide_eq_true hs
  exact ⟨s, haccepted, hwatched, (main_runs_handlers .built .usual oneHangsUp s hrun).1⟩

end Over6.Server
