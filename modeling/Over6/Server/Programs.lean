import Over6.Server.MainLoop

/-! # Three servers over whole runs

`server/main.cpp` does what `server/cy/main.cpp` does, turn for turn, as far as it gets:
it never gets past a packet for an address that nobody holds. While no peer closes its
connection, the same goes for the server that `run.sh` builds.
-/

namespace Over6.Server

open BoundedLoop EventRun

section Drain

variable {s s' : State} {env : Nat → RouteEnv}

/-- A packet for nobody leads back to the start of the drain loop. -/
theorem routeOnce_of_not_routable (env : RouteEnv) (h : ¬ s.Routable) :
    routeOnce env s = .next s := by
  rw [State.Routable, not_or, not_exists] at h
  obtain ⟨hlong, hnobody⟩ := h
  have hnone : searchUserInfoByAddr s.users (s.bufs s.tunFd).daddr = none :=
    Option.eq_none_iff_forall_ne_some.mpr hnobody
  unfold routeOnce
  simp only [hlong, if_false, hnone]

theorem Route.routable (h : Route s (.next s')) (hs : s.Routable) : s'.Routable := by
  cases h with
  | nobody => exact hs
  | routed _ id =>
      have hempty : ((s.routedTo (s.users id).fd).bufs s.tunFd).used = 0 := by
        change (Function.update s.bufs s.tunFd _ s.tunFd).used = 0
        rw [Function.update_self]
      left
      change ((s.routedTo (s.users id).fd).bufs s.tunFd).used < sizeofIphdr
      rw [hempty]
      decide

theorem drain_eq (h : s.Routable) (fuel k : Nat) :
    iterate (fun k => routeOnce (env k)) fuel k s =
      iterate (fun k => Built.routeOnce (env k)) fuel k s := by
  apply iterate_eq_of_invariant State.Routable
  · intro k t ht
    rcases Built.routeOnce_cases (env k) t with ⟨_, hsame⟩ | ⟨hnot, _⟩
    · exact hsame.symm
    · exact absurd ht hnot
  · intro k t t' ht hb
    have hroute : Route t (.next t') := hb ▸ routeOnce_route (env k) t
    exact hroute.routable ht
  · exact h

/-- The drain loop is left only if the first packet is not for nobody. -/
theorem routable_of_drained {fuel k : Nat}
    (h : iterate (fun k => routeOnce (env k)) fuel k s = .stopped s') : s.Routable := by
  by_contra hnot
  have hagain : ∀ k t, t = s → ∃ t', routeOnce (env k) t = .next t' ∧ t' = s := by
    rintro k t rfl
    exact ⟨t, routeOnce_of_not_routable (env k) hnot, rfl⟩
  exact not_terminates_of_recurrent (fun t => t = s) hagain k s rfl ⟨fuel, s', h⟩

end Drain

/-- A packet that is read now finds somebody who holds its destination. -/
def Meets (s : State) (r : Report) : Prop :=
  r.fd ≠ s.fds.serverFd → r.fd = s.tunFd → ∀ bs, r.read = .bytes bs →
    (receive s.tunFd bs s).Routable

def TurnMeets (p : Program) (s : State) (t : Turn) : Prop :=
  Throughout (handleEvent p) Meets s t.events

/-- This is not about a client that has closed its connection. -/
def Report.StillThere (fds : Descriptors) (r : Report) : Prop :=
  r.read = .bytes [] → r.fd = fds.serverFd ∨ r.fd = fds.tunFd

instance (fds : Descriptors) (r : Report) : Decidable (r.StillThere fds) :=
  inferInstanceAs (Decidable (_ → _))

section Agreement

variable {fds : Descriptors} {s s' : State} {r : Report} {t : Turn}

theorem processTun_agrees (env : Nat → RouteEnv) (fuel : Nat) (read : ReadResult) :
    Server.processTun read env fuel s = .stopped s' ↔
      Built.processTun read env fuel s = .stopped s' ∧
        ∀ bs, read = .bytes bs → (receive s.tunFd bs s).Routable := by
  cases read with
  | error => exact ⟨fun h => ⟨h, nofun⟩, fun h => h.1⟩
  | bytes bs =>
      constructor
      · intro h
        have hroutable : (receive s.tunFd bs s).Routable := routable_of_drained h
        refine ⟨(drain_eq hroutable fuel 0).symm.trans h, fun bs' hbs => ?_⟩
        obtain rfl := ReadResult.bytes.inj hbs
        exact hroutable
      · intro ⟨h, hroutable⟩
        exact (drain_eq (hroutable bs rfl) fuel 0).trans h

/-- The clients are heard in the same way, unless one has closed its connection. -/
theorem processClient_agrees {p : Program} {read : ReadResult}
    (hpeer : p = .built → read ≠ .bytes []) (env : Nat → FrameEnv) (removed : Bool) (fuel : Nat)
    (fd : Fd) (s : State) :
    p.processClient read env removed fuel fd s =
      Program.server.processClient read env removed fuel fd s := by
  cases p with
  | server | cy => rfl
  | built => exact Built.processClient_of_ne (hpeer rfl) env removed fuel fd s

theorem handleEvent_agrees {p : Program} (hp : p ≠ .server) (hfds : s.fds = fds)
    (hpeer : p = .built → r.StillThere fds) :
    handleEvent .server s r = some s' ↔ handleEvent p s r = some s' ∧ Meets s r := by
  subst hfds
  have hroutes : p.processTun = Built.processTun := by
    cases p with
    | server => exact absurd rfl hp
    | built | cy => rfl
  rw [handleEvent, handleEvent, Meets, hroutes]
  by_cases hserver : r.fd = s.fds.serverFd
  · rw [if_pos hserver, if_pos hserver]
    exact ⟨fun h => ⟨h, fun hne => absurd hserver hne⟩, fun h => h.1⟩
  · rw [if_neg hserver, if_neg hserver]
    by_cases htun : r.fd = s.tunFd
    · rw [if_pos htun, if_pos htun, Option.ite_none_right_eq_some, Option.ite_none_right_eq_some,
        Outcome.returned_eq_some, Outcome.returned_eq_some]
      have hcalls := @processTun_agrees s s' r.routes r.fuel r.read
      constructor
      · rintro ⟨hfits, hcall⟩
        obtain ⟨hbuilt, hroutable⟩ := hcalls.mp hcall
        exact ⟨⟨hfits, hbuilt⟩, fun _ _ => hroutable⟩
      · rintro ⟨⟨hfits, hbuilt⟩, hmeets⟩
        exact ⟨hfits, hcalls.mpr ⟨hbuilt, hmeets hserver htun⟩⟩
    · have hne : p = .built → r.read ≠ .bytes [] := fun hbuilt hzero =>
        (hpeer hbuilt hzero).elim hserver htun
      rw [if_neg htun, if_neg htun, processClient_agrees hne r.frames r.removed r.fuel r.fd s]
      exact ⟨fun h => ⟨h, fun _ heq => absurd heq htun⟩, fun h => h.1⟩

theorem events_agree {p : Program} {events : List Report} (hp : p ≠ .server) (hfds : s.fds = fds)
    (hopen : s.WatchesOpen) (hpeers : ∀ r ∈ events, p = .built → r.StillThere fds) :
    run (handleEvent .server) s events = some s' ↔
      run (handleEvent p) s events = some s' ∧ Throughout (handleEvent p) Meets s events := by
  apply run_restricted_iff (fun r => p = .built → r.StillThere fds)
    (fun u => u.fds = fds ∧ u.WatchesOpen)
  · intro u r u' ⟨hu, hopen⟩ hevent
    have horderly := handleEvent_orderly hopen hevent
    exact ⟨horderly.fds.trans hu, horderly.watchesOpen⟩
  · intro u r u' hu hpeer
    exact handleEvent_agrees hp hu.1 hpeer
  · exact ⟨hfds, hopen⟩
  · exact hpeers

theorem turn_agrees {p : Program} (hp : p ≠ .server) (hfds : s.fds = fds) (hopen : s.WatchesOpen)
    (hpeers : ∀ r ∈ t.events, p = .built → r.StillThere fds) :
    turn .server s t = some s' ↔ turn p s t = some s' ∧ TurnMeets p s t := by
  rw [turn_eq_some, turn_eq_some, TurnMeets]
  constructor
  · intro ⟨hreported, u, hevents, hsweep⟩
    obtain ⟨hother, hmeets⟩ := (events_agree hp hfds hopen hpeers).mp hevents
    exact ⟨⟨hreported, u, hother, hsweep⟩, hmeets⟩
  · intro ⟨⟨hreported, u, hevents, hsweep⟩, hmeets⟩
    exact ⟨hreported, u, (events_agree hp hfds hopen hpeers).mpr ⟨hevents, hmeets⟩, hsweep⟩

/-- The turns that lead `server/main.cpp` to a state are those that lead `server/cy/main.cpp` there
and never bring a packet for an address that nobody holds. Of the server that `run.sh` builds this
holds while no peer closes its connection. -/
theorem servers_agree_iff (p : Program) (hp : p ≠ .server) (fds : Descriptors) (ts : List Turn)
    (s : State) (hpeers : ∀ t ∈ ts, ∀ r ∈ t.events, p = .built → r.StillThere fds) :
    mainFrom .server fds ts = some s ↔
      mainFrom p fds ts = some s ∧ Throughout (turn p) (TurnMeets p) (initState fds) ts := by
  apply run_restricted_iff (fun t => ∀ r ∈ t.events, p = .built → r.StillThere fds)
    (fun u => u.fds = fds ∧ u.WatchesOpen)
  · intro u t u' ⟨hu, hopen⟩ hturn
    obtain ⟨hfds, hopen'⟩ := turn_orderly hopen hturn
    exact ⟨hfds.trans hu, hopen'⟩
  · intro u t u' ⟨hu, hopen⟩ hpeer
    exact turn_agrees hp hu hopen hpeer
  · exact ⟨rfl, fun x hx => by cases hx⟩
  · exact hpeers

end Agreement

/-- A client is given an address, and there is a packet for it in the turn after. -/
def packetInTurn : List Turn :=
  [⟨[.connects 7], .prompt 0⟩, ⟨[.brings 7 [5, 0, 0, 0, 100]], .prompt 0⟩,
    ⟨[.brings 4 packetToTwo, .brings 7 [5, 0]], .prompt 0⟩]

theorem servers_agree_iff_packetInTurn :
    ∃ s, mainFrom .built .usual packetInTurn = some s ∧ mainFrom .cy .usual packetInTurn = some s ∧
      framed 0 s.log = [⟨msgIpRsb, ipReply (slotText 2)⟩, ⟨msgDataRsb, packetToTwo⟩] := by
  have hview : (mainFrom .server .usual packetInTurn).map (fun s => framed 0 s.log) =
      some [⟨msgIpRsb, ipReply (slotText 2)⟩, ⟨msgDataRsb, packetToTwo⟩] := by decide +kernel
  obtain ⟨s, hrun, hframed⟩ := Option.map_eq_some_iff.mp hview
  have hpeers : ∀ t ∈ packetInTurn, ∀ r ∈ t.events, r.StillThere .usual := by decide
  have hbuilt := servers_agree_iff .built (by decide) .usual packetInTurn s
    fun t ht r hr _ => hpeers t ht r hr
  have hcy := servers_agree_iff .cy (by decide) .usual packetInTurn s fun _ _ _ _ => nofun
  exact ⟨s, (hbuilt.mp hrun).1, (hcy.mp hrun).1, hframed⟩

end Over6.Server
