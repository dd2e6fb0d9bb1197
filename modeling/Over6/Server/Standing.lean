import Over6.Server.Output

/-! # The clocks of one connection

What the table says about one connection, and what each handler does to it: the
frames of that connection and the heartbeat pass move its clocks, nothing else does.
-/

namespace Over6.Server

open BoundedLoop EventRun

/-- When a connection with an entry was last sent a keepalive, and when it last sent one. -/
abbrev Clocks := Option (Int × Int)

def Stands (c : Conn) (s : State) : Clocks → Prop
  | none => ∀ fd i, s.conn fd = some c → ¬ Owns s.users fd i
  | some (sent, recved) => ∃ fd i, s.conn fd = some c ∧ Owns s.users fd i ∧
      (s.users i).lastHeartbeatSentSecs = sent ∧ (s.users i).lastHeartbeatRecvedSecs = recved

/-! ## What concerns others -/

/-- Connection `c` is where it was and has the entries it had. -/
structure Apart (c : Conn) (s s' : State) : Prop where
  conn : ∀ fd, s'.conn fd = some c ↔ s.conn fd = some c
  owns : ∀ fd i, s.conn fd = some c → (Owns s'.users fd i ↔ Owns s.users fd i)
  same : ∀ fd i, s.conn fd = some c → Owns s.users fd i → s'.users i = s.users i

theorem Stands.apart {c : Conn} {s s' : State} {k : Clocks} (h : Stands c s k) (ha : Apart c s s') :
    Stands c s' k := by
  cases k with
  | none =>
      intro fd i hc hi
      have hc' := (ha.conn fd).mp hc
      exact h fd i hc' ((ha.owns fd i hc').mp hi)
  | some k =>
      obtain ⟨fd, i, hc, hi, hsent, hrecved⟩ := h
      have hsame := ha.same fd i hc hi
      exact ⟨fd, i, (ha.conn fd).mpr hc, (ha.owns fd i hc).mpr hi, by rw [hsame, hsent],
        by rw [hsame, hrecved]⟩

namespace Apart

variable {c : Conn} {s t s' : State}

theorem of_users (hconn : s'.conn = s.conn) (husers : s'.users = s.users) : Apart c s s' := by
  refine ⟨?_, ?_, ?_⟩
  · intro fd
    rw [hconn]
  · intro fd i _
    rw [husers]
  · intro fd i _ _
    rw [husers]

theorem refl (c : Conn) (s : State) : Apart c s s := of_users rfl rfl

theorem trans (h : Apart c s t) (h' : Apart c t s') : Apart c s s' := by
  refine ⟨?_, ?_, ?_⟩
  · intro fd
    exact (h'.conn fd).trans (h.conn fd)
  · intro fd i hc
    exact (h'.owns fd i ((h.conn fd).mpr hc)).trans (h.owns fd i hc)
  · intro fd i hc hi
    rw [h'.same fd i ((h.conn fd).mpr hc) ((h.owns fd i hc).mpr hi), h.same fd i hc hi]

theorem of_chain (h : Relation.ReflTransGen (Apart c) s t) : Apart c s t := by
  induction h with
  | refl => exact refl c s
  | tail _ ht ih => exact ih.trans ht

/-- An entry that belongs to others changes, and still belongs to others. -/
theorem of_update {i : Slot} {u : UserInfo} (hconn : ∀ fd, s'.conn fd = some c ↔ s.conn fd = some c)
    (husers : s'.users = Function.update s.users i u)
    (hbefore : (s.users i).status = false → s.conn (s.users i).fd ≠ some c)
    (hafter : u.status = false → s.conn u.fd ≠ some c) : Apart c s s' := by
  refine ⟨hconn, ?_, ?_⟩
  · intro fd j hc
    by_cases hj : j = i
    · rw [hj, husers, Owns, Function.update_self]
      constructor
      · rintro ⟨rfl, hst⟩
        exact absurd hc (hafter hst)
      · rintro ⟨rfl, hst⟩
        exact absurd hc (hbefore hst)
    · rw [husers, Owns, Function.update_of_ne hj]
      rfl
  · intro fd j hc hj
    have hne : j ≠ i := by
      rintro rfl
      obtain ⟨rfl, hst⟩ := hj
      exact hbefore hst hc
    rw [husers, Function.update_of_ne hne]

end Apart

section Others

variable {c : Conn} {s : State} {fd : Fd}

/-- A frame of another connection. -/
theorem Dispatch.apart {env : FrameEnv} {msg : Message} {flow : Flow State}
    (h : Dispatch env fd msg s flow) (hc : s.conn fd ≠ some c) : Apart c s flow.state := by
  have hgrant : ∀ {i} {s' : State}, firstFree s.users = some i → s'.conn = s.conn →
      s'.users = (s.grantTo env fd i).users → Apart c s s' := by
    intro i s' hfree hconn husers
    refine Apart.of_update (fun x => by rw [hconn]) husers ?_ fun _ => hc
    intro hst
    rw [(firstFree_eq_some.mp hfree).1] at hst
    cases hst
  cases h with
  | poolFull => exact Apart.of_users rfl rfl
  | replyHeader _ i hfree => exact hgrant hfree rfl rfl
  | replyData _ i hfree => exact hgrant hfree rfl rfl
  | replied _ i hfree => exact hgrant hfree rfl rfl
  | tunData => exact Apart.of_users rfl rfl
  | forwarded => exact Apart.of_users rfl rfl
  | stray => exact Apart.of_users rfl rfl
  | kept _ i hsome =>
      have hi : (s.users i).fd = fd := (searchUserInfoByFd_eq_some.mp hsome).1.1
      have hother : s.conn (s.users i).fd ≠ some c := by rwa [hi]
      exact Apart.of_update (fun _ => Iff.rfl) rfl (fun _ => hother) fun _ => hother
  | unknown => exact Apart.refl c s

theorem Parse.apart {env : FrameEnv} {flow : Flow State} (h : Parse env fd s flow)
    (hc : s.conn fd ≠ some c) : ∀ s', flow = .next s' ∨ flow = .stop s' → Apart c s s' := by
  intro s' hs'
  cases h with
  | waits =>
      obtain rfl : s = s' := by simpa using hs'
      exact Apart.refl c s
  | left _ hframe =>
      obtain rfl := Flow.stop.inj (hs'.resolve_left (by simp))
      exact hframe.apart hc
  | passed _ hframe _ =>
      obtain rfl := Flow.next.inj (hs'.resolve_right (by simp))
      exact (hframe.apart hc).trans (Apart.of_users rfl rfl)
  | overran => simp at hs'

theorem parseLoop_apart {env : Nat → FrameEnv} {fuel k : Nat} {s' : State} (hc : s.conn fd ≠ some c)
    (h : iterate (fun k => parseOnce (env k) fd) fuel k s = .stopped s') : Apart c s s' := by
  apply Apart.of_chain
  apply iterate_reaches (Apart c) (fun t => t.conn fd ≠ some c) _ _ hc h
  · intro k t t' ht hb
    have hparse : Parse (env k) fd t (.next t') := hb ▸ parseOnce_parse (env k) fd t
    exact ⟨hparse.apart ht t' (.inl rfl), by rwa [(hparse.quiet (.inl rfl)).conn]⟩
  · intro k t t' ht hb
    have hparse : Parse (env k) fd t (.stop t') := hb ▸ parseOnce_parse (env k) fd t
    exact hparse.apart ht t' (.inr rfl)

theorem Route.apart {flow : Flow State} (h : Route s flow) : Apart c s flow.state := by
  cases h with
  | drained => exact Apart.refl c s
  | nobody => exact Apart.refl c s
  | header => exact Apart.of_users rfl rfl
  | packet => exact Apart.of_users rfl rfl
  | routed => exact Apart.of_users rfl rfl

theorem processTun_apart {r : ReadResult} {env : Nat → RouteEnv} {fuel : Nat} {s' : State}
    (h : processTun r env fuel s = .stopped s') : Apart c s s' := by
  cases r with
  | error =>
      obtain rfl := Outcome.stopped.inj h
      exact Apart.refl c s
  | bytes bs =>
      have hread : Apart c s (receive s.tunFd bs s) := Apart.of_users rfl rfl
      refine hread.trans (Apart.of_chain ?_)
      apply iterate_reaches (Apart c) (fun _ => True) _ _ trivial h
      · intro k t t' _ hb
        have hroute : Route t (.next t') := hb ▸ routeOnce_route (env k) t
        exact ⟨hroute.apart, trivial⟩
      · intro k t t' _ hb
        have hroute : Route t (.stop t') := hb ▸ routeOnce_route (env k) t
        exact hroute.apart

theorem State.freed_apart (hc : s.conn fd ≠ some c) : Apart c s (s.freed fd) := by
  obtain ⟨husers, _, _, hconn, _, _⟩ := s.freed_spec fd
  have hsame : ∀ x, (s.freed fd).conn x = some c ↔ s.conn x = some c := by
    intro x
    rw [hconn]
    by_cases hx : x = fd
    · rw [hx, Function.update_self]
      exact ⟨nofun, fun h => absurd h hc⟩
    · rw [Function.update_of_ne hx]
  rw [releaseFirst] at husers
  cases hsearch : searchUserInfoByFd s.users fd with
  | none =>
      rw [hsearch] at husers
      exact ⟨hsame, fun x i _ => by rw [husers], fun x i _ _ => by rw [husers]⟩
  | some i =>
      rw [hsearch] at husers
      have hi : (s.users i).fd = fd := (searchUserInfoByFd_eq_some.mp hsearch).1.1
      refine Apart.of_update hsame husers (fun _ => by rwa [hi]) ?_
      intro hst
      cases hst

/-- An entry of another connection. -/
theorem State.swept_apart {env : SweepEnv} {i : Slot} (hc : s.conn (s.users i).fd ≠ some c) :
    Apart c s (s.swept env i) := by
  by_cases hdue : s.Due env i
  · rw [State.swept_of_due hdue]
    exact Apart.of_update (fun _ => Iff.rfl) rfl (fun _ => hc) fun _ => hc
  · rw [State.swept_of_not_due hdue]
    exact Apart.of_users rfl rfl

theorem Sweep.apart {env : SweepEnv} {i : Slot} {s' : State} (h : Sweep env i s s')
    (hc : s.conn (s.users i).fd ≠ some c) : Apart c s s' := by
  cases h with
  | skipped => exact Apart.refl c s
  | spared => exact State.swept_apart hc
  | stuck => exact State.swept_apart hc
  | evicted =>
      refine (State.swept_apart hc).trans (State.freed_apart ?_)
      rwa [(s.swept_quiet env i).conn]

end Others

/-! ## The frames of the connection -/

inductive Hears (now : Int) : Clocks → Frame → Clocks → Prop
  | granted {f : Frame} (htype : f.type = msgIpReq) : Hears now none f (some (now, now))
  | kept (k : Clocks) {f : Frame} (htype : f.type = msgHeartbeat) :
      Hears now k f (k.map fun e => (e.1, now))
  | passed (k : Clocks) {f : Frame} (h₁ : f.type ≠ msgIpReq) (h₂ : f.type ≠ msgHeartbeat) :
      Hears now k f k

inductive HearsAll (now : Int) : Clocks → List Frame → Clocks → Prop
  | nil (k : Clocks) : HearsAll now k [] k
  | cons {k k' k'' : Clocks} {f : Frame} {frames : List Frame} (h : Hears now k f k')
      (hrest : HearsAll now k' frames k'') : HearsAll now k (f :: frames) k''

def FrameEnv.At (env : FrameEnv) (now : Int) : Prop := env.time₁ = now ∧ env.time₂ = now

section Own

variable {c : Conn} {s : State} {fd : Fd} {k : Clocks} {now : Int}

theorem Stands.eq_none (hk : Stands c s k) (hcs : Connections s) (hc : s.conn fd = some c)
    (hnone : ∀ j, ¬ Owns s.users fd j) : k = none := by
  cases k with
  | none => rfl
  | some k =>
      obtain ⟨x, i, hx, hi, _⟩ := hk
      obtain rfl := hcs.unique x fd c hx hc
      exact absurd hi (hnone i)

/-- The entry of the connection has its clocks. -/
theorem Stands.eq_some (hk : Stands c s k) (hcs : Connections s) (hl : Ledger s)
    (hc : s.conn fd = some c) {i : Slot} (hi : Owns s.users fd i) :
    k = some ((s.users i).lastHeartbeatSentSecs, (s.users i).lastHeartbeatRecvedSecs) := by
  cases k with
  | none => exact absurd hi (hk fd i hc)
  | some k =>
      obtain ⟨x, j, hx, hj, hsent, hrecved⟩ := hk
      obtain rfl := hcs.unique x fd c hx hc
      obtain rfl := hl.single x (hcs.client x c hc).1 j i hj hi
      rw [hsent, hrecved]

theorem Dispatch.hears {env : FrameEnv} {f : Frame} {t : State} (henv : env.At now)
    (h : Dispatch env fd f.message s (.next t)) (hcs : Connections s) (hl : Ledger s)
    (hc : s.conn fd = some c) (hfirst : f.type = msgIpReq → ∀ j, ¬ Owns s.users fd j)
    (hk : Stands c s k) : ∃ k', Hears now k f k' ∧ Stands c t k' := by
  obtain ⟨htime₁, htime₂⟩ := henv
  cases h with
  | replied htype i hfree =>
      obtain rfl := hk.eq_none hcs hc (hfirst htype)
      refine ⟨_, .granted htype, fd, i, hc, ?_⟩
      have hself : (s.answered env fd i).users i = (s.users i).grant fd env.time₁ env.time₂ :=
        Function.update_self ..
      change Owns (s.answered env fd i).users fd i ∧
        ((s.answered env fd i).users i).lastHeartbeatSentSecs = now ∧
          ((s.answered env fd i).users i).lastHeartbeatRecvedSecs = now
      rw [Owns, hself]
      exact ⟨⟨rfl, rfl⟩, htime₁, htime₂⟩
  | forwarded htype =>
      have h₁ : f.type ≠ msgIpReq := fun he => absurd (he.symm.trans htype) (by decide)
      have h₂ : f.type ≠ msgHeartbeat := fun he => absurd (he.symm.trans htype) (by decide)
      exact ⟨k, .passed k h₁ h₂, hk.apart (Apart.of_users rfl rfl)⟩
  | stray htype hnone =>
      obtain rfl := hk.eq_none hcs hc (searchUserInfoByFd_eq_none.mp hnone)
      exact ⟨none, .kept none htype, hk.apart (Apart.of_users rfl rfl)⟩
  | kept htype i hsome =>
      have hi := (searchUserInfoByFd_eq_some.mp hsome).1
      have hclocks := hk.eq_some hcs hl hc hi
      subst hclocks
      refine ⟨_, .kept _ htype, fd, i, hc, ?_⟩
      rw [Owns, State.setUser_users, Function.update_self]
      exact ⟨hi, rfl, htime₁⟩
  | unknown h₁ _ h₃ => exact ⟨k, .passed k h₁ h₃, hk⟩

/-- A frame that ends the loop has changed nothing. -/
theorem Dispatch.apart_of_stop {env : FrameEnv} {msg : Message} {s' : State}
    (h : Dispatch env fd msg s (.stop s')) (hc : s.conn fd = some c)
    (hwrites : WritesSucceed s'.log) : Apart c s s' := by
  cases h with
  | poolFull => exact Apart.of_users rfl rfl
  | replyHeader =>
      exact absurd hc (closed_of_failed hwrites (List.mem_cons_of_mem _ List.mem_cons_self))
  | replyData =>
      exact absurd hc (closed_of_failed hwrites (List.mem_cons_of_mem _ List.mem_cons_self))
  | tunData => exact Apart.of_users rfl rfl

variable {sent : Conn → List Frame} (hvalid : ∀ c, ∀ f ∈ sent c, f.Valid)
  (hone : ∀ c, (sent c).countP isIpReq ≤ 1)

include hvalid hone

/-- The parse loop on the descriptor of the connection. -/
theorem parseLoop_hears {env : Nat → FrameEnv} (henv : ∀ k, (env k).At now) {fuel n : Nat}
    {s' : State} (hr : Routable sent s) (hw : s.watched fd = true) (hc : s.conn fd = some c)
    (hk : Stands c s k) (h : iterate (fun k => parseOnce (env k) fd) fuel n s = .stopped s')
    (hsent : WellSent sent s') (hwrites : WritesSucceed s'.log) :
    ∃ frames k', handled c s'.log = handled c s.log ++ frames ∧ HearsAll now k frames k' ∧
      Stands c s' k' := by
  induction fuel generalizing n s k with
  | zero => cases h
  | succ fuel ih =>
      cases hb : parseOnce (env n) fd s with
      | next t =>
          rw [iterate_of_next _ hb] at h
          have hparse : Parse (env n) fd s (.next t) := hb ▸ parseOnce_parse (env n) fd s
          have hpass : Pass s t := .parsed (env n) fd hw hparse
          have hlater : t.log <:+ s'.log := (parseLoop_quiet h).log_suffix
          have hsent' : WellSent sent t := hsent.inherit t s' hlater
          have hwrites' : WritesSucceed t.log := hwrites.inherit t s' hlater
          have hearlier : WellSent sent s := hsent'.inherit s t hpass.log_suffix
          have hr' := hr.pass hvalid hone hpass hsent' hwrites'
          have hq : Quiet Act.OfParse s t := hparse.quiet (.inl rfl)
          cases hparse with
          | @passed hcomplete t hframe _ =>
              obtain ⟨f, tail, more, _, hmsg, hfront⟩ :=
                hr.decoded.front hvalid hearlier hc hcomplete
              have hfirst : f.type = msgIpReq → ∀ j, ¬ Owns s.users fd j := by
                intro htype
                refine hr.first_request hvalid hone hearlier hc hcomplete ?_
                rw [hmsg]
                exact htype
              rw [hmsg] at hframe h hr' hq hlater
              obtain ⟨k', hhears, hk'⟩ := hframe.hears (henv n) hr.conns hr.ledger hc hfirst hk
              have hstands : Stands c (t.consumed fd f.message) k' :=
                hk'.apart (Apart.of_users rfl rfl)
              have hhandled := Decoded.parsed_handled hc hfront hframe
              obtain ⟨frames, k'', hframes, hall, hend⟩ :=
                ih hr' (by rwa [hq.watched]) (by rwa [hq.conn]) hstands h
              refine ⟨f :: frames, k'', ?_, .cons hhears hall, hend⟩
              rw [hframes, hhandled, List.append_assoc, List.singleton_append]
      | stop t =>
          rw [iterate_of_stop _ hb] at h
          obtain rfl := Outcome.stopped.inj h
          have hparse : Parse (env n) fd s (.stop t) := hb ▸ parseOnce_parse (env n) fd s
          cases hparse with
          | waits => exact ⟨[], k, (List.append_nil _).symm, .nil k, hk⟩
          | left _ hframe =>
              have hsame : handled c t.log = handled c s.log := (hframe.untouched c).2
              refine ⟨[], k, ?_, .nil k, hk.apart (hframe.apart_of_stop hc hwrites)⟩
              rw [hsame, List.append_nil]
      | fault t =>
          rw [iterate_of_fault _ hb] at h
          cases h

end Own

/-! ## The heartbeat pass -/

/-- What a heartbeat pass at the time `now` does to the clocks, and the frames it writes. -/
inductive Beats (now : Int) : Clocks → List Frame → Clocks → Prop
  | rests (k : Clocks) : Beats now k [] k
  | beats (sent recved : Int) (hdue : heartbeatInterval < now - sent) :
      Beats now (some (sent, recved)) [keepalive] (some (now, recved))

/-- The last keepalive of the connection is at most a timeout old. -/
def Clocks.Recent (k : Clocks) (now : Int) : Prop :=
  ∀ sent recved, k = some (sent, recved) → now - recved ≤ heartbeatTimeout

namespace Beats

variable {now : Int} {k k' k'' : Clocks} {fs gs : List Frame}

theorem trans (h : Beats now k fs k') (h' : Beats now k' gs k'') : Beats now k (fs ++ gs) k'' := by
  cases h with
  | rests => exact h'
  | beats sent recved hdue =>
      cases h' with
      | rests => exact .beats sent recved hdue
      | beats _ _ hagain =>
          rw [Int.sub_self] at hagain
          exact absurd hagain (by decide)

theorem recent (h : Beats now k fs k') (hrecent : k.Recent now) : k'.Recent now := by
  cases h with
  | rests => exact hrecent
  | beats sent recved _ =>
      intro sent' recved' he
      obtain ⟨_, rfl⟩ := Prod.mk.inj (Option.some.inj he)
      exact hrecent sent recved rfl

end Beats

section Sweeps

variable {c : Conn} {s : State} {env : SweepEnv} {now : Int} {k : Clocks}

theorem Ledger.sweep {i : Slot} {s' : State} (h : Ledger s) (hcs : Connections s)
    (hs : Sweep env i s s') : Ledger s' := by
  have hswept := h.steady (s.swept_steady env i)
  cases hs with
  | skipped => exact h
  | spared => exact hswept
  | stuck => exact hswept
  | evicted _ _ _ hw => exact hswept.freed (hcs.quiet (s.swept_quiet env i)) hw

/-- The entry of another connection. -/
theorem Sweep.emits_nothing {i : Slot} {s' : State} (h : Sweep env i s s')
    (hc : s.conn (s.users i).fd ≠ some c) (hwrites : WritesSucceed s'.log) :
    Emits c s.log s'.log [] := by
  have hswept : WritesSucceed (s.swept env i).log → Emits c s.log (s.swept env i).log [] := by
    intro hwrites
    have hemits := s.swept_emits env i hwrites c
    rwa [if_neg fun hdue => hc hdue.1] at hemits
  cases h with
  | skipped => exact Emits.refl c s.log
  | spared => exact hswept hwrites
  | stuck => exact hswept hwrites
  | evicted _ _ _ hw =>
      obtain ⟨new, hlog, _⟩ := (s.swept env i).freed_log (s.users i).fd
      have hearlier := hwrites.inherit (s.swept env i) _ ⟨new, hlog.symm⟩
      exact (hswept hearlier).trans ((s.swept env i).freed_emits _ c)

/-- The entry of the connection itself. -/
theorem State.swept_beats {i : Slot} (htime : env.time i = now) (hcs : Connections s)
    (hl : Ledger s) (hc : s.conn (s.users i).fd = some c) (hstatus : (s.users i).status = false)
    (hk : Stands c s k) (hwrites : WritesSucceed (s.swept env i).log) :
    ∃ fs k', Emits c s.log (s.swept env i).log fs ∧ Stands c (s.swept env i) k' ∧
      Beats now k fs k' := by
  have hi : Owns s.users (s.users i).fd i := ⟨rfl, hstatus⟩
  have hclocks := hk.eq_some hcs hl hc hi
  have hemits := s.swept_emits env i hwrites c
  by_cases hdue : s.Due env i
  · rw [if_pos ⟨hc, hdue⟩] at hemits
    have hself : (s.swept env i).users i =
        { s.users i with lastHeartbeatSentSecs := env.time i } := by
      rw [State.swept_of_due hdue]
      exact Function.update_self ..
    subst hclocks
    refine ⟨_, _, hemits, ?_, .beats _ _ (htime ▸ hdue)⟩
    refine ⟨(s.users i).fd, i, by rwa [(s.swept_quiet env i).conn], ?_⟩
    rw [Owns, hself]
    exact ⟨hi, htime, rfl⟩
  · rw [if_neg fun h => hdue h.2] at hemits
    refine ⟨_, k, hemits, hk.apart ?_, .rests k⟩
    rw [State.swept_of_not_due hdue]
    exact Apart.of_users rfl rfl

theorem heartbeatEntry_beats {i : Slot} (htime : env.time i = now) (hcs : Connections s)
    (hl : Ledger s) (hk : Stands c s k) (hrecent : k.Recent now)
    (hwrites : WritesSucceed (heartbeatEntry env s i).log) :
    ∃ fs k', Emits c s.log (heartbeatEntry env s i).log fs ∧
      Stands c (heartbeatEntry env s i) k' ∧ Beats now k fs k' := by
  have hsweep := heartbeatEntry_sweep env i s
  generalize heartbeatEntry env s i = t at hsweep hwrites ⊢
  by_cases hc : s.conn (s.users i).fd = some c
  · have hlate : (s.users i).status = false →
        ¬ heartbeatTimeout < env.time i - (s.users i).lastHeartbeatRecvedSecs := by
      intro hstatus
      have hage := hrecent _ _ (hk.eq_some hcs hl hc ⟨rfl, hstatus⟩)
      rw [htime]
      exact Int.not_lt.mpr hage
    cases hsweep with
    | skipped => exact ⟨[], k, Emits.refl c s.log, hk, .rests k⟩
    | spared _ hstatus => exact State.swept_beats htime hcs hl hc hstatus hk hwrites
    | stuck _ hstatus h => exact absurd h (hlate hstatus)
    | evicted _ hstatus h => exact absurd h (hlate hstatus)
  · exact ⟨[], k, hsweep.emits_nothing hc hwrites, hk.apart (hsweep.apart hc), .rests k⟩

theorem sweep_log_suffix (entries : List Slot) (s : State) :
    s.log <:+ (entries.foldl (heartbeatEntry env) s).log := (sweep_passes env entries s).log_suffix

theorem sweep_beats (htime : ∀ i, env.time i = now) (entries : List Slot) (hcs : Connections s)
    (hl : Ledger s) (hk : Stands c s k) (hrecent : k.Recent now)
    (hwrites : WritesSucceed (entries.foldl (heartbeatEntry env) s).log) :
    ∃ fs k', Emits c s.log (entries.foldl (heartbeatEntry env) s).log fs ∧
      Stands c (entries.foldl (heartbeatEntry env) s) k' ∧ Beats now k fs k' := by
  induction entries generalizing s k with
  | nil => exact ⟨[], k, Emits.refl c s.log, hk, .rests k⟩
  | cons i entries ih =>
      have hsweep := heartbeatEntry_sweep env i s
      have hfirst := hwrites.inherit (heartbeatEntry env s i) _ (sweep_log_suffix entries _)
      obtain ⟨fs, k', hemits, hk', hbeats⟩ :=
        heartbeatEntry_beats (htime i) hcs hl hk hrecent hfirst
      obtain ⟨gs, k'', hemits', hk'', hbeats'⟩ :=
        ih (hcs.pass (.swept env i hsweep)) (hl.sweep hcs hsweep) hk' (hbeats.recent hrecent) hwrites
      exact ⟨fs ++ gs, k'', hemits.trans hemits', hk'', hbeats.trans hbeats'⟩

/-! ## Afterwards -/

def Rested (now : Int) (s : State) (i : Slot) : Prop :=
  0 ≤ (s.users i).fd → (s.users i).status = false →
    now - (s.users i).lastHeartbeatSentSecs ≤ heartbeatInterval

theorem State.swept_rested {i j : Slot} (htime : env.time i = now) (h : j = i ∨ Rested now s j) :
    Rested now (s.swept env i) j := by
  intro hfd hstatus
  by_cases hdue : s.Due env i
  · rw [State.swept_of_due hdue] at hfd hstatus ⊢
    by_cases hj : j = i
    · rw [hj, State.setUser_users, Function.update_self, htime]
      change now - now ≤ heartbeatInterval
      rw [Int.sub_self]
      decide
    · rw [State.setUser_users, Function.update_of_ne hj] at hfd hstatus ⊢
      exact h.resolve_left hj hfd hstatus
  · rw [State.swept_of_not_due hdue] at hfd hstatus ⊢
    rcases h with rfl | h
    · rw [← htime]
      exact Int.not_lt.mp hdue
    · exact h hfd hstatus

theorem Rested.freed {j : Slot} (h : Rested now s j) (fd : Fd) : Rested now (s.freed fd) j := by
  intro hfd hstatus
  rw [(s.freed_spec fd).1, releaseFirst] at hfd hstatus ⊢
  cases hsearch : searchUserInfoByFd s.users fd with
  | none =>
      rw [hsearch] at hfd hstatus
      exact h hfd hstatus
  | some i =>
      rw [hsearch] at hfd hstatus
      simp only at hfd hstatus ⊢
      by_cases hj : j = i
      · rw [hj, Function.update_self] at hstatus
        cases hstatus
      · rw [Function.update_of_ne hj] at hfd hstatus ⊢
        exact h hfd hstatus

theorem Sweep.rested {i j : Slot} {s' : State} (hs : Sweep env i s s') (htime : env.time i = now)
    (h : j = i ∨ Rested now s j) : Rested now s' j := by
  have hswept := State.swept_rested htime h
  cases hs with
  | skipped hskip =>
      rcases h with rfl | h
      · exact fun hfd hstatus => absurd ⟨hfd, hstatus⟩ hskip
      · exact h
  | spared => exact hswept
  | stuck => exact hswept
  | evicted => exact hswept.freed _

theorem sweep_rested (htime : ∀ i, env.time i = now) (entries : List Slot) {j : Slot}
    (h : j ∈ entries ∨ Rested now s j) :
    Rested now (entries.foldl (heartbeatEntry env) s) j := by
  induction entries generalizing s with
  | nil => exact h.resolve_left List.not_mem_nil
  | cons i entries ih =>
      refine ih ?_
      rcases h with h | h
      · rcases List.mem_cons.mp h with hj | hj
        · exact .inr ((heartbeatEntry_sweep env i s).rested (htime i) (.inl hj))
        · exact .inl hj
      · exact .inr ((heartbeatEntry_sweep env i s).rested (htime i) (.inr h))

/-- A heartbeat pass moves the clocks at most once, and no keepalive is due behind it. -/
theorem processHeartbeat_beats (htime : ∀ i, env.time i = now) (hcs : Connections s)
    (hl : Ledger s) (hk : Stands c s k) (hrecent : k.Recent now)
    (hwrites : WritesSucceed (processHeartbeat env s).log) :
    ∃ fs k', Emits c s.log (processHeartbeat env s).log fs ∧
      Stands c (processHeartbeat env s) k' ∧ Beats now k fs k' ∧
      ∀ sent recved, k' = some (sent, recved) → now - sent ≤ heartbeatInterval := by
  obtain ⟨fs, k', hemits, hk', hbeats⟩ :=
    sweep_beats htime (List.finRange clientNum) hcs hl hk hrecent hwrites
  refine ⟨fs, k', hemits, hk', hbeats, ?_⟩
  intro sent recved he
  subst he
  obtain ⟨fd, i, hc, ⟨rfl, hstatus⟩, rfl, _⟩ := hk'
  have hcs' := hcs.passes (sweep_passes env (List.finRange clientNum) s)
  exact sweep_rested htime _ (.inl (List.mem_finRange i)) (hcs'.client _ c hc).1 hstatus

/-! ## Nobody recent is closed -/

def InGoodTime (c : Conn) (now : Int) (s : State) : Prop :=
  ∀ i, (s.users i).status = false → s.conn (s.users i).fd = some c →
    now - (s.users i).lastHeartbeatRecvedSecs ≤ heartbeatTimeout

theorem Stands.inGoodTime (hk : Stands c s k) (hcs : Connections s) (hl : Ledger s)
    (hrecent : k.Recent now) : InGoodTime c now s := fun _ hstatus hc =>
  hrecent _ _ (hk.eq_some hcs hl hc ⟨rfl, hstatus⟩)

/-- The pass over an entry of another connection. -/
theorem InGoodTime.freed (h : InGoodTime c now s) (fd : Fd) : InGoodTime c now (s.freed fd) := by
  obtain ⟨husers, _, _, hconn, _, _⟩ := s.freed_spec fd
  intro j hstatus hopen
  rw [hconn] at hopen
  have hopen' : s.conn ((s.freed fd).users j).fd = some c := by
    by_cases hx : ((s.freed fd).users j).fd = fd
    · rw [hx, Function.update_self] at hopen
      cases hopen
    · rwa [Function.update_of_ne hx] at hopen
  rw [husers, releaseFirst] at hstatus hopen' ⊢
  cases hsearch : searchUserInfoByFd s.users fd with
  | none =>
      rw [hsearch] at hstatus hopen'
      exact h j hstatus hopen'
  | some i =>
      rw [hsearch] at hstatus hopen'
      simp only at hstatus hopen' ⊢
      by_cases hj : j = i
      · rw [hj, Function.update_self] at hstatus
        cases hstatus
      · rw [Function.update_of_ne hj] at hstatus hopen' ⊢
        exact h j hstatus hopen'

/-- Whatever becomes of its writes, the pass over an entry leaves the connection open. -/
theorem Sweep.keeps {i : Slot} {s' : State} {fd : Fd} (hs : Sweep env i s s')
    (htime : env.time i = now) (hc : s.conn fd = some c) (h : InGoodTime c now s) :
    s'.conn fd = some c ∧ InGoodTime c now s' := by
  have hconn := (s.swept_quiet env i).conn
  have hswept : (s.swept env i).conn fd = some c ∧ InGoodTime c now (s.swept env i) := by
    refine ⟨by rwa [hconn], ?_⟩
    intro j hstatus hopen
    obtain ⟨_, hst, hfd, _⟩ := (s.swept_steady env i).owner j
    rw [hst] at hstatus
    rw [hfd, hconn] at hopen
    rw [State.swept_recved]
    exact h j hstatus hopen
  cases hs with
  | skipped => exact ⟨hc, h⟩
  | spared => exact hswept
  | stuck => exact hswept
  | evicted _ hstatus hlate =>
      have hne : fd ≠ (s.users i).fd := by
        rintro rfl
        have hage := h i hstatus hc
        rw [htime] at hlate
        omega
      refine ⟨?_, hswept.2.freed _⟩
      rw [((s.swept env i).freed_spec (s.users i).fd).2.2.2.1, Function.update_of_ne hne]
      exact hswept.1

theorem sweep_keeps_open {fd : Fd} (htime : ∀ i, env.time i = now) (entries : List Slot)
    (hc : s.conn fd = some c) (h : InGoodTime c now s) :
    (entries.foldl (heartbeatEntry env) s).conn fd = some c := by
  induction entries generalizing s with
  | nil => exact hc
  | cons i entries ih =>
      obtain ⟨hc', h'⟩ := (heartbeatEntry_sweep env i s).keeps (htime i) hc h
      exact ih hc' h'

/-- A heartbeat pass leaves a connection open that is in good time. -/
theorem processHeartbeat_keeps {fd : Fd} (htime : ∀ i, env.time i = now) (hc : s.conn fd = some c)
    (h : InGoodTime c now s) : (processHeartbeat env s).conn fd = some c := by
  rw [processHeartbeat]
  exact sweep_keeps_open htime _ hc h

end Sweeps

/-! ## Calls -/

def Event.At (now : Int) : Event → Prop
  | .server _ | .tun _ _ _ => True
  | .client _ _ env _ _ => ∀ k, (env k).At now
  | .heartbeat env => ∀ i, env.time i = now

/-- A call that finds connection `c` closed by the client, or broken. -/
def Event.Ends (c : Conn) (s : State) : Event → Prop
  | .client fd r _ _ _ => (r = .error ∨ r = .bytes []) ∧ s.conn fd = some c
  | _ => False

section Calls

variable {c : Conn} {s s' : State} {k : Clocks} {now : Int} {sent : Conn → List Frame}

/-- Whoever has just been accepted has no entry, and the others keep theirs. -/
theorem Stands.accept (hk : Stands c s k) (hr : Routable sent s) {fd : Fd} (hcan : s.CanAccept fd)
    (added : Bool) : Stands c (processServer fd added s) k := by
  obtain ⟨hpos, hfree, _⟩ := hcan
  by_cases hnew : c = s.accepted
  · have hnowhere : ∀ x, s.conn x ≠ some c := fun x hx => by
      have hlt := hr.conns.fresh x c hx
      rw [hnew] at hlt
      exact absurd hlt (Nat.lt_irrefl _)
    cases k with
    | some k =>
        obtain ⟨x, _, hx, _⟩ := hk
        exact absurd hx (hnowhere x)
    | none =>
        intro x i hx hi
        rcases processServer_conn hx with ⟨rfl, _⟩ | ⟨_, hx⟩
        · obtain ⟨c', hc', _⟩ := hr.origin x i hpos hi
          rw [hfree] at hc'
          cases hc'
        · exact absurd hx (hnowhere x)
  · refine hk.apart ⟨fun x => ?_, fun _ _ _ => Iff.rfl, fun _ _ _ _ => rfl⟩
    constructor
    · intro hx
      rcases processServer_conn hx with ⟨_, hx⟩ | ⟨_, hx⟩
      · exact absurd hx hnew
      · exact hx
    · intro hx
      have hne : x ≠ fd := by
        rintro rfl
        rw [hfree] at hx
        cases hx
      exact (Function.update_of_ne hne ..).trans hx

variable (hvalid : ∀ c, ∀ f ∈ sent c, f.Valid) (hone : ∀ c, (sent c).countP isIpReq ≤ 1)

include hvalid hone

/-- Between heartbeat passes the clocks follow the frames of the connection. -/
theorem step_hears {e : Event} (hr : Routable sent s) (hk : Stands c s k)
    (hstep : step s e = some s') (hnow : e.At now) (hopen : ¬ e.Ends c s)
    (hother : ∀ env, e ≠ .heartbeat env) (hsent : WellSent sent s')
    (hwrites : WritesSucceed s'.log) :
    ∃ frames k', handled c s'.log = handled c s.log ++ frames ∧ HearsAll now k frames k' ∧
      Stands c s' k' := by
  have hsame : Untouched c s s' → Stands c s' k → ∃ frames k',
      handled c s'.log = handled c s.log ++ frames ∧ HearsAll now k frames k' ∧ Stands c s' k' :=
    fun hlog hk => ⟨[], k, by rw [hlog.2, List.append_nil], .nil k, hk⟩
  cases step_call hstep with
  | refused => exact hsame (Untouched.refl c s) hk
  | accepted fd added hcan => exact hsame (.processServer c s fd added) (hk.accept hr hcan added)
  | tun r env fuel _ hcall =>
      exact hsame (processTun_untouched hr.conns hcall) (hk.apart (processTun_apart hcall))
  | ended fd r env removed fuel _ hend =>
      have hc : s.conn fd ≠ some c := fun hc => hopen ⟨hend, hc⟩
      have hfreed : Untouched c s (freeClientFd removed fd s) ∧
          Apart c s (freeClientFd removed fd s) := by
        rcases freeClientFd_cases removed fd s with hf | ⟨_, hf⟩
        · rw [hf]
          exact ⟨Untouched.refl c s, Apart.refl c s⟩
        · rw [hf]
          exact ⟨.freed c s fd, State.freed_apart hc⟩
      exact hsame hfreed.1 (hk.apart hfreed.2)
  | read fd bs env removed fuel hw hfits hcall =>
      have hread : Apart c s (readClient fd bs s) := Apart.of_users rfl rfl
      by_cases hc : s.conn fd = some c
      · have hpass : Pass s (readClient fd bs s) := .read fd hw bs hfits
        have hlater : (readClient fd bs s).log <:+ s'.log := (parseLoop_quiet hcall).log_suffix
        have hr' := hr.pass hvalid hone hpass (hsent.inherit _ s' hlater)
          (hwrites.inherit _ s' hlater)
        have hhandled : handled c (readClient fd bs s).log = handled c s.log := by
          simp [readClient, receive, handled, onConn, Act.taken]
        rw [← hhandled]
        exact parseLoop_hears hvalid hone hnow hr' hw hc (hk.apart hread) hcall hsent hwrites
      · exact hsame ((readClient_untouched hc bs).trans (parseLoop_untouched hc hcall))
          (hk.apart (hread.trans (parseLoop_apart hc hcall)))
  | heartbeat env => exact absurd rfl (hother env)

omit hvalid hone in
/-- Between heartbeat passes no keepalive is written. -/
theorem step_speaks {e : Event} (hr : Routable sent s) (hb : s.Bounded)
    (hstep : step s e = some s') (hother : ∀ env, e ≠ .heartbeat env) : Speaks c s s' := by
  cases step_call hstep with
  | refused => exact Speaks.refl c s
  | accepted fd added hcan =>
      exact .of_silent (Pass.accept fd added hcan).log_suffix (processServer_emits s fd added c)
  | tun r env fuel hfits hcall => exact processTun_speaks hb hfits hcall
  | ended fd r env removed fuel _ _ =>
      rcases freeClientFd_cases removed fd s with hf | ⟨hw, hf⟩
      · rw [hf]
        exact Speaks.refl c s
      · rw [hf]
        exact .of_silent (Pass.hangup fd hw).log_suffix (s.freed_emits fd c)
  | read fd bs env removed fuel hw hfits hcall =>
      have hpass : Pass s (readClient fd bs s) := .read fd hw bs hfits
      have hread : Speaks c s (readClient fd bs s) :=
        .of_silent hpass.log_suffix (readClient_emits s fd bs c)
      exact hread.trans (parseLoop_speaks (hr.conns.pass hpass) hr.text hw hcall)
  | heartbeat env => exact absurd rfl (hother env)

end Calls

end Over6.Server
