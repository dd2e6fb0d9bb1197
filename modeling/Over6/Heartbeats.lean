import Over6.Pair
import Over6.Server.HeartbeatPass

/-! # The heartbeat timers of both programs agree

The server and a client, as they run, are followed by two parties that keep each
other alive: every call is a few of their steps. So neither the client nor the
server gives the other up.
-/

namespace Over6

open BoundedLoop Keepalive
open Server (Conn Clocks Stands WellSent WritesSucceed isIpReq)

/-- Beats are due every twenty seconds and take at most ten; the request comes within five. -/
def timing : Timing := ⟨20, 10, 5, by decide, by decide, by decide, by decide⟩

/-! ## Frames as messages -/

def kind (f : Frame) : Kind :=
  if f.type = msgIpReq then .request else if f.type = msgHeartbeat then .beat else .other

def view (l : List Stamped) : Flight := l.map fun m => (m.time, kind m.frame)

theorem kind_of_request {f : Frame} (h : f.type = msgIpReq) : kind f = .request := if_pos h

theorem kind_of_beat {f : Frame} (h : f.type = msgHeartbeat) : kind f = .beat := by
  have hne : f.type ≠ msgIpReq := fun he => absurd (he.symm.trans h) (by decide)
  rw [kind, if_neg hne, if_pos h]

theorem kind_of_other {f : Frame} (h₁ : f.type ≠ msgIpReq) (h₂ : f.type ≠ msgHeartbeat) :
    kind f = .other := by
  rw [kind, if_neg h₁, if_neg h₂]

theorem kind_ne_beat {f : Frame} (h : f.type ≠ msgHeartbeat) : kind f ≠ .beat := by
  by_cases hreq : f.type = msgIpReq
  · rw [kind_of_request hreq]
    decide
  · rw [kind_of_other hreq h]
    decide

@[simp] theorem view_append (l m : List Stamped) : view (l ++ m) = view l ++ view m := by
  simp [view]

theorem view_stamp_cons (now : Int) (f : Frame) (fs : List Frame) :
    view (stamp now (f :: fs)) = [(now, kind f)] ++ view (stamp now fs) := rfl

theorem InTime.view {now : Int} {l : List Stamped} (h : InTime now l) :
    Keepalive.InTime timing.delay now (view l) := by
  intro t k ht hk
  obtain ⟨m, hm, he⟩ := List.mem_map.mp ht
  obtain ⟨rfl, rfl⟩ := Prod.mk.inj he
  refine h m hm ?_
  by_contra hcalm
  rw [Frame.Urgent, not_or, not_or] at hcalm
  exact hk (kind_of_other hcalm.1 hcalm.2.2)

/-- What comes off the front of the frames on their way. -/
theorem drop_of_prefix {l : List Stamped} {old new : List Frame} (h : old ++ new <+: frames l) :
    ∃ front, frames front = new ∧ l.drop old.length = front ++ l.drop (old ++ new).length := by
  refine ⟨(l.drop old.length).take new.length, ?_, ?_⟩
  · obtain ⟨rest, hrest⟩ := h
    have hdrop : (frames l).drop old.length = new ++ rest := by
      rw [← hrest, List.append_assoc, List.drop_left]
    rw [frames, List.map_take, List.map_drop]
    change ((frames l).drop old.length).take new.length = new
    rw [hdrop, List.take_left]
  · rw [List.length_append, ← List.drop_drop, List.take_append_drop]

theorem drop_append_stamp {l : List Stamped} {old : List Frame} (h : old <+: frames l) (now : Int)
    (fs : List Frame) :
    (l ++ stamp now fs).drop old.length = l.drop old.length ++ stamp now fs := by
  have hle : old.length ≤ l.length := by
    have hlen := h.length_le
    rwa [frames, List.length_map] at hlen
  exact List.drop_append_of_le_length hle

/-! ## Many messages at once -/

section Runs

variable {T : Timing} {start : Int} {a : Keepalive.State}

theorem clientSends_steps {fs : List Frame} (hquiet : ∀ f ∈ fs, f.type ≠ msgHeartbeat)
    (hone : fs.countP isIpReq ≤ 1) (hfirst : a.requested = true → fs.countP isIpReq = 0) :
    Steps T start a { a with
      up := a.up ++ view (stamp a.now fs)
      requested := a.requested || fs.any isIpReq } := by
  induction fs generalizing a with
  | nil =>
      have hup : a.up ++ view (stamp a.now []) = a.up := List.append_nil _
      rw [hup, List.any_nil, Bool.or_false]
  | cons f fs ih =>
      have hrest : ∀ g ∈ fs, g.type ≠ msgHeartbeat := fun g hg =>
        hquiet g (List.mem_cons_of_mem f hg)
      by_cases hreq : f.type = msgIpReq
      · have hf : isIpReq f = true := by simpa [isIpReq] using hreq
        have hnot : a.requested = false := by
          by_contra hset
          have hzero := hfirst (by simpa using hset)
          rw [List.countP_cons_of_pos hf] at hzero
          cases hzero
        rw [List.countP_cons_of_pos hf] at hone
        have hzero : fs.countP isIpReq = 0 := by omega
        refine .head (.clientRequests hnot) ?_
        have hsteps := ih (a := { a with
          up := a.up ++ [(a.now, .request)], requested := true }) hrest (by omega) (fun _ => hzero)
        rw [view_stamp_cons, kind_of_request hreq, ← List.append_assoc, List.any_cons, hf]
        simpa using hsteps
      · have hf : ¬ isIpReq f = true := by simpa [isIpReq] using hreq
        rw [List.countP_cons_of_neg hf] at hone hfirst
        refine .head .clientSends ?_
        have hsteps := ih (a := { a with up := a.up ++ [(a.now, .other)] }) hrest hone hfirst
        rw [view_stamp_cons, kind_of_other hreq (hquiet f List.mem_cons_self), ← List.append_assoc,
          List.any_cons, Bool.eq_false_iff.mpr hf]
        exact hsteps

theorem serverSends_steps {fs : List Frame} (hquiet : ∀ f ∈ fs, f.type ≠ msgHeartbeat) :
    Steps T start a { a with down := a.down ++ view (stamp a.now fs) } := by
  induction fs generalizing a with
  | nil =>
      have hdown : a.down ++ view (stamp a.now []) = a.down := List.append_nil _
      rw [hdown]
  | cons f fs ih =>
      refine .head (.serverSends (kind f) (kind_ne_beat (hquiet f List.mem_cons_self))) ?_
      have hsteps := ih (a := { a with down := a.down ++ [(a.now, kind f)] }) fun g hg =>
        hquiet g (List.mem_cons_of_mem f hg)
      rw [view_stamp_cons, ← List.append_assoc]
      exact hsteps

theorem serverHears_steps {k k' : Clocks} {front : List Stamped} {rest : Flight}
    (hhears : Server.HearsAll a.now k (frames front) k') (hentry : a.entry = k)
    (hup : a.up = view front ++ rest) : Steps T start a { a with up := rest, entry := k' } := by
  induction front generalizing a k with
  | nil =>
      cases hhears
      have hrest : a.up = rest := hup
      rw [← hrest, ← hentry]
  | cons m front ih =>
      cases hhears with
      | @cons _ k₁ _ _ _ h hrest =>
      have hstep : Step T start a { a with up := view front ++ rest, entry := k₁ } := by
        cases h with
        | granted htype =>
            refine .serverGrants m.time (view front ++ rest) ?_ hentry
            rw [hup, ← kind_of_request htype]
            rfl
        | kept k htype =>
            have hfront : a.up = (m.time, .beat) :: (view front ++ rest) := by
              rw [hup, ← kind_of_beat htype]
              rfl
            have hsees : Step T start a _ := .serverSees m.time .beat _ hfront (by decide)
            rw [if_pos rfl, hentry] at hsees
            exact hsees
        | passed k h₁ h₂ =>
            have hfront : a.up = (m.time, .other) :: (view front ++ rest) := by
              rw [hup, ← kind_of_other h₁ h₂]
              rfl
            have hsees : Step T start a _ := .serverSees m.time .other _ hfront (by decide)
            rw [if_neg (by decide), hentry] at hsees
            exact hsees
      exact .head hstep (ih (a := { a with up := view front ++ rest, entry := k₁ }) hrest rfl rfl)

theorem clientSees_steps {front : List Stamped} {rest : Flight}
    (hdown : a.down = view front ++ rest) :
    Steps T start a
      { a with down := rest, seen := Client.sees a.now a.seen (frames front) } := by
  induction front generalizing a with
  | nil =>
      have hrest : a.down = rest := hdown
      rw [← hrest]
      exact .refl
  | cons m front ih =>
      have hsees : Step T start a _ := .clientSees m.time (kind m.frame) (view front ++ rest) hdown
      have hseen : (if kind m.frame = .beat then a.now else a.seen) =
          if m.frame.type = msgHeartbeat then a.now else a.seen := by
        by_cases hbeat : m.frame.type = msgHeartbeat
        · rw [if_pos hbeat, if_pos (kind_of_beat hbeat)]
        · rw [if_neg hbeat, if_neg (kind_ne_beat hbeat)]
      rw [hseen] at hsees
      exact .head hsees (ih rfl)

end Runs

/-! ## What the two parties stand for -/

structure Running (base : Client.State) (p : Pair) (a : Keepalive.State) : Prop where
  sent : a.sent = p.client.lastHeartbeatToServer
  seen : a.seen = p.client.lastHeartbeatFromServer
  stopped : a.stopped = false
  down : a.down = view p.unhandledDown
  decoded : ∃ got words, Client.Decoded base (frames p.down) got words p.client ∧
    got <+: frameCode.stream (frames p.down)

/-- The abstract state `a` tells the clocks of both and what is on its way. -/
structure Tracks (c : Conn) (others : Conn → List Frame) (base : Client.State) (p : Pair)
    (a : Keepalive.State) : Prop where
  now : a.now = p.now
  routable : Server.Routable (p.heard c others) p.server
  bounded : p.server.Bounded
  writes : WritesSucceed p.server.log
  sent : WellSent (p.heard c others) p.server
  known : Stands c p.server a.entry
  up : a.up = view (p.unhandledUp c)
  upValid : ∀ f ∈ frames p.up, f.Valid
  downValid : ∀ f ∈ frames p.down, f.Valid
  one : (frames p.up).countP isIpReq ≤ 1
  requested : a.requested = (frames p.up).any isIpReq
  swept : a.swept = p.swept
  beaten : a.beaten = p.beaten
  running : p.client.ret = 0 → Running base p a
  stopped : p.client.ret ≠ 0 → a.stopped = true

/-! ## What comes in -/

section Heard

variable {c : Conn} {others : Conn → List Frame} {p p' : Pair}

theorem Pair.heard_self (p : Pair) (c : Conn) (others : Conn → List Frame) :
    p.heard c others c = frames p.up := Function.update_self ..

theorem Pair.heard_mono (h : frames p.up <+: frames p'.up) (d : Conn) :
    p.heard c others d <+: p'.heard c others d := by
  by_cases hd : d = c
  · rw [hd, Pair.heard_self, Pair.heard_self]
    exact h
  · rw [Pair.heard, Pair.heard, Function.update_of_ne hd, Function.update_of_ne hd]

theorem Pair.heard_valid (hvalid : ∀ d, ∀ f ∈ others d, f.Valid)
    (hup : ∀ f ∈ frames p.up, f.Valid) (d : Conn) : ∀ f ∈ p.heard c others d, f.Valid := by
  by_cases hd : d = c
  · rw [hd, Pair.heard_self]
    exact hup
  · rw [Pair.heard, Function.update_of_ne hd]
    exact hvalid d

theorem Pair.heard_one (hone : ∀ d, (others d).countP isIpReq ≤ 1)
    (hup : (frames p.up).countP isIpReq ≤ 1) (d : Conn) :
    (p.heard c others d).countP isIpReq ≤ 1 := by
  by_cases hd : d = c
  · rw [hd, Pair.heard_self]
    exact hup
  · rw [Pair.heard, Function.update_of_ne hd]
    exact hone d

theorem handled_begins {s : Server.State} (h : Server.Routable (p.heard c others) s) :
    Server.handled c s.log <+: frames p.up := by
  obtain ⟨_, hprefix, _⟩ := h.decoded.partway c
  rwa [Pair.heard_self] at hprefix

end Heard

/-! ## The calls of the server -/

namespace Running

variable {base : Client.State} {p : Pair} {a : Keepalive.State}

/-- The frames the client has met are a beginning of those it was sent. -/
theorem met (hbase : base.log = []) (h : Running base p a) :
    ∃ words, (Client.dispatched p.client.log).length = words.length ∧ words <+: frames p.down := by
  obtain ⟨_, words, hdec, _⟩ := h.decoded
  refine ⟨words, ?_, hdec.held.1⟩
  rw [hdec.met, hbase]
  simp [Client.dispatched]

/-- The server sends more. -/
theorem more (hbase : base.log = []) (h : Running base p a) (fs : List Frame) {s' : Server.State}
    {b : Bool} {a' : Keepalive.State} (hsent : a'.sent = a.sent) (hseen : a'.seen = a.seen)
    (hstopped : a'.stopped = a.stopped) (hdown : a'.down = a.down ++ view (stamp p.now fs)) :
    Running base { p with server := s', down := p.down ++ stamp p.now fs, swept := b } a' := by
  obtain ⟨words, hlen, hwords⟩ := h.met hbase
  obtain ⟨got, words', hdec, hgot⟩ := h.decoded
  have hmore : frames p.down <+: frames (p.down ++ stamp p.now fs) := by
    rw [frames_append]
    exact List.prefix_append _ _
  refine ⟨hsent.trans h.sent, hseen.trans h.seen, hstopped.trans h.stopped, ?_, got, words',
    hdec.mono hmore, hgot.trans (frameCode.stream_prefix hmore)⟩
  have hdrop := drop_append_stamp hwords p.now fs
  rw [← hlen] at hdrop
  rw [hdown, h.down, Pair.unhandledDown, Pair.unhandledDown, ← view_append]
  exact congrArg view hdrop.symm

end Running

namespace Tracks

variable {c : Conn} {others : Conn → List Frame} {base : Client.State} {start : Int} {p p' : Pair}
  {a : Keepalive.State}

theorem tick (h : Tracks c others base p a) (hbeaten : p.beaten = true) (hswept : p.swept = true)
    (hup : InTime (p.now + 1) (p.unhandledUp c)) (hdown : InTime (p.now + 1) p.unhandledDown)
    (hsetup : (∃ f ∈ frames p.up, f.type = msgIpReq) ∨ p.now + 1 ≤ start + 5) :
    ∃ a', Steps timing start a a' ∧
      Tracks c others base { p with now := p.now + 1, swept := false, beaten := false } a' := by
  have hstep : Step timing start a { a with now := a.now + 1, beaten := false, swept := false } := by
    refine .tick (h.beaten.trans hbeaten) (h.swept.trans hswept) ?_ ?_ ?_
    · rw [h.now, h.up]
      exact hup.view
    · intro hgoes
      have hret : p.client.ret = 0 := by
        by_contra hret
        have hstopped := h.stopped hret
        rw [hgoes] at hstopped
        cases hstopped
      rw [h.now, (h.running hret).down]
      exact hdown.view
    · rw [h.requested, h.now]
      refine hsetup.imp ?_ id
      rintro ⟨f, hf, htype⟩
      exact List.any_eq_true.mpr ⟨f, hf, by simpa [isIpReq] using htype⟩
  refine ⟨_, .single hstep, ?_⟩
  have hnow : a.now + 1 = p.now + 1 := by rw [h.now]
  exact { h with
    now := hnow
    swept := rfl
    beaten := rfl
    running := fun hret =>
      let hrun := h.running hret
      ⟨hrun.sent, hrun.seen, hrun.stopped, hrun.down, hrun.decoded⟩ }

/-- The server has handled the frames `new` and written the frames `fs`. -/
theorem advance (hbase : base.log = []) (h : Tracks c others base p a) {s' : Server.State}
    {k' : Clocks} {fs : List Frame} {b : Bool} (hr : Server.Routable (p.heard c others) s')
    (hbounded : s'.Bounded) (hwrites : WritesSucceed s'.log)
    (hsent : WellSent (p.heard c others) s') (hk : Stands c s' k') (hfs : ∀ f ∈ fs, f.Valid) :
    Tracks c others base { p with
        server := s', down := p.down ++ stamp p.now fs, swept := b }
      { a with
        up := view (p.up.drop (Server.handled c s'.log).length)
        entry := k'
        down := a.down ++ view (stamp a.now fs)
        swept := b } where
  now := h.now
  routable := hr
  bounded := hbounded
  writes := hwrites
  sent := hsent
  known := hk
  up := rfl
  upValid := h.upValid
  downValid := by
    intro f hf
    rw [frames_append, frames_stamp] at hf
    rcases List.mem_append.mp hf with hf | hf
    · exact h.downValid f hf
    · exact hfs f hf
  one := h.one
  requested := h.requested
  swept := rfl
  beaten := h.beaten
  running := fun hret => (h.running hret).more hbase fs rfl rfl rfl (by rw [h.now])
  stopped := h.stopped

section Calls

variable (hvalid : ∀ d, ∀ f ∈ others d, f.Valid) (hone : ∀ d, (others d).countP isIpReq ≤ 1)
  (hbase : base.log = [])

include hvalid hone hbase

/-- What the server handles goes by the clocks, and what it writes in between is no beat. -/
theorem serverCall (h : Tracks c others base p a) {e : Server.Event} {s' : Server.State}
    {fs : List Frame} (hcall : Server.step p.server e = some s') (hnow : e.At p.now)
    (hopen : ¬ e.Ends c p.server) (hwrites : WritesSucceed s'.log)
    (hsent : WellSent (p.heard c others) s') (hfs : ∀ f ∈ fs, f.Valid)
    (hwritten : Server.written c s'.log = Server.written c p.server.log ++ frameCode.stream fs)
    (hother : ∀ env, e ≠ .heartbeat env) :
    ∃ a', Steps timing start a a' ∧ Tracks c others base { p with
      server := s', down := p.down ++ stamp p.now fs, swept := p.swept } a' := by
  have hheard := Pair.heard_valid (c := c) hvalid h.upValid
  have hsingle := Pair.heard_one (c := c) hone h.one
  have hr' := h.routable.passes hheard hsingle (Server.step_passes hcall) hsent hwrites
  obtain ⟨new, k', hhandled, hhears, hk'⟩ := Server.step_hears hheard hsingle h.routable h.known
    hcall hnow hopen hother hsent hwrites
  obtain ⟨fs', hemits, hquiet⟩ :=
    (Server.step_speaks (c := c) h.routable h.bounded hcall hother).frames hwrites
  have hsame : fs = fs' := by
    refine frameCode.stream_injective hfs (fun f hf => (hemits.bulk f hf).valid) ?_
    exact List.append_cancel_left (hwritten.symm.trans hemits.bytes)
  subst hsame
  have hprefix := handled_begins hr'
  rw [hhandled] at hprefix
  obtain ⟨front, hfront, hdrop⟩ := drop_of_prefix hprefix
  rw [← hfront, ← h.now] at hhears
  have hup : a.up = view front ++ view (p.up.drop (Server.handled c s'.log).length) := by
    rw [h.up, Pair.unhandledUp, hdrop, view_append, hhandled]
  have hsteps : Steps timing start a _ :=
    (serverHears_steps hhears rfl hup).trans (serverSends_steps hquiet)
  refine ⟨_, hsteps, ?_⟩
  rw [← h.swept]
  exact h.advance hbase hr' (h.bounded.passes (Server.step_passes hcall)) hwrites hsent hk' hfs

/-- The server looks at its heartbeats. -/
theorem serverBeats (h : Tracks c others base p a) (hinv : Inv timing start a)
    {env : Server.SweepEnv} {fs : List Frame} (hnow : ∀ i, env.time i = p.now)
    (hwrites : WritesSucceed (Server.processHeartbeat env p.server).log)
    (hsent : WellSent (p.heard c others) (Server.processHeartbeat env p.server))
    (hfs : ∀ f ∈ fs, f.Valid)
    (hwritten : Server.written c (Server.processHeartbeat env p.server).log =
      Server.written c p.server.log ++ frameCode.stream fs) :
    ∃ a', Steps timing start a a' ∧ Tracks c others base { p with
      server := Server.processHeartbeat env p.server
      down := p.down ++ stamp p.now fs
      swept := true } a' := by
  have hcall : Server.step p.server (.heartbeat env) = some (Server.processHeartbeat env p.server) :=
    rfl
  have hheard := Pair.heard_valid (c := c) hvalid h.upValid
  have hsingle := Pair.heard_one (c := c) hone h.one
  have hr' := h.routable.passes hheard hsingle (Server.step_passes hcall) hsent hwrites
  have hrecent : Clocks.Recent a.entry p.now := by
    intro sent recved hentry
    have hage := hinv.server_age hentry
    rw [h.now] at hage
    exact Int.le_trans hage (by decide)
  obtain ⟨fs', k', hemits, hk', hbeats, hrested⟩ := Server.processHeartbeat_beats hnow
    h.routable.conns h.routable.ledger h.known hrecent hwrites
  have hsame : fs = fs' := by
    refine frameCode.stream_injective hfs (fun f hf => (hemits.bulk f hf).valid) ?_
    exact List.append_cancel_left (hwritten.symm.trans hemits.bytes)
  subst hsame
  have hhandled : Server.handled c (Server.processHeartbeat env p.server).log =
      Server.handled c p.server.log := (Server.sweep_untouched c env _ p.server).2
  have hup : a.up = view (p.up.drop
      (Server.handled c (Server.processHeartbeat env p.server).log).length) := by
    rw [hhandled]
    exact h.up
  have hbounded := h.bounded.passes (Server.step_passes hcall)
  have htracks := h.advance hbase (b := true) hr' hbounded hwrites hsent hk' hfs
  rw [← hup] at htracks
  refine ⟨_, ?_, htracks⟩
  rw [← h.now] at hbeats hrested
  generalize hentry : a.entry = k at hbeats
  cases hbeats with
  | rests =>
      have hdown : a.down ++ view (stamp a.now []) = a.down := List.append_nil _
      rw [hdown, ← hentry]
      rw [← hentry] at hrested
      exact .single (.serverRests hrested)
  | beats sent recved hdue =>
      exact .tail (.single (.serverBeats sent recved hentry hdue)) (.serverRests hrested)

end Calls

/-! ## The calls of the client -/

/-- The client has written the frames `fs`. -/
theorem follow (h : Tracks c others base p a) {t' : Client.State} {fs : List Frame}
    (a' : Keepalive.State) (hfs : ∀ f ∈ fs, f.Valid)
    (hone : (frames p.up ++ fs).countP isIpReq ≤ 1) (hnow : a'.now = a.now)
    (hentry : a'.entry = a.entry) (hup : a'.up = a.up ++ view (stamp p.now fs))
    (hrequested : a'.requested = (a.requested || fs.any isIpReq)) (hswept : a'.swept = a.swept)
    (hrunning : t'.ret = 0 → Running base
      { p with client := t', up := p.up ++ stamp p.now fs, beaten := a'.beaten } a')
    (hstopped : t'.ret ≠ 0 → a'.stopped = true) :
    Tracks c others base
      { p with client := t', up := p.up ++ stamp p.now fs, beaten := a'.beaten } a' := by
  have hmore : frames p.up <+: frames (p.up ++ stamp p.now fs) := by
    rw [frames_append]
    exact List.prefix_append _ _
  refine ⟨hnow.trans h.now, ?_, h.bounded, h.writes, ?_, ?_, ?_, ?_, h.downValid, ?_, ?_,
    hswept.trans h.swept, rfl, hrunning, hstopped⟩
  · exact h.routable.mono (Pair.heard_mono hmore)
  · exact h.sent.mono (Pair.heard_mono hmore)
  · rw [hentry]
    exact h.known
  · rw [hup, h.up, ← view_append]
    exact congrArg view (drop_append_stamp (handled_begins h.routable) p.now fs).symm
  · intro f hf
    rw [frames_append, frames_stamp] at hf
    rcases List.mem_append.mp hf with hf | hf
    · exact h.upValid f hf
    · exact hfs f hf
  · rwa [frames_append, frames_stamp]
  · rw [hrequested, h.requested, frames_append, frames_stamp, List.any_append]

/-- A call that leaves the stream of the server alone and writes frames other than heartbeats. -/
theorem clientPuts (h : Tracks c others base p a) (hret : p.client.ret = 0)
    {t' : Client.State} {fs : List Frame} (hputs : Client.Puts p.client t' (frameCode.stream fs))
    (hfs : ∀ f ∈ fs, f.Valid) (hquiet : ∀ f ∈ fs, f.type ≠ msgHeartbeat)
    (hone : (frames p.up ++ fs).countP isIpReq ≤ 1) :
    ∃ a', Steps timing start a a' ∧ Tracks c others base { p with
      client := t', up := p.up ++ stamp p.now fs, beaten := p.beaten } a' := by
  have hrun := h.running hret
  have hcount := hone
  rw [List.countP_append] at hcount
  have hfirst : a.requested = true → fs.countP isIpReq = 0 := by
    intro hreq
    rw [h.requested, List.any_eq_true] at hreq
    have hpos : 0 < (frames p.up).countP isIpReq := List.countP_pos_iff.mpr hreq
    omega
  have hsends : Steps timing start a _ := clientSends_steps hquiet (by omega) hfirst
  have hgoes : Running base { p with client := t', up := p.up ++ stamp p.now fs, beaten := a.beaten }
      { a with up := a.up ++ view (stamp a.now fs), requested := a.requested || fs.any isIpReq } := by
    obtain ⟨got, words, hdec, hgot⟩ := hrun.decoded
    refine ⟨hrun.sent.trans hputs.lastHeartbeatToServer.symm,
      hrun.seen.trans hputs.lastHeartbeatFromServer.symm, hrun.stopped, ?_, got, words,
      hdec.of_aside hputs.toAside, hgot⟩
    change a.down = _
    rw [hrun.down, Pair.unhandledDown, Pair.unhandledDown, (hputs.toAside.received_eq).2]
  have hup : a.up ++ view (stamp a.now fs) = a.up ++ view (stamp p.now fs) := by rw [h.now]
  by_cases hret' : t'.ret = 0
  · have hend := h.follow { a with
        up := a.up ++ view (stamp a.now fs)
        requested := a.requested || fs.any isIpReq } hfs hone rfl rfl hup rfl rfl (fun _ => hgoes)
      fun hstop => absurd hret' hstop
    rw [← h.beaten]
    exact ⟨_, hsends, hend⟩
  · have hend := h.follow { a with
        up := a.up ++ view (stamp a.now fs)
        requested := a.requested || fs.any isIpReq
        stopped := true } hfs hone rfl rfl hup rfl rfl (fun hgo => absurd hgo hret') fun _ => rfl
    rw [← h.beaten]
    exact ⟨_, hsends.tail .clientStops, hend⟩

/-- The client looks at its heartbeats. -/
theorem clientBeats (h : Tracks c others base p a) (hinv : Inv timing start a)
    (hret : p.client.ret = 0) {write : WriteResult}
    (hwrite : Client.TakesAll write) {fs : List Frame} (hfs : ∀ f ∈ fs, f.Valid)
    (hwritten : Client.written (Client.handleHeartbeat p.now write p.client).log =
      Client.written p.client.log ++ frameCode.stream fs) :
    ∃ a', Steps timing start a a' ∧ Tracks c others base { p with
      client := Client.handleHeartbeat p.now write p.client
      up := p.up ++ stamp p.now fs
      beaten := true } a' := by
  have hrun := h.running hret
  have hrecent : p.now - p.client.lastHeartbeatFromServer ≤ Client.heartbeatTimeoutSecs := by
    have hage := hinv.client_age hrun.stopped
    rw [h.now, hrun.seen] at hage
    exact Int.le_trans hage (by decide)
  obtain ⟨got, words, hdec, hgot⟩ := hrun.decoded
  have haside := Client.handleHeartbeat_aside p.now write p.client
  have hdec' := hdec.of_aside haside
  have hdown : a.down = view (p.down.drop (Client.dispatched
      (Client.handleHeartbeat p.now write p.client).log).length) := by
    rw [hrun.down, Pair.unhandledDown, haside.received_eq.2]
  rw [Client.handleHeartbeat_of_recent hwrite hrecent] at hwritten hdec' hdown ⊢
  by_cases hdue : Client.heartbeatIntervalSecs < p.now - p.client.lastHeartbeatToServer
  · rw [if_pos hdue] at hwritten hdec' hdown ⊢
    have hsame : fs = [Client.heartbeat] := by
      refine frameCode.stream_injective hfs (by simp [frameCode_valid]; decide) ?_
      refine List.append_cancel_left (hwritten.symm.trans ?_)
      simp [Client.written, Client.State.note, Client.Act.sends]
    subst hsame
    have hlate : timing.interval < a.now - a.sent := by
      rw [h.now, hrun.sent]
      exact hdue
    refine ⟨_, .single (.clientBeats hlate), ?_⟩
    refine h.follow { a with sent := a.now, up := a.up ++ [(a.now, .beat)], beaten := true }
      hfs ?_ rfl rfl ?_ ?_ rfl (fun _ => ?_) fun hstop => absurd rfl hstop
    · rw [List.countP_append]
      exact h.one
    · rw [h.now]
      rfl
    · exact (Bool.or_false _).symm
    · exact ⟨h.now, hrun.seen, hrun.stopped, hdown, got, words, hdec', hgot⟩
  · rw [if_neg hdue] at hwritten hdec' hdown ⊢
    have hsame : fs = [] := by
      refine frameCode.stream_injective hfs (by simp) ?_
      refine List.append_cancel_left (hwritten.symm.trans ?_)
      simp
    subst hsame
    have hearly : a.now - a.sent ≤ timing.interval := by
      rw [h.now, hrun.sent]
      exact Int.not_lt.mp hdue
    refine ⟨_, .single (.clientRests hearly), ?_⟩
    refine h.follow { a with beaten := true }
      hfs ?_ rfl rfl ?_ ?_ rfl (fun _ => ?_) fun hstop => absurd rfl hstop
    · rw [List.append_nil]
      exact h.one
    · exact (List.append_nil _).symm
    · exact (Bool.or_false _).symm
    · exact ⟨hrun.sent, hrun.seen, hrun.stopped, hdown, got, words, hdec', hgot⟩

/-- A client that gives up has written nothing more. -/
theorem clientStops (h : Tracks c others base p a) {t' : Client.State} (hstops : t'.ret ≠ 0) :
    ∃ a', Steps timing start a a' ∧ Tracks c others base { p with
      client := t', up := p.up ++ stamp p.now [], beaten := p.beaten } a' := by
  refine ⟨_, .single .clientStops, ?_⟩
  have hone := h.one
  rw [← List.append_nil (frames p.up)] at hone
  rw [← h.beaten]
  exact h.follow { a with stopped := true } (by simp) hone rfl rfl (List.append_nil _).symm
    (Bool.or_false _).symm rfl (fun hgo => absurd hgo hstops) fun _ => rfl

/-- The client reads from the server. -/
theorem clientReads (hbase : base.log = []) (h : Tracks c others base p a) (hret : p.client.ret = 0)
    {r : ReadResult} {env : Nat → Client.SocketEnv} {fuel : Nat} {t' : Client.State}
    {fs : List Frame} (hnow : ∀ k, (env k).time = p.now) (hfits : r.Fits p.client.room)
    (hcall : Client.handleSocket r env fuel p.client = .stopped t')
    (hreceived : Client.received t'.log <+: frameCode.stream (frames p.down))
    (hfs : ∀ f ∈ fs, f.Valid)
    (hwritten : Client.written t'.log = Client.written p.client.log ++ frameCode.stream fs) :
    ∃ a', Steps timing start a a' ∧ Tracks c others base { p with
      client := t', up := p.up ++ stamp p.now fs, beaten := p.beaten } a' := by
  have hrun := h.running hret
  obtain ⟨got, words, hdec, hgot⟩ := hrun.decoded
  have hnothing : fs = [] := by
    refine frameCode.stream_injective hfs (by simp) ?_
    refine List.append_cancel_left (hwritten.symm.trans ?_)
    rw [Client.handleSocket_written hdec.bounded hfits hcall, PrefixCode.stream_nil, List.append_nil]
  subst hnothing
  by_cases hret' : t'.ret = 0
  · cases r with
    | error =>
        obtain rfl := Outcome.stopped.inj hcall
        exact absurd hret' (show (-1 : Int) ≠ 0 by decide)
    | bytes bs =>
        have hmore := Client.handleSocket_received hdec.bounded hfits hcall
        have hread : Client.received p.client.log = got := by
          rw [hdec.read, hbase]
          rfl
        rw [hread] at hmore
        obtain ⟨words', hdec', new, hwords', hfrom, hto⟩ := Client.handleSocket_sees h.downValid
          hnow hdec hfits (hmore.trans hreceived) hcall hret'
        subst hwords'
        obtain ⟨front, hfront, hdrop⟩ := drop_of_prefix hdec'.held.1
        have hmet : (Client.dispatched p.client.log).length = words.length := by
          rw [hdec.met, hbase]
          simp [Client.dispatched]
        have hmet' : (Client.dispatched t'.log).length = (words ++ new).length := by
          rw [hdec'.met, hbase]
          simp [Client.dispatched]
        have hdown : a.down = view front ++ view (p.down.drop (words ++ new).length) := by
          rw [hrun.down, Pair.unhandledDown, hmet, hdrop, view_append]
        refine ⟨_, clientSees_steps hdown, ?_⟩
        have hone := h.one
        rw [← List.append_nil (frames p.up)] at hone
        rw [← h.beaten]
        refine h.follow { a with
          down := view (p.down.drop (words ++ new).length)
          seen := Client.sees a.now a.seen (frames front) } hfs hone rfl rfl
          (List.append_nil _).symm (Bool.or_false _).symm rfl (fun _ => ?_)
          fun hstop => absurd hret' hstop
        refine ⟨hrun.sent.trans hto.symm, ?_, hrun.stopped, ?_, got ++ bs, words ++ new, hdec',
          hmore.trans hreceived⟩
        · rw [hfrom, hfront, h.now, hrun.seen]
        · rw [Pair.unhandledDown, hmet']
  · exact h.clientStops hret'

/-! ## Every step -/

theorem step (hvalid : ∀ d, ∀ f ∈ others d, f.Valid) (hone : ∀ d, (others d).countP isIpReq ≤ 1)
    (hbase : base.log = []) (h : Tracks c others base p a) (hinv : Inv timing start a)
    (hs : Pair.Step c others start p p') :
    ∃ a', Steps timing start a a' ∧ Tracks c others base p' a' := by
  cases hs with
  | tick hbeaten hswept hup hdown hsetup => exact h.tick hbeaten hswept hup hdown hsetup
  | server e s' fs hcall hnow hopen hwrites hsent hfs hwritten =>
      have hother : e.isHeartbeat = false → ∃ a', Steps timing start a a' ∧
          Tracks c others base { p with
            server := s'
            down := p.down ++ stamp p.now fs
            swept := p.swept || e.isHeartbeat } a' := by
        intro hquiet
        rw [hquiet, Bool.or_false]
        refine h.serverCall hvalid hone hbase hcall hnow hopen hwrites hsent hfs hwritten ?_
        rintro env rfl
        cases hquiet
      cases e with
      | server r => exact hother rfl
      | tun r env fuel => exact hother rfl
      | client fd r env removed fuel => exact hother rfl
      | heartbeat env =>
          obtain rfl := Option.some.inj hcall
          rw [Server.Event.isHeartbeat, Bool.or_true]
          exact h.serverBeats hvalid hone hbase hinv hnow hwrites hsent hfs hwritten
  | client e t' fs hcall hnow hwrites hreceived hfs hwritten hsingle =>
      have hret : p.client.ret = 0 := by
        unfold Client.step at hcall
        rw [Option.ite_none_right_eq_some] at hcall
        exact hcall.1
      have hputs : (∃ fs', Client.Puts p.client t' (frameCode.stream fs') ∧
          ∀ f ∈ fs', f.Valid ∧ f.type ≠ msgHeartbeat) → ∃ a', Steps timing start a a' ∧
          Tracks c others base { p with
            client := t', up := p.up ++ stamp p.now fs, beaten := p.beaten } a' := by
        rintro ⟨fs', hputs, hgood⟩
        have hsame : fs = fs' := by
          refine frameCode.stream_injective hfs (fun f hf => (hgood f hf).1) ?_
          exact List.append_cancel_left (hwritten.symm.trans hputs.written)
        subst hsame
        exact h.clientPuts hret hputs hfs (fun f hf => (hgood f hf).2) hsingle
      have hquiet : e.isHeartbeat = false → (∃ a', Steps timing start a a' ∧
          Tracks c others base { p with
            client := t', up := p.up ++ stamp p.now fs, beaten := p.beaten } a') →
          ∃ a', Steps timing start a a' ∧ Tracks c others base { p with
            client := t'
            up := p.up ++ stamp p.now fs
            beaten := p.beaten || e.isHeartbeat } a' := by
        intro hquiet htracks
        rwa [hquiet, Bool.or_false]
      cases Client.step_call hcall with
      | heartbeat now write =>
          obtain rfl : p.now = now := hnow.symm
          rw [Client.Event.isHeartbeat, Bool.or_true]
          exact h.clientBeats hinv hret hwrites hfs hwritten
      | command env fuel hcall =>
          exact hquiet rfl (hputs (Client.handleCommand_frames hwrites hcall))
      | socket r env fuel hfits hcall =>
          exact hquiet rfl
            (h.clientReads hbase hret hnow hfits hcall hreceived hfs hwritten)
      | tunnel r write₁ write₂ _ hfits =>
          exact hquiet rfl (hputs (Client.handleTunnel_frames hwrites.1 hwrites.2 hfits))

end Tracks

/-! ## Whole runs -/

section Whole

variable {c : Conn} {others : Conn → List Frame} {start : Int} {p : Pair}
  (hvalid : ∀ d, ∀ f ∈ others d, f.Valid) (hone : ∀ d, (others d).countP isIpReq ≤ 1)

include hvalid hone

theorem Pair.Starts.tracks (h : p.Starts c others start) :
    Tracks c others p.client p (.init start) := by
  obtain ⟨fds, es, hrun⟩ := h.server
  obtain ⟨cfds, stale, hclient⟩ := h.client
  have hnothing : frames p.up = [] := by rw [h.up]; rfl
  have hheard := Pair.heard_valid (c := c) (p := p) hvalid (by simp [hnothing])
  have hsingle := Pair.heard_one (c := c) (p := p) hone (by simp [hnothing])
  have hr := Server.runFrom_routable hheard hsingle hrun h.sent h.writes
  have hunheard : Server.handled c p.server.log = [] := by
    have hprefix := handled_begins hr
    rw [hnothing] at hprefix
    exact List.prefix_nil.mp hprefix
  refine ⟨h.now.symm, hr, ?_, h.writes, h.sent, ?_, ?_, by simp [hnothing], ?_, by simp [hnothing],
    ?_, h.swept.symm, h.beaten.symm, ?_, ?_⟩
  · exact (Server.State.Bounded.initState fds).passes (Server.runFrom_passes hrun)
  · intro fd i hc hi
    have hgrants := hr.requests c
    rw [hunheard] at hgrants
    exact List.ne_nil_of_mem (hr.granted hc hi) (List.length_eq_zero_iff.mp hgrants)
  · rw [Pair.unhandledUp, h.up, List.drop_nil]
    rfl
  · rw [h.down]
    simp [frames]
  · rw [hnothing]
    rfl
  · intro _
    refine ⟨?_, ?_, rfl, ?_, [], [], ?_, List.nil_prefix⟩
    · rw [hclient]
      rfl
    · rw [hclient]
      rfl
    · rw [Pair.unhandledDown, h.down, List.drop_nil]
      rfl
    · rw [hclient]
      exact .refl _ (.protocolInit cfds start start stale) rfl
  · intro hret
    rw [hclient] at hret
    exact absurd rfl hret

theorem Pair.Reachable.tracks (h : p.Reachable c others start) :
    ∃ base a, Tracks c others base p a ∧ Inv timing start a := by
  obtain ⟨p₀, hstarts, hsteps⟩ := h
  have hbase : p₀.client.log = [] := by
    obtain ⟨fds, stale, hclient⟩ := hstarts.client
    rw [hclient]
    rfl
  refine ⟨p₀.client, ?_⟩
  induction hsteps with
  | refl => exact ⟨_, hstarts.tracks hvalid hone, Inv.init timing start⟩
  | tail _ hstep ih =>
      obtain ⟨a, htracks, hinv⟩ := ih
      obtain ⟨a', hsteps, htracks'⟩ := htracks.step hvalid hone hbase hinv hstep
      exact ⟨a', htracks', hinv.steps hsteps⟩

end Whole

/-- In every run of the server and a client the client that is still running does not time out,
and the server does not close its connection, at whatever moment either looks at its heartbeats. -/
theorem heartbeats_agree (c : Conn) (others : Conn → List Frame)
    (hvalid : ∀ d, ∀ f ∈ others d, f.Valid) (hone : ∀ d, (others d).countP isIpReq ≤ 1)
    (start : Int) (p : Pair) (hreach : p.Reachable c others start) :
    (p.client.ret = 0 → ∀ write, (Client.handleHeartbeat p.now write p.client).log ≠
      .failed .timeout :: p.client.log) ∧
    ∀ env : Server.SweepEnv, (∀ i, env.time i = p.now) → ∀ fd, p.server.conn fd = some c →
      (Server.processHeartbeat env p.server).conn fd = some c := by
  obtain ⟨base, a, h, hinv⟩ := hreach.tracks hvalid hone
  constructor
  · intro hret write
    have hrun := h.running hret
    have hage := hinv.client_age hrun.stopped
    rw [h.now, hrun.seen] at hage
    exact Client.handleHeartbeat_in_time (Int.le_trans hage (by decide)) write
  · intro env hnow fd hc
    have hrecent : Clocks.Recent a.entry p.now := by
      intro sent recved hentry
      have hage := hinv.server_age hentry
      rw [h.now] at hage
      exact Int.le_trans hage (by decide)
    have hgood := h.known.inGoodTime h.routable.conns h.routable.ledger hrecent
    exact Server.processHeartbeat_keeps hnow hc hgood

/-! ## A run of both -/

namespace Pair

/-- The server has made a call, and written `fs` to the client. -/
def serve (p : Pair) (s' : Server.State) (e : Server.Event) (fs : List Frame) : Pair :=
  { p with
    server := s'
    down := p.down ++ stamp p.now fs
    swept := p.swept || e.isHeartbeat }

def act (p : Pair) (t' : Client.State) (e : Client.Event) (fs : List Frame) : Pair :=
  { p with
    client := t'
    up := p.up ++ stamp p.now fs
    beaten := p.beaten || e.isHeartbeat }

/-- A second in which neither has anything to send; the server looks at entry `i`. -/
def rest (i : Server.Slot) (p : Pair) : Pair :=
  { p with now := p.now + 1, server := p.server.judged (.prompt p.now) i }

/-- Up to the time `until` no heartbeat is due on either side, and nothing is on its way. -/
structure Restful (c : Conn) (i : Server.Slot) (last : Int) (p : Pair) : Prop where
  ret : p.client.ret = 0
  early : p.now ≤ last
  client : last - p.client.lastHeartbeatFromServer ≤ 60 ∧ last - p.client.lastHeartbeatToServer ≤ 20
  used : (p.server.users i).InUse
  only : ∀ j, j ≠ i → ¬ (p.server.users j).InUse
  entry : ¬ (p.server.users i).Late last ∧ ¬ (p.server.users i).Due last
  up : p.unhandledUp c = []
  down : p.unhandledDown = []
  asked : ∃ f ∈ frames p.up, f.type = msgIpReq
  once : (frames p.up).countP isIpReq ≤ 1
  received : Client.received p.client.log <+: frameCode.stream (frames p.down)
  writes : WritesSucceed p.server.log
  swept : p.swept = false
  beaten : p.beaten = false

end Pair

section Scene

variable {c : Conn} {others : Conn → List Frame} {start : Int} {p : Pair}

/-- A judgement is no read, no write and no frame. -/
theorem gather_judged {α : Type} (pick : Server.Act → List α)
    (hpick : ∀ i now, pick (.judged i now) = []) (s : Server.State) (env : Server.SweepEnv)
    (i : Server.Slot) (d : Conn) :
    Journal.gather (Server.onConn d pick) (s.judged env i).log =
      Journal.gather (Server.onConn d pick) s.log := by
  rw [Server.State.judged, Server.State.note, Journal.gather_cons, Server.onConn, hpick, ite_self,
    List.append_nil]

theorem sent_judged {sent : Conn → List Frame} {s : Server.State} (h : WellSent sent s)
    (env : Server.SweepEnv) (i : Server.Slot) : WellSent sent (s.judged env i) := by
  intro d
  rw [Server.received, gather_judged Server.Act.read fun _ _ => rfl]
  exact h d

theorem writes_judged {s : Server.State} (h : WritesSucceed s.log) (env : Server.SweepEnv)
    (i : Server.Slot) : WritesSucceed (s.judged env i).log := by
  intro r hr
  rcases List.mem_cons.mp hr with rfl | hr
  · exact fun _ => rfl
  · exact h r hr

theorem Pair.Restful.rests {i : Server.Slot} {last : Int} (h : p.Restful c i last)
    (hlater : p.now + 1 ≤ last) : (p.rest i).Restful c i last := by
  have hhandled := gather_judged Server.Act.taken (fun _ _ => rfl) p.server (.prompt p.now) i c
  refine ⟨h.ret, hlater, h.client, h.used, h.only, h.entry, ?_, h.down, h.asked, h.once, h.received,
    ?_, h.swept, h.beaten⟩
  · rw [Pair.unhandledUp]
    change p.up.drop (Server.handled c (p.server.judged (.prompt p.now) i).log).length = []
    rw [Server.handled, hhandled]
    exact h.up
  · exact writes_judged h.writes _ i

theorem Pair.Restful.pass {i : Server.Slot} {last : Int} (h : p.Restful c i last) :
    Server.processHeartbeat (.prompt p.now) p.server = p.server.judged (.prompt p.now) i := by
  have hearly := h.early
  obtain ⟨hlate, hdue⟩ := h.entry
  have hrecent : ¬ (p.server.users i).Late p.now := by
    unfold Server.UserInfo.Late at hlate ⊢
    omega
  have hrests : ¬ p.server.Due (.prompt p.now) i := by
    unfold Server.UserInfo.Due at hdue
    simp only [Server.State.Due, Server.SweepEnv.prompt]
    omega
  rw [Server.processHeartbeat_of_single rfl h.used h.only hrecent, Server.State.swept_of_not_due hrests]

theorem Pair.Restful.steps {i : Server.Slot} {last : Int} (h : p.Restful c i last)
    (hsent : WellSent (p.heard c others) p.server) :
    Relation.ReflTransGen (Pair.Step c others start) p (p.rest i) := by
  have hbeat : Client.handleHeartbeat p.now Client.writesAll p.client = p.client := by
    obtain ⟨hfrom, hto⟩ := h.client
    have hearly := h.early
    have hret := h.ret
    unfold Client.handleHeartbeat
    rw [if_neg (by simp only [Client.heartbeatTimeoutSecs]; omega),
      if_neg (by simp only [Client.heartbeatIntervalSecs]; omega), ← hret]
  have hbeats : Pair.Step c others start p { p with beaten := true } := by
    have hstep := @Pair.Step.client c others start p (.heartbeat p.now Client.writesAll) p.client []
      (by rw [Client.step, if_pos h.ret]; exact congrArg some hbeat) rfl Client.writesAll_takesAll
      h.received (by simp) (by simp) (by rw [List.append_nil]; exact h.once)
    rw [show p.up ++ stamp p.now [] = p.up from List.append_nil _] at hstep
    simpa [Client.Event.isHeartbeat] using hstep
  have hsweeps : Pair.Step c others start { p with beaten := true }
      { p with beaten := true, swept := true, server := p.server.judged (.prompt p.now) i } := by
    have hstep := @Pair.Step.server c others start { p with beaten := true }
      (.heartbeat (.prompt p.now)) (p.server.judged (.prompt p.now) i) []
      (congrArg some h.pass) (fun _ => rfl) id (writes_judged h.writes _ i)
      (sent_judged hsent _ i) (by simp)
      ((gather_judged Server.Act.put (fun _ _ => rfl) p.server _ i c).trans (List.append_nil _).symm)
    rw [show p.down ++ stamp p.now [] = p.down from List.append_nil _] at hstep
    simpa [Server.Event.isHeartbeat] using hstep
  have hticks : Pair.Step c others start
      { p with beaten := true, swept := true, server := p.server.judged (.prompt p.now) i }
      (p.rest i) := by
    have hup : Pair.unhandledUp { p with
        beaten := true, swept := true, server := p.server.judged (.prompt p.now) i } c = [] := by
      rw [Pair.unhandledUp, Server.handled, gather_judged Server.Act.taken fun _ _ => rfl]
      exact h.up
    have hstep := @Pair.Step.tick c others start
      { p with beaten := true, swept := true, server := p.server.judged (.prompt p.now) i } rfl rfl
      (by rw [hup]; simp [InTime])
      (by
        change InTime _ p.unhandledDown
        rw [h.down]
        simp [InTime])
      (.inl h.asked)
    simpa [Pair.rest, h.swept, h.beaten] using hstep
  exact ((Relation.ReflTransGen.single hbeats).tail hsweeps).tail hticks

end Scene

namespace Pair

def asks : Client.Event :=
  .command ⟨.bytes [Client.ipcCommandFetchConfig], fun _ => .error, fun _ => Client.writesAll⟩ 0

def beat : Frame := ⟨msgHeartbeat, []⟩

def granting : Frame := ⟨msgIpRsb, Server.ipReply (Server.slotText 2)⟩

/-- The second connection only keeps alive. -/
def secondSends (c : Conn) : List Frame := if c = 1 then [beat] else []

def reads (fd : Fd) (bs : List UInt8) (now : Int) : Server.Event :=
  .client fd (.bytes bs) (.prompt now) true 9

def gets (bs : List UInt8) (now : Int) : Client.Event := .socket (.bytes bs) (.prompt now) 9

def call (p : Pair) (e : Server.Event) (fs : List Frame) : Pair :=
  p.serve ((Server.step p.server e).getD p.server) e fs

def move (p : Pair) (e : Client.Event) (fs : List Frame) : Pair :=
  p.act ((Client.step p.client e).getD p.client) e fs

def beforehand : Pair where
  now := 0
  server := Server.processServer 8 true (Server.processServer 7 true (Server.initState .usual))
  client := Client.protocolInit .usual 0 0 fun _ => 0
  up := []
  down := []
  swept := false
  beaten := false

/-- The request, the reply in pieces and a keepalive of the second client. -/
def settledIn : Pair :=
  ((((beforehand.move asks [Client.ipRequest]).call (reads 7 Client.ipRequest.bytes 0) [granting]).call
    (reads 8 [5, 0, 0] 0) []).call (reads 8 [0, 104] 0) []).move (gets (granting.bytes.take 20) 0) []
    |>.move (gets (granting.bytes.drop 20) 0) []

/-- After 21 seconds both send a heartbeat. -/
def bothBeat : Pair :=
  (((rest 2)^[21] settledIn).move (.heartbeat 21 Client.writesAll) [beat]).call
    (.heartbeat (.prompt 21)) [beat]

/-- In the next second the heartbeats come in, in pieces. -/
def bothHeard : Pair :=
  ((({ bothBeat with now := 22, swept := false, beaten := false }.call (reads 7 [5, 0] 22) []).call
    (reads 7 [0, 0, 104] 22) []).move (gets [5, 0, 0, 0] 22) []).move (gets [104] 22) []

/-- The server has read what the two clients sent, and its writes to the first are the frames. -/
def Served (p : Pair) (s' : Server.State) (fs : List Frame) : Prop :=
  s'.accepted = 2 ∧ (∀ r ∈ s'.log, r.conn.isSome = true → r.act.writeFails = false) ∧
    (∀ d < 2, Server.received d s'.log <+: frameCode.stream (p.heard 0 secondSends d)) ∧
    (∀ f ∈ fs, f.Valid) ∧
    Server.written 0 s'.log = Server.written 0 p.server.log ++ frameCode.stream fs

instance (p : Pair) (s' : Server.State) (fs : List Frame) : Decidable (p.Served s' fs) :=
  inferInstanceAs (Decidable (_ ∧ _))

/-- The client has read what the server sent, and its writes are the frames. -/
def Moved (p : Pair) (t' : Client.State) (fs : List Frame) : Prop :=
  Client.received t'.log <+: frameCode.stream (frames p.down) ∧ (∀ f ∈ fs, f.Valid) ∧
    Client.written t'.log = Client.written p.client.log ++ frameCode.stream fs ∧
    (frames p.up ++ fs).countP isIpReq ≤ 1

instance (p : Pair) (t' : Client.State) (fs : List Frame) : Decidable (p.Moved t' fs) :=
  inferInstanceAs (Decidable (_ ∧ _))

structure Played (p : Pair) : Prop where
  reach : p.Reachable 0 secondSends 0
  conns : Server.Connections p.server
  sent : WellSent (p.heard 0 secondSends) p.server

namespace Played

variable {p : Pair}

theorem call (h : p.Played) (e : Server.Event) (fs : List Frame)
    (hcall : (Server.step p.server e).isSome = true) (hnow : e.At p.now)
    (hopen : ¬ e.Ends 0 p.server) (hserved : p.Served (p.call e fs).server fs) :
    (p.call e fs).Played := by
  have hstep : Server.step p.server e = some (p.call e fs).server := by
    obtain ⟨s', hs'⟩ := Option.isSome_iff_exists.mp hcall
    simp [Pair.call, Pair.serve, hs']
  obtain ⟨htwo, hwrites, hreceived, hframes, hwritten⟩ := hserved
  have hconns := h.conns.passes (Server.step_passes hstep)
  have hsent : WellSent (p.heard 0 secondSends) (p.call e fs).server := by
    intro d
    by_cases hd : d < 2
    · exact hreceived d hd
    · have hnew : ¬ d < (p.call e fs).server.accepted := by
        rw [htwo]
        exact hd
      rw [hconns.received_of_new hnew]
      exact List.nil_prefix
  obtain ⟨p₀, hstarts, hreach⟩ := h.reach
  exact ⟨⟨p₀, hstarts, hreach.tail (.server e _ fs hstep hnow hopen hwrites hsent hframes hwritten)⟩,
    hconns, hsent⟩

theorem move (h : p.Played) (e : Client.Event) (fs : List Frame)
    (hcall : (Client.step p.client e).isSome = true) (hnow : e.At p.now) (hwrites : e.WritesSucceed)
    (hmoved : p.Moved (p.move e fs).client fs) : (p.move e fs).Played := by
  have hstep : Client.step p.client e = some (p.move e fs).client := by
    obtain ⟨t', ht'⟩ := Option.isSome_iff_exists.mp hcall
    simp [Pair.move, Pair.act, ht']
  obtain ⟨hreceived, hframes, hwritten, hone⟩ := hmoved
  obtain ⟨p₀, hstarts, hreach⟩ := h.reach
  refine ⟨⟨p₀, hstarts, hreach.tail (.client e _ fs hstep hnow hwrites hreceived hframes hwritten hone)⟩,
    h.conns, fun d => (h.sent d).trans (frameCode.stream_prefix ?_)⟩
  by_cases hd : d = 0
  · subst hd
    rw [Pair.heard_self, Pair.heard_self]
    simp only [Pair.move, Pair.act, frames_append, frames_stamp]
    exact List.prefix_append _ _
  · simp only [Pair.heard, Function.update_of_ne hd]
    exact List.prefix_rfl

theorem rest (h : p.Played) {last : Int} (hrestful : p.Restful 0 2 last) : (p.rest 2).Played := by
  obtain ⟨p₀, hstarts, hreach⟩ := h.reach
  have hpass : Server.step p.server (.heartbeat (.prompt p.now)) = some (p.rest 2).server :=
    congrArg some hrestful.pass
  exact ⟨⟨p₀, hstarts, hreach.trans (hrestful.steps h.sent)⟩,
    h.conns.passes (Server.step_passes hpass), sent_judged h.sent _ 2⟩

/-- Seconds in which neither has anything to send. -/
theorem rests (h : p.Played) {last : Int} (hrestful : p.Restful 0 2 last) {n : Nat}
    (hn : p.now + n ≤ last) : ((Pair.rest 2)^[n + 1] p).Played := by
  induction n generalizing p with
  | zero => exact h.rest hrestful
  | succ n ih =>
      refine ih (h.rest hrestful) (hrestful.rests (by omega)) ?_
      simp only [Pair.rest]
      omega

theorem tick (h : p.Played) (hbeaten : p.beaten = true) (hswept : p.swept = true)
    (hup : InTime (p.now + 1) (p.unhandledUp 0)) (hdown : InTime (p.now + 1) p.unhandledDown)
    (hasked : ∃ f ∈ frames p.up, f.type = msgIpReq) :
    Played { p with now := p.now + 1, swept := false, beaten := false } := by
  obtain ⟨p₀, hstarts, hreach⟩ := h.reach
  exact ⟨⟨p₀, hstarts, hreach.tail (.tick hbeaten hswept hup hdown (.inl hasked))⟩, h.conns, h.sent⟩

end Played

theorem beforehand_played : beforehand.Played := by
  have hfirst : (Server.initState .usual).CanAccept 7 := by decide
  have hsecond : (Server.processServer 7 true (Server.initState .usual)).CanAccept 8 := by
    decide +kernel
  have hrun : Server.runFrom .usual [.server (some (7, true)), .server (some (8, true))] =
      some beforehand.server := by
    have hstep : ∀ {s : Server.State} {fd : Fd}, s.CanAccept fd →
        Server.step s (.server (some (fd, true))) = some (Server.processServer fd true s) := by
      intro s fd hcan
      unfold Server.step
      exact if_pos hcan
    exact EventRun.run_cons_iff.mpr ⟨_, hstep hfirst,
      EventRun.run_cons_iff.mpr ⟨_, hstep hsecond, rfl⟩⟩
  have hconns : Server.Connections beforehand.server := .runFrom hrun
  have hsent : WellSent (beforehand.heard 0 secondSends) beforehand.server := by
    intro d
    have hnone : Server.received d beforehand.server.log = [] := by
      by_cases hd : d < 2
      · have hboth : ∀ d < 2, Server.received d beforehand.server.log = [] := by decide +kernel
        exact hboth d hd
      · exact hconns.received_of_new hd
    rw [hnone]
    exact List.nil_prefix
  have hwrites : ∀ r ∈ beforehand.server.log, r.conn.isSome = true → r.act.writeFails = false := by
    decide +kernel
  exact ⟨⟨beforehand, ⟨rfl, ⟨_, _, rfl⟩, ⟨_, _, hrun⟩, hwrites, hsent, rfl, rfl, rfl, rfl⟩, .refl⟩,
    hconns, hsent⟩

/-- A read of something does not end the connection. -/
theorem reads_open {bs : List UInt8} (hbs : bs ≠ []) (fd : Fd) (now : Int) (s : Server.State) :
    ¬ (reads fd bs now).Ends 0 s := by
  rintro ⟨hend | hend, _⟩
  · cases hend
  · exact hbs (ReadResult.bytes.inj hend)

theorem settledIn_played : settledIn.Played := by
  have hasked := beforehand_played.move asks [Client.ipRequest] (by decide +kernel) trivial
    (fun _ => Client.writesAll_takesAll) (by decide +kernel)
  have hgranted := hasked.call (reads 7 Client.ipRequest.bytes 0) [granting] (by decide +kernel)
    (fun _ => ⟨rfl, rfl⟩) (reads_open (by decide) _ _ _) (by decide +kernel)
  have hhalf := hgranted.call (reads 8 [5, 0, 0] 0) [] (by decide +kernel)
    (fun _ => ⟨rfl, rfl⟩) (reads_open (by decide) _ _ _) (by decide +kernel)
  have hkept := hhalf.call (reads 8 [0, 104] 0) [] (by decide +kernel)
    (fun _ => ⟨rfl, rfl⟩) (reads_open (by decide) _ _ _) (by decide +kernel)
  have hpart := hkept.move (gets (granting.bytes.take 20) 0) [] (by decide +kernel)
    (fun _ => rfl) trivial (by decide +kernel)
  exact hpart.move (gets (granting.bytes.drop 20) 0) [] (by decide +kernel)
    (fun _ => rfl) trivial (by decide +kernel)

theorem settledIn_restful : settledIn.Restful 0 2 20 where
  ret := by decide +kernel
  early := by decide +kernel
  client := by decide +kernel
  used := by decide +kernel
  only := by decide +kernel
  entry := by decide +kernel
  up := by decide +kernel
  down := by decide +kernel
  asked := by decide +kernel
  once := by decide +kernel
  received := by decide +kernel
  writes := by
    change ∀ r ∈ settledIn.server.log, r.conn.isSome = true → r.act.writeFails = false
    decide +kernel
  swept := by decide +kernel
  beaten := by decide +kernel

theorem bothBeat_played : bothBeat.Played := by
  have hrests := settledIn_played.rests settledIn_restful (n := 20) (by decide +kernel)
  have hnow : ((Pair.rest 2)^[21] settledIn).now = 21 := by decide +kernel
  have hbeat := hrests.move (.heartbeat 21 Client.writesAll) [beat] (by decide +kernel) hnow.symm
    Client.writesAll_takesAll (by decide +kernel)
  exact hbeat.call (.heartbeat (.prompt 21)) [beat] (by decide +kernel) (fun _ => hnow.symm) id
    (by decide +kernel)

theorem bothHeard_played : bothHeard.Played := by
  have hnow : bothBeat.now = 21 := by decide +kernel
  have hticked : Played { bothBeat with now := 22, swept := false, beaten := false } := by
    have hnext := bothBeat_played.tick (by decide +kernel) (by decide +kernel) (by decide +kernel)
      (by decide +kernel) (by decide +kernel)
    rw [hnow] at hnext
    exact hnext
  have hhalf := hticked.call (reads 7 [5, 0] 22) [] (by decide +kernel) (fun _ => ⟨rfl, rfl⟩)
    (reads_open (by decide) _ _ _) (by decide +kernel)
  have hkept := hhalf.call (reads 7 [0, 0, 104] 22) [] (by decide +kernel) (fun _ => ⟨rfl, rfl⟩)
    (reads_open (by decide) _ _ _) (by decide +kernel)
  have hpart := hkept.move (gets [5, 0, 0, 0] 22) [] (by decide +kernel) (fun _ => rfl) trivial
    (by decide +kernel)
  exact hpart.move (gets [104] 22) [] (by decide +kernel) (fun _ => rfl) trivial (by decide +kernel)

theorem bothHeard_restful : bothHeard.Restful 0 2 41 where
  ret := by decide +kernel
  early := by decide +kernel
  client := by decide +kernel
  used := by decide +kernel
  only := by decide +kernel
  entry := by decide +kernel
  up := by decide +kernel
  down := by decide +kernel
  asked := by decide +kernel
  once := by decide +kernel
  received := by decide +kernel
  writes := by
    change ∀ r ∈ bothHeard.server.log, r.conn.isSome = true → r.act.writeFails = false
    decide +kernel
  swept := by decide +kernel
  beaten := by decide +kernel

end Pair

/-- Forty-two seconds with a heartbeat each way, up to the moment when the next ones are due. -/
theorem heartbeats_agree_twoRounds :
    ∃ p : Pair, p.Reachable 0 Pair.secondSends 0 ∧ p.now = 42 ∧
      p.up = [⟨0, Client.ipRequest⟩, ⟨21, Pair.beat⟩] ∧ p.down = [⟨0, Pair.granting⟩, ⟨21, Pair.beat⟩] ∧
      p.unhandledUp 0 = [] ∧ p.unhandledDown = [] ∧
      (∀ write, (Client.handleHeartbeat 42 write p.client).log ≠ .failed .timeout :: p.client.log) ∧
      (Server.processHeartbeat (.prompt 42) p.server).conn 7 = some 0 := by
  have hreach := (Pair.bothHeard_played.rests Pair.bothHeard_restful (n := 19) (by decide +kernel)).reach
  have hnow : ((Pair.rest 2)^[20] Pair.bothHeard).now = 42 := by decide +kernel
  have hret : ((Pair.rest 2)^[20] Pair.bothHeard).client.ret = 0 := by decide +kernel
  have hopen : ((Pair.rest 2)^[20] Pair.bothHeard).server.conn 7 = some 0 := by decide +kernel
  have hvalid : ∀ d, ∀ f ∈ Pair.secondSends d, f.Valid := by
    intro d f hf
    unfold Pair.secondSends at hf
    split at hf
    · rw [List.mem_singleton.mp hf]
      decide
    · cases hf
  have hone : ∀ d, (Pair.secondSends d).countP isIpReq ≤ 1 := by
    intro d
    unfold Pair.secondSends
    split <;> decide
  obtain ⟨hclient, hserver⟩ := heartbeats_agree 0 Pair.secondSends hvalid hone 0 _ hreach
  rw [hnow] at hclient hserver
  refine ⟨_, hreach, hnow, by decide +kernel, by decide +kernel, by decide +kernel, by decide +kernel,
    hclient hret, hserver (.prompt 42) (fun _ => rfl) 7 hopen⟩

end Over6
