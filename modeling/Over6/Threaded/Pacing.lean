import Over6.Lib.Pacing
import Over6.Threaded.Clock

/-! # The heartbeats of the server

`keepLiveThread` sends a heartbeat when its counter is a multiple of 20. The counter is the time
since the last keepalive of the client, so each keepalive puts off the next heartbeat.
-/

namespace Over6.Threaded

open EventRun Pacing

def Ticks (i : Nat) (s : State) : Event → Prop
  | .keep j _ => j = i ∧ ∃ c ∈ s.conns[i]?, c.keeping = .tick
  | _ => False

instance (i : Nat) (s : State) (e : Event) : Decidable (Ticks i s e) :=
  match e with
  | .keep .. => inferInstanceAs (Decidable (_ ∧ _))
  | .accept _ | .read .. | .write .. | .packet _ | .route => inferInstanceAs (Decidable False)

/-- `readThread` comes to a keepalive of the client. -/
def Revives (i : Nat) (s : State) : Event → Prop
  | .read j _ =>
      j = i ∧ ∃ c ∈ s.conns[i]?, c.reading = .dispatch ∧ c.message.header.type = msgHeartbeat
  | _ => False

instance (i : Nat) (s : State) (e : Event) : Decidable (Revives i s e) :=
  match e with
  | .read .. => inferInstanceAs (Decidable (_ ∧ _))
  | .accept _ | .write .. | .keep .. | .packet _ | .route => inferInstanceAs (Decidable False)

def KeepPoint.Sending : KeepPoint → Prop
  | send _ => True
  | _ => False

instance : DecidablePred KeepPoint.Sending := fun p =>
  match p with
  | .send _ => inferInstanceAs (Decidable True)
  | .check | .tick | .test | .close | .ended => inferInstanceAs (Decidable False)

/-- `keepLiveThread` has sent its heartbeat and goes on. -/
def Delivers (i : Nat) (s : State) : Event → Prop
  | .keep j a => j = i ∧ (∃ c ∈ s.conns[i]?, c.keeping.Sending) ∧
      ∃ s' ∈ next s (.keep j a), ∃ c ∈ s'.conns[i]?, c.keeping = .check
  | _ => False

instance (i : Nat) (s : State) (e : Event) : Decidable (Delivers i s e) :=
  match e with
  | .keep .. => inferInstanceAs (Decidable (_ ∧ _ ∧ _))
  | .accept _ | .read .. | .write .. | .packet _ | .route => inferInstanceAs (Decidable False)

def keepalives (i : Nat) (s : State) (e : Event) : List Pulse :=
  if Revives i s e then [.mark] else if Ticks i s e then [.second] else []

def heartbeats (i : Nat) (s : State) (e : Event) : List Pulse :=
  if Delivers i s e then [.mark] else if Ticks i s e then [.second] else []

/-- A keepalive that comes between the second and the test. -/
def Interrupts (i : Nat) (s : State) (e : Event) : Prop :=
  Revives i s e ∧ ∃ c ∈ s.conns[i]?, c.keeping = .test

instance (i : Nat) (s : State) (e : Event) : Decidable (Interrupts i s e) :=
  inferInstanceAs (Decidable (_ ∧ _))

/-- The heartbeats sent so far come from the keepalives, or one is being sent. -/
def Conn.Timed (c : Conn) (kept sent : List Pulse) : Prop :=
  match c.keeping with
  | .check | .tick => since sent = quiet 20 kept
  | .test => ∃ before, kept = before ++ [.second] ∧ since sent = quiet 20 before + 1
  | .send _ => quiet 20 kept = 0
  | _ => True

/-- The counter of connection `i` after the seconds and keepalives `kept` and the heartbeats
`sent`. -/
structure Timed (i : Nat) (kept sent : List Pulse) (s : State) : Prop where
  early : s.conns[i]? = none → kept = [] ∧ sent = []
  count : ∀ c ∈ s.conns[i]?, c.heartBeatCount = since kept
  timed : ∀ c ∈ s.conns[i]?, c.Timed kept sent

section Steps

variable {s s' : State} {i : Nat} {c c' : Conn} {a : Answer} {e : Event}
  {kept sent : List Pulse}

theorem Timed.mk' (hc : s'.conns[i]? = some c') (hcount : c'.heartBeatCount = since kept)
    (htimed : c'.Timed kept sent) : Timed i kept sent s' where
  early hnone := absurd (hc.symm.trans hnone) nofun
  count _ hd := Option.some.inj (hc.symm.trans hd) ▸ hcount
  timed _ hd := Option.some.inj (hc.symm.trans hd) ▸ htimed

theorem revives_iff (hc : s.conns[i]? = some c) :
    Revives i s (.read i a) ↔ c.reading = .dispatch ∧ c.message.header.type = msgHeartbeat := by
  simp [Revives, hc]

theorem ticks_iff (hc : s.conns[i]? = some c) : Ticks i s (.keep i a) ↔ c.keeping = .tick := by
  simp [Ticks, hc]

theorem delivers_iff (hc : s.conns[i]? = some c) (hstep : next s (.keep i a) = some s')
    (hc' : s'.conns[i]? = some c') :
    Delivers i s (.keep i a) ↔ c.keeping.Sending ∧ c'.keeping = .check := by
  simp [Delivers, hc, hstep, hc']

theorem Takes.count (h : Takes s i c a c' s') :
    c'.heartBeatCount =
      if c.reading = .dispatch ∧ c.message.header.type = msgHeartbeat then 0 else c.heartBeatCount := by
  have helse : c.reading ≠ .dispatch ∨ c.message.header.type ≠ msgHeartbeat →
      c.heartBeatCount =
        if c.reading = .dispatch ∧ c.message.header.type = msgHeartbeat then 0 else c.heartBeatCount := by
    intro hother
    rw [if_neg fun hboth => hother.elim (absurd hboth.1) (absurd hboth.2)]
  cases h with
  | resets hpoint htype => exact (if_pos ⟨hpoint, htype⟩).symm
  | asks _ htype => exact helse (.inr (by rw [htype]; decide))
  | pushes _ htype => exact helse (.inr (by rw [htype]; decide))
  | throws _ htype => exact helse (.inr (by rw [htype]; decide))
  | skips _ htype => exact helse (.inr htype.2.1)
  | begins hpoint => exact helse (.inl (by simp [hpoint]))
  | stops hpoint => exact helse (.inl (by simp [hpoint]))
  | waits hpoint =>
      refine helse (.inl fun hat => ?_)
      rcases hpoint with ⟨_, hpoint⟩ | ⟨_, hpoint⟩ <;> exact absurd (hpoint.symm.trans hat) nofun
  | reads hpoint _ _ hresult =>
      subst hresult
      exact helse (.inl (by simp [hpoint]))
  | completes hpoint _ _ hresult =>
      subst hresult
      exact helse (.inl (by simp [hpoint]))
  | breaks hpoint => exact helse (.inl (by simp [hpoint]))
  | stores hpoint _ _ _ hresult =>
      subst hresult
      exact helse (.inl (by simp [hpoint]))
  | overflows hpoint => exact helse (.inl (by simp [hpoint]))
  | loses hpoint => exact helse (.inl (by simp [hpoint]))

/-- `readThread` leaves the counter alone, or puts it to 0. -/
theorem count_read (hc : s.conns[i]? = some c) (hc' : s'.conns[i]? = some c')
    (h : next s (.read i a) = some s') :
    (Revives i s (.read i a) → c'.heartBeatCount = 0) ∧
      (¬ Revives i s (.read i a) → c'.heartBeatCount = c.heartBeatCount) := by
  have hcount : c'.heartBeatCount =
      if c.reading = .dispatch ∧ c.message.header.type = msgHeartbeat then 0 else c.heartBeatCount := by
    cases next_reader h i with
    | takes hevent hbefore hafter htakes =>
        obtain ⟨_, rfl⟩ := Event.read.inj hevent
        obtain rfl := Option.some.inj (hc.symm.trans hbefore)
        obtain rfl := Option.some.inj (hc'.symm.trans hafter)
        exact htakes.count
    | serves hevent hbefore hbusy hserves =>
        obtain ⟨_, rfl⟩ := Event.read.inj hevent
        obtain rfl := Option.some.inj (hc.symm.trans hbefore)
        obtain rfl := Option.some.inj (hc'.symm.trans hserves.after)
        rw [if_neg, hserves.count]
        rintro ⟨hpoint, _⟩
        rw [hpoint] at hbusy
        exact hbusy trivial
    | elsewhere hother _ => exact absurd rfl (hother a)
  rw [revives_iff hc]
  exact ⟨fun hresets => hcount.trans (if_pos hresets), fun hother => hcount.trans (if_neg hother)⟩

theorem not_revives (h : ∀ a, e ≠ .read i a) : ¬ Revives i s e := by
  cases e with
  | read j a =>
      rintro ⟨rfl, _⟩
      exact h a rfl
  | _ => exact id

theorem not_ticks (h : ∀ a, e ≠ .keep i a) : ¬ Ticks i s e ∧ ¬ Delivers i s e := by
  cases e with
  | keep j a =>
      constructor
      · rintro ⟨rfl, _⟩
        exact h a rfl
      · rintro ⟨rfl, _⟩
        exact h a rfl
  | _ => exact ⟨id, id⟩

/-- A keepalive puts off the next heartbeat. -/
theorem Timed.read (h : Timed i kept sent s) (hc : s.conns[i]? = some c)
    (hstep : next s (.read i a) = some s') (hc' : s'.conns[i]? = some c')
    (hkeeping : c'.keeping = c.keeping) (hquiet : ¬ Interrupts i s (.read i a)) :
    Timed i (kept ++ keepalives i s (.read i a)) (sent ++ heartbeats i s (.read i a)) s' := by
  obtain ⟨hticks, hdelivers⟩ : ¬ Ticks i s (.read i a) ∧ ¬ Delivers i s (.read i a) := ⟨id, id⟩
  have hcount := count_read hc hc' hstep
  have htimed := h.timed c hc
  rw [heartbeats, if_neg hdelivers, if_neg hticks, List.append_nil]
  by_cases hrevives : Revives i s (.read i a)
  · rw [keepalives, if_pos hrevives]
    refine Timed.mk' hc' ((hcount.1 hrevives).trans (since_mark kept).symm) ?_
    rw [Conn.Timed] at htimed ⊢
    rw [hkeeping]
    cases hpoint : c.keeping with
    | test => exact absurd ⟨hrevives, c, hc, hpoint⟩ hquiet
    | close => trivial
    | ended => trivial
    | _ =>
        rw [hpoint] at htimed
        simpa using htimed
  · rw [keepalives, if_neg hrevives, if_neg hticks, List.append_nil]
    refine Timed.mk' hc' ((hcount.2 hrevives).trans (h.count c hc)) ?_
    rw [Conn.Timed, hkeeping]
    exact htimed

/-- A step of `keepLiveThread`. -/
theorem Timed.keep (h : Timed i kept sent s) (hc : s.conns[i]? = some c)
    (hstep : next s (.keep i a) = some s') (hc' : s'.conns[i]? = some c') (hbeats : Beats c a c') :
    Timed i (kept ++ keepalives i s (.keep i a)) (sent ++ heartbeats i s (.keep i a)) s' := by
  have hcount := h.count c hc
  have htimed := h.timed c hc
  have hticks := ticks_iff (a := a) hc
  have hdelivers := delivers_iff hc hstep hc'
  have hother : ¬ Revives i s (.keep i a) := id
  rw [keepalives, if_neg hother, heartbeats]
  have hstill : c.keeping ≠ .tick → ¬ (c.keeping.Sending ∧ c'.keeping = .check) →
      c'.heartBeatCount = since kept → c'.Timed kept sent →
      Timed i (kept ++ if Ticks i s (.keep i a) then [.second] else [])
        (sent ++ if Delivers i s (.keep i a) then [.mark]
          else if Ticks i s (.keep i a) then [.second] else []) s' := by
    intro htick hsends hcount htimed
    rw [if_neg fun hyes => htick (hticks.mp hyes), if_neg fun hyes => hsends (hdelivers.mp hyes),
      List.append_nil, List.append_nil]
    exact .mk' hc' hcount htimed
  rw [Conn.Timed] at htimed
  cases hbeats with
  | ticks hpoint =>
      rw [hpoint] at htimed hdelivers
      rw [if_pos (hticks.mpr hpoint), if_neg fun hyes => (hdelivers.mp hyes).1]
      refine .mk' hc' ?_ ⟨kept, rfl, ?_⟩
      · rw [since_second, ← hcount]
      · rw [since_second, htimed]
  | goes hpoint =>
      rw [hpoint] at htimed
      exact hstill (by simp [hpoint]) (by simp) hcount htimed
  | stops hpoint => exact hstill (by simp [hpoint]) (by simp) hcount trivial
  | closes hpoint => exact hstill (by simp [hpoint]) (by simp) hcount trivial
  | due hpoint hturn =>
      rw [hpoint] at htimed
      obtain ⟨before, rfl, _⟩ := htimed
      refine hstill (by simp [hpoint]) (by simp) hcount ?_
      rw [hcount, since_second] at hturn
      rw [Conn.Timed, quiet_second, if_pos hturn]
  | skips hpoint hturn =>
      rw [hpoint] at htimed
      obtain ⟨before, rfl, hsince⟩ := htimed
      refine hstill (by simp [hpoint]) (fun hsends => ?_) hcount ?_
      · rw [hpoint] at hsends
        exact hsends.1
      · rw [hcount, since_second] at hturn
        rw [Conn.Timed, quiet_second, if_neg hturn]
        exact hsince
  | @sends p sent' mutex hpoint =>
      rw [hpoint] at htimed
      cases sent' with
      | done =>
          have hsent : Delivers i s (.keep i a) := hdelivers.mpr ⟨by rw [hpoint]; trivial, rfl⟩
          have htick : ¬ Ticks i s (.keep i a) := by
            rw [hticks, hpoint]
            nofun
          rw [if_neg htick, if_pos hsent, List.append_nil]
          refine .mk' hc' hcount ?_
          rw [Conn.Timed]
          exact (since_mark sent).trans htimed.symm
      | more p' => exact hstill (by simp [hpoint]) (fun hsends => nomatch hsends.2) hcount htimed
      | failed => exact hstill (by simp [hpoint]) (fun hsends => nomatch hsends.2) hcount trivial

theorem Timed.next (h : Timed i kept sent s) (hstep : next s e = some s') (hquiet : ¬ Interrupts i s e) :
    Timed i (kept ++ keepalives i s e) (sent ++ heartbeats i s e) s' := by
  cases hc : s.conns[i]? with
  | none =>
      obtain ⟨rfl, rfl⟩ := h.early hc
      have hnothing : ¬ Revives i s e ∧ ¬ Ticks i s e ∧ ¬ Delivers i s e := by
        cases e <;> simp [Revives, Ticks, Delivers, hc]
      rw [keepalives, heartbeats, if_neg hnothing.1, if_neg hnothing.2.1, if_neg hnothing.2.2]
      cases hc' : s'.conns[i]? with
      | none => exact ⟨fun _ => ⟨rfl, rfl⟩, by simp [hc'], by simp [hc']⟩
      | some c' =>
          obtain ⟨fd, stale, rfl⟩ : ∃ fd stale, c' = Conn.start fd stale := by
            cases next_reader hstep i with
            | takes _ hbefore => exact absurd (hc.symm.trans hbefore) nofun
            | serves _ hbefore => exact absurd (hc.symm.trans hbefore) nofun
            | elsewhere _ haway => exact haway.fresh hc c' hc'
          exact .mk' hc' rfl rfl
  | some c =>
      cases next_course hc hstep with
      | reads hevent hc' hkeeping =>
          subst hevent
          exact h.read hc hstep hc' hkeeping hquiet
      | beats hevent hc' hbeats =>
          subst hevent
          exact h.keep hc hstep hc' hbeats
      | @rests c' hother hc' hsame =>
          have hrevives := not_revives (s := s) fun a => (hother a).1
          have hticks := not_ticks (s := s) fun a => (hother a).2
          rw [keepalives, heartbeats, if_neg hrevives, if_neg hticks.1, if_neg hticks.2,
            List.append_nil, List.append_nil]
          refine .mk' hc' (hsame.count.trans (h.count c hc)) ?_
          rw [Conn.Timed, hsame.keeping]
          exact h.timed c hc

/-- A second adds to the time since the last heartbeat. -/
theorem Timed.tick (h : Timed i kept sent s) (hticks : Ticks i s e)
    (hstep : Threaded.next s e = some s') :
    since (sent ++ heartbeats i s e) = quiet 20 kept + 1 ∧ ∀ c ∈ s'.conns[i]?, c.keeping ≠ .ended := by
  cases e with
  | keep j a =>
      obtain ⟨rfl, c, hc, hpoint⟩ := hticks
      cases next_course hc hstep with
      | reads hevent => cases hevent
      | rests hother => exact absurd rfl (hother a).2
      | beats hevent hc' hbeats =>
          cases hevent
          have hno : ¬ Delivers j s (.keep j a) := by
            rw [delivers_iff hc hstep hc', hpoint]
            exact fun hsends => hsends.1
          have htimed := h.timed c hc
          rw [Conn.Timed, hpoint] at htimed
          rw [heartbeats, if_neg hno, if_pos ((ticks_iff hc).mpr hpoint), since_second, htimed]
          refine ⟨rfl, fun d hd => ?_⟩
          obtain rfl := Option.some.inj (hc'.symm.trans hd)
          cases hbeats <;> simp_all
  | _ => exact hticks.elim

end Steps

/-! ## Runs -/

theorem timed_of_run {files : List (Option File)} {es : List Event} {s : State}
    (hrun : run next (State.start files) es = some s) {i : Nat}
    (hbetween : ∀ pre e post u, es = pre ++ e :: post → run next (State.start files) pre = some u →
      ¬ Interrupts i u e) :
    Timed i (outputs next (keepalives i) (State.start files) es)
      (outputs next (heartbeats i) (State.start files) es) s := by
  refine run_history (Interrupts i)
    (fun pre u => Timed i (outputs next (keepalives i) (State.start files) pre)
      (outputs next (heartbeats i) (State.start files) pre) u) ?_ ?_ hrun hbetween
  · intro pre u e v hu h hquiet hstep
    rw [outputs_snoc _ e hu, outputs_snoc _ e hu]
    exact h.next hstep hquiet
  · exact ⟨fun _ => ⟨rfl, rfl⟩, by simp [State.start], by simp [State.start]⟩

/-- While the connection is open, no more than 60 seconds pass without a heartbeat exactly if this
holds whenever a second passes: since no time at which the client had been silent for a multiple of 20
seconds have 60 seconds passed without 20 in a row in which no keepalive came. -/
theorem heartbeats_in_time_iff (files : List (Option File)) (es : List Event) (s : State)
    (hrun : run next (State.start files) es = some s) (i : Nat)
    (hbetween : ∀ pre e post u, es = pre ++ e :: post → run next (State.start files) pre = some u →
      ¬ Interrupts i u e) :
    (∀ pre u, pre <+: es → run next (State.start files) pre = some u →
        (∀ c ∈ u.conns[i]?, c.keeping ≠ .ended) →
        since (outputs next (heartbeats i) (State.start files) pre) ≤ 60) ↔
      ∀ pre e post u, es = pre ++ e :: post → run next (State.start files) pre = some u →
        Ticks i u e → Timely 20 60 (outputs next (keepalives i) (State.start files) pre) := by
  have htimed : ∀ pre u, pre <+: es → run next (State.start files) pre = some u →
      Timed i (outputs next (keepalives i) (State.start files) pre)
        (outputs next (heartbeats i) (State.start files) pre) u := by
    rintro pre u ⟨rest, rfl⟩ hu
    refine timed_of_run hu fun pre' e post v hsplit hv => ?_
    exact hbetween pre' e (post ++ rest) v (by rw [hsplit]; simp) hv
  have htick : ∀ pre e post u, es = pre ++ e :: post → run next (State.start files) pre = some u →
      Ticks i u e → ∃ v, run next (State.start files) (pre ++ [e]) = some v ∧
        since (outputs next (heartbeats i) (State.start files) (pre ++ [e])) =
          quiet 20 (outputs next (keepalives i) (State.start files) pre) + 1 ∧
        ∀ c ∈ v.conns[i]?, c.keeping ≠ .ended := by
    rintro pre e post u rfl hu hticks
    obtain ⟨w, hw, hrest⟩ := run_append_iff.mp hrun
    obtain rfl := Option.some.inj (hu.symm.trans hw)
    obtain ⟨v, hv, _⟩ := run_cons_iff.mp hrest
    rw [outputs_snoc _ e hu]
    exact ⟨v, run_snoc_iff.mpr ⟨u, hu, hv⟩,
      (htimed pre u (List.prefix_append _ _) hu).tick hticks hv⟩
  constructor
  · intro hall pre e post u hsplit hu hticks
    obtain ⟨v, hv, hsince, hopen⟩ := htick pre e post u hsplit hu hticks
    have hle := hall (pre ++ [e]) v ⟨post, by rw [hsplit]; simp⟩ hv hopen
    exact (quiet_lt_iff (by decide)).mp (by omega)
  · intro hgood
    have hshort : ∀ pre u, pre <+: es → run next (State.start files) pre = some u →
        since (outputs next (heartbeats i) (State.start files) pre) ≤ 60 := by
      intro pre
      induction pre using List.reverseRecOn with
      | nil => exact fun _ _ _ => Nat.zero_le _
      | append_singleton pre e ih =>
          rintro u ⟨post, hsplit⟩ hu
          rw [List.append_assoc, List.singleton_append] at hsplit
          obtain ⟨v, hv, hstep⟩ := run_snoc_iff.mp hu
          by_cases hticks : Ticks i v e
          · obtain ⟨_, _, hsince, _⟩ := htick pre e post v hsplit.symm hv hticks
            have hlt := (quiet_lt_iff (by decide)).mpr (hgood pre e post v hsplit.symm hv hticks)
            omega
          · have hle := ih v ⟨e :: post, hsplit⟩ hv
            rw [outputs_snoc _ e hv, heartbeats, if_neg hticks]
            split
            · rw [since_mark]
              exact Nat.zero_le _
            · rwa [List.append_nil]
    exact fun pre u hpre hu _ => hshort pre u hpre hu

def revival (i : Nat) : List Event :=
  [.read i (.bytes [5, 0, 0, 0, 104]), .read i .again, .read i .again]

def seconds (i n : Nat) : List Event :=
  (List.replicate n [Event.keep i .again, .keep i .again, .keep i .again]).flatten

/-- Twenty seconds, a heartbeat, and a keepalive. -/
def oneHeartbeat : List Event :=
  [.accept blank, .read 0 .again] ++ seconds 0 20 ++ [.keep 0 .again, .keep 0 (.count 5)] ++
    revival 0 ++ [.keep 0 .again]

/-- A client that sends a keepalive every nineteen seconds. -/
def eagerClient : List Event :=
  [.accept blank, .read 0 .again] ++ (List.replicate 4 (seconds 0 19 ++ revival 0)).flatten

theorem heartbeats_in_time_oneHeartbeat :
    ∃ s, run next (State.start opened) oneHeartbeat = some s ∧
      ∀ pre u, pre <+: oneHeartbeat → run next (State.start opened) pre = some u →
        (∀ c ∈ u.conns[0]?, c.keeping ≠ .ended) →
        since (outputs next (heartbeats 0) (State.start opened) pre) ≤ 60 := by
  have hsome : (run next (State.start opened) oneHeartbeat).isSome = true := by decide +kernel
  have htotal : (outputs next (keepalives 0) (State.start opened) oneHeartbeat).count .second < 60 := by
    decide +kernel
  obtain ⟨s, hs⟩ := Option.isSome_iff_exists.mp hsome
  refine ⟨s, hs, (heartbeats_in_time_iff opened oneHeartbeat s hs 0
    (not_bad_of_clean (by decide +kernel))).mpr ?_⟩
  intro pre e post u hsplit hu _ front w hparts _ _
  rw [hsplit, outputs_append _ _ hu, hparts, List.count_append, List.count_append] at htotal
  omega

theorem eager_client_unheard :
    ∃ s, run next (State.start opened) eagerClient = some s ∧
      s.conns.map Conn.keeping = [.check] ∧
      since (outputs next (heartbeats 0) (State.start opened) eagerClient) = 76 ∧
      (∀ pre e post u, eagerClient = pre ++ e :: post → run next (State.start opened) pre = some u →
        ¬ Interrupts 0 u e) ∧
      ¬ ∀ pre u, pre <+: eagerClient → run next (State.start opened) pre = some u →
        (∀ c ∈ u.conns[0]?, c.keeping ≠ .ended) →
        since (outputs next (heartbeats 0) (State.start opened) pre) ≤ 60 := by
  have hview : (run next (State.start opened) eagerClient).map (fun s => s.conns.map Conn.keeping) =
      some [.check] := by decide +kernel
  have hsince : since (outputs next (heartbeats 0) (State.start opened) eagerClient) = 76 := by
    decide +kernel
  obtain ⟨s, hs, hkeeping⟩ := Option.map_eq_some_iff.mp hview
  refine ⟨s, hs, hkeeping, hsince, not_bad_of_clean (by decide +kernel), fun hall => ?_⟩
  obtain ⟨c, hone, hpoint⟩ := List.map_eq_singleton_iff.mp hkeeping
  have hopen : ∀ d ∈ s.conns[0]?, d.keeping ≠ .ended := by
    rw [hone]
    rintro d hd
    obtain rfl := Option.some.inj hd
    rw [hpoint]
    nofun
  have hle := hall eagerClient s List.prefix_rfl hs hopen
  omega

end Over6.Threaded
