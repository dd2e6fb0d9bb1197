import Over6.Threaded.Upstream

/-! # What `readThread` does for a message

The header loop is left when the header is there and when a `read` has failed. The
`switch` does not know which, and goes by what is in `message`.
-/

namespace Over6.Threaded

open MachineInt EventRun

/-! ## Effects -/

/-- What a case of the `switch` does to others than `readThread`. -/
inductive Deed where
  | resets
  | pushes (bs : List UInt8)
  /-- An address is assigned and the reply sent. -/
  | answers
deriving DecidableEq, Repr

def Msg.deeds (m : Msg) : List Deed :=
  if m.header.type = msgIpReq then [.answers]
  else if m.header.type = msgHeartbeat then [.resets]
  else if m.header.type = msgDataReq ∧ 0 ≤ m.header.length then
    [.pushes (m.load sizeofMessage m.header.length.toNat)]
  else []

def Conn.deeds (c : Conn) : List Deed := if c.reading = .dispatch then c.message.deeds else []

def deeds (i : Nat) (s : State) : Event → List Deed
  | .read j _ => if j = i then s.conns[i]?.toList.flatMap Conn.deeds else []
  | _ => []

def Acted (m : Message) : Prop :=
  m.type = msgIpReq ∨ m.type = msgHeartbeat ∨ m.type = msgDataReq ∧ 0 ≤ m.length

instance (m : Message) : Decidable (Acted m) := inferInstanceAs (Decidable (_ ∨ _))

/-- A request of the kind that the deed is for. -/
inductive Causes (r : Request) : Deed → Prop
  | answers (type : r.message.type = msgIpReq) : Causes r .answers
  | resets (type : r.message.type = msgHeartbeat) : Causes r .resets
  | pushes {bs : List UInt8} (type : r.message.type = msgDataReq) (string : Surplus r bs) :
      Causes r (.pushes bs)

def acted (requests : List Request) : List Request := requests.filter (Acted ·.message)

/-- The deed is for the last request that was read, after those that were `done` for requests before
it, and no `read` has failed. -/
structure Owed (i : Nat) (done : List Deed) (s : State) (d : Deed) : Prop where
  intact : ¬ Refused i s.log
  cause : ∃ requests r, received i s.log = requestCode.stream (requests ++ [r]) ∧ Causes r d ∧
    List.Forall₂ Causes (acted requests) done

/-! ## Reads that lead on to an effect -/

/-- No data are read for the message, and something is done for it. -/
def Msg.Ready (m : Msg) : Prop :=
  ¬ (m.header.type = msgDataReq ∧ 0 < m.bodySize) ∧ Acted m.header

instance (m : Msg) : Decidable m.Ready := inferInstanceAs (Decidable (_ ∧ _))

/-- The `read` is the last one before an effect. -/
def Conn.Leads (c : Conn) (a : Answer) : Prop :=
  match c.reading, a with
  | .header _, .error => c.message.Ready
  | .header total, .bytes bs =>
      total + bs.length = sizeofMessage ∧ Msg.Ready (c.message.store total bs)
  | .body total, .bytes bs =>
      total + bs.length ≤ sizeofData ∧ ((total + bs.length : Nat) : Int) = c.message.bodySize ∧
        Acted c.message.header
  | _, _ => False

instance (c : Conn) (a : Answer) : Decidable (c.Leads a) := by
  unfold Conn.Leads
  exact match c.reading, a with
    | .header _, .error => inferInstanceAs (Decidable c.message.Ready)
    | .header _, .bytes _ | .body _, .bytes _ => inferInstanceAs (Decidable (_ ∧ _))
    | .header _, .again | .header _, .count _ | .body _, .again | .body _, .error
    | .body _, .count _ | .check, _ | .dispatch, _ | .request, _ | .choose, _ | .reply _, _
    | .setStatus, _ | .setConnection, _ | .ending, _ | .ended, _ =>
        inferInstanceAs (Decidable False)

/-- A `read` of connection `i` that fails, or comes after one that failed, and leads on to an
effect. -/
def Misled (i : Nat) (s : State) : Event → Prop
  | .read j a =>
      j = i ∧ (a = .error ∨ Refused i s.log) ∧ ∃ c ∈ s.conns[i]?, c.Leads a
  | _ => False

instance (i : Nat) (s : State) (e : Event) : Decidable (Misled i s e) :=
  match e with
  | .read .. => inferInstanceAs (Decidable (_ ∧ _))
  | .accept _ | .write .. | .keep .. | .packet _ | .route => inferInstanceAs (Decidable False)

/-! ## Deeds and requests -/

theorem acted_append (l m : List Request) : acted (l ++ m) = acted l ++ acted m :=
  List.filter_append ..

theorem acted_of_not {r : Request} (h : ¬ Acted r.message) : acted [r] = [] :=
  List.filter_cons_of_neg (by simpa using h)

theorem acted_of {r : Request} (h : Acted r.message) : acted [r] = [r] :=
  List.filter_cons_of_pos (by simpa using h)

theorem acted_request {m : Msg} (h : Acted m.header) : acted [m.request] = [m.request] := by
  refine acted_of ?_
  rw [Msg.request_message]
  exact h

theorem acted_request_of_not {m : Msg} (h : ¬ Acted m.header) : acted [m.request] = [] := by
  refine acted_of_not ?_
  rw [Msg.request_message]
  exact h

theorem Msg.deeds_causes (m : Msg) : List.Forall₂ Causes (acted [m.request]) m.deeds := by
  have htype := m.request_message
  unfold Msg.deeds
  split
  · rename_i hreq
    rw [acted_request (.inl hreq)]
    exact .cons (.answers (htype ▸ hreq)) .nil
  · split
    · rename_i hbeat
      rw [acted_request (.inr (.inl hbeat))]
      exact .cons (.resets (htype ▸ hbeat)) .nil
    · split
      · rename_i hdata
        rw [acted_request (.inr (.inr hdata))]
        exact .cons (.pushes (htype ▸ hdata.1) (surplus_of_message m hdata.2)) .nil
      · rename_i hreq hbeat hdata
        rw [acted_request_of_not]
        · exact .nil
        · rintro (h | h | h)
          · exact hreq h
          · exact hbeat h
          · exact hdata h

theorem Msg.deeds_eq_nil {m : Msg} : m.deeds = [] ↔ ¬ Acted m.header := by
  have hcauses := m.deeds_causes
  by_cases hacted : Acted m.header
  · rw [acted_request hacted] at hcauses
    refine iff_of_false (fun hnil => ?_) (not_not.mpr hacted)
    rw [hnil] at hcauses
    cases hcauses
  · rw [acted_request_of_not hacted] at hcauses
    exact iff_of_true (List.forall₂_nil_left_iff.mp hcauses) hacted

theorem cause_of_mem {requests : List Request} {done : List Deed} {d : Deed}
    (h : List.Forall₂ Causes requests done) (hd : d ∈ done) : ∃ r ∈ requests, Causes r d := by
  induction h with
  | nil => cases hd
  | cons hfirst _ ih =>
      rcases List.mem_cons.mp hd with rfl | hd
      · exact ⟨_, List.mem_cons_self, hfirst⟩
      · obtain ⟨r, hr, hcause⟩ := ih hd
        exact ⟨r, List.mem_cons_of_mem _ hr, hcause⟩

theorem Conn.deeds_causes (c : Conn) : List.Forall₂ Causes (acted c.taken) c.deeds := by
  by_cases hpoint : c.reading = .dispatch
  · rw [taken_dispatch hpoint, Conn.deeds, if_pos hpoint]
    exact c.message.deeds_causes
  · rw [taken_of_ne hpoint, Conn.deeds, if_neg hpoint]
    exact .nil

theorem deeds_of_ne {c : Conn} (hpoint : c.reading ≠ .dispatch) : c.deeds = [] := if_neg hpoint

section Steps

variable {s s' : State} {i : Nat} {c c' : Conn} {a : Answer}

/-- What is done in a step is done for what the `switch` takes in it. -/
theorem deeds_causes (e : Event) : List.Forall₂ Causes (acted (taken i s e)) (deeds i s e) := by
  cases e with
  | read j a =>
      by_cases hj : j = i
      · subst hj
        cases hc : s.conns[j]? with
        | none => simp [taken, deeds, hc, acted]
        | some c =>
            have hcauses := c.deeds_causes
            simpa [taken, deeds, hc] using hcauses
      · simp [taken, deeds, hj, acted]
  | _ => exact .nil

theorem headerRead_deeds (c : Conn) : c.headerRead.deeds ≠ [] ↔ c.message.Ready := by
  by_cases hbody : c.message.header.type = msgDataReq ∧ 0 < c.message.bodySize
  · have hpoint : c.headerRead.reading = .body 0 := if_pos hbody
    rw [deeds_of_ne (by simp [hpoint])]
    exact iff_of_false (not_not.mpr rfl) fun hready => hready.1 hbody
  · have hpoint : c.headerRead.reading = .dispatch := if_neg hbody
    rw [Conn.deeds, if_pos hpoint]
    change c.message.deeds ≠ [] ↔ _
    rw [Ne, Msg.deeds_eq_nil, not_not]
    exact (and_iff_right hbody).symm

/-- `readThread` comes to the `switch` with something to do by a `read` that leads on to it. -/
theorem Takes.leads (h : Takes s i c a c' s') (hup : s'.crash = none) :
    c'.deeds ≠ [] ↔ c.Leads a := by
  have hnone : c'.reading ≠ .dispatch → ¬ c.Leads a → (c'.deeds ≠ [] ↔ c.Leads a) := by
    intro hpoint hno
    rw [deeds_of_ne hpoint]
    exact iff_of_false (not_not.mpr rfl) hno
  cases h with
  | begins hpoint => exact hnone nofun (by simp [Conn.Leads, hpoint])
  | stops hpoint => exact hnone nofun (by simp [Conn.Leads, hpoint])
  | waits hpoint =>
      rcases hpoint with ⟨total, hpoint⟩ | ⟨total, hpoint⟩ <;>
        exact hnone (by simp [hpoint]) (by simp [Conn.Leads, hpoint])
  | reads hpoint _ hshort hresult =>
      refine hnone (by simp [hresult]) ?_
      simp only [Conn.Leads, hpoint]
      exact fun hleads => absurd hleads.1 (Nat.ne_of_lt hshort)
  | completes hpoint _ hall hresult =>
      rw [hresult, headerRead_deeds]
      simp only [Conn.Leads, hpoint]
      exact (and_iff_right hall).symm
  | breaks hpoint =>
      rw [headerRead_deeds]
      simp only [Conn.Leads, hpoint]
  | stores hpoint _ hfits hnext hresult =>
      rcases hnext with ⟨hshort, rfl⟩ | ⟨hall, rfl⟩
      · refine hnone (by simp [hresult]) ?_
        simp only [Conn.Leads, hpoint]
        exact fun hleads => absurd hleads.2.1 (Int.ne_of_lt hshort)
      · rw [hresult, Conn.deeds, if_pos rfl]
        simp only [Conn.Leads, hpoint]
        rw [Ne, Msg.deeds_eq_nil, not_not, Msg.header_store]
        exact ⟨fun hacted => ⟨hfits, hall, hacted⟩, fun hleads => hleads.2.2⟩
  | overflows => cases hup
  | loses hpoint => exact hnone nofun (by simp [Conn.Leads, hpoint])
  | asks hpoint => exact hnone nofun (by simp [Conn.Leads, hpoint])
  | resets hpoint => exact hnone nofun (by simp [Conn.Leads, hpoint])
  | pushes hpoint => exact hnone nofun (by simp [Conn.Leads, hpoint])
  | throws => cases hup
  | skips hpoint => exact hnone nofun (by simp [Conn.Leads, hpoint])

theorem refused_read (on : Option Nat) (log : List Act) :
    Refused i (.read i on a :: log) ↔ a = .error ∨ Refused i log := by
  constructor
  · rintro ⟨act, hact, hrefused⟩
    rcases List.mem_cons.mp hact with rfl | hold
    · exact .inl hrefused.2
    · exact .inr ⟨act, hold, hrefused⟩
  · rintro (herror | ⟨act, hold, hrefused⟩)
    · exact ⟨_, List.mem_cons_self, rfl, herror⟩
    · exact ⟨act, List.mem_cons_of_mem _ hold, hrefused⟩

theorem leads_reading (h : c.Leads a) :
    (∃ total, c.reading = .header total) ∨ ∃ total bs, c.reading = .body total ∧ a = .bytes bs := by
  unfold Conn.Leads at h
  split at h
  · exact .inl ⟨_, ‹_›⟩
  · exact .inl ⟨_, ‹_›⟩
  · exact .inr ⟨_, _, ‹_›, rfl⟩
  · exact h.elim

/-- A `read` that leads on to an effect is recorded and does not take the process down. -/
theorem Takes.recorded (h : Takes s i c a c' s') (hleads : c.Leads a) :
    s'.crash = s.crash ∧ (Refused i s'.log ↔ a = .error ∨ Refused i s.log) := by
  have hnot : c.reading ≠ .check ∧ c.reading ≠ .dispatch := by
    rcases leads_reading hleads with ⟨total, hpoint⟩ | ⟨total, _, hpoint, _⟩ <;> simp [hpoint]
  cases h with
  | waits => exact ⟨rfl, refused_read _ _⟩
  | reads => exact ⟨rfl, refused_read _ _⟩
  | completes => exact ⟨rfl, refused_read _ _⟩
  | breaks => exact ⟨rfl, refused_read _ _⟩
  | stores => exact ⟨rfl, refused_read _ _⟩
  | loses => exact ⟨rfl, refused_read _ _⟩
  | overflows hpoint hbehind =>
      simp only [Conn.Leads, hpoint] at hleads
      exact absurd hleads.1 (Nat.not_le.mpr hbehind)
  | begins hpoint => exact absurd hpoint hnot.1
  | stops hpoint => exact absurd hpoint hnot.1
  | asks hpoint => exact absurd hpoint hnot.2
  | resets hpoint => exact absurd hpoint hnot.2
  | pushes hpoint => exact absurd hpoint hnot.2
  | throws hpoint => exact absurd hpoint hnot.2
  | skips hpoint => exact absurd hpoint hnot.2

def Settled (i : Nat) (s : State) : Prop :=
  Refused i s.log → s.crash = none → ∀ c, s.conns[i]? = some c → c.deeds = []

theorem settled_next {e : Event} (h : Settled i s) (hgood : ¬ Misled i s e)
    (hstep : next s e = some s') : Settled i s' := by
  intro hrefused hup d hd
  cases next_reader hstep i with
  | takes hevent hc hc' htakes =>
      subst hevent
      obtain rfl := Option.some.inj (hd.symm.trans hc')
      by_contra hdeeds
      have hleads := (htakes.leads hup).mp hdeeds
      exact hgood ⟨rfl, (htakes.recorded hleads).2.mp hrefused, _, hc, hleads⟩
  | serves hevent hc hbusy hserves =>
      obtain rfl := Option.some.inj (hd.symm.trans hserves.after)
      refine deeds_of_ne fun hpoint => ?_
      rcases hserves.target with hbusy | hcheck
      · rw [hpoint] at hbusy
        exact hbusy trivial
      · rw [hpoint] at hcheck
        cases hcheck
  | elsewhere hother haway =>
      have hbefore : Refused i s.log := by
        rcases haway.log with hlog | ⟨act, hlog, halien⟩
        · exact hlog ▸ hrefused
        · rw [hlog] at hrefused
          exact (received_alien halien s.log).2.mp hrefused
      cases hc : s.conns[i]? with
      | none =>
          obtain ⟨fd, stale, rfl⟩ := haway.fresh hc d hd
          rfl
      | some c =>
          obtain ⟨c', hc', _, hpoint, hmessage, _⟩ := haway.kept c hc
          obtain rfl := Option.some.inj (hd.symm.trans hc')
          rw [Conn.deeds, hpoint, hmessage]
          exact h hbefore (next_spec hstep).1 c hc

end Steps

/-! ## Runs -/

/-- What was done in a run was done for the requests that the `switch` took in it. -/
theorem outputs_causes (i : Nat) (es : List Event) (s : State) :
    List.Forall₂ Causes (acted (outputs next (taken i) s es)) (outputs next (deeds i) s es) := by
  induction es generalizing s with
  | nil => exact .nil
  | cons e es ih =>
      rw [outputs, outputs, acted_append]
      refine List.rel_append (deeds_causes e) ?_
      cases next s e with
      | none => exact .nil
      | some s' => exact ih s'

/-- Whatever the calls of `read` return: what `readThread` does next is always for a request of its
own, read whole before any `read` failed, exactly if no `read` that fails, or comes after one that
failed, leads on to the `switch` with something to do. -/
theorem deeds_owed_iff (files : List (Option File)) (es : List Event) (s : State)
    (hrun : run next (State.start files) es = some s) (i : Nat) :
    (∀ pre u, pre <+: es → run next (State.start files) pre = some u → u.crash = none →
        ∀ c, u.conns[i]? = some c → ∀ d ∈ c.deeds,
          Owed i (outputs next (deeds i) (State.start files) pre) u d) ↔
      ∀ pre e post u, es = pre ++ e :: post → run next (State.start files) pre = some u →
        ¬ Misled i u e := by
  constructor
  · rintro hall pre e post u rfl hu hmisled
    obtain ⟨v, hv, hrest⟩ := run_append_iff.mp hrun
    obtain rfl := Option.some.inj (hu.symm.trans hv)
    obtain ⟨u', hnext, _⟩ := run_cons_iff.mp hrest
    cases e with
    | read j a =>
        obtain ⟨rfl, hfailed, c, hc, hleads⟩ := hmisled
        cases next_reader hnext j with
        | takes hevent hbefore hc' htakes =>
            obtain ⟨_, rfl⟩ := Event.read.inj hevent
            obtain rfl := Option.some.inj (Eq.trans (Eq.symm hc) hbefore)
            obtain ⟨hcrash, hrefused⟩ := htakes.recorded hleads
            have hup := hcrash.trans (next_spec hnext).1
            obtain ⟨d, hd⟩ := List.exists_mem_of_ne_nil _ ((htakes.leads hup).mpr hleads)
            have hprefix : pre ++ [.read j a] <+: pre ++ .read j a :: post := ⟨post, by simp⟩
            exact (hall _ u' hprefix (run_snoc_iff.mpr ⟨u, hu, hnext⟩) hup _ hc' d hd).intact
              (hrefused.mpr hfailed)
        | serves _ hbefore hbusy _ =>
            obtain rfl := Option.some.inj (Eq.trans (Eq.symm hc) hbefore)
            rcases leads_reading hleads with ⟨total, hpoint⟩ | ⟨total, _, hpoint, _⟩ <;>
              rw [hpoint] at hbusy <;> exact absurd trivial hbusy
        | elsewhere hother _ => exact absurd rfl (hother a)
    | _ => exact hmisled
  · intro hgood pre u hpre hu hup c hc d hd
    have hsettled : Settled i u := by
      obtain ⟨post, rfl⟩ := hpre
      refine run_avoiding (Misled i) (Settled i) (fun _ _ _ h hno hstep => settled_next h hno hstep)
        (fun _ _ c hc => by simp [State.start] at hc) hu ?_
      rintro pre' e post' v rfl hv
      exact hgood pre' e (post' ++ post) v (by simp) hv
    have hfine : ¬ Refused i u.log := by
      intro hrefused
      rw [hsettled hrefused hup c hc] at hd
      cases hd
    have hpoint : c.reading = .dispatch := by
      by_contra hno
      rw [deeds_of_ne hno] at hd
      cases hd
    refine ⟨hfine, outputs next (taken i) (State.start files) pre, c.message.request, ?_, ?_, ?_⟩
    · rw [(reading_of_run hu i).held c hc hup hfine, held_dispatch hpoint, PrefixCode.stream_append,
        PrefixCode.stream_cons, PrefixCode.stream_nil, List.append_nil]
      rfl
    · have hcauses := c.deeds_causes
      rw [taken_dispatch hpoint] at hcauses
      obtain ⟨r, hr, hcause⟩ := cause_of_mem hcauses hd
      obtain rfl := List.mem_singleton.mp (List.mem_of_mem_filter hr)
      exact hcause
    · exact outputs_causes i pre _

/-- The packet comes in, then a keepalive and the header of a packet whose data cannot be read. -/
def requestsToTheEnd : List Event :=
  requestsInPieces ++
  [.read 0 .again, .read 0 (.bytes (packetToTwo.drop 7)), .read 0 .again, .read 0 .again,
    .read 0 (.bytes [5, 0]), .read 0 (.bytes [0, 0, 104]), .read 0 .again, .read 0 .again,
    .read 0 (.bytes shortPacket.header), .read 0 (.bytes [69]), .read 0 .error, .read 0 .again]

theorem deeds_owed_requestsToTheEnd :
    ∃ s, run next (State.start opened) requestsToTheEnd = some s ∧
      outputs next (deeds 0) (State.start opened) requestsToTheEnd =
        [.resets, .answers, .resets, .pushes (packetToTwo ++ Server.ascii "02.38"), .resets] ∧
      ∀ pre u, pre <+: requestsToTheEnd → run next (State.start opened) pre = some u →
        u.crash = none → ∀ c, u.conns[0]? = some c → ∀ d ∈ c.deeds,
          Owed 0 (outputs next (deeds 0) (State.start opened) pre) u d := by
  have hsome : (run next (State.start opened) requestsToTheEnd).isSome = true := by decide +kernel
  obtain ⟨s, hs⟩ := Option.isSome_iff_exists.mp hsome
  refine ⟨s, hs, by decide +kernel, ?_⟩
  exact (deeds_owed_iff opened requestsToTheEnd s hs 0).mpr (not_bad_of_clean (by decide +kernel))

/-- A keepalive, a second without one, and a `read` that fails. -/
def failingRead : List Event :=
  [.accept blank, .read 0 .again, .read 0 (.bytes [5, 0, 0]), .read 0 .again,
    .read 0 (.bytes [0, 104]), .read 0 .again, .read 0 .again, .keep 0 .again, .keep 0 .again,
    .read 0 .error]

theorem keepalive_replayed :
    ∃ s, run next (State.start opened) failingRead = some s ∧ Refused 0 s.log ∧
      s.conns.map Conn.heartBeatCount = [1] ∧ s.conns.map Conn.deeds = [[.resets]] ∧
      (run next (State.start opened) (failingRead ++ [.read 0 .again])).map
        (fun s => s.conns.map Conn.heartBeatCount) = some [0] ∧
      ¬ ∀ pre u, pre <+: failingRead → run next (State.start opened) pre = some u →
        u.crash = none → ∀ c, u.conns[0]? = some c → ∀ d ∈ c.deeds,
          Owed 0 (outputs next (deeds 0) (State.start opened) pre) u d := by
  have hview : (run next (State.start opened) failingRead).map
      (fun s => (decide (Refused 0 s.log), s.crash, s.conns.map Conn.heartBeatCount,
        s.conns.map Conn.deeds)) = some (true, none, [1], [[.resets]]) := by decide +kernel
  obtain ⟨s, hs, hpair⟩ := Option.map_eq_some_iff.mp hview
  simp only [Prod.mk.injEq, decide_eq_true_eq] at hpair
  obtain ⟨hrefused, hup, hcount, hdeeds⟩ := hpair
  refine ⟨s, hs, hrefused, hcount, hdeeds, by decide +kernel, fun hall => ?_⟩
  obtain ⟨c, hconns, hresets⟩ := List.map_eq_singleton_iff.mp hdeeds
  have howed := hall failingRead s List.prefix_rfl hs hup c (by rw [hconns]; rfl) .resets
    (by rw [hresets]; exact List.mem_cons_self)
  exact howed.intact hrefused

end Over6.Threaded
