import Over6.Threaded.Upstream

/-! # Packets in the queues

Between the tun and the sockets a packet goes through `wtSktQue` on its way down, from
`tunReader` to the `writeThread` of a connection, and through `waitingQuene` on its way
up, from the `readThread`s to `tunWriter`.
-/

namespace Over6.Threaded

open EventRun Journal

/-! ## Downstream -/

def arrived (_ : State) : Event → List (List UInt8)
  | .packet buf => [buf]
  | _ => []

def lookups (s : State) : Event → List (List UInt8 × Option Nat)
  | .route =>
      match s.tunReader with
      | .lookup buf =>
          match s.getConnectionByIp (mkAddr ((buf.drop 16).take 4)) with
          | .ok found => [(buf, found)]
          | .error _ => []
      | _ => []
  | _ => []

/-- The packet with its connection, where one was found. -/
def addressed (p : List UInt8 × Option Nat) : Option (Nat × List UInt8) := p.2.map fun i => (i, p.1)

def queued (s : State) : Event → List (Nat × List UInt8)
  | .route =>
      match s.tunReader with
      | .push i buf => if (s.conns[i]?).isSome then [(i, buf)] else []
      | _ => []
  | _ => []

/-- The messages that `writeThread` has begun to send. -/
def delivered (i : Nat) (log : List Act) : List Msg := part .write (messages i log)

/-- The message that waits for `sendMutex`, and those in the queue. -/
def Conn.mail (c : Conn) : List Msg :=
  (match c.writing with
    | .send .lock => [c.outgoing]
    | _ => []) ++ c.wtSktQue

/-- All that `writeThread` of connection `i` was ever given. -/
def State.mail (s : State) (i : Nat) : List Msg :=
  delivered i s.log ++ match s.conns[i]? with
    | some c => c.mail
    | none => []

/-- The packet whose lookup is still to come. -/
def TunPoint.toLookUp : TunPoint → List (List UInt8)
  | .lookup buf => [buf]
  | _ => []

/-- The packet that is to be queued, with the connection found for it. -/
def TunPoint.toQueue : TunPoint → List (Nat × List UInt8)
  | .push i buf => [(i, buf)]
  | _ => []

section Steps

variable {s s' : State} {i : Nat} {c c' : Conn} {a : Answer}

theorem delivered_of_messages {log log' : List Act} (h : messages i log' = messages i log) :
    delivered i log' = delivered i log := by
  rw [delivered, h, delivered]

/-- The other threads send nothing in the place of `writeThread`. -/
theorem Transmits.delivered_same {who : Thread} {log log' : List Act}
    (h : Transmits i c who a c' log log') (hwho : who ≠ .write) :
    delivered i log' = delivered i log := by
  cases h with
  | quiet hq =>
      rcases hq.log with rfl | ⟨act, rfl, hact⟩
      · rfl
      · exact delivered_of_messages (messages_of_silent hact i log).1
  | locks _ _ _ _ _ hlog =>
      rw [hlog, delivered, (messages_locked i who _ log).1, part_append, part_cons_other hwho]
      exact List.append_nil _
  | @writes p bs sent on _ _ _ _ _ _ _ hlog =>
      rw [hlog]
      exact delivered_of_messages (List.append_nil _)

theorem Touches.mail_other (h : Touches s i c c' s') {j : Nat} (hj : j ≠ i) :
    s'.mail j = s.mail j := by
  have hlog : delivered j s'.log = delivered j s.log := by
    rcases h.log with hsame | ⟨act, hact, hof⟩
    · rw [hsame]
    · rw [hact]
      exact delivered_of_messages (messages_of_other hof (Ne.symm hj) s.log).1
  rw [State.mail, State.mail, hlog, h.others j hj]

theorem mail_at (hc : s.conns[i]? = some c) : s.mail i = delivered i s.log ++ c.mail := by
  rw [State.mail, hc]

theorem mail_noted (hc : s.conns[i]? = some c) (d : Conn) (act : Act) :
    ((s.set i d).note act).mail i = delivered i (act :: s.log) ++ d.mail := by
  have hconn : ((s.set i d).note act).conns[i]? = some d := at_set hc rfl d
  rw [mail_at hconn]
  rfl

/-- A step that leaves the mail of its connection alone. -/
theorem Touches.mail_same (h : Touches s i c c' s') (hmail : c'.mail = c.mail)
    (hdelivered : delivered i s'.log = delivered i s.log) (j : Nat) : s'.mail j = s.mail j := by
  by_cases hj : j = i
  · subst hj
    rw [mail_at h.after, mail_at h.before, hmail, hdelivered]
  · exact h.mail_other hj

theorem writeOnce_more {m : Msg} {p p' : SendPoint} {bs : List UInt8} (hp : p ≠ .lock)
    (h : writeOnce m p a = some (bs, .more p')) : p' ≠ .lock := by
  cases a with
  | again =>
      obtain ⟨_, hmore⟩ := Prod.mk.inj (Option.some.inj h)
      exact Sent.more.inj hmore ▸ hp
  | error => cases h
  | bytes _ => cases h
  | count n =>
      simp only [writeOnce, Option.ite_none_right_eq_some, Option.some.injEq, Prod.mk.injEq] at h
      obtain ⟨-, -, hadvance⟩ := h
      rintro rfl
      cases p with
      | lock => exact hp rfl
      | header total =>
          simp only [SendPoint.advance] at hadvance
          split at hadvance
          · cases hadvance
          · split at hadvance <;> cases hadvance
      | data total =>
          simp only [SendPoint.advance] at hadvance
          split at hadvance <;> cases hadvance

/-- `writeThread` passes its mail on in the order in which it has it. -/
theorem stepWrite_mail (hc : s.conns[i]? = some c) (h : stepWrite s i c a = some s') :
    s'.mail i = s.mail i := by
  unfold stepWrite at h
  split at h
  · rename_i hpop
    split at h
    · cases h
    · rename_i m queue hqueue
      cases h
      rw [mail_at (at_set hc rfl _), mail_at hc]
      simp [Conn.mail, hpop, hqueue, State.set]
  · rename_i p hpoint
    cases send_spec h with
    | locks hlock =>
        subst hlock
        have hdelivered : delivered i (.locked i .write c.outgoing :: s.log) =
            delivered i s.log ++ [c.outgoing] := by
          rw [delivered, (messages_locked i .write _ s.log).1, part_append, part_cons_self]
          rfl
        rw [mail_noted hc, mail_at hc, hdelivered]
        simp [Conn.mail, Conn.afterMessage, hpoint]
    | @writes bs sent mutex hinside _ honce =>
        have hafter : (Conn.afterMessage sent { c with sendMutex := mutex }).mail = c.wtSktQue := by
          cases sent with
          | more p' =>
              have hp' := writeOnce_more hinside honce
              cases p' with
              | lock => exact absurd rfl hp'
              | header total => rfl
              | data total => rfl
          | done => rfl
          | failed => rfl
        have hbefore : c.mail = c.wtSktQue := by
          cases p with
          | lock => exact absurd rfl hinside
          | header total => simp [Conn.mail, hpoint]
          | data total => simp [Conn.mail, hpoint]
        rw [mail_noted hc, mail_at hc, hafter, hbefore]
        exact congrArg (· ++ c.wtSktQue) (delivered_of_messages (List.append_nil _))
  · cases h

theorem accept_mail (s : State) (stale : Msg) (i : Nat) : (s.accept stale).mail i = s.mail i := by
  cases hc : s.conns[i]? with
  | some c =>
      have hold : (s.accept stale).conns[i]? = some c := by
        change (s.conns ++ [Conn.start s.lowestFree stale])[i]? = some c
        rw [List.getElem?_append_left (List.getElem?_eq_some_iff.mp hc).1, hc]
      rw [mail_at hold, mail_at hc]
      rfl
  | none =>
      have hempty : ∀ c, (s.accept stale).conns[i]? = some c → c.mail = [] := by
        intro c hnew
        rcases conns_accept hnew with hold | ⟨_, rfl⟩
        · rw [hc] at hold
          cases hold
        · rfl
      cases hnew : (s.accept stale).conns[i]? with
      | none =>
          rw [State.mail, State.mail, hc, hnew]
          rfl
      | some c =>
          rw [mail_at hnew, hempty c hnew, State.mail, hc]
          rfl

/-- What a step adds to the mail of a connection is what it queues for it. -/
theorem next_mail {e : Event} (h : next s e = some s') (i : Nat) :
    s'.mail i = s.mail i ++ (part i (queued s e)).map dataMsg := by
  obtain ⟨_, hnext⟩ := next_spec h
  unfold next at h
  split at h
  · cases h
  · cases e with
    | accept stale =>
        cases h
        rw [accept_mail]
        simp [queued, part]
    | read j a =>
        obtain ⟨c, hc, hstep⟩ := Option.bind_eq_some_iff.mp h
        obtain ⟨c', hreads⟩ := stepRead_reads hc hstep
        obtain ⟨d, hd, htransmits⟩ := stepRead_transmits hc hstep
        have hmail : c'.mail = c.mail := by
          rw [Conn.mail, Conn.mail, hreads.writing, hreads.mail.1, hreads.mail.2]
        rw [hreads.touches.mail_same hmail (htransmits.delivered_same (by decide)) i]
        simp [queued, part]
    | write j a =>
        obtain ⟨c, hc, hstep⟩ := Option.bind_eq_some_iff.mp h
        obtain ⟨c', hwrites⟩ := stepWrite_writes hc hstep
        have hsame : s'.mail i = s.mail i := by
          by_cases hj : i = j
          · subst hj
            exact stepWrite_mail hc hstep
          · exact hwrites.touches.mail_other hj
        rw [hsame]
        simp [queued, part]
    | keep j a =>
        obtain ⟨c, hc, hstep⟩ := Option.bind_eq_some_iff.mp h
        obtain ⟨c', hkeeps⟩ := stepKeep_keeps hc hstep
        obtain ⟨d, hd, htransmits⟩ := stepKeep_transmits hc hstep
        have hmail : c'.mail = c.mail := by
          rw [Conn.mail, Conn.mail, hkeeps.writing, hkeeps.mail.1, hkeeps.mail.2]
        rw [hkeeps.touches.mail_same hmail (htransmits.delivered_same (by decide)) i]
        simp [queued, part]
    | packet buf =>
        simp only [Option.ite_none_right_eq_some, Option.some.injEq] at h
        obtain ⟨-, rfl⟩ := h
        simp [queued, part, State.mail]
    | route =>
        simp only [stepTun] at h
        split at h
        · cases h
        · rename_i buf hpoint
          have hnone : (part i (queued s .route)).map dataMsg = [] := by simp [queued, hpoint, part]
          rw [hnone, List.append_nil]
          obtain ⟨_, ⟨found, _, rfl⟩ | ⟨why, _, rfl⟩⟩ := locked_spec h
          · rfl
          · rfl
        · rename_i j buf hpoint
          split at h
          · cases h
          · rename_i c hc
            cases h
            have hqueued : queued s .route = [(j, buf)] := by simp [queued, hpoint, hc]
            have htouches : Touches s j c { c with wtSktQue := c.wtSktQue ++ [dataMsg buf] }
                { s.set j { c with wtSktQue := c.wtSktQue ++ [dataMsg buf] } with
                  tunReader := .read } := touches_set hc rfl rfl rfl
            rw [hqueued]
            by_cases hj : i = j
            · subst hj
              rw [mail_at htouches.after, mail_at hc]
              simp [Conn.mail, part, State.set]
            · rw [htouches.mail_other hj]
              simp [part, Ne.symm hj]

/-- Packets are looked up in the order in which they come. -/
theorem next_toLookUp {e : Event} (h : next s e = some s') :
    s.tunReader.toLookUp ++ arrived s e =
      (lookups s e).map Prod.fst ++ s'.tunReader.toLookUp := by
  obtain ⟨_, hnext⟩ := next_spec h
  have hstays : arrived s e = [] → lookups s e = [] → s'.tunReader = s.tunReader →
      s.tunReader.toLookUp ++ arrived s e =
        (lookups s e).map Prod.fst ++ s'.tunReader.toLookUp := by
    intro hnone hquiet hsame
    rw [hnone, hquiet, hsame, List.append_nil]
    rfl
  cases hnext with
  | accepts stale => exact hstays rfl rfl rfl
  | reads hstep => exact hstays rfl rfl hstep.tunReader
  | writes hstep => exact hstays rfl rfl hstep.tunReader
  | keeps hstep => exact hstays rfl rfl hstep.tunReader
  | arrives _ hpoint =>
      rw [hpoint]
      rfl
  | @finds buf found hpoint hanswer =>
      have hone : lookups s .route = [(buf, found)] := by simp [lookups, hpoint, hanswer]
      rw [hone, hpoint]
      cases found <;> rfl
  | throws hpoint hnone =>
      have hthrows : lookups s .route = [] := by
        simp [lookups, hpoint, State.getConnectionByIp, hnone]
      exact hstays rfl hthrows rfl
  | queues hpoint _ _ _ _ _ _ _ hread =>
      have hquiet : lookups s .route = [] := by simp [lookups, hpoint]
      rw [hquiet, hread, hpoint]
      rfl

/-- Whatever a lookup finds a connection for is queued there next, and nothing else is. -/
theorem next_toQueue {e : Event} (h : next s e = some s') :
    s.tunReader.toQueue ++ (lookups s e).filterMap addressed =
      queued s e ++ s'.tunReader.toQueue := by
  obtain ⟨_, hnext⟩ := next_spec h
  have hstays : lookups s e = [] → queued s e = [] → s'.tunReader = s.tunReader →
      s.tunReader.toQueue ++ (lookups s e).filterMap addressed =
        queued s e ++ s'.tunReader.toQueue := by
    intro hnone hquiet hsame
    rw [hnone, hquiet, hsame, List.filterMap_nil, List.append_nil]
    rfl
  cases hnext with
  | accepts stale => exact hstays rfl rfl rfl
  | reads hstep => exact hstays rfl rfl hstep.tunReader
  | writes hstep => exact hstays rfl rfl hstep.tunReader
  | keeps hstep => exact hstays rfl rfl hstep.tunReader
  | arrives _ hpoint =>
      rw [hpoint]
      rfl
  | @finds buf found hpoint hanswer =>
      have hone : lookups s .route = [(buf, found)] := by simp [lookups, hpoint, hanswer]
      have hquiet : queued s .route = [] := by simp [queued, hpoint]
      rw [hone, hquiet, hpoint]
      cases found <;> rfl
  | throws hpoint hnone =>
      have hthrows : lookups s .route = [] := by
        simp [lookups, hpoint, State.getConnectionByIp, hnone]
      exact hstays hthrows (by simp [queued, hpoint]) rfl
  | @queues i buf c c' s' hpoint hstep _ _ _ _ _ _ hread =>
      have hquiet : lookups s .route = [] := by simp [lookups, hpoint]
      have hone : queued s .route = [(i, buf)] := by
        simp [queued, hpoint, hstep.touches.before]
      rw [hquiet, hone, hread, hpoint]
      rfl

/-- A packet is queued for the connection that its lookup found. -/
theorem next_looked {e : Event} (h : next s e = some s') {buf : List UInt8}
    (hpush : s'.tunReader = .push i buf) : s.tunReader = .push i buf ∨
      s.tunReader = .lookup buf ∧
        s.getConnectionByIp (mkAddr ((buf.drop 16).take 4)) = .ok (some i) := by
  obtain ⟨_, hnext⟩ := next_spec h
  cases hnext with
  | accepts stale => exact .inl hpush
  | reads hstep => exact .inl (hstep.tunReader ▸ hpush)
  | writes hstep => exact .inl (hstep.tunReader ▸ hpush)
  | keeps hstep => exact .inl (hstep.tunReader ▸ hpush)
  | arrives => cases hpush
  | throws hpoint => exact .inl hpush
  | queues _ _ _ _ _ _ _ _ hread =>
      rw [hread] at hpush
      cases hpush
  | @finds buf found hpoint hanswer =>
      cases found with
      | none => cases hpush
      | some j =>
          obtain ⟨rfl, rfl⟩ := TunPoint.push.inj hpush
          exact .inr ⟨hpoint, hanswer⟩

end Steps

structure Queued (files : List (Option File)) (es : List Event) (s : State) : Prop where
  mail : ∀ i, s.mail i = (part i (outputs next queued (State.start files) es)).map dataMsg
  looked : outputs next arrived (State.start files) es =
    (outputs next lookups (State.start files) es).map Prod.fst ++ s.tunReader.toLookUp
  kept : (outputs next lookups (State.start files) es).filterMap addressed =
    outputs next queued (State.start files) es ++ s.tunReader.toQueue

theorem Queued.step {files : List (Option File)} {es : List Event} {s s' : State} {e : Event}
    (h : Queued files es s) (hrun : run next (State.start files) es = some s)
    (hstep : next s e = some s') : Queued files (es ++ [e]) s' where
  mail i := by rw [outputs_snoc queued e hrun, next_mail hstep, h.mail, part_append, List.map_append]
  looked := by
    rw [outputs_snoc arrived e hrun, outputs_snoc lookups e hrun, h.looked, List.map_append,
      List.append_assoc, List.append_assoc, next_toLookUp hstep]
  kept := by
    rw [outputs_snoc queued e hrun, outputs_snoc lookups e hrun, List.filterMap_append, h.kept,
      List.append_assoc, List.append_assoc, next_toQueue hstep]

theorem queued_of_run {files : List (Option File)} {es : List Event} {s : State}
    (hrun : run next (State.start files) es = some s) : Queued files es s := by
  induction es using List.reverseRecOn generalizing s with
  | nil =>
      obtain rfl := Option.some.inj hrun
      exact ⟨fun _ => rfl, rfl, rfl⟩
  | append_singleton es e ih =>
      obtain ⟨u, hu, hstep⟩ := run_snoc_iff.mp hrun
      exact (ih hu).step hu hstep

/-- Whatever the threads do and in whatever order: the packets that come from the tun are looked up
one after the other. Those queued, with the one that is about to be, are all those whose own lookup
found a connection, in their order and each for that connection; and what `writeThread` has begun to
send, the message it has in hand and those in `wtSktQue` are the packets queued for its connection,
each once and in this order. -/
theorem packets_queued_once (files : List (Option File)) (es : List Event) (s : State)
    (hrun : run next (State.start files) es = some s) :
    (outputs next arrived (State.start files) es =
      (outputs next lookups (State.start files) es).map Prod.fst ++ s.tunReader.toLookUp) ∧
    (outputs next queued (State.start files) es ++ s.tunReader.toQueue =
      (outputs next lookups (State.start files) es).filterMap addressed) ∧
    ∀ i c, s.conns[i]? = some c → delivered i s.log ++ c.mail =
      (part i (outputs next queued (State.start files) es)).map dataMsg := by
  have hqueued := queued_of_run hrun
  refine ⟨hqueued.looked, hqueued.kept.symm, fun i c hc => ?_⟩
  rw [← mail_at hc]
  exact hqueued.mail i

/-- A packet for the address that connection 0 was given, up to the lock of its `sendMutex`. -/
def packetForClient : List Event :=
  .accept blank :: grant 0 54 ++
    [.packet packetToTwo, .route, .route, .write 0 .again, .write 0 .again]

/-- The packet comes before its address has been given, and once more behind the one that is sent. -/
def packetsForClient : List Event :=
  [.packet packetToTwo, .route] ++ packetForClient ++ [.packet packetToTwo, .route]

theorem packets_queued_once_packetsForClient :
    ∃ s c, run next (State.start opened) packetsForClient = some s ∧ s.conns[0]? = some c ∧
      outputs next lookups (State.start opened) packetsForClient =
        [(packetToTwo, none), (packetToTwo, some 0), (packetToTwo, some 0)] ∧
      outputs next queued (State.start opened) packetsForClient ++ s.tunReader.toQueue =
        [(0, packetToTwo), (0, packetToTwo)] ∧
      delivered 0 s.log ++ c.mail = [dataMsg packetToTwo] := by
  have hview : (run next (State.start opened) packetsForClient).map
      (fun s => s.conns.length) = some 1 := by decide +kernel
  have hlookups : outputs next lookups (State.start opened) packetsForClient =
      [(packetToTwo, none), (packetToTwo, some 0), (packetToTwo, some 0)] := by decide +kernel
  have hqueued : outputs next queued (State.start opened) packetsForClient =
      [(0, packetToTwo)] := by decide +kernel
  obtain ⟨s, hs, hone⟩ := Option.map_eq_some_iff.mp hview
  obtain ⟨c, hconns⟩ := List.length_eq_one_iff.mp hone
  have hc : s.conns[0]? = some c := by rw [hconns]; rfl
  obtain ⟨_, hkept, hmail⟩ := packets_queued_once opened packetsForClient s hs
  have hdone := hmail 0 c hc
  rw [hqueued] at hdone
  rw [hlookups] at hkept
  exact ⟨s, c, hs, hc, hlookups, hkept, hdone⟩

/-! ## Upstream -/

def Act.pushQueue : Act → List (Nat × List UInt8)
  | pushed i bs => [(i, bs)]
  | _ => []

def pushQueues (log : List Act) : List (Nat × List UInt8) := gather Act.pushQueue log

/-- The server with the queue of the tun and the thread that empties it. -/
structure Served where
  server : State
  waitingQuene : List (List UInt8)
  /-- The `buf` of `tunWriter`, from `pop` to `write`. -/
  buf : Option (List UInt8)
  /-- The strings that were passed to `write`. -/
  written : List (List UInt8)

namespace Served

inductive Event where
  | server (e : Threaded.Event)
  | tunWriter

def start (files : List (Option File)) : Served := ⟨State.start files, [], none, []⟩

/-- What `write` returns is not looked at. -/
def next (s : Served) : Event → Option Served
  | .server e =>
      (Threaded.next s.server e).map fun t =>
        { s with
          server := t
          waitingQuene := s.waitingQuene ++
            ((pushQueues t.log).drop (pushQueues s.server.log).length).map Prod.snd }
  | .tunWriter =>
      if s.server.crash.isSome then none
      else
        match s.buf with
        | some buf => some { s with buf := none, written := s.written ++ [buf] }
        | none =>
            match s.waitingQuene with
            | [] => none
            | buf :: rest => some { s with waitingQuene := rest, buf := some buf }

def Event.others : Event → List Threaded.Event
  | .server e => [e]
  | .tunWriter => []

end Served

theorem next_log {s s' : State} {e : Event} (h : next s e = some s') : ∃ new, s'.log = new ++ s.log := by
  have htouched : ∀ {i c c'}, Touches s i c c' s' → ∃ new, s'.log = new ++ s.log := by
    intro i c c' ht
    rcases ht.log with hlog | ⟨act, hlog, _⟩
    · exact ⟨[], hlog⟩
    · exact ⟨[act], hlog⟩
  cases moves_of_next h with
  | accepts stale => exact ⟨[], rfl⟩
  | same _ hlog => exact ⟨[], hlog⟩
  | queues ht => exact htouched ht
  | transmits ht => exact htouched ht

/-- The strings are in `waitingQuene`, with `tunWriter` or written, the first ones first. -/
structure Served.Emptied (files : List (Option File)) (es : List Served.Event) (s : Served) :
    Prop where
  run : EventRun.run Threaded.next (State.start files) (es.flatMap Event.others) = some s.server
  order : (pushQueues s.server.log).map Prod.snd = s.written ++ s.buf.toList ++ s.waitingQuene

theorem Served.Emptied.step {files : List (Option File)} {es : List Served.Event} {s s' : Served}
    {e : Served.Event} (h : Emptied files es s) (hstep : s.next e = some s') :
    Emptied files (es ++ [e]) s' := by
  cases e with
  | server e =>
      obtain ⟨t, ht, rfl⟩ := Option.map_eq_some_iff.mp hstep
      obtain ⟨new, hnew⟩ := next_log ht
      constructor
      · rw [List.flatMap_append]
        exact run_snoc_iff.mpr ⟨s.server, h.run, ht⟩
      · simp only
        rw [← List.append_assoc, ← h.order, ← List.map_append]
        congr 1
        rw [hnew, pushQueues, gather_append]
        change _ = gather Act.pushQueue s.server.log ++ _
        rw [pushQueues, List.drop_left]
  | tunWriter =>
      have hrun : EventRun.run Threaded.next (State.start files)
          ((es ++ [Event.tunWriter]).flatMap Event.others) = some s.server := by
        rw [List.flatMap_append]
        simpa [Event.others] using h.run
      have horder := h.order
      simp only [Served.next] at hstep
      split at hstep
      · cases hstep
      · split at hstep
        · rename_i buf hbuf
          cases hstep
          refine ⟨hrun, ?_⟩
          rw [horder, hbuf]
          simp
        · rename_i hbuf
          split at hstep
          · cases hstep
          · rename_i buf rest hqueue
            cases hstep
            refine ⟨hrun, ?_⟩
            rw [horder, hbuf, hqueue]
            simp

end Over6.Threaded
