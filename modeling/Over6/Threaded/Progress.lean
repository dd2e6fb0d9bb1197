import Over6.Threaded.Queues

/-! # No thread waits for ever

A thread that has not ended can take its next step, or waits for a mutex that a thread
holds which can. It waits in `pop` only while its queue is empty.
-/

namespace Over6.Threaded

open EventRun

def CanGo (s : State) (i : Nat) (who : Thread) : Prop := ∃ a, next s (.of i who a) ≠ none

/-- The thread is at the lock of `sendMutex`, and the one that holds it can go on. -/
def WaitsForMutex (s : State) (i : Nat) (c : Conn) (who : Thread) : Prop :=
  c.sendPoint who = some .lock ∧ ∃ holder, c.sendMutex = some holder ∧ CanGo s i holder

/-! ## The connections that are named -/

/-- The table and `tunReader` name connections that there are. -/
structure Known (s : State) : Prop where
  table : ∀ num i, s.connections num = some i → ∃ c, s.conns[i]? = some c
  hand : ∀ i buf, s.tunReader = .push i buf → ∃ c, s.conns[i]? = some c

section Steps

variable {s s' : State} {i : Nat} {c c' : Conn} {a : Answer}

/-- A connection stays in the list. -/
theorem conn_stays {e : Event} (h : next s e = some s') {i : Nat} {c : Conn}
    (hc : s.conns[i]? = some c) : ∃ c', s'.conns[i]? = some c' := by
  have htouched : ∀ {j d d'}, Touches s j d d' s' → ∃ c', s'.conns[i]? = some c' := by
    intro j d d' ht
    by_cases hj : i = j
    · subst hj
      exact ⟨d', ht.after⟩
    · exact ⟨c, (ht.others i hj).trans hc⟩
  cases moves_of_next h with
  | accepts stale =>
      refine ⟨c, ?_⟩
      change (s.conns ++ [Conn.start s.lowestFree stale])[i]? = some c
      rw [List.getElem?_append_left (List.getElem?_eq_some_iff.mp hc).1, hc]
  | same hconns => exact ⟨c, hconns ▸ hc⟩
  | queues ht => exact htouched ht
  | transmits ht => exact htouched ht

theorem ReadStep.connections {t : State} (h : ReadStep s i c a c' t) {num : Int} {j : Nat}
    (hj : t.connections num = some j) : s.connections num = some j ∨ j = i := by
  cases h with
  | registers num' =>
      simp only [Function.update_apply] at hj
      split at hj
      · exact .inr (Option.some.inj hj).symm
      · exact .inl hj
  | _ => exact .inl hj

theorem connections_of_found {addr : List UInt8} (h : s.getConnectionByIp addr = .ok (some i)) :
    ∃ num, s.connections num = some i := by
  unfold State.getConnectionByIp at h
  split at h
  · cases h
  · rename_i num _
    have hfound := Except.ok.inj h
    split at hfound
    · exact ⟨num, hfound⟩
    · cases hfound

theorem known_next {e : Event} (h : Known s) (hstep : next s e = some s') : Known s' := by
  have hstay : ∀ {j : Nat}, (∃ d, s.conns[j]? = some d) → ∃ d, s'.conns[j]? = some d := by
    rintro j ⟨d, hd⟩
    exact conn_stays hstep hd
  constructor
  · intro num j hj
    obtain ⟨_, hnext⟩ := next_spec hstep
    cases hnext with
    | reads hreads =>
        obtain ⟨t, hread, hpool⟩ := hreads.step
        rcases hread.connections (hpool.connections ▸ hj) with hold | rfl
        · exact hstay (h.table num j hold)
        · exact ⟨_, hreads.touches.after⟩
    | writes hwrites => exact hstay (h.table num j (hwrites.pool.connections ▸ hj))
    | keeps hkeeps => exact hstay (h.table num j (hkeeps.pool.connections ▸ hj))
    | queues _ haside => exact hstay (h.table num j (haside.pool.connections ▸ hj))
    | _ => exact hstay (h.table num j hj)
  · intro j buf hpush
    rcases next_looked hstep hpush with hold | ⟨_, hfound⟩
    · exact hstay (h.hand j buf hold)
    · obtain ⟨num, hnum⟩ := connections_of_found hfound
      exact hstay (h.table num j hnum)

theorem known_of_run {files : List (Option File)} {es : List Event}
    (hrun : run next (State.start files) es = some s) : Known s := by
  refine run_invariant Known (fun _ _ _ h hstep => known_next h hstep) ⟨?_, ?_⟩ hrun
  · intro num i hi
    cases hi
  · intro i buf hpush
    cases hpush

/-! ## What lets a thread go on -/

theorem locked_goes (hfree : s.stuck = false) {α : Type} (r : Except Crash α) (go : α → State) :
    s.locked r go ≠ none := by
  unfold State.locked
  rw [hfree]
  cases r <;> simp

/-- A failing `write` is an answer to every call behind the lock. -/
theorem send_goes {who : Thread} {m : Msg} {p : SendPoint} (goto : Sent → Conn → Conn)
    (hp : p ≠ .lock) : s.send i c who m p .error goto ≠ none := by
  have hanswers : s.Answers c.socketFd .error := .inr rfl
  cases p with
  | lock => exact absurd rfl hp
  | header total => simp [State.send, hanswers, writeOnce]
  | data total => simp [State.send, hanswers, writeOnce]

theorem lock_goes {who : Thread} {m : Msg} (goto : Sent → Conn → Conn) (hfree : c.sendMutex = none) :
    s.send i c who m .lock .again goto ≠ none := by
  simp [State.send, hfree]

theorem canGo_of_step (hup : s.crash = none) (hc : s.conns[i]? = some c) {who : Thread}
    (h : ∃ a, (match who with
      | .read => stepRead s i c a
      | .write => stepWrite s i c a
      | .keep => stepKeep s i c a) ≠ none) : CanGo s i who := by
  obtain ⟨a, ha⟩ := h
  refine ⟨a, ?_⟩
  cases who <;> simpa [Event.of, next, hup, hc] using ha

theorem reading_of_sendPoint {p : SendPoint} (h : c.sendPoint .read = some p) :
    c.reading = .reply p := by
  simp only [Conn.sendPoint] at h
  split at h
  · rename_i q hpoint
    rw [hpoint, Option.some.inj h]
  · cases h

theorem writing_of_sendPoint {p : SendPoint} (h : c.sendPoint .write = some p) :
    c.writing = .send p := by
  simp only [Conn.sendPoint] at h
  split at h
  · rename_i q hpoint
    rw [hpoint, Option.some.inj h]
  · cases h

theorem keeping_of_sendPoint {p : SendPoint} (h : c.sendPoint .keep = some p) :
    c.keeping = .send p := by
  simp only [Conn.sendPoint] at h
  split at h
  · rename_i q hpoint
    rw [hpoint, Option.some.inj h]
  · cases h

/-- The thread that holds `sendMutex` is at a `write`. -/
theorem holder_goes (hup : s.crash = none) (hc : s.conns[i]? = some c)
    (hapart : Apart Front i c s.log) {holder : Thread} (hheld : c.sendMutex = some holder) :
    CanGo s i holder := by
  obtain ⟨p, _, _, _, hpoint, hrunning, _⟩ := hapart.underway holder hheld
  have hp := Apart.ne_lock_of_running hrunning
  cases holder with
  | read =>
      refine canGo_of_step hup hc ⟨.error, ?_⟩
      simp only [stepRead, reading_of_sendPoint hpoint]
      exact send_goes _ hp
  | write =>
      refine canGo_of_step hup hc ⟨.error, ?_⟩
      simp only [stepWrite, writing_of_sendPoint hpoint]
      exact send_goes _ hp
  | keep =>
      refine canGo_of_step hup hc ⟨.error, ?_⟩
      simp only [stepKeep, keeping_of_sendPoint hpoint]
      exact send_goes _ hp

/-- At the lock a thread goes on, or waits for one that does. -/
theorem goes_or_waits (hup : s.crash = none) (hc : s.conns[i]? = some c)
    (hapart : Apart Front i c s.log) {who : Thread} (hlock : c.sendPoint who = some .lock) :
    CanGo s i who ∨ WaitsForMutex s i c who := by
  cases hmutex : c.sendMutex with
  | some holder => exact .inr ⟨hlock, holder, hmutex, holder_goes hup hc hapart hmutex⟩
  | none =>
      refine .inl (canGo_of_step hup hc ⟨.again, ?_⟩)
      cases who with
      | read =>
          simp only [stepRead, reading_of_sendPoint hlock]
          exact lock_goes _ hmutex
      | write =>
          simp only [stepWrite, writing_of_sendPoint hlock]
          exact lock_goes _ hmutex
      | keep =>
          simp only [stepKeep, keeping_of_sendPoint hlock]
          exact lock_goes _ hmutex

theorem read_goes (hup : s.crash = none) (hfree : s.stuck = false) (hc : s.conns[i]? = some c)
    (hapart : Apart Front i c s.log) (hrunning : c.reading ≠ .ended) :
    CanGo s i .read ∨ WaitsForMutex s i c .read := by
  have hgoes : ∀ a, stepRead s i c a ≠ none → CanGo s i .read ∨ WaitsForMutex s i c .read :=
    fun a ha => .inl (canGo_of_step hup hc ⟨a, ha⟩)
  have hanswers : s.Answers c.socketFd .error := .inr rfl
  cases hpoint : c.reading with
  | check => exact hgoes .again (by simp [stepRead, hpoint])
  | header total => exact hgoes .error (by simp [stepRead, hpoint, hanswers, Conn.readHeader])
  | body total => exact hgoes .error (by simp [stepRead, hpoint, hanswers, Conn.readBody])
  | dispatch => exact hgoes .again (by simp [stepRead, hpoint])
  | request =>
      refine hgoes .again ?_
      simp only [stepRead, hpoint]
      split
      · simp
      · exact locked_goes hfree _ _
  | choose =>
      refine hgoes (.bytes [0, 0, 0, 0]) ?_
      simp only [stepRead, hpoint, List.length_cons, List.length_nil, if_true]
      split
      · exact locked_goes hfree _ _
      · simp
  | reply p =>
      have hsend : c.sendPoint .read = some p := by simp [Conn.sendPoint, hpoint]
      by_cases hp : p = .lock
      · exact goes_or_waits hup hc hapart (hp ▸ hsend)
      · refine hgoes .error ?_
        simp only [stepRead, hpoint]
        exact send_goes _ hp
  | setStatus =>
      refine hgoes .again ?_
      simp only [stepRead, hpoint]
      exact locked_goes hfree _ _
  | setConnection =>
      refine hgoes .again ?_
      simp only [stepRead, hpoint]
      exact locked_goes hfree _ _
  | ending =>
      refine hgoes .again ?_
      simp only [stepRead, hpoint]
      exact locked_goes hfree _ _
  | ended => exact absurd hpoint hrunning

theorem write_goes (hup : s.crash = none) (hc : s.conns[i]? = some c)
    (hapart : Apart Front i c s.log) (hrunning : c.writing ≠ .ended)
    (hmail : ¬ (c.writing = .pop ∧ c.wtSktQue = [])) :
    CanGo s i .write ∨ WaitsForMutex s i c .write := by
  cases hpoint : c.writing with
  | pop =>
      have hqueue : c.wtSktQue ≠ [] := fun hempty => hmail ⟨hpoint, hempty⟩
      obtain ⟨m, queue, hm⟩ := List.exists_cons_of_ne_nil hqueue
      exact .inl (canGo_of_step hup hc ⟨.again, by simp [stepWrite, hpoint, hm]⟩)
  | send p =>
      have hsend : c.sendPoint .write = some p := by simp [Conn.sendPoint, hpoint]
      by_cases hp : p = .lock
      · exact goes_or_waits hup hc hapart (hp ▸ hsend)
      · refine .inl (canGo_of_step hup hc ⟨.error, ?_⟩)
        simp only [stepWrite, hpoint]
        exact send_goes _ hp
  | ended => exact absurd hpoint hrunning

theorem keep_goes (hup : s.crash = none) (hc : s.conns[i]? = some c)
    (hapart : Apart Front i c s.log) (hrunning : c.keeping ≠ .ended) :
    CanGo s i .keep ∨ WaitsForMutex s i c .keep := by
  have hgoes : ∀ a, stepKeep s i c a ≠ none → CanGo s i .keep ∨ WaitsForMutex s i c .keep :=
    fun a ha => .inl (canGo_of_step hup hc ⟨a, ha⟩)
  cases hpoint : c.keeping with
  | check => exact hgoes .again (by simp [stepKeep, hpoint])
  | tick => exact hgoes .again (by simp [stepKeep, hpoint])
  | test => exact hgoes .again (by simp [stepKeep, hpoint])
  | send p =>
      have hsend : c.sendPoint .keep = some p := by simp [Conn.sendPoint, hpoint]
      by_cases hp : p = .lock
      · exact goes_or_waits hup hc hapart (hp ▸ hsend)
      · refine hgoes .error ?_
        simp only [stepKeep, hpoint]
        exact send_goes _ hp
  | close => exact hgoes .again (by simp [stepKeep, hpoint])
  | ended => exact absurd hpoint hrunning

theorem tunReader_goes (hup : s.crash = none) (hfree : s.stuck = false) (hknown : Known s)
    (hbusy : s.tunReader ≠ .read) : next s .route ≠ none := by
  simp only [next, hup, Option.isSome_none, Bool.false_eq_true, if_false]
  cases hpoint : s.tunReader with
  | read => exact absurd hpoint hbusy
  | lookup buf =>
      simp only [stepTun, hpoint]
      exact locked_goes hfree _ _
  | push i buf =>
      obtain ⟨c, hc⟩ := hknown.hand i buf hpoint
      simp [stepTun, hpoint, hc]

end Steps

theorem orderly_of_run {files : List (Option File)} {es : List Event} {s : State} (i : Nat)
    (hrun : run next (State.start files) es = some s) : Orderly Front i s :=
  run_invariant (Orderly Front i)
    (fun _ _ _ h hstep => h.moves (moves_of_next hstep) (fun _ => List.prefix_rfl)
      fun _ _ _ hbs => hbs)
    (Orderly.start i files) hrun

/-- Until the process goes down or locks `ipMutex` twice, no order of steps makes the threads wait for
one another: each that has not ended can go on, or waits for `sendMutex` and its holder can go on, or
is in `pop` on an empty queue; `tunReader` can go on, or reads from the tun. -/
theorem no_deadlock (files : List (Option File)) (es : List Event) (s : State)
    (hrun : run next (State.start files) es = some s) (hup : s.crash = none)
    (hfree : s.stuck = false) :
    (∀ i c, s.conns[i]? = some c →
      (c.reading = .ended ∨ CanGo s i .read ∨ WaitsForMutex s i c .read) ∧
      (c.writing = .ended ∨ c.writing = .pop ∧ c.wtSktQue = [] ∨ CanGo s i .write ∨
        WaitsForMutex s i c .write) ∧
      (c.keeping = .ended ∨ CanGo s i .keep ∨ WaitsForMutex s i c .keep)) ∧
    (s.tunReader = .read ∨ next s .route ≠ none) := by
  constructor
  · intro i c hc
    have hapart := (orderly_of_run i hrun).apart c hc
    refine ⟨?_, ?_, ?_⟩
    · exact (em (c.reading = .ended)).imp_right (read_goes hup hfree hc hapart)
    · by_cases hended : c.writing = .ended
      · exact .inl hended
      · by_cases hempty : c.writing = .pop ∧ c.wtSktQue = []
        · exact .inr (.inl hempty)
        · exact .inr (.inr (write_goes hup hc hapart hended hempty))
    · exact (em (c.keeping = .ended)).imp_right (keep_goes hup hc hapart)
  · exact (em (s.tunReader = .read)).imp_right (tunReader_goes hup hfree (known_of_run hrun))

theorem no_deadlock_packetForClient :
    ∃ s c, run next (State.start opened) packetForClient = some s ∧ s.conns[0]? = some c ∧
      c.writing = .send (.header 0) ∧ (CanGo s 0 .write ∨ WaitsForMutex s 0 c .write) := by
  have hview : (run next (State.start opened) packetForClient).map
      (fun s => (s.crash, s.stuck, s.conns.map Conn.writing)) =
        some (none, false, [.send (.header 0)]) := by decide +kernel
  obtain ⟨s, hs, hparts⟩ := Option.map_eq_some_iff.mp hview
  simp only [Prod.mk.injEq] at hparts
  obtain ⟨hup, hfree, hpoints⟩ := hparts
  obtain ⟨c, hconns, hpoint⟩ := List.map_eq_singleton_iff.mp hpoints
  have hc : s.conns[0]? = some c := by rw [hconns]; rfl
  obtain ⟨-, hwriting, -⟩ := (no_deadlock opened packetForClient s hs hup hfree).1 0 c hc
  rw [hpoint] at hwriting
  exact ⟨s, c, hs, hc, hpoint, by simpa using hwriting⟩

end Over6.Threaded
