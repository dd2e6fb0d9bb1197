import Over6.Threaded.QueueLocks

/-! # No thread waits for ever, locks of the queues included

A thread inside `push` or `pop` can go on, or another can whose step it waits for, or it
sleeps on an empty queue. With what holds without the locks, this goes for all threads.
-/

namespace Over6.Threaded

open EventRun

namespace MsgQueue

section

variable {T α : Type} [DecidableEq T] [Fintype T] {s : State T α} {t : T}

def State.CanGo (s : State T α) (t : T) : Prop :=
  (step s (.go t)).isSome ∨ ∃ woken, (step s (.notify t woken)).isSome

/-- The thread needs the mutex or a wakeup, and another thread inside a call can go on. -/
def State.Waits (s : State T α) (t : T) : Prop :=
  ((∃ op, s.point t = .lock op) ∨ s.point t = .asleep) ∧ ∃ u, u ≠ t ∧ s.CanGo u

theorem Orderly.canGo_of_holds (h : Orderly s) (hholds : (s.point t).holds = true) : s.CanGo t :=
  .inl (h.holder_goes ((h.exclusive t).mp hholds))

theorem canGo_of_notify {elem : α} (hp : s.point t = .notify elem) : s.CanGo t := by
  by_cases hnobody : ∀ u, (s.point u).isAsleep = false
  · exact .inr ⟨none, by simp [step, hp, hnobody]⟩
  · simp only [not_forall, Bool.not_eq_false] at hnobody
    obtain ⟨u, hu⟩ := hnobody
    exact .inr ⟨some u, by simp [step, hp, hu]⟩

/-- A thread at the lock goes on, or the one that has the mutex does. -/
theorem Orderly.lock_goes (h : Orderly s) {op : Op α} (hp : s.point t = .lock op) :
    s.CanGo t ∨ ∃ u, (s.point u).holds = true ∧ s.CanGo u := by
  cases hmutex : s.mutex_ with
  | none => exact .inl (.inl (by simp [step, State.go, hp, hmutex]))
  | some u =>
      have hholds := (h.exclusive u).mpr hmutex
      exact .inr ⟨u, hholds, h.canGo_of_holds hholds⟩

/-- Beside an element nobody sleeps for ever. -/
theorem Orderly.asleep_waits (h : Orderly s) (hp : s.point t = .asleep) (hqueue : s.queue_ ≠ []) :
    ∃ u, u ≠ t ∧ s.CanGo u := by
  have hlength : s.queue_.length ≠ 0 := fun hzero => hqueue (List.length_eq_zero_iff.mp hzero)
  have hsum : ∑ u, (s.point u).due ≠ 0 := by
    have hawake := h.awake t hp
    omega
  obtain ⟨u, -, hdue⟩ := Finset.exists_ne_zero_of_sum_ne_zero hsum
  have hother : ∀ {v}, s.point v ≠ .asleep → v ≠ t := by
    rintro v hv rfl
    exact hv hp
  have hu : s.point u ≠ .asleep := fun hu => by simp [hu, Point.due] at hdue
  by_cases hholds : (s.point u).holds = true
  · exact ⟨u, hother hu, h.canGo_of_holds hholds⟩
  · cases hpoint : s.point u with
    | lock op =>
        rcases h.lock_goes hpoint with hgo | ⟨v, hv, hgo⟩
        · exact ⟨u, hother hu, hgo⟩
        · refine ⟨v, hother fun hv' => ?_, hgo⟩
          rw [hv'] at hv
          cases hv
    | notify elem => exact ⟨u, hother hu, canGo_of_notify hpoint⟩
    | idle | asleep => simp [hpoint, Point.due] at hdue
    | held | take | pushed | popped | tested => simp [hpoint, Point.holds] at hholds

/-- No call is stuck: a thread inside one goes on, or another does that it waits for, or it is in
`pop` and there is nothing to take. -/
theorem Orderly.goes_or_waits (h : Orderly s) (hbusy : s.point t ≠ .idle) :
    s.CanGo t ∨ s.Waits t ∨ s.point t = .asleep ∧ s.queue_ = [] := by
  cases hp : s.point t with
  | idle => exact absurd hp hbusy
  | lock op =>
      rcases h.lock_goes hp with hgo | ⟨u, hu, hgo⟩
      · exact .inl hgo
      · refine .inr (.inl ⟨.inl ⟨op, hp⟩, u, ?_, hgo⟩)
        rintro rfl
        rw [hp] at hu
        cases hu
  | asleep =>
      by_cases hqueue : s.queue_ = []
      · exact .inr (.inr ⟨rfl, hqueue⟩)
      · exact .inr (.inl ⟨.inr hp, h.asleep_waits hp hqueue⟩)
  | notify elem => exact .inl (canGo_of_notify hp)
  | held | take | pushed | popped | tested =>
      exact .inl (h.canGo_of_holds (by rw [hp]; rfl))

end

end MsgQueue

namespace Locked

def CanGo (l : Locked) (i : Nat) (who : Thread) : Prop := ∃ a, l.next (.thread (.of i who a)) ≠ none

def WaitsForMutex (l : Locked) (i : Nat) (c : Conn) (who : Thread) : Prop :=
  c.sendPoint who = some .lock ∧ ∃ holder, c.sendMutex = some holder ∧ l.CanGo i holder

/-- A thread can call the queue of connection `i`, or go on with its call. -/
def CallGoes (l : Locked) (i : Nat) (t : Caller) : Prop :=
  l.next (.call i t) ≠ none ∨ l.next (.go i t) ≠ none ∨ ∃ woken, l.next (.notify i t woken) ≠ none

/-- It needs the mutex of the queue or a wakeup, and the other thread can go on with its call. -/
def CallWaits (l : Locked) (i : Nat) (t : Caller) : Prop :=
  ((∃ op, (l.queues i).point t = .lock op) ∨ (l.queues i).point t = .asleep) ∧
    ∃ u, u ≠ t ∧ l.CallGoes i u

section Progress

variable {l l' : Locked} {i : Nat} {c : Conn} {t : Caller}

theorem next_eq (hup : l.server.crash = none) (e : LockedEvent) :
    l.next e = match e with
      | .thread e =>
          if l.server.usesQueue e then none
          else (Threaded.next l.server e).map fun s => { l with server := s }
      | .call i t => (l.server.calling i t).bind fun op => l.atQueue i (.call t op)
      | .go i t => l.atQueue i (.go t)
      | .notify i t woken => l.atQueue i (.notify t woken)
      | .wake i t => l.atQueue i (.wake t) :=
  if_neg (by simp [hup])

theorem atQueue_ne_none {e : MsgQueue.Event Caller Msg}
    (h : (MsgQueue.step (l.queues i) e).isSome) : l.atQueue i e ≠ none := by
  obtain ⟨q, hq⟩ := Option.isSome_iff_exists.mp h
  simp [atQueue, hq]

theorem callGoes_of_canGo (hup : l.server.crash = none) (h : (l.queues i).CanGo t) :
    l.CallGoes i t := by
  rcases h with hgo | ⟨woken, hnotify⟩
  · exact .inr (.inl (next_eq hup _ ▸ atQueue_ne_none hgo))
  · exact .inr (.inr ⟨woken, next_eq hup _ ▸ atQueue_ne_none hnotify⟩)

/-- A thread that is to call its queue, or does. -/
theorem call_goes_or_waits (hup : l.server.crash = none)
    (horderly : MsgQueue.Orderly (l.queues i)) {op : MsgQueue.Op Msg}
    (hcall : l.server.calling i t = some op) :
    l.CallGoes i t ∨ l.CallWaits i t ∨
      (l.queues i).point t = .asleep ∧ (l.queues i).queue_ = [] := by
  by_cases hidle : (l.queues i).point t = .idle
  · refine .inl (.inl ?_)
    rw [next_eq hup]
    simp [hcall, atQueue, MsgQueue.step, hidle]
  · rcases horderly.goes_or_waits hidle with hgo | ⟨hneeds, u, hu, hgo⟩ | hasleep
    · exact .inl (callGoes_of_canGo hup hgo)
    · exact .inr (.inl ⟨hneeds, u, hu, callGoes_of_canGo hup hgo⟩)
    · exact .inr (.inr hasleep)

theorem orderly_next {e : LockedEvent} (h : ∀ i, MsgQueue.Orderly (l.queues i))
    (hstep : l.next e = some l') (i : Nat) : MsgQueue.Orderly (l'.queues i) := by
  obtain ⟨hup, hstep⟩ := Option.ite_none_left_eq_some.mp hstep
  have hqueue : ∀ {j ev}, l.atQueue j ev = some l' → MsgQueue.Orderly (l'.queues i) := by
    intro j ev hat
    obtain ⟨q, hq, rfl⟩ := Option.map_eq_some_iff.mp hat
    by_cases hi : i = j
    · subst hi
      simp only [Function.update_self]
      exact MsgQueue.step_orderly (h i) hq
    · simp only [Function.update_of_ne hi]
      exact h i
  cases e with
  | thread e =>
      obtain ⟨_, hstep⟩ := Option.ite_none_left_eq_some.mp hstep
      obtain ⟨s, _, rfl⟩ := Option.map_eq_some_iff.mp hstep
      exact h i
  | call j t =>
      obtain ⟨op, _, hstep⟩ := Option.bind_eq_some_iff.mp hstep
      exact hqueue hstep
  | go | notify | wake => exact hqueue hstep

/-- What a connection sends does not depend on where its thread is in `pop`. -/
theorem apart_of_over {o : Nat → Object} {s : State} {log : List Act} (h : Coherent o s)
    (hc : s.conns[i]? = some c) (hapart : Apart Front i (c.over (o i)) log) :
    Apart Front i c log := by
  refine hapart.quiet ⟨rfl, fun who => ?_, .inl rfl⟩
  cases who with
  | read => exact .inl ⟨rfl, rfl⟩
  | keep => exact .inl ⟨rfl, rfl⟩
  | write =>
      cases hcall : s.calling i .writeThread with
      | none =>
          refine .inl ?_
          rw [Conn.over, h.inHand_none hcall]
          exact ⟨rfl, rfl⟩
      | some op =>
          obtain ⟨d, hd, hpop, rfl⟩ := calling_writeThread.mp hcall
          obtain rfl := Option.some.inj (hc.symm.trans hd)
          have hpoint : c.sendPoint .write = none := by simp [Conn.sendPoint, hpop]
          refine .inr ⟨?_, Conn.not_inside_of_none hpoint⟩
          cases htaken : inHand (o i) with
          | none => exact Conn.not_inside_of_none (by simp [Conn.sendPoint, Conn.over, htaken, hpop])
          | some m => exact Conn.not_inside_of_lock (by simp [Conn.sendPoint, Conn.over, htaken])

/-- Outside of `pop` a thread goes on as it does without the locks. -/
theorem canGo_of_server (hup : l.server.crash = none) (hc : l.server.conns[i]? = some c) {who : Thread}
    (hpop : who = .write → c.writing ≠ .pop) (h : Threaded.CanGo l.server i who) : l.CanGo i who := by
  obtain ⟨a, ha⟩ := h
  have hother : l.server.usesQueue (.of i who a) = false := by
    cases who with
    | read | keep => rfl
    | write =>
        have hno : l.server.calling i .writeThread = none := by
          simp [State.calling, hc, hpop rfl]
        exact congrArg Option.isSome hno
  refine ⟨a, ?_⟩
  rw [next_eq hup]
  simpa [hother] using ha

theorem waits_of_server (hup : l.server.crash = none) (hc : l.server.conns[i]? = some c)
    (hapart : Apart Front i c l.server.log) {who : Thread}
    (h : Threaded.WaitsForMutex l.server i c who) : l.WaitsForMutex i c who := by
  obtain ⟨hlock, holder, hheld, hgo⟩ := h
  refine ⟨hlock, holder, hheld, canGo_of_server hup hc ?_ hgo⟩
  rintro rfl hpop
  obtain ⟨p, _, _, _, hpoint, _⟩ := hapart.underway .write hheld
  rw [writing_of_sendPoint hpoint] at hpop
  cases hpop

/-- `tunReader` comes to `push` for a connection that there is. -/
theorem tunReader_calls {o : Nat → Object} {s : State} {buf : List UInt8} (h : Coherent o s)
    (hknown : Known (s.over o)) (hpush : s.tunReader = .push i buf) :
    s.calling i .tunReader = some (.push (dataMsg buf)) := by
  cases hcall : s.calling i .tunReader with
  | some op =>
      obtain ⟨buf', c, hpush', _, rfl⟩ := calling_tunReader.mp hcall
      obtain ⟨-, rfl⟩ := TunPoint.push.inj (hpush.symm.trans hpush')
      rfl
  | none =>
      have hover : (s.over o).tunReader = .push i buf := by
        change s.tunReader.over o = _
        rw [hpush, TunPoint.over, h.not_handedOver hcall]
        rfl
      obtain ⟨d, hd⟩ := hknown.hand i buf hover
      rw [over_conns] at hd
      obtain ⟨c, hc, _⟩ := Option.map_eq_some_iff.mp hd
      rw [calling_tunReader.mpr ⟨buf, c, hpush, hc, rfl⟩] at hcall
      cases hcall

end Progress

end Locked

/-- The mutexes and condition variables of the queues add no deadlock: until the process goes down or
locks `ipMutex` twice, each thread that has not ended can go on, or waits for a mutex or a wakeup and
another can go on that it waits for, or is in `pop` on an empty queue, or reads from the tun. -/
theorem no_deadlock_with_locks (files : List (Option File)) (es : List LockedEvent) (l : Locked)
    (hrun : run Locked.next (Locked.start files) es = some l) (hup : l.server.crash = none)
    (hfree : l.server.stuck = false) :
    (∀ i c, l.server.conns[i]? = some c →
      (c.reading = .ended ∨ l.CanGo i .read ∨ l.WaitsForMutex i c .read) ∧
      (c.writing = .ended ∨ (l.CanGo i .write ∨ l.WaitsForMutex i c .write) ∨
        l.CallGoes i .writeThread ∨ l.CallWaits i .writeThread ∨
        (l.queues i).point .writeThread = .asleep ∧ (l.queues i).queue_ = []) ∧
      (c.keeping = .ended ∨ l.CanGo i .keep ∨ l.WaitsForMutex i c .keep)) ∧
    (l.server.tunReader = .read ∨ l.next (.thread .route) ≠ none ∨
      ∃ i, l.CallGoes i .tunReader ∨ l.CallWaits i .tunReader) := by
  obtain ⟨hatomic, hcoherent⟩ := run_abstracted Locked.atomic Locked.atOnce
    (fun l : Locked => Coherent l.objects l.server) (fun _ _ _ h hstep => Locked.next_answers h hstep)
    (Locked.coherent_start files) hrun
  have horderly : ∀ i, MsgQueue.Orderly (l.queues i) :=
    run_invariant (fun l : Locked => ∀ i, MsgQueue.Orderly (l.queues i))
      (fun _ _ _ h hstep => Locked.orderly_next h hstep) (fun _ => MsgQueue.orderly_start) hrun
  constructor
  · intro i c hc
    have hover : l.atomic.conns[i]? = some (c.over (l.objects i)) := by
      rw [Locked.atomic, over_conns, hc]
      rfl
    have hapart : Apart Front i c l.server.log :=
      Locked.apart_of_over hcoherent hc ((orderly_of_run i hatomic).apart _ hover)
    have hthread : ∀ {who}, (who = .write → c.writing ≠ .pop) →
        CanGo l.server i who ∨ WaitsForMutex l.server i c who →
        l.CanGo i who ∨ l.WaitsForMutex i c who := fun hpop =>
      Or.imp (Locked.canGo_of_server hup hc hpop) (Locked.waits_of_server hup hc hapart)
    refine ⟨?_, ?_, ?_⟩
    · exact (em (c.reading = .ended)).imp_right fun hrunning =>
        hthread (fun h => by cases h) (read_goes hup hfree hc hapart hrunning)
    · by_cases hended : c.writing = .ended
      · exact .inl hended
      · by_cases hpop : c.writing = .pop
        · exact .inr (.inr (Locked.call_goes_or_waits hup (horderly i)
            (calling_writeThread.mpr ⟨c, hc, hpop, rfl⟩)))
        · exact .inr (.inl (hthread (fun _ => hpop)
            (write_goes hup hc hapart hended fun h => hpop h.1)))
    · exact (em (c.keeping = .ended)).imp_right fun hrunning =>
        hthread (fun h => by cases h) (keep_goes hup hc hapart hrunning)
  · cases hpoint : l.server.tunReader with
    | read => exact .inl rfl
    | lookup buf =>
        refine .inr (.inl ?_)
        have hgoes : next l.server .route ≠ none := by
          simp only [next, hup, Option.isSome_none, Bool.false_eq_true, if_false, stepTun, hpoint]
          exact locked_goes hfree _ _
        rw [Locked.next_eq hup]
        simpa [State.usesQueue, hpoint] using hgoes
    | push i buf =>
        have hcall := Locked.tunReader_calls hcoherent (known_of_run hatomic) hpoint
        refine .inr (.inr ⟨i, ?_⟩)
        rcases Locked.call_goes_or_waits hup (horderly i) hcall with hgo | hwait | ⟨hasleep, _⟩
        · exact .inl hgo
        · exact .inr hwait
        · have hfits := hcoherent.phases i .tunReader
          rw [show (l.objects i).phase .tunReader = .called .pop from
            congrArg MsgQueue.Point.phase hasleep] at hfits
          cases hcall.symm.trans hfits

/-- `tunReader` has put its packet into a queue on which `writeThread` sleeps, and has the mutex. -/
def packetPutIn : List LockedEvent := packetThroughLocks.take 19

theorem no_deadlock_with_locks_packetPutIn :
    ∃ l c, run Locked.next (Locked.start opened) packetPutIn = some l ∧
      l.server.conns[0]? = some c ∧ (l.queues 0).point .writeThread = .asleep ∧
      ((l.CanGo 0 .write ∨ l.WaitsForMutex 0 c .write) ∨ l.CallGoes 0 .writeThread ∨
        l.CallWaits 0 .writeThread) := by
  have hview : (run Locked.next (Locked.start opened) packetPutIn).map
      (fun l => (l.server.crash, l.server.stuck, l.server.conns.map Conn.writing,
        ((l.queues 0).point .writeThread).isAsleep, (l.queues 0).queue_.length)) =
      some (none, false, [.pop], true, 1) := by decide +kernel
  obtain ⟨l, hrun, hparts⟩ := Option.map_eq_some_iff.mp hview
  simp only [Prod.mk.injEq] at hparts
  obtain ⟨hup, hfree, hpoints, hasleep, hone⟩ := hparts
  obtain ⟨c, hconns, hpoint⟩ := List.map_eq_singleton_iff.mp hpoints
  have hc : l.server.conns[0]? = some c := by rw [hconns]; rfl
  obtain ⟨-, hwriting, -⟩ := (no_deadlock_with_locks opened packetPutIn l hrun hup hfree).1 0 c hc
  refine ⟨l, c, hrun, hc, MsgQueue.point_of_isAsleep hasleep, ?_⟩
  rcases hwriting with hended | hsends | hgo | hwaits | ⟨_, hempty⟩
  · rw [hpoint] at hended
    cases hended
  · exact .inl hsends
  · exact .inr (.inl hgo)
  · exact .inr (.inr hwaits)
  · rw [hempty] at hone
    cases hone

end Over6.Threaded
