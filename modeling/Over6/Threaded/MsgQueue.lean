import Mathlib.Algebra.Order.BigOperators.Group.Finset
import Mathlib.Data.Fintype.Card
import Over6.Lib.SharedObject
import Over6.Threaded.State

/-! # The message queue of the threaded server

`MsgQueue` is a `std::queue` with a mutex and a condition variable. A thread inside
`push`, `pop` or `empty` makes one access to them at a time, and the threads take their
steps in any order; a waiting thread may also wake up without having been notified.
-/

namespace Over6.Threaded.MsgQueue

open EventRun SharedObject

inductive Op (α : Type) where
  | push (elem : α)
  | pop
  | empty
deriving DecidableEq, Repr

inductive Res (α : Type) where
  | pushed
  | popped (elem : α)
  | empty (b : Bool)
deriving DecidableEq, Repr

/-- The queue as its callers mean it. -/
def fifo {α : Type} (queue : List α) : Op α → Option (List α × Res α)
  | .push elem => some (queue ++ [elem], .pushed)
  | .pop =>
      match queue with
      | [] => none
      | elem :: rest => some (rest, .popped elem)
  | .empty => some (queue, .empty queue.isEmpty)

inductive Point (α : Type) where
  | idle
  /-- It needs the mutex: at the start of a call, or back from the wait in `pop`. -/
  | lock (op : Op α)
  /-- It has the mutex; a `pop` looks whether there is something. -/
  | held (op : Op α)
  /-- In `cond_.wait`, without the mutex. -/
  | asleep
  | take
  /-- The scope of the lock ends, with what was done in it. -/
  | pushed (elem : α)
  | popped (elem : α)
  | tested (b : Bool)
  | notify (elem : α)
deriving DecidableEq, Repr

structure State (T α : Type) where
  queue_ : List α
  mutex_ : Option T
  point : T → Point α

inductive Event (T α : Type) where
  | call (t : T) (op : Op α)
  /-- The next step of a thread inside a call. -/
  | go (t : T)
  /-- `cond_.notify_one()`, and the thread that it wakes. -/
  | notify (t : T) (woken : Option T)
  /-- A thread wakes up by itself. -/
  | wake (t : T)

section

variable {T α : Type} [DecidableEq T]

def State.start : State T α := ⟨[], none, fun _ => .idle⟩

def State.goto (s : State T α) (t : T) (p : Point α) : State T α :=
  { s with point := Function.update s.point t p }

@[simp] theorem State.goto_queue_ (s : State T α) (t : T) (p : Point α) :
    (s.goto t p).queue_ = s.queue_ := rfl

@[simp] theorem State.goto_mutex_ (s : State T α) (t : T) (p : Point α) :
    (s.goto t p).mutex_ = s.mutex_ := rfl

def Point.isAsleep : Point α → Bool
  | .asleep => true
  | _ => false

def State.go (s : State T α) (t : T) : Option (State T α) :=
  match s.point t with
  | .lock op => if s.mutex_ = none then some { s.goto t (.held op) with mutex_ := some t } else none
  | .held (.push elem) =>
      some { s.goto t (.pushed elem) with queue_ := s.queue_ ++ [elem] }
  | .held .pop =>
      if s.queue_ = [] then some { s.goto t .asleep with mutex_ := none } else some (s.goto t .take)
  | .held .empty => some (s.goto t (.tested s.queue_.isEmpty))
  | .take =>
      match s.queue_ with
      | [] => none
      | elem :: rest => some { s.goto t (.popped elem) with queue_ := rest }
  | .pushed elem => some { s.goto t (.notify elem) with mutex_ := none }
  | .popped _ => some { s.goto t .idle with mutex_ := none }
  | .tested _ => some { s.goto t .idle with mutex_ := none }
  | .idle => none
  | .asleep => none
  | .notify _ => none

def step [Fintype T] (s : State T α) : Event T α → Option (State T α)
  | .call t op =>
      match s.point t with
      | .idle => some (s.goto t (.lock op))
      | _ => none
  | .go t => s.go t
  | .notify t woken =>
      match s.point t with
      | .notify _ =>
          match woken with
          | none => if ∀ u, (s.point u).isAsleep = false then some (s.goto t .idle) else none
          | some u =>
              if (s.point u).isAsleep then some ((s.goto u (.lock .pop)).goto t .idle) else none
      | _ => none
  | .wake t => if (s.point t).isAsleep then some (s.goto t (.lock .pop)) else none

def seen (s : State T α) : Event T α → List (Seen T (Op α) (Res α))
  | .call t op => [.call t op]
  | .go t =>
      match s.point t with
      | .popped elem => [.ret t (.popped elem)]
      | .tested b => [.ret t (.empty b)]
      | _ => []
  | .notify t _ => [.ret t .pushed]
  | .wake _ => []

/-! ## It is a queue that is used by one thread at a time -/

def Point.phase : Point α → Phase (Op α) (Res α)
  | .idle => .idle
  | .lock op => .called op
  | .held op => .called op
  | .asleep => .called .pop
  | .take => .called .pop
  | .pushed elem => .done (.push elem) .pushed
  | .popped elem => .done .pop (.popped elem)
  | .tested b => .done .empty (.empty b)
  | .notify elem => .done (.push elem) .pushed

def State.object (s : State T α) : SharedObject.State T (List α) (Op α) (Res α) :=
  ⟨s.queue_, fun t => (s.point t).phase⟩

theorem phase_update (f : T → Point α) (t : T) (p : Point α) :
    (fun u => (Function.update f t p u).phase) =
      Function.update (fun u => (f u).phase) t p.phase := by
  funext u
  by_cases hut : u = t
  · subst hut
    simp
  · simp [Function.update_of_ne hut]

/-- One event of the queue is at most one of the object. -/
def asObject (s : State T α) : Event T α → List (SharedObject.Event T (Op α))
  | .call t op => [.call t op]
  | .go t =>
      match s.point t with
      | .held (.push _) => [.act t]
      | .held .empty => [.act t]
      | .take => [.act t]
      | .popped _ => [.ret t]
      | .tested _ => [.ret t]
      | _ => []
  | .notify t _ => [.ret t]
  | .wake _ => []

/-- The steps that the object does not notice are those that leave a thread in its phase. -/
theorem object_goto_same {s : State T α} {t : T} {p : Point α} (h : p.phase = (s.point t).phase)
    (m : Option T) : State.object { s.goto t p with mutex_ := m } = s.object := by
  simp only [State.object, State.goto, phase_update, h]
  rw [Function.update_eq_self t fun u => (s.point u).phase]

theorem call_object {s : State T α} {t : T} (hp : (s.point t).phase = .idle) (op : Op α) :
    SharedObject.step fifo s.object (.call t op) = some (State.object (s.goto t (.lock op))) := by
  have hlock : (Point.lock op).phase = .called op := rfl
  simp [SharedObject.step, State.object, State.goto, hp, phase_update, hlock]

theorem act_object {s : State T α} {t : T} {op : Op α} (hp : (s.point t).phase = .called op)
    {queue : List α} {res : Res α} (hfifo : fifo s.queue_ op = some (queue, res)) {p : Point α}
    (hdone : p.phase = .done op res) :
    SharedObject.step fifo s.object (.act t) =
      some (State.object { s.goto t p with queue_ := queue }) := by
  simp [SharedObject.step, State.object, State.goto, hp, hfifo, phase_update, hdone]

theorem ret_object {s : State T α} {t : T} {op : Op α} {res : Res α}
    (hp : (s.point t).phase = .done op res) (m : Option T) :
    SharedObject.step fifo s.object (.ret t) =
      some (State.object { s.goto t .idle with mutex_ := m }) := by
  have hidle : (Point.idle : Point α).phase = .idle := rfl
  simp [SharedObject.step, State.object, State.goto, hp, phase_update, hidle]

theorem phase_of_isAsleep {p : Point α} (h : p.isAsleep = true) :
    (Point.lock (.pop : Op α)).phase = p.phase := by
  cases p <;> first | rfl | cases h

/-- An event of the queue against the events of the object that answer it. -/
def Answered (s : State T α) (e : Event T α) (s' : State T α) : Prop :=
  run (SharedObject.step fifo) s.object (asObject s e) = some s'.object ∧
    outputs (SharedObject.step fifo) SharedObject.seen s.object (asObject s e) = seen s e

theorem answered_quiet {s s' : State T α} {e : Event T α} (hobject : s'.object = s.object)
    (hnone : asObject s e = []) (hseen : seen s e = []) : Answered s e s' := by
  rw [Answered, hnone, hseen, hobject]
  exact ⟨rfl, rfl⟩

theorem answered_one {s s' : State T α} {e : Event T α} {a : SharedObject.Event T (Op α)}
    (hstep : SharedObject.step fifo s.object a = some s'.object) (hone : asObject s e = [a])
    (hseen : seen s e = SharedObject.seen s.object a) : Answered s e s' := by
  rw [Answered, hone, hseen]
  constructor
  · rw [run, hstep]
    rfl
  · simp [outputs, hstep]

theorem go_answered {s s' : State T α} {t : T} (h : s.go t = some s') : Answered s (.go t) s' := by
  cases hp : s.point t with
  | idle => simp [State.go, hp] at h
  | lock op =>
      simp only [State.go, hp, Option.ite_none_right_eq_some, Option.some.injEq] at h
      obtain ⟨-, rfl⟩ := h
      exact answered_quiet (object_goto_same (by rw [hp]; rfl) _) (by simp [asObject, hp])
        (by simp [seen, hp])
  | held op =>
      cases op with
      | push elem =>
          simp only [State.go, hp, Option.some.injEq] at h
          subst h
          exact answered_one (act_object (by rw [hp]; rfl) rfl rfl) (by simp [asObject, hp])
            (by simp [seen, hp, SharedObject.seen])
      | pop =>
          simp only [State.go, hp] at h
          split at h
          · cases h
            exact answered_quiet (object_goto_same (by rw [hp]; rfl) _) (by simp [asObject, hp])
              (by simp [seen, hp])
          · cases h
            exact answered_quiet (object_goto_same (by rw [hp]; rfl) s.mutex_)
              (by simp [asObject, hp]) (by simp [seen, hp])
      | empty =>
          simp only [State.go, hp, Option.some.injEq] at h
          subst h
          have hfifo : fifo s.queue_ .empty = some (s.queue_, .empty s.queue_.isEmpty) := rfl
          exact answered_one (act_object (by rw [hp]; rfl) hfifo rfl)
            (by simp [asObject, hp]) (by simp [seen, hp, SharedObject.seen])
  | asleep => simp [State.go, hp] at h
  | take =>
      simp only [State.go, hp] at h
      split at h
      · cases h
      · rename_i elem rest hqueue
        cases h
        exact answered_one (act_object (by rw [hp]; rfl) (by rw [hqueue]; rfl) rfl)
          (by simp [asObject, hp]) (by simp [seen, hp, SharedObject.seen])
  | pushed elem =>
      simp only [State.go, hp, Option.some.injEq] at h
      subst h
      exact answered_quiet (object_goto_same (by rw [hp]; rfl) _) (by simp [asObject, hp])
        (by simp [seen, hp])
  | popped elem =>
      simp only [State.go, hp, Option.some.injEq] at h
      subst h
      have hphase : (s.point t).phase = .done .pop (.popped elem) := by rw [hp]; rfl
      exact answered_one (ret_object hphase _) (by simp [asObject, hp])
        (by simp [seen, hp, SharedObject.seen, State.object, Point.phase])
  | tested b =>
      simp only [State.go, hp, Option.some.injEq] at h
      subst h
      have hphase : (s.point t).phase = .done .empty (.empty b) := by rw [hp]; rfl
      exact answered_one (ret_object hphase _) (by simp [asObject, hp])
        (by simp [seen, hp, SharedObject.seen, State.object, Point.phase])
  | notify elem => simp [State.go, hp] at h

theorem step_answered [Fintype T] {s s' : State T α} {e : Event T α} (h : step s e = some s') :
    Answered s e s' := by
  cases e with
  | call t op =>
      cases hp : s.point t with
      | idle =>
          simp only [step, hp, Option.some.injEq] at h
          subst h
          exact answered_one (call_object (by rw [hp]; rfl) op) rfl rfl
      | _ => simp [step, hp] at h
  | go t => exact go_answered h
  | notify t woken =>
      cases hp : s.point t with
      | notify elem =>
          have hphase : (s.point t).phase = .done (.push elem) .pushed := by rw [hp]; rfl
          have hseen : seen s (.notify t woken) = SharedObject.seen s.object (.ret t) := by
            simp [seen, SharedObject.seen, State.object, hphase]
          cases woken with
          | none =>
              simp only [step, hp, Option.ite_none_right_eq_some, Option.some.injEq] at h
              obtain ⟨-, rfl⟩ := h
              exact answered_one (ret_object hphase s.mutex_) rfl hseen
          | some u =>
              simp only [step, hp, Option.ite_none_right_eq_some, Option.some.injEq] at h
              obtain ⟨hasleep, rfl⟩ := h
              have htu : t ≠ u := by
                rintro rfl
                rw [hp] at hasleep
                cases hasleep
              have hsame : (s.goto u (.lock .pop)).object = s.object :=
                object_goto_same (phase_of_isAsleep hasleep) s.mutex_
              have hthere : (s.goto u (.lock .pop)).point t = s.point t :=
                Function.update_of_ne htu _ _
              have hret := ret_object (s := s.goto u (.lock .pop)) (by rw [hthere, hphase]) s.mutex_
              rw [hsame] at hret
              exact answered_one hret rfl hseen
      | _ => simp [step, hp] at h
  | wake t =>
      simp only [step, Option.ite_none_right_eq_some, Option.some.injEq] at h
      obtain ⟨hasleep, rfl⟩ := h
      exact answered_quiet (object_goto_same (phase_of_isAsleep hasleep) s.mutex_) rfl rfl

/-- Thread `false` waits in `pop`, thread `true` pushes 7 and wakes it. -/
def handOver : List (Event Bool Nat) :=
  [.call false .pop, .go false, .go false, .call true (.push 7), .go true, .go true, .go true,
    .notify true (some false)]

def takeOver : List (Event Bool Nat) := [.go false, .go false, .go false, .go false]

/-- Whatever the threads do and in whatever order, the calls and returns are those of a queue that
each call uses at one moment between the two. -/
theorem run_linearizable [Fintype T] {s : State T α} {es : List (Event T α)}
    (hrun : run step State.start es = some s) :
    ∃ es', run (SharedObject.step fifo) (SharedObject.start []) es' = some s.object ∧
      outputs (SharedObject.step fifo) SharedObject.seen (SharedObject.start []) es' =
        outputs step seen State.start es := by
  have answer : ∀ (s : State T α) (a : SharedObject.State T (List α) (Op α) (Res α)) e s',
      s.object = a → step s e = some s' → ∃ es' a', run (SharedObject.step fifo) a es' = some a' ∧
        outputs (SharedObject.step fifo) SharedObject.seen a es' = seen s e ∧ s'.object = a' := by
    rintro s a e s' rfl hstep
    obtain ⟨hrun', hseen⟩ := step_answered hstep
    exact ⟨asObject s e, s'.object, hrun', hseen, rfl⟩
  obtain ⟨es', a, hrun', hseen, rfl⟩ := run_simulated seen SharedObject.seen
    (fun s a => s.object = a) answer rfl hrun
  exact ⟨es', hrun', hseen⟩

theorem run_linearizable_handOver :
    ∃ es' a, run (SharedObject.step fifo) (SharedObject.start []) es' = some a ∧ a.obj = [7] ∧
      outputs (SharedObject.step fifo) SharedObject.seen (SharedObject.start []) es' =
        [.call false .pop, .call true (.push 7), .ret true .pushed] := by
  have hqueue : (run step State.start handOver).map State.queue_ = some [7] := by decide
  obtain ⟨s, hrun, hs⟩ := Option.map_eq_some_iff.mp hqueue
  obtain ⟨es', hrun', hseen⟩ := run_linearizable hrun
  exact ⟨es', s.object, hrun', hs, hseen⟩

/-! ## First in, first out -/

/-- What calls put in, in the order in which they took effect. -/
def pushes (done : List (T × Op α × Res α)) : List α :=
  done.filterMap fun d =>
    match d.2.1 with
    | .push elem => some elem
    | _ => none

def pops (done : List (T × Op α × Res α)) : List α :=
  done.filterMap fun d =>
    match d.2.2 with
    | .popped elem => some elem
    | _ => none

omit [DecidableEq T] in
theorem sequential_fifo {queue queue' : List α} {done : List (T × Op α × Res α)}
    (h : Sequential fifo queue done queue') : queue ++ pushes done = pops done ++ queue' := by
  induction h with
  | nil => simp [pushes, pops]
  | @snoc o' o'' done t op res _ happly ih =>
      cases op with
      | push elem =>
          obtain ⟨rfl, rfl⟩ := Prod.mk.inj (Option.some.inj happly)
          simp only [pushes, pops, List.filterMap_append] at ih ⊢
          simp [← List.append_assoc, ih]
      | pop =>
          cases o' with
          | nil => cases happly
          | cons elem rest =>
              obtain ⟨rfl, rfl⟩ := Prod.mk.inj (Option.some.inj happly)
              simpa [pushes, pops, List.filterMap_append] using ih
      | empty =>
          obtain ⟨rfl, rfl⟩ := Prod.mk.inj (Option.some.inj happly)
          simpa [pushes, pops, List.filterMap_append] using ih

/-- The calls take effect in an order in which what is taken out is what was put in, first in, first
out, each element once; what is left is queued, and each thread's own calls return what their
effects gave. -/
theorem run_fifo [Fintype T] {s : State T α} {es : List (Event T α)}
    (hrun : run step State.start es = some s) :
    ∃ done : List (T × Op α × Res α), pushes done = pops done ++ s.queue_ ∧
      Sequential fifo [] done s.queue_ ∧
      ∀ t, ((outputs step seen State.start es).filter fun v => v.thread = t) ++
        (s.point t).phase.unseen t = own t done ++ (s.point t).phase.waiting t := by
  obtain ⟨es', hrun', hseen⟩ := run_linearizable hrun
  have hexplains := run_explains hrun'
  rw [hseen] at hexplains
  exact ⟨_, sequential_fifo hexplains.sequential, hexplains.sequential, hexplains.own⟩

theorem run_fifo_takeOver :
    ∃ done : List (Bool × Op Nat × Res Nat), pushes done = pops done ∧
      [Seen.call false .pop, .ret false (.popped 7)] = own false done := by
  have hview : (run step State.start (handOver ++ takeOver)).map
      (fun s => (s.queue_, s.point false)) = some ([], .idle) := by decide
  obtain ⟨s, hrun, hs⟩ := Option.map_eq_some_iff.mp hview
  obtain ⟨hqueue, hidle⟩ := Prod.mk.inj hs
  obtain ⟨done, hfifo, -, hown⟩ := run_fifo hrun
  have hfalse := hown false
  simp only [hidle, Point.phase, Phase.unseen, Phase.waiting, List.append_nil] at hfalse
  rw [hqueue, List.append_nil] at hfifo
  exact ⟨done, hfifo, hfalse ▸ rfl⟩

/-! ## Nobody sleeps beside an element -/

/-- The points between the two ends of a lock. -/
def Point.holds : Point α → Bool
  | .held _ => true
  | .take => true
  | .pushed _ => true
  | .popped _ => true
  | .tested _ => true
  | _ => false

/-- A thread that will take an element, or wake another that will. -/
def Point.due : Point α → Nat
  | .lock .pop => 1
  | .held .pop => 1
  | .take => 1
  | .pushed _ => 1
  | .notify _ => 1
  | _ => 0

structure Orderly [Fintype T] (s : State T α) : Prop where
  exclusive : ∀ t, (s.point t).holds = true ↔ s.mutex_ = some t
  /-- There is a front where it is read. -/
  front : ∀ t, s.point t = .take → s.queue_ ≠ []
  /-- While a thread sleeps, there is one awake for every element. -/
  awake : ∀ u, s.point u = .asleep → s.queue_.length ≤ ∑ t, (s.point t).due

variable [Fintype T] {s : State T α} {t : T}

omit [DecidableEq T] in
theorem orderly_start : Orderly (State.start : State T α) where
  exclusive t := by simp [State.start, Point.holds]
  front t h := by cases h
  awake t h := by cases h

theorem Orderly.goto (h : Orderly s) {p : Point α} {queue : List α} {m : Option T}
    (hself : p.holds = true ↔ m = some t) (hother : ∀ u, u ≠ t → (m = some u ↔ s.mutex_ = some u))
    (hqueue : queue = s.queue_ ∨ s.mutex_ = some t) (hfront : p = .take → queue ≠ [])
    (hawake : ∀ u, Function.update s.point t p u = .asleep →
      queue.length ≤ ∑ v, (Function.update s.point t p v).due) :
    Orderly ⟨queue, m, Function.update s.point t p⟩ where
  exclusive u := by
    by_cases hut : u = t
    · subst hut
      simpa using hself
    · simp only [Function.update_of_ne hut]
      rw [h.exclusive u, hother u hut]
  front u hu := by
    by_cases hut : u = t
    · subst hut
      exact hfront (by simpa using hu)
    · simp only [Function.update_of_ne hut] at hu
      rcases hqueue with rfl | hmine
      · exact h.front u hu
      · have hholds := (h.exclusive u).mp (by rw [hu]; rfl)
        rw [hmine] at hholds
        exact absurd (Option.some.inj hholds).symm hut
  awake := hawake

/-- Where a thread falls asleep, nothing is queued; elsewhere no more is missing than before. -/
theorem Orderly.awake_goto (h : Orderly s) {p : Point α} {queue : List α}
    (hdue : queue = [] ∨
      p ≠ .asleep ∧ queue.length + (s.point t).due ≤ s.queue_.length + p.due) (u : T)
    (hu : Function.update s.point t p u = .asleep) :
    queue.length ≤ ∑ v, (Function.update s.point t p v).due := by
  rcases hdue with rfl | ⟨hp, hle⟩
  · exact Nat.zero_le _
  · have hut : u ≠ t := by
      rintro rfl
      exact hp (by simpa using hu)
    rw [Function.update_of_ne hut] at hu
    have hbefore := h.awake u hu
    have hsum := sum_update Point.due s.point t p
    omega

omit [DecidableEq T] in
theorem Orderly.not_mine (h : Orderly s) (hnot : (s.point t).holds = false) :
    s.mutex_ ≠ some t := by
  intro hmutex
  rw [(h.exclusive t).mpr hmutex] at hnot
  cases hnot

/-- A thread without the mutex goes on without it. -/
theorem Orderly.aside (h : Orderly s) {p : Point α} (hnot : (s.point t).holds = false)
    (hp : p.holds = false)
    (hawake : ∀ u, Function.update s.point t p u = .asleep →
      s.queue_.length ≤ ∑ v, (Function.update s.point t p v).due) : Orderly (s.goto t p) := by
  refine h.goto (by simp [hp, h.not_mine hnot]) (fun u _ => Iff.rfl) (.inl rfl) ?_ hawake
  rintro rfl
  cases hp

/-- A thread gets the mutex. -/
theorem Orderly.acquire (h : Orderly s) (hfree : s.mutex_ = none) {p : Point α}
    (hholds : p.holds = true) (hfront : p ≠ .take) (hdue : (s.point t).due ≤ p.due) :
    Orderly { s.goto t p with mutex_ := some t } := by
  have hasleep : p ≠ .asleep := by
    rintro rfl
    cases hholds
  refine h.goto (by simp [hholds]) (fun u hu => ?_) (.inl rfl) (fun hp => absurd hp hfront)
    (h.awake_goto (.inr ⟨hasleep, by simpa using hdue⟩))
  simp [hfree, Ne.symm hu]

/-- It does something to the queue. -/
theorem Orderly.within (h : Orderly s) (hmutex : s.mutex_ = some t) {p : Point α} {queue : List α}
    (hholds : p.holds = true) (hfront : p = .take → queue ≠ [])
    (hdue : queue.length + (s.point t).due ≤ s.queue_.length + p.due) :
    Orderly { s.goto t p with queue_ := queue } := by
  have hasleep : p ≠ .asleep := by
    rintro rfl
    cases hholds
  exact h.goto (by simp [hholds, hmutex]) (fun u _ => Iff.rfl) (.inr hmutex) hfront
    (h.awake_goto (.inr ⟨hasleep, hdue⟩))

/-- It gives the mutex back. -/
theorem Orderly.release (h : Orderly s) (hmutex : s.mutex_ = some t) {p : Point α}
    (hholds : p.holds = false)
    (hdue : s.queue_ = [] ∨ p ≠ .asleep ∧ (s.point t).due ≤ p.due) :
    Orderly { s.goto t p with mutex_ := none } := by
  refine h.goto (by simp [hholds]) (fun u hu => by simp [hmutex, Ne.symm hu]) (.inl rfl) ?_
    (h.awake_goto (hdue.imp_right fun hd => ⟨hd.1, by simpa using hd.2⟩))
  rintro rfl
  cases hholds

theorem Orderly.go {s' : State T α} (h : Orderly s) (hgo : s.go t = some s') : Orderly s' := by
  have hmine : (s.point t).holds = true → s.mutex_ = some t := (h.exclusive t).mp
  cases hp : s.point t with
  | idle => simp [State.go, hp] at hgo
  | asleep => simp [State.go, hp] at hgo
  | notify elem => simp [State.go, hp] at hgo
  | lock op =>
      simp only [State.go, hp, Option.ite_none_right_eq_some, Option.some.injEq] at hgo
      obtain ⟨hfree, rfl⟩ := hgo
      refine h.acquire hfree rfl (by simp) ?_
      cases op <;> simp [hp, Point.due]
  | held op =>
      have hmutex := hmine (by rw [hp]; rfl)
      cases op with
      | push elem =>
          simp only [State.go, hp, Option.some.injEq] at hgo
          subst hgo
          exact h.within hmutex rfl (by simp) (by simp [hp, Point.due])
      | pop =>
          simp only [State.go, hp] at hgo
          split at hgo
          · rename_i hempty
            cases hgo
            exact h.release hmutex rfl (.inl hempty)
          · rename_i hsome
            cases hgo
            exact h.within hmutex rfl (fun _ => hsome) (by simp [hp, Point.due])
      | empty =>
          simp only [State.go, hp, Option.some.injEq] at hgo
          subst hgo
          exact h.within hmutex rfl (by simp) (by simp [hp, Point.due])
  | take =>
      have hmutex := hmine (by rw [hp]; rfl)
      simp only [State.go, hp] at hgo
      split at hgo
      · cases hgo
      · rename_i elem rest hqueue
        cases hgo
        exact h.within hmutex rfl (by simp) (by simp [hp, hqueue, Point.due])
  | pushed elem =>
      simp only [State.go, hp, Option.some.injEq] at hgo
      subst hgo
      exact h.release (hmine (by rw [hp]; rfl)) rfl (.inr (by simp [hp, Point.due]))
  | popped elem =>
      simp only [State.go, hp, Option.some.injEq] at hgo
      subst hgo
      exact h.release (hmine (by rw [hp]; rfl)) rfl (.inr (by simp [hp, Point.due]))
  | tested b =>
      simp only [State.go, hp, Option.some.injEq] at hgo
      subst hgo
      exact h.release (hmine (by rw [hp]; rfl)) rfl (.inr (by simp [hp, Point.due]))

omit [Fintype T] [DecidableEq T] in
theorem point_of_isAsleep {u : T} (h : (s.point u).isAsleep = true) : s.point u = .asleep := by
  cases hp : s.point u <;> first | rfl | (rw [hp] at h; cases h)

/-- The notified thread is due in place of the one that notifies. -/
theorem Orderly.hand (h : Orderly s) {elem : α} (hp : s.point t = .notify elem) {u : T}
    (hu : s.point u = .asleep) : Orderly ((s.goto u (.lock .pop)).goto t .idle) := by
  have htu : t ≠ u := by
    rintro rfl
    rw [hp] at hu
    cases hu
  have hthere : (s.goto u (.lock .pop)).point t = .notify elem := by
    simp [State.goto, Function.update_of_ne htu, hp]
  have hwoken : Orderly (s.goto u (.lock .pop)) :=
    h.aside (by rw [hu]; rfl) rfl (h.awake_goto (.inr (by simp [hu, Point.due])))
  refine hwoken.aside (by rw [hthere]; rfl) rfl fun v hv => ?_
  have hbefore := h.awake u hu
  have hfirst := sum_update Point.due s.point u (.lock .pop)
  have hsecond := sum_update Point.due (s.goto u (.lock .pop)).point t .idle
  have hasleep : (Point.asleep : Point α).due = 0 := rfl
  have hlock : (Point.lock .pop : Point α).due = 1 := rfl
  have hnotify : (Point.notify elem).due = 1 := rfl
  rw [hu, hasleep, hlock] at hfirst
  rw [hthere, hnotify] at hsecond
  simp only [State.goto] at hsecond ⊢
  omega

theorem step_orderly {s' : State T α} {e : Event T α} (h : Orderly s) (hstep : step s e = some s') :
    Orderly s' := by
  cases e with
  | call t op =>
      cases hp : s.point t with
      | idle =>
          simp only [step, hp, Option.some.injEq] at hstep
          subst hstep
          exact h.aside (by rw [hp]; rfl) rfl (h.awake_goto (.inr (by simp [hp, Point.due])))
      | _ => simp [step, hp] at hstep
  | go t => exact h.go hstep
  | notify t woken =>
      cases hp : s.point t with
      | notify elem =>
          cases woken with
          | none =>
              simp only [step, hp, Option.ite_none_right_eq_some, Option.some.injEq] at hstep
              obtain ⟨hnobody, rfl⟩ := hstep
              refine h.aside (by rw [hp]; rfl) rfl fun u hu => ?_
              have hut : u ≠ t := by
                rintro rfl
                simp at hu
              rw [Function.update_of_ne hut] at hu
              have hawake := hnobody u
              rw [hu] at hawake
              cases hawake
          | some u =>
              simp only [step, hp, Option.ite_none_right_eq_some, Option.some.injEq] at hstep
              obtain ⟨hasleep, rfl⟩ := hstep
              exact h.hand hp (point_of_isAsleep hasleep)
      | _ => simp [step, hp] at hstep
  | wake t =>
      simp only [step, Option.ite_none_right_eq_some, Option.some.injEq] at hstep
      obtain ⟨hasleep, rfl⟩ := hstep
      have hp := point_of_isAsleep hasleep
      exact h.aside (by rw [hp]; rfl) rfl (h.awake_goto (.inr (by simp [hp, Point.due])))

/-- At most one thread is between the ends of a lock, `front` is never called on an empty queue, and
no thread sleeps while an element lies there that nobody is about to take or to report. -/
theorem run_orderly {es : List (Event T α)} (hrun : run step State.start es = some s) : Orderly s :=
  run_invariant Orderly (fun _ _ _ h hstep => step_orderly h hstep) orderly_start hrun

theorem run_orderly_handOver :
    ∃ s : State Bool Nat, run step State.start handOver = some s ∧ s.queue_ = [7] ∧ Orderly s := by
  have hqueue : (run step State.start handOver).map State.queue_ = some [7] := by decide
  obtain ⟨s, hrun, hs⟩ := Option.map_eq_some_iff.mp hqueue
  exact ⟨s, hrun, hs, run_orderly hrun⟩

/-! ## Calls end or wait for an element -/

/-- How many steps a thread takes at most, with those of the thread that it wakes. -/
def Point.rank : Point α → Nat
  | .idle => 0
  | .asleep => 0
  | .popped _ => 1
  | .tested _ => 1
  | .take => 2
  | .held .empty => 2
  | .held .pop => 3
  | .lock .empty => 3
  | .lock .pop => 4
  | .notify _ => 5
  | .pushed _ => 6
  | .held (.push _) => 7
  | .lock (.push _) => 8

def State.rank (s : State T α) : Nat := ∑ t, (s.point t).rank

def Event.inside : Event T α → Bool
  | .go _ => true
  | .notify _ _ => true
  | _ => false

omit [DecidableEq T] in
theorem State.rank_le (s : State T α) : s.rank ≤ 8 * Fintype.card T := by
  have hpoint : ∀ p : Point α, p.rank ≤ 8 := by
    intro p
    cases p with
    | lock op => cases op <;> simp [Point.rank]
    | held op => cases op <;> simp [Point.rank]
    | _ => simp [Point.rank]
  calc s.rank ≤ ∑ _t : T, 8 := Finset.sum_le_sum fun t _ => hpoint (s.point t)
    _ = 8 * Fintype.card T := by simp [Nat.mul_comm]

theorem goto_rank (s : State T α) (t : T) (p : Point α) :
    (s.goto t p).rank + (s.point t).rank = s.rank + p.rank := sum_update Point.rank s.point t p

theorem goto_rank_lt {p : Point α} (h : p.rank < (s.point t).rank) : (s.goto t p).rank < s.rank := by
  have hsum := goto_rank s t p
  omega

theorem go_rank {s' : State T α} (h : s.go t = some s') : s'.rank < s.rank := by
  cases hp : s.point t with
  | idle => simp [State.go, hp] at h
  | asleep => simp [State.go, hp] at h
  | notify elem => simp [State.go, hp] at h
  | lock op =>
      simp only [State.go, hp, Option.ite_none_right_eq_some, Option.some.injEq] at h
      obtain ⟨-, rfl⟩ := h
      refine goto_rank_lt (p := .held op) ?_
      cases op <;> simp [hp, Point.rank]
  | held op =>
      cases op with
      | push elem =>
          simp only [State.go, hp, Option.some.injEq] at h
          subst h
          exact goto_rank_lt (p := .pushed elem) (by simp [hp, Point.rank])
      | pop =>
          simp only [State.go, hp] at h
          split at h
          · cases h
            exact goto_rank_lt (p := .asleep) (by simp [hp, Point.rank])
          · cases h
            exact goto_rank_lt (by simp [hp, Point.rank])
      | empty =>
          simp only [State.go, hp, Option.some.injEq] at h
          subst h
          exact goto_rank_lt (by simp [hp, Point.rank])
  | take =>
      simp only [State.go, hp] at h
      split at h
      · cases h
      · rename_i elem rest hqueue
        cases h
        exact goto_rank_lt (p := .popped elem) (by simp [hp, Point.rank])
  | pushed elem =>
      simp only [State.go, hp, Option.some.injEq] at h
      subst h
      exact goto_rank_lt (p := .notify elem) (by simp [hp, Point.rank])
  | popped elem =>
      simp only [State.go, hp, Option.some.injEq] at h
      subst h
      exact goto_rank_lt (p := .idle) (by simp [hp, Point.rank])
  | tested b =>
      simp only [State.go, hp, Option.some.injEq] at h
      subst h
      exact goto_rank_lt (p := .idle) (by simp [hp, Point.rank])

theorem step_rank {s' : State T α} {e : Event T α} (hinside : e.inside = true)
    (hstep : step s e = some s') : s'.rank < s.rank := by
  cases e with
  | call t op => cases hinside
  | wake t => cases hinside
  | go t => exact go_rank hstep
  | notify t woken =>
      cases hp : s.point t with
      | notify elem =>
          cases woken with
          | none =>
              simp only [step, hp, Option.ite_none_right_eq_some, Option.some.injEq] at hstep
              obtain ⟨-, rfl⟩ := hstep
              exact goto_rank_lt (by simp [hp, Point.rank])
          | some u =>
              simp only [step, hp, Option.ite_none_right_eq_some, Option.some.injEq] at hstep
              obtain ⟨hasleep, rfl⟩ := hstep
              have hu := point_of_isAsleep hasleep
              have htu : t ≠ u := by
                rintro rfl
                rw [hp] at hu
                cases hu
              have hthere : (s.goto u (.lock .pop)).point t = .notify elem := by
                simp [State.goto, Function.update_of_ne htu, hp]
              have hfirst := goto_rank s u (.lock .pop)
              have hsecond := goto_rank (s.goto u (.lock .pop)) t .idle
              simp only [hu, hthere, Point.rank] at hfirst hsecond
              omega
      | _ => simp [step, hp] at hstep

/-- The thread that has the mutex can go on. -/
theorem Orderly.holder_goes (h : Orderly s) (hmutex : s.mutex_ = some t) : (s.go t).isSome := by
  have hholds := (h.exclusive t).mpr hmutex
  cases hp : s.point t with
  | held op =>
      cases op with
      | pop => by_cases hempty : s.queue_ = [] <;> simp [State.go, hp, hempty]
      | _ => simp [State.go, hp]
  | take =>
      obtain ⟨elem, rest, hqueue⟩ := List.exists_cons_of_ne_nil (h.front t hp)
      simp [State.go, hp, hqueue]
  | pushed elem => simp [State.go, hp]
  | popped elem => simp [State.go, hp]
  | tested b => simp [State.go, hp]
  | _ => simp [hp, Point.holds] at hholds

/-- While the mutex is free, every thread can go on that is neither idle nor asleep. -/
theorem goes_of_free (hfree : s.mutex_ = none) (hidle : s.point t ≠ .idle)
    (hasleep : s.point t ≠ .asleep) (hholds : (s.point t).holds = false) :
    ∃ e : Event T α, e.inside = true ∧ (step s e).isSome := by
  cases hp : s.point t with
  | idle => exact absurd hp hidle
  | asleep => exact absurd hp hasleep
  | lock op => exact ⟨.go t, rfl, by simp [step, State.go, hp, hfree]⟩
  | notify elem =>
      by_cases hnobody : ∀ u, (s.point u).isAsleep = false
      · exact ⟨.notify t none, rfl, by simp [step, hp, hnobody]⟩
      · simp only [not_forall, Bool.not_eq_false] at hnobody
        obtain ⟨u, hu⟩ := hnobody
        exact ⟨.notify t (some u), rfl, by simp [step, hp, hu]⟩
  | _ => simp [hp, Point.holds] at hholds

/-- Where no call can go on, every call that has not ended waits in `pop`, and nothing is queued. -/
theorem Orderly.quiet (h : Orderly s)
    (hstuck : ∀ e : Event T α, e.inside = true → step s e = none) (t : T) :
    s.point t = .idle ∨ s.point t = .asleep ∧ s.queue_ = [] := by
  have hfree : s.mutex_ = none := by
    by_contra hsome
    obtain ⟨u, hu⟩ := Option.ne_none_iff_exists'.mp hsome
    have hgo := h.holder_goes hu
    have hnone : s.go u = none := hstuck (.go u) rfl
    rw [hnone] at hgo
    cases hgo
  have hpoints : ∀ u, s.point u = .idle ∨ s.point u = .asleep := by
    intro u
    by_contra hne
    rw [not_or] at hne
    have hholds : (s.point u).holds = false := by
      rw [← Bool.not_eq_true, h.exclusive u, hfree]
      simp
    obtain ⟨e, hinside, hsome⟩ := goes_of_free hfree hne.1 hne.2 hholds
    rw [hstuck e hinside] at hsome
    cases hsome
  refine (hpoints t).imp_right fun hasleep => ⟨hasleep, ?_⟩
  have hdue : ∑ u, (s.point u).due = 0 := by
    refine Finset.sum_eq_zero fun u _ => ?_
    rcases hpoints u with hu | hu <;> rw [hu] <;> rfl
  have hlength := h.awake t hasleep
  rw [hdue] at hlength
  exact List.length_eq_zero_iff.mp (Nat.le_zero.mp hlength)

/-- If no new calls come and nobody wakes up unasked, the calls that are there come to rest within
eight steps a thread; then each has returned or waits in `pop`, and it waits only if nothing is
queued. -/
theorem run_settles {s' : State T α} {es es' : List (Event T α)}
    (hrun : run step State.start es = some s) (hmore : run step s es' = some s')
    (hinside : ∀ e ∈ es', e.inside = true) :
    es'.length ≤ 8 * Fintype.card T ∧
      ((∀ e : Event T α, e.inside = true → step s' e = none) →
        ∀ t, s'.point t = .idle ∨ s'.point t = .asleep ∧ s'.queue_ = []) := by
  have hthere : run step State.start (es ++ es') = some s' := run_append_iff.mpr ⟨s, hrun, hmore⟩
  have horderly : Orderly s' :=
    run_invariant Orderly (fun _ _ _ h hstep => step_orderly h hstep) orderly_start hthere
  refine ⟨?_, horderly.quiet⟩
  have hguard := (run_restrict (fun _ (e : Event T α) => e.inside = true)
    fun pre e post u hsplit _ => hinside e (by simp [hsplit])).trans hmore
  have hdown : ∀ (s : State T α) (e : Event T α) s',
      (if e.inside = true then step s e else none) = some s' → s'.rank < s.rank := by
    intro s e s' hstep
    obtain ⟨hin, hstep⟩ := Option.ite_none_right_eq_some.mp hstep
    exact step_rank hin hstep
  have hlength := run_length_le State.rank hdown hguard
  have hbound := s.rank_le
  omega

theorem run_settles_takeOver :
    ∃ s s' : State Bool Nat, run step State.start handOver = some s ∧
      run step s takeOver = some s' ∧ ((∀ e : Event Bool Nat, e.inside = true → step s' e = none) →
        ∀ t, s'.point t = .idle ∨ s'.point t = .asleep ∧ s'.queue_ = []) := by
  have hboth : (run step State.start (handOver ++ takeOver)).isSome := by decide
  obtain ⟨s', hrun⟩ := Option.isSome_iff_exists.mp hboth
  obtain ⟨s, hs, hmore⟩ := run_append_iff.mp hrun
  exact ⟨s, s', hs, hmore, (run_settles hs hmore (by decide)).2⟩

end

end Over6.Threaded.MsgQueue
