import Over6.Lib.Run

/-! # The life of the service

`MyVpnService` handles each intent on a thread of its own; timer tasks and
`onDestroy` come on further threads. All of them read and write `vpnThread`,
`timer` and the static `instance` without a lock. A thread makes one access to
these at a time; a native loop may come to its end at any time.
-/

namespace Over6.Service.Lifecycle

open EventRun

inductive Caller where
  | intent
  | destroy
  | task (timer : Nat)
deriving DecidableEq, Repr

inductive Point where
  | createPipe
  | newThread
  | startThread
  | openStreams
  | configure
  | schedule
  | setInstance
  | checkInstance
  | callStop
  | clearInstance
  | task
  | cancelTimer
  | checkThread
  | checkAlive
  | writeExit
  | join
  /-- Inside `join(10000)` of that thread. -/
  | joining (native : Nat)
  | closeStreams
  | clearThread
  | ended
deriving DecidableEq, Repr

structure Thread where
  /-- The object whose method it runs. -/
  service : Nat
  caller : Caller
  point : Point

/-- The threads made for `vpn_entry`. -/
inductive NativeLoop where
  | created
  | running
  | returned
deriving DecidableEq, Repr

structure Timer where
  service : Nat
  cancelled : Bool

structure Fields where
  vpnThread : Option Nat
  timer : Option Nat
  commandWriteStream : Bool

structure State where
  services : Nat → Fields
  /-- `MyVpnService.instance` -/
  current : Option Nat
  threads : List Thread
  natives : List NativeLoop
  timers : List Timer
  /-- An exception that nobody catches ends the process. -/
  crashed : Bool

namespace State

def start : State := ⟨fun _ => ⟨none, none, false⟩, none, [], [], [], false⟩

def spawn (s : State) (th : Thread) : State := { s with threads := s.threads ++ [th] }

def goto (s : State) (n : Nat) (point : Point) : State :=
  { s with threads := s.threads.modify n fun th => { th with point := point } }

def set (s : State) (service : Nat) (fields : Fields) : State :=
  { s with services := Function.update s.services service fields }

/-- `vpnThread = new Thread(...)` -/
def make (s : State) (service : Nat) : State :=
  { s with natives := s.natives ++ [NativeLoop.created] }.set service
    { s.services service with vpnThread := some s.natives.length }

def turnTo (s : State) (n service : Nat) : State :=
  { s with threads := s.threads.modify n fun th => { th with service := service } }

def crash (s : State) : State := { s with crashed := true }

def alive (s : State) (t : Nat) : Bool := s.natives[t]? == some .running

end State

inductive Event where
  /-- `onStartCommand` with the action `START` or another one. -/
  | startIntent (service : Nat)
  | stopIntent (service : Nat)
  | destroy (service : Nat)
  | tick (timer : Nat)
  /-- The next step of a thread; `ok` tells whether no `IOException` is thrown, and inside `join`
  whether it has not timed out. -/
  | step (thread : Nat) (ok : Bool)
  /-- `vpn_entry` returns. -/
  | leave (native : Nat)

/-- `startVPN` and the rest of the thread of a `START` intent. -/
def stepStart (s : State) (n : Nat) (th : Thread) (ok : Bool) : Point → Option State
  | .createPipe => some (s.goto n (if ok then .newThread else .setInstance))
  | .newThread => some ((s.make th.service).goto n .startThread)
  | .startThread =>
      match (s.services th.service).vpnThread with
      | none => some s.crash
      | some t =>
          -- A thread is started once.
          if s.natives[t]? = some .created then
            some ({ s with natives := s.natives.set t .running }.goto n .openStreams)
          else some s.crash
  | .openStreams =>
      some ((s.set th.service { s.services th.service with commandWriteStream := true }).goto n
        .configure)
  | .configure => some (s.goto n (if ok then .schedule else .setInstance))
  | .schedule =>
      some (({ s with timers := s.timers ++ [Timer.mk th.service false] }.set th.service
        { s.services th.service with timer := some s.timers.length }).goto n .setInstance)
  | .setInstance => some ({ s with current := some th.service }.goto n .ended)
  | _ => none

/-- `stopVPN`. The thread of a `STOP` intent goes on behind it. -/
def stepStop (s : State) (n : Nat) (th : Thread) (ok : Bool) : Point → Option State
  | .cancelTimer =>
      let cancelled := match (s.services th.service).timer with
        | none => s.timers
        | some i => s.timers.modify i fun timer => { timer with cancelled := true }
      some (({ s with timers := cancelled }.set th.service
        { s.services th.service with timer := none }).goto n .checkThread)
  | .checkThread =>
      some (s.goto n (if (s.services th.service).vpnThread.isSome then .checkAlive
        else .clearThread))
  | .checkAlive =>
      match (s.services th.service).vpnThread with
      | none => some s.crash
      | some t => some (s.goto n (if s.alive t then .writeExit else .clearThread))
  | .writeExit =>
      if (s.services th.service).commandWriteStream then
        some (s.goto n (if ok then .join else .clearThread))
      else some s.crash
  | .join =>
      match (s.services th.service).vpnThread with
      | none => some s.crash
      | some t => some (s.goto n (.joining t))
  | .joining t => if ok && s.alive t then none else some (s.goto n .closeStreams)
  | .closeStreams => some (s.goto n .clearThread)
  | .clearThread =>
      some ((s.set th.service { s.services th.service with vpnThread := none }).goto n
        (if th.caller = .intent then .clearInstance else .ended))
  | _ => none

def stepThread (s : State) (n : Nat) (th : Thread) (ok : Bool) : Option State :=
  match th.point with
  | .ended => none
  | .checkInstance => some (s.goto n (if s.current.isSome then .callStop else .clearInstance))
  | .callStop =>
      match s.current with
      | none => some s.crash
      | some service => some ((s.turnTo n service).goto n .cancelTimer)
  | .clearInstance => some ({ s with current := none }.goto n .ended)
  | .task =>
      match (s.services th.service).vpnThread with
      | none => some s.crash
      | some t => some (s.goto n (if s.alive t then .ended else .cancelTimer))
  | .cancelTimer | .checkThread | .checkAlive | .writeExit | .join | .joining _ | .closeStreams
  | .clearThread => stepStop s n th ok th.point
  | point => stepStart s n th ok point

def next (s : State) (e : Event) : Option State :=
  if s.crashed then none
  else
    match e with
    | .startIntent service => some (s.spawn ⟨service, .intent, .createPipe⟩)
    | .stopIntent service => some (s.spawn ⟨service, .intent, .checkInstance⟩)
    | .destroy service => some (s.spawn ⟨service, .destroy, .cancelTimer⟩)
    | .tick timer =>
        match s.timers[timer]? with
        | some ⟨service, false⟩ =>
            -- The tasks of one timer run one after the other.
            if s.threads.all fun th => th.caller ≠ .task timer ∨ th.point = .ended then
              some (s.spawn ⟨service, .task timer, .task⟩)
            else none
        | _ => none
    | .step thread ok =>
        match s.threads[thread]? with
        | some th => stepThread s thread th ok
        | none => none
    | .leave native =>
        if s.natives[native]? = some .running then
          some { s with natives := s.natives.set native .returned }
        else none

/-! ## What a step does -/

def State.busy (s : State) (service : Nat) : Bool := (s.services service).vpnThread.any s.alive

/-- A `STOP` intent that has not got at an object yet. -/
def Point.Asking (p : Point) : Prop := p = .checkInstance ∨ p = .callStop

/-- In `stopVPN` behind the last look at `vpnThread`. -/
def Point.Past : Point → Bool
  | .joining _ | .closeStreams | .clearThread => true
  | _ => false

structure Same (s t : State) : Prop where
  threads : t.threads = s.threads
  natives : t.natives = s.natives
  named : ∀ service, (t.services service).vpnThread = (s.services service).vpnThread

inductive Does (s : State) (n : Nat) (th : Thread) (ok : Bool) : State → Prop
  | crashes : Does s n th ok s.crash
  | goes (p : Point) {t : State} (same : Same s t) (past : p.Past = false)
      (asking : p.Asking → th.point.Asking) : Does s n th ok (t.goto n p)
  | calls (service : Nat) (point : th.point = .callStop) :
      Does s n th ok ((s.turnTo n service).goto n .cancelTimer)
  | makes (point : th.point = .newThread) :
      Does s n th ok ((s.make th.service).goto n .startThread)
  | starts (t : Nat) (point : th.point = .startThread)
      (named : (s.services th.service).vpnThread = some t) (created : s.natives[t]? = some .created) :
      Does s n th ok ({ s with natives := s.natives.set t .running }.goto n .openStreams)
  | joins (t : Nat) (named : (s.services th.service).vpnThread = some t) :
      Does s n th ok (s.goto n (.joining t))
  | returns (t : Nat) (point : th.point = .joining t) (done : ok = true → s.alive t = false) :
      Does s n th ok (s.goto n .closeStreams)
  /-- `stopVPN` does not wait, or no longer. -/
  | passes (why : s.busy th.service = false ∨ th.point = .writeExit ∧ ok = false ∨
      th.point = .closeStreams) : Does s n th ok (s.goto n .clearThread)
  | clears (p : Point) (point : th.point = .clearThread) (past : p.Past = false)
      (asking : ¬ p.Asking) :
      Does s n th ok ((s.set th.service
        { s.services th.service with vpnThread := none }).goto n p)

theorem Same.refl (s : State) : Same s s := ⟨rfl, rfl, fun _ => rfl⟩

/-- Another field of the object is set. -/
theorem same_set (s : State) (service : Nat) (fields : Fields)
    (h : fields.vpnThread = (s.services service).vpnThread) : Same s (s.set service fields) := by
  refine ⟨rfl, rfl, fun other => ?_⟩
  simp only [State.set, Function.update_apply]
  split
  · rename_i heq
    rw [h, heq]
  · rfl

theorem not_busy_of_none {s : State} {service : Nat} (h : (s.services service).vpnThread = none) :
    s.busy service = false := by
  rw [State.busy, h]
  rfl

theorem busy_of_named {s : State} {service t : Nat} (h : (s.services service).vpnThread = some t) :
    s.busy service = s.alive t := by
  rw [State.busy, h]
  rfl

section Steps

variable {s s' : State} {n : Nat} {th : Thread} {ok : Bool}

theorem stepStop_does (h : stepStop s n th ok th.point = some s') : Does s n th ok s' := by
  unfold stepStop at h
  split at h
  · cases h
    have hset := same_set s th.service { s.services th.service with timer := none } rfl
    exact .goes .checkThread ⟨hset.threads, hset.natives, hset.named⟩ rfl nofun
  · cases h
    split
    · exact .goes .checkAlive (.refl s) rfl nofun
    · rename_i hnone
      exact .passes (.inl (not_busy_of_none (by simpa using hnone)))
  · split at h
    · cases h
      exact .crashes
    · rename_i t hnamed
      cases h
      split
      · exact .goes .writeExit (.refl s) rfl nofun
      · rename_i halive
        exact .passes (.inl ((busy_of_named hnamed).trans (by simpa using halive)))
  · rename_i hpoint
    split at h
    · cases h
      split
      · exact .goes .join (.refl s) rfl nofun
      · rename_i hfails
        exact .passes (.inr (.inl ⟨hpoint, by simpa using hfails⟩))
    · cases h
      exact .crashes
  · split at h
    · cases h
      exact .crashes
    · rename_i t hnamed
      cases h
      exact .joins t hnamed
  · rename_i t hpoint
    split at h
    · cases h
    · rename_i hover
      cases h
      exact .returns t hpoint (by simpa using hover)
  · rename_i hpoint
    cases h
    exact .passes (.inr (.inr hpoint))
  · rename_i hpoint
    cases h
    split
    · exact .clears .clearInstance hpoint rfl nofun
    · exact .clears .ended hpoint rfl nofun
  · cases h

theorem stepStart_does (h : stepStart s n th ok th.point = some s') : Does s n th ok s' := by
  unfold stepStart at h
  split at h
  · cases h
    split
    · exact .goes .newThread (.refl s) rfl nofun
    · exact .goes .setInstance (.refl s) rfl nofun
  · rename_i hpoint
    cases h
    exact .makes hpoint
  · rename_i hpoint
    split at h
    · cases h
      exact .crashes
    · rename_i t hnamed
      split at h
      · rename_i hcreated
        cases h
        exact .starts t hpoint hnamed hcreated
      · cases h
        exact .crashes
  · cases h
    exact .goes .configure (same_set s th.service _ rfl) rfl nofun
  · cases h
    split
    · exact .goes .schedule (.refl s) rfl nofun
    · exact .goes .setInstance (.refl s) rfl nofun
  · cases h
    have hset :=
      same_set s th.service { s.services th.service with timer := some s.timers.length } rfl
    exact .goes .setInstance ⟨hset.threads, hset.natives, hset.named⟩ rfl nofun
  · cases h
    exact .goes .ended ⟨rfl, rfl, fun _ => rfl⟩ rfl nofun
  · cases h

theorem stepThread_does (h : stepThread s n th ok = some s') : Does s n th ok s' := by
  unfold stepThread at h
  split at h
  · cases h
  · rename_i hpoint
    cases h
    split
    · exact .goes .callStop (.refl s) rfl fun _ => .inl hpoint
    · exact .goes .clearInstance (.refl s) rfl nofun
  · rename_i hpoint
    split at h
    · cases h
      exact .crashes
    · cases h
      exact .calls _ hpoint
  · cases h
    exact .goes .ended ⟨rfl, rfl, fun _ => rfl⟩ rfl nofun
  · split at h
    · cases h
      exact .crashes
    · cases h
      split
      · exact .goes .ended (.refl s) rfl nofun
      · exact .goes .cancelTimer (.refl s) rfl nofun
  all_goals first
    | exact stepStop_does h
    | exact stepStart_does h

end Steps

inductive Moves (s : State) : Event → State → Prop
  | spawns {e : Event} (th : Thread) (fresh : th.point.Past = false) : Moves s e (s.spawn th)
  | does {n : Nat} {ok : Bool} {th : Thread} {s' : State} (at_ : s.threads[n]? = some th)
      (step : Does s n th ok s') : Moves s (.step n ok) s'
  | leaves {i : Nat} : Moves s (.leave i) { s with natives := s.natives.set i .returned }

theorem next_moves {s s' : State} {e : Event} (h : next s e = some s') : Moves s e s' := by
  unfold next at h
  split at h
  · cases h
  · split at h
    · cases h
      exact .spawns _ rfl
    · cases h
      exact .spawns _ rfl
    · cases h
      exact .spawns _ rfl
    · split at h
      · split at h
        · cases h
          exact .spawns _ rfl
        · cases h
      · cases h
    · split at h
      · rename_i hth
        exact .does hth (stepThread_does h)
      · cases h
    · split at h
      · cases h
        exact .leaves
      · cases h

/-! ## The loops that are running have a name -/

def AtMostOne (s : State) : Prop :=
  ∀ i j : Nat, s.natives[i]? = some .running → s.natives[j]? = some .running → i = j

structure Held (s : State) : Prop where
  one : AtMostOne s
  named : ∀ i : Nat, s.natives[i]? = some .running →
    ∃ th ∈ s.threads, ¬ th.point.Asking ∧ (s.services th.service).vpnThread = some i
  made : ∀ service t, (s.services service).vpnThread = some t → t < s.natives.length
  own : ∀ a b t, (s.services a).vpnThread = some t → (s.services b).vpnThread = some t → a = b
  /-- The loop that is joined is the one that was named. -/
  joined : ∀ th ∈ s.threads, ∀ t, th.point = .joining t →
    ∀ u, (s.services th.service).vpnThread = some u → s.natives[u]? = some .running → u = t
  past : ∀ th ∈ s.threads, th.point = .closeStreams ∨ th.point = .clearThread →
    s.busy th.service = false

theorem modify_eq_set {l : List Thread} {n : Nat} {th : Thread} (f : Thread → Thread)
    (hth : l[n]? = some th) : l.modify n f = l.set n (f th) := by
  refine List.ext_getElem? fun k => ?_
  rw [List.getElem?_modify, List.getElem?_set]
  by_cases hk : n = k
  · subst hk
    rw [if_pos rfl, if_pos (List.getElem?_eq_some_iff.mp hth).1, hth]
    simp
  · simp [hk]

theorem alive_iff (s : State) (t : Nat) : s.alive t = true ↔ s.natives[t]? = some .running := by
  simp [State.alive]

theorem not_busy_iff (s : State) (service : Nat) :
    s.busy service = false ↔
      ∀ t, (s.services service).vpnThread = some t → s.natives[t]? ≠ some .running := by
  rw [State.busy]
  cases (s.services service).vpnThread with
  | none => simp
  | some t => simp [State.alive]

section Held

variable {s s' : State} {n : Nat} {th : Thread}

/-- A thread goes on elsewhere. -/
theorem Held.move (h : Held s) (hth : s.threads[n]? = some th) {th' : Thread}
    (hthreads : s'.threads = s.threads.set n th') (hnatives : s'.natives = s.natives)
    (hnamed : ∀ service, (s'.services service).vpnThread = (s.services service).vpnThread)
    (hasking : ¬ th.point.Asking → ¬ th'.point.Asking ∧ th'.service = th.service)
    (hjoined : ∀ t, th'.point = .joining t → (s.services th'.service).vpnThread = some t)
    (hpast : th'.point = .closeStreams ∨ th'.point = .clearThread → s.busy th'.service = false) :
    Held s' := by
  have hmem : ∀ other ∈ s'.threads, other ∈ s.threads ∨ other = th' := by
    intro other hother
    rw [hthreads] at hother
    exact List.mem_or_eq_of_mem_set hother
  have hbusy : ∀ service, s'.busy service = s.busy service := by
    intro service
    have halive : s'.alive = s.alive := funext fun t => by rw [State.alive, State.alive, hnatives]
    rw [State.busy, State.busy, hnamed, halive]
  refine ⟨?_, fun i hi => ?_, ?_, ?_, fun other hother t hpoint u hu hrunning => ?_,
    fun other hother hpoint => ?_⟩
  · unfold AtMostOne
    rw [hnatives]
    exact h.one
  · rw [hnatives] at hi
    obtain ⟨other, hother, hsettled, hname⟩ := h.named i hi
    obtain ⟨k, hk⟩ := List.mem_iff_getElem?.mp hother
    by_cases hkn : n = k
    · subst hkn
      obtain rfl := Option.some.inj (hth.symm.trans hk)
      obtain ⟨hsettled', hservice⟩ := hasking hsettled
      refine ⟨th', ?_, hsettled', ?_⟩
      · rw [hthreads]
        exact List.mem_set (List.getElem?_eq_some_iff.mp hth).1 th'
      · rw [hnamed, hservice]
        exact hname
    · refine ⟨other, ?_, hsettled, (hnamed _).trans hname⟩
      rw [hthreads, List.mem_iff_getElem?]
      exact ⟨k, by rw [List.getElem?_set_ne hkn]; exact hk⟩
  · simp only [hnamed, hnatives]
    exact h.made
  · simp only [hnamed]
    exact h.own
  · rw [hnamed] at hu
    rw [hnatives] at hrunning
    rcases hmem other hother with hold | rfl
    · exact h.joined other hold t hpoint u hu hrunning
    · exact Option.some.inj (hu.symm.trans (hjoined t hpoint))
  · rw [hbusy]
    rcases hmem other hother with hold | rfl
    · exact h.past other hold hpoint
    · exact hpast hpoint

theorem Held.spawn (h : Held s) (hfresh : th.point.Past = false) : Held (s.spawn th) := by
  have hmem : ∀ other ∈ (s.spawn th).threads, other.point.Past = true → other ∈ s.threads := by
    intro other hother hpast
    rcases List.mem_append.mp hother with hold | hnew
    · exact hold
    · rw [List.mem_singleton.mp hnew, hfresh] at hpast
      cases hpast
  refine ⟨h.one, fun i hi => ?_, h.made, h.own, fun other hother t hpoint => ?_,
    fun other hother hpoint => ?_⟩
  · obtain ⟨other, hother, hrest⟩ := h.named i hi
    exact ⟨other, List.mem_append_left _ hother, hrest⟩
  · exact h.joined other (hmem other hother (by rw [hpoint]; rfl)) t hpoint
  · exact h.past other (hmem other hother (by rcases hpoint with hp | hp <;> rw [hp] <;> rfl)) hpoint

theorem Held.leave (h : Held s) (i : Nat) :
    Held { s with natives := s.natives.set i .returned } := by
  have hbefore : ∀ {k : Nat}, (s.natives.set i .returned)[k]? = some .running →
      s.natives[k]? = some .running := by
    intro k hk
    rw [List.getElem?_set] at hk
    split at hk
    · split at hk <;> cases hk
    · exact hk
  refine ⟨fun j k hj hk => h.one j k (hbefore hj) (hbefore hk), fun k hk => h.named k (hbefore hk),
    fun service t ht => ?_, h.own, fun other hother t hpoint u hu hrunning => ?_,
    fun other hother hpoint => ?_⟩
  · rw [List.length_set]
    exact h.made service t ht
  · exact h.joined other hother t hpoint u hu (hbefore hrunning)
  · rw [not_busy_iff]
    exact fun t ht hrunning =>
      (not_busy_iff s _).mp (h.past other hother hpoint) t ht (hbefore hrunning)

/-- An object that names no running loop may name another thread, or none. -/
theorem Held.rename (h : Held s) {service : Nat} {fields : Fields} {natives : List NativeLoop}
    (hfree : s.busy service = false)
    (hnatives : ∀ i : Nat, natives[i]? = some .running ↔ s.natives[i]? = some .running)
    (hlength : s.natives.length ≤ natives.length)
    (hfields : ∀ t, fields.vpnThread = some t → s.natives.length ≤ t ∧ t < natives.length) :
    Held ({ s with natives := natives }.set service fields) := by
  have hself : (({ s with natives := natives }.set service fields).services service) = fields :=
    Function.update_self ..
  have hother : ∀ {other}, other ≠ service →
      (({ s with natives := natives }.set service fields).services other) = s.services other :=
    fun hne => Function.update_of_ne hne ..
  have hnew : ∀ {t}, fields.vpnThread = some t → s.natives[t]? ≠ some .running := by
    intro t ht hrunning
    have hlt := (List.getElem?_eq_some_iff.mp hrunning).1
    have hge := (hfields t ht).1
    omega
  refine ⟨fun i j hi hj => h.one i j ((hnatives i).mp hi) ((hnatives j).mp hj), fun i hi => ?_,
    fun other t ht => ?_, fun a b t ha hb => ?_, fun other hmem t hpoint u hu hrunning => ?_,
    fun other hmem hpoint => ?_⟩
  · obtain ⟨other, hmem, hsettled, hname⟩ := h.named i ((hnatives i).mp hi)
    have hne : other.service ≠ service := by
      rintro rfl
      exact (not_busy_iff s _).mp hfree i hname ((hnatives i).mp hi)
    refine ⟨other, hmem, hsettled, ?_⟩
    rw [hother hne]
    exact hname
  · change t < natives.length
    by_cases hne : other = service
    · subst hne
      rw [hself] at ht
      exact (hfields t ht).2
    · rw [hother hne] at ht
      exact Nat.lt_of_lt_of_le (h.made other t ht) hlength
  · by_cases hane : a = service
    · by_cases hbne : b = service
      · rw [hane, hbne]
      · rw [hane, hself] at ha
        rw [hother hbne] at hb
        have hge := (hfields t ha).1
        have hlt := h.made b t hb
        omega
    · rw [hother hane] at ha
      by_cases hbne : b = service
      · rw [hbne, hself] at hb
        have hge := (hfields t hb).1
        have hlt := h.made a t ha
        omega
      · rw [hother hbne] at hb
        exact h.own a b t ha hb
  · by_cases hne : other.service = service
    · rw [hne, hself] at hu
      exact absurd ((hnatives u).mp hrunning) (hnew hu)
    · rw [hother hne] at hu
      exact h.joined other hmem t hpoint u hu ((hnatives u).mp hrunning)
  · rw [not_busy_iff]
    intro t ht hrunning
    by_cases hne : other.service = service
    · rw [hne, hself] at ht
      exact hnew ht ((hnatives t).mp hrunning)
    · rw [hother hne] at ht
      exact (not_busy_iff s _).mp (h.past other hmem hpoint) t ht ((hnatives t).mp hrunning)

theorem Held.make (h : Held s) {service : Nat} (hfree : s.busy service = false) :
    Held (s.make service) := by
  refine h.rename hfree (fun i => ?_) (by simp) fun t ht => ?_
  · by_cases hlt : i < s.natives.length
    · rw [List.getElem?_append_left hlt]
    · rw [List.getElem?_append_right (Nat.le_of_not_lt hlt), List.getElem?_singleton,
        List.getElem?_eq_none (Nat.le_of_not_lt hlt)]
      split <;> simp
  · obtain rfl := Option.some.inj ht
    simp

theorem Held.clear (h : Held s) {service : Nat} (hfree : s.busy service = false) :
    Held (s.set service { s.services service with vpnThread := none }) :=
  h.rename hfree (fun _ => .rfl) (Nat.le_refl _) nofun

/-- A loop is started while no other object names one that is running, and while nobody is about to
forget it. -/
theorem Held.start (h : Held s) (hth : th ∈ s.threads) (hpoint : th.point = .startThread) {t : Nat}
    (hnamed : (s.services th.service).vpnThread = some t) (hcreated : s.natives[t]? = some .created)
    (hothers : ∀ other ∈ s.threads, other.service ≠ th.service → s.busy other.service = false)
    (hpast : ∀ other ∈ s.threads, other.service = th.service → other.point.Past = false) :
    Held { s with natives := s.natives.set t .running } := by
  have hrunning : ∀ {i : Nat}, (s.natives.set t .running)[i]? = some .running →
      i = t ∨ s.natives[i]? = some .running := by
    intro i hi
    by_cases hne : t = i
    · exact .inl hne.symm
    · rw [List.getElem?_set_ne hne] at hi
      exact .inr hi
  have honly : ∀ {i : Nat}, (s.natives.set t .running)[i]? = some .running → i = t := by
    intro i hi
    refine (hrunning hi).resolve_right fun hold => ?_
    obtain ⟨other, hmem, _, hname⟩ := h.named i hold
    by_cases hservice : other.service = th.service
    · rw [hservice] at hname
      obtain rfl := Option.some.inj (hname.symm.trans hnamed)
      rw [hcreated] at hold
      cases hold
    · exact (not_busy_iff s _).mp (hothers other hmem hservice) i hname hold
  refine ⟨fun i j hi hj => (honly hi).trans (honly hj).symm, fun i hi => ?_, fun service u hu => ?_,
    h.own, fun other hmem j hjoining u hu hi => ?_, fun other hmem hleaving => ?_⟩
  · obtain rfl := honly hi
    refine ⟨th, hth, ?_, hnamed⟩
    rw [hpoint]
    nofun
  · rw [List.length_set]
    exact h.made service u hu
  · obtain rfl := honly hi
    have hservice := h.own other.service th.service u hu hnamed
    have hnot := hpast other hmem hservice
    rw [hjoining] at hnot
    cases hnot
  · rw [not_busy_iff]
    intro u hu hi
    obtain rfl := honly hi
    have hservice := h.own other.service th.service u hu hnamed
    have hnot := hpast other hmem hservice
    rcases hleaving with hp | hp <;> rw [hp] at hnot <;> cases hnot

end Held

/-! ## Intents that get in each other's way -/

/-- The step of `startVPN` over a loop: it makes a thread although its object names one that is alive,
or starts it while another object names one or a `stopVPN` is about to forget what is named. -/
def Thread.Overtakes (s : State) (th : Thread) : Prop :=
  match th.point with
  | .newThread => s.busy th.service = true
  | .startThread =>
      (∃ other ∈ s.threads, other.service ≠ th.service ∧ s.busy other.service = true) ∨
        ∃ other ∈ s.threads, other.service = th.service ∧ other.point.Past = true
  | _ => False

/-- `stopVPN` gives up on a loop that is running: the exit byte cannot be written, or `join` times
out. -/
def Thread.GivesUp (s : State) (th : Thread) (ok : Bool) : Prop :=
  match th.point with
  | .writeExit => ok = false ∧ s.busy th.service = true
  | .joining t => ok = false ∧ s.alive t = true
  | _ => False

def Mishandled (s : State) : Event → Prop
  | .step n ok => ∃ th ∈ s.threads[n]?, th.Overtakes s ∨ th.GivesUp s ok
  | _ => False

instance (s : State) (th : Thread) : Decidable (th.Overtakes s) := by
  unfold Thread.Overtakes
  exact match th.point with
    | .newThread => inferInstanceAs (Decidable (s.busy th.service = true))
    | .startThread => inferInstanceAs (Decidable (_ ∨ _))
    | .createPipe | .openStreams | .configure | .schedule | .setInstance | .checkInstance
    | .callStop | .clearInstance | .task | .cancelTimer | .checkThread | .checkAlive | .writeExit
    | .join | .joining _ | .closeStreams | .clearThread | .ended => inferInstanceAs (Decidable False)

instance (s : State) (th : Thread) (ok : Bool) : Decidable (th.GivesUp s ok) := by
  unfold Thread.GivesUp
  exact match th.point with
    | .writeExit => inferInstanceAs (Decidable (_ ∧ _))
    | .joining _ => inferInstanceAs (Decidable (_ ∧ _))
    | .createPipe | .newThread | .startThread | .openStreams | .configure | .schedule
    | .setInstance | .checkInstance | .callStop | .clearInstance | .task | .cancelTimer
    | .checkThread | .checkAlive | .join | .closeStreams | .clearThread | .ended =>
        inferInstanceAs (Decidable False)

instance (s : State) (e : Event) : Decidable (Mishandled s e) :=
  match e with
  | .step n ok => inferInstanceAs (Decidable (∃ th ∈ s.threads[n]?, th.Overtakes s ∨ th.GivesUp s ok))
  | .startIntent _ | .stopIntent _ | .destroy _ | .tick _ | .leave _ =>
      inferInstanceAs (Decidable False)

section Invariant

variable {s s' : State} {n : Nat} {th : Thread} {ok : Bool}

theorem Held.goto (h : Held s) (hth : s.threads[n]? = some th) (p : Point) {t : State}
    (hsame : Same s t) (hasking : p.Asking → th.point.Asking)
    (hjoined : ∀ t, p = .joining t → (s.services th.service).vpnThread = some t)
    (hpast : p = .closeStreams ∨ p = .clearThread → s.busy th.service = false) :
    Held (t.goto n p) := by
  have hthreads : (t.goto n p).threads = s.threads.set n { th with point := p } := by
    rw [← modify_eq_set (fun th => { th with point := p }) hth, ← hsame.threads]
    rfl
  exact h.move hth hthreads hsame.natives hsame.named
    (fun hsettled => ⟨fun hp => hsettled (hasking hp), rfl⟩) hjoined hpast

/-- Nothing is joined or about to be forgotten at such a point. -/
theorem Held.stroll (h : Held s) (hth : s.threads[n]? = some th) (p : Point) {t : State}
    (hsame : Same s t) (hasking : p.Asking → th.point.Asking) (hpast : p.Past = false) :
    Held (t.goto n p) := by
  refine h.goto hth p hsame hasking (fun t hp => ?_) fun hp => ?_
  · rw [hp] at hpast
    cases hpast
  · rcases hp with hp | hp <;> rw [hp] at hpast <;> cases hpast

theorem held_does (h : Held s) (hth : s.threads[n]? = some th) (hdoes : Does s n th ok s')
    (hfine : ¬ (th.Overtakes s ∨ th.GivesUp s ok)) : Held s' := by
  have hmem : th ∈ s.threads := List.mem_iff_getElem?.mpr ⟨n, hth⟩
  cases hdoes with
  | crashes => exact ⟨h.one, h.named, h.made, h.own, h.joined, h.past⟩
  | goes p hsame hpast hasking => exact h.stroll hth p hsame hasking hpast
  | calls service hpoint =>
      have hthreads : ((s.turnTo n service).goto n .cancelTimer).threads =
          s.threads.set n { th with service := service, point := .cancelTimer } := by
        rw [← modify_eq_set (fun th => { th with service := service, point := .cancelTimer }) hth]
        exact List.modify_modify_eq ..
      refine h.move hth hthreads rfl (fun _ => rfl) (fun hsettled => ?_) nofun nofun
      exact absurd (.inr hpoint) hsettled
  | makes hpoint =>
      have hfree : s.busy th.service = false := by
        rw [← Bool.not_eq_true]
        exact fun hbusy => hfine (.inl (by rw [Thread.Overtakes, hpoint]; exact hbusy))
      have hsame : (s.make th.service).threads[n]? = some th := hth
      exact (h.make hfree).stroll hsame .startThread (.refl _) nofun rfl
  | starts t hpoint hnamed hcreated =>
      have hstart : ¬ ((∃ other ∈ s.threads, other.service ≠ th.service ∧ s.busy other.service = true) ∨
          ∃ other ∈ s.threads, other.service = th.service ∧ other.point.Past = true) :=
        fun hbad => hfine (.inl (by rw [Thread.Overtakes, hpoint]; exact hbad))
      have hstarted : Held { s with natives := s.natives.set t .running } := by
        refine h.start hmem hpoint hnamed hcreated (fun other hother hne => ?_)
          fun other hother hservice => ?_
        · rw [← Bool.not_eq_true]
          exact fun hbusy => hstart (.inl ⟨other, hother, hne, hbusy⟩)
        · rw [← Bool.not_eq_true]
          exact fun hpast => hstart (.inr ⟨other, hother, hservice, hpast⟩)
      have hsame : { s with natives := s.natives.set t .running }.threads[n]? = some th := hth
      exact hstarted.stroll hsame .openStreams (.refl _) nofun rfl
  | joins t hnamed =>
      refine h.goto hth (.joining t) (.refl s) nofun (fun u hu => ?_) nofun
      obtain rfl := Point.joining.inj hu
      exact hnamed
  | returns t hpoint hdone =>
      -- The loop that was joined has returned, and no other one is named.
      have hended : s.alive t = false := by
        cases hok : ok with
        | true => exact hdone hok
        | false =>
            rw [← Bool.not_eq_true]
            exact fun halive => hfine (.inr (by rw [Thread.GivesUp, hpoint]; exact ⟨hok, halive⟩))
      refine h.goto hth .closeStreams (.refl s) nofun nofun fun _ => ?_
      rw [not_busy_iff]
      intro u hu hrunning
      obtain rfl := h.joined th hmem t hpoint u hu hrunning
      rw [(alive_iff s u).mpr hrunning] at hended
      cases hended
  | passes hwhy =>
      refine h.goto hth .clearThread (.refl s) nofun nofun fun _ => ?_
      rcases hwhy with hfree | ⟨hpoint, hfails⟩ | hpoint
      · exact hfree
      · rw [← Bool.not_eq_true]
        exact fun hbusy => hfine (.inr (by rw [Thread.GivesUp, hpoint]; exact ⟨hfails, hbusy⟩))
      · exact h.past th hmem (.inl hpoint)
  | clears p hpoint hpast hasking =>
      have hclear := h.clear (h.past th hmem (.inr hpoint))
      have hsame : (s.set th.service { s.services th.service with vpnThread := none }).threads[n]? =
          some th := hth
      exact hclear.stroll hsame p (.refl _) (fun hp => absurd hp hasking) hpast

theorem held_next {e : Event} (h : Held s) (hfine : ¬ Mishandled s e) (hnext : next s e = some s') :
    Held s' := by
  cases next_moves hnext with
  | spawns th hfresh => exact h.spawn hfresh
  | does hth hdoes => exact held_does h hth hdoes fun hbad => hfine ⟨_, hth, hbad⟩
  | leaves => exact h.leave _

theorem held_start : Held State.start where
  one i j hi := by simp [State.start] at hi
  named i hi := by simp [State.start] at hi
  made service t ht := by simp [State.start] at ht
  own a b t ha := by simp [State.start] at ha
  joined th hth := by simp [State.start] at hth
  past th hth := by simp [State.start] at hth

end Invariant

/-- However the intents, `onDestroy` and the timers interleave: in every state of a run never more than
one thread is inside `vpn_entry`, if `startVPN` makes a thread only where the object names none that is
alive and starts it only where no other object names one and no `stopVPN` of the object is behind its
last look at `vpnThread`, and if `stopVPN` can write the exit byte and its `join` does not time out
while the thread is alive. -/
theorem one_native_loop (es : List Event) (s : State) (hrun : run next State.start es = some s)
    (hfine : ∀ pre e post u, es = pre ++ e :: post → run next State.start pre = some u →
      ¬ Mishandled u e) :
    ∀ pre u, pre <+: es → run next State.start pre = some u → AtMostOne u := by
  rintro pre u ⟨rest, rfl⟩ hu
  have hheld : Held u := by
    refine run_avoiding Mishandled Held (fun s e s' h hgood => held_next h hgood) held_start hu ?_
    intro pre' e post v hsplit hv
    exact hfine pre' e (post ++ rest) v (by rw [hsplit, List.append_assoc, List.cons_append]) hv
  exact hheld.one

/-- The thread of a `START` intent up to `vpnThread.start()`. -/
def starting (service thread : Nat) : List Event :=
  [.startIntent service, .step thread true, .step thread true, .step thread true]

/-- The thread of a `STOP` intent up to `join(10000)`. -/
def stopping (service thread : Nat) : List Event :=
  .stopIntent service :: List.replicate 7 (.step thread true)

/-- `START` to its end, a task of the timer, `STOP` with a loop that returns inside `join`, and `START`
again. -/
def session : List Event :=
  starting 0 0 ++ List.replicate 4 (.step 0 true) ++ [.tick 0, .step 1 true] ++ stopping 0 2 ++
    [.leave 0] ++ List.replicate 4 (.step 2 true) ++ starting 0 3

theorem one_native_loop_session :
    ∃ s, run next State.start session = some s ∧ s.natives = [.returned, .running] ∧
      ∀ pre u, pre <+: session → run next State.start pre = some u → AtMostOne u := by
  refine ⟨_, rfl, rfl, one_native_loop session _ rfl ?_⟩
  exact not_bad_of_clean (by decide +kernel)

/-- Two `START` intents: the second does not ask whether there is a loop already. -/
theorem two_starts_overlap :
    ∃ s, run next State.start (starting 0 0 ++ starting 0 1) = some s ∧ ¬ AtMostOne s := by
  refine ⟨_, rfl, fun hone => ?_⟩
  exact absurd (hone 0 1 rfl rfl) (by decide)

/-- `join` times out, and `START` comes while the old loop is still running. -/
example : (run next State.start (starting 0 0 ++ List.replicate 4 (.step 0 true) ++ stopping 0 1 ++
      List.replicate 4 (.step 1 false) ++ starting 0 2)).map State.natives =
    some [.running, .running] := by decide +kernel

/-- `stopVPN` forgets the loop of a `START` that came after the old loop had returned. -/
example : (run next State.start (starting 0 0 ++ List.replicate 4 (.step 0 true) ++ stopping 0 1 ++
      [.leave 0, .step 1 true] ++ starting 0 2 ++ List.replicate 3 (.step 1 true) ++
      starting 0 3)).map State.natives =
    some [.returned, .running, .running] := by decide +kernel

end Over6.Service.Lifecycle
