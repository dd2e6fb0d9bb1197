import Over6.Lib.Visits
import Over6.Server.Lookup

/-! # One heartbeat pass

`process_heartbeat` frees entries of the table it goes through, by a search for the
descriptor that starts at index 0 again. With one entry for a descriptor the search
comes back to the entry being visited, and the pass does to each entry what it would
do to it alone.
-/

namespace Over6.Server

open BoundedLoop EventRun Visits

/-- What the test of the loop passes over. -/
def UserInfo.InUse (u : UserInfo) : Prop := 0 ≤ u.fd ∧ u.status = false

instance (u : UserInfo) : Decidable u.InUse := inferInstanceAs (Decidable (_ ∧ _))

def UserInfo.Due (u : UserInfo) (now : Int) : Prop := heartbeatInterval < now - u.lastHeartbeatSentSecs

def UserInfo.Late (u : UserInfo) (now : Int) : Prop :=
  heartbeatTimeout < now - u.lastHeartbeatRecvedSecs

instance (u : UserInfo) (now : Int) : Decidable (u.Due now) := inferInstanceAs (Decidable (_ < _))

instance (u : UserInfo) (now : Int) : Decidable (u.Late now) := inferInstanceAs (Decidable (_ < _))

def UserInfo.beaten (u : UserInfo) (now : Int) : UserInfo :=
  if u.Due now then { u with lastHeartbeatSentSecs := now } else u

def UserInfo.passed (u : UserInfo) (now : Int) : UserInfo :=
  if u.Late now then (u.beaten now).release else u.beaten now

/-- What an entry can see of the state: itself, and its descriptor `fd`. -/
structure EntryView where
  user : UserInfo
  conn : Option Conn
  watched : Bool
  writes : List (List UInt8)

def State.entryView (s : State) (fd : Fd) (i : Slot) : EntryView :=
  ⟨s.users i, s.conn fd, s.watched fd, writesOn fd s.log⟩

/-- The bytes of a keepalive that get across on `fd`. -/
def State.beat (s : State) (env : SweepEnv) (fd : Fd) (i : Slot) : List UInt8 :=
  (Server.writeAll (if s.isOpen fd then env.write i else fun _ => .error) keepalive.bytes).1

def EntryView.visit (beat : List UInt8) (now : Int) (v : EntryView) : EntryView :=
  if v.user.InUse then
    { user := v.user.passed now
      conn := if v.user.Late now then none else v.conn
      watched := if v.user.Late now then false else v.watched
      writes := v.writes ++ if v.user.Due now then [beat] else [] }
  else v

/-- Allocated entries of 2 to 254 have descriptors of their own, which epoll watches, and all other
entries have none. -/
structure OneEach (s : State) : Prop where
  held : ∀ i : Slot, 2 ≤ (i : Nat) → (i : Nat) ≤ 254 → (s.users i).status = false →
    0 ≤ (s.users i).fd ∧ s.watched (s.users i).fd = true
  distinct : ∀ i j : Slot, 2 ≤ (i : Nat) → (i : Nat) ≤ 254 → 2 ≤ (j : Nat) → (j : Nat) ≤ 254 →
    (s.users i).status = false → (s.users j).status = false →
    (s.users i).fd = (s.users j).fd → i = j
  idle : ∀ i : Slot, i = 0 ∨ i = 1 ∨ i = 255 ∨ (s.users i).status = true → (s.users i).fd = -1

theorem OneEach.inUse_iff {s : State} (h : OneEach s) {i : Slot} :
    (s.users i).InUse ↔ (2 ≤ (i : Nat) ∧ (i : Nat) ≤ 254) ∧ (s.users i).status = false := by
  constructor
  · rintro ⟨hfd, hst⟩
    refine ⟨reserved_eq_false.mp ?_, hst⟩
    cases hr : reserved i with
    | false => rfl
    | true =>
        have hwhich : i = 0 ∨ i = 1 ∨ i = 255 := by simpa [reserved, or_assoc] using hr
        have hneg := h.idle i (by tauto)
        exact absurd hneg (ne_neg_one_of_nonneg hfd)
  · rintro ⟨⟨hlo, hhi⟩, hst⟩
    exact ⟨(h.held i hlo hhi hst).1, hst⟩

/-! ## One visit -/

theorem State.freed_writesOn (s : State) (fd x : Fd) :
    writesOn x (s.freed fd).log = writesOn x s.log := by
  obtain ⟨new, hlog, _, hnew⟩ := s.freed_log fd
  rw [hlog]
  refine Journal.gather_of_nil fun r hr => ?_
  rcases (hnew r hr).2.2 with hact | ⟨i, hact⟩
  · rw [hact]
    exact ite_self []
  · rw [hact]
    exact ite_self []

section Visit

variable {s t : State} {env : SweepEnv} {now : Int} {i : Slot}

theorem State.swept_users (htime : env.time i = now) :
    (s.swept env i).users = Function.update s.users i ((s.users i).beaten now) := by
  by_cases hdue : s.Due env i
  · have hdue' : (s.users i).Due now := by
      rw [← htime]
      exact hdue
    rw [State.swept_of_due hdue, UserInfo.beaten, if_pos hdue', ← htime]
    rfl
  · have hdue' : ¬ (s.users i).Due now := by
      rw [← htime]
      exact hdue
    rw [State.swept_of_not_due hdue, UserInfo.beaten, if_neg hdue', Function.update_eq_self]
    rfl

theorem State.swept_writesOn (htime : env.time i = now) (x : Fd) :
    writesOn x (s.swept env i).log = writesOn x s.log ++
      if (s.users i).fd = x ∧ (s.users i).Due now then [s.beat env (s.users i).fd i] else [] := by
  have hjudged : writesOn x (s.judged env i).log = writesOn x s.log := by
    rw [State.judged, writesOn_note]
    simp [Act.writeCall]
  by_cases hdue : s.Due env i
  · have hdue' : (s.users i).Due now := by
      rw [← htime]
      exact hdue
    obtain ⟨ret, hlog⟩ : ∃ ret, (s.swept env i).log = ((s.judged env i).note (s.users i).fd
        (.wrote (s.beat env (s.users i).fd i) ret)).log := by
      rw [State.swept_of_due hdue]
      exact ⟨_, rfl⟩
    rw [hlog, writesOn_note, hjudged]
    by_cases hx : (s.users i).fd = x
    · rw [if_pos hx, if_pos ⟨hx, hdue'⟩]
      rfl
    · rw [if_neg hx, if_neg (fun h => hx h.1)]
  · have hdue' : ¬ (s.users i).Due now := by
      rw [← htime]
      exact hdue
    rw [State.swept_of_not_due hdue, hjudged, if_neg (fun h => hdue' h.2), List.append_nil]

theorem heartbeatEntry_of_not_inUse (h : ¬ (s.users i).InUse) : heartbeatEntry env s i = s := by
  unfold heartbeatEntry
  exact if_neg h

theorem heartbeatEntry_of_late (h : (s.users i).InUse) (htime : env.time i = now)
    (hlate : (s.users i).Late now) (hremoved : env.removed i = true)
    (hw : s.watched (s.users i).fd = true) :
    heartbeatEntry env s i = (s.swept env i).freed (s.users i).fd := by
  have hlate' : env.time i - (s.users i).lastHeartbeatRecvedSecs > heartbeatTimeout := by
    rw [htime]
    exact hlate
  have hw' : (s.swept env i).watched (s.users i).fd = true := by
    rw [(s.swept_quiet env i).watched, hw]
  have hin : 0 ≤ (s.users i).fd ∧ (s.users i).status = false := h
  unfold heartbeatEntry
  simp only
  rw [if_pos hin, if_pos hlate', ← State.swept, freeClientFd, hw', hremoved]
  rfl

theorem heartbeatEntry_of_recent (h : (s.users i).InUse) (htime : env.time i = now)
    (hrecent : ¬ (s.users i).Late now) : heartbeatEntry env s i = s.swept env i := by
  have hrecent' : ¬ env.time i - (s.users i).lastHeartbeatRecvedSecs > heartbeatTimeout := by
    rw [htime]
    exact hrecent
  have hin : 0 ≤ (s.users i).fd ∧ (s.users i).status = false := h
  unfold heartbeatEntry
  simp only
  rw [if_pos hin, if_neg hrecent']
  rfl

theorem foldl_of_not_inUse {l : List Slot} (h : ∀ j ∈ l, ¬ (s.users j).InUse) :
    l.foldl (heartbeatEntry env) s = s := by
  induction l with
  | nil => rfl
  | cons j l ih =>
      rw [List.foldl_cons, heartbeatEntry_of_not_inUse (h j List.mem_cons_self)]
      exact ih fun k hk => h k (List.mem_cons_of_mem j hk)

/-- A pass over a table with one entry in use. -/
theorem processHeartbeat_of_single (htime : env.time i = now) (hin : (s.users i).InUse)
    (honly : ∀ j, j ≠ i → ¬ (s.users j).InUse) (hrecent : ¬ (s.users i).Late now) :
    processHeartbeat env s = s.swept env i := by
  obtain ⟨l₁, l₂, hsplit⟩ := List.append_of_mem (List.mem_finRange i)
  have hnodup := List.nodup_finRange clientNum
  rw [hsplit, List.nodup_append, List.nodup_cons] at hnodup
  obtain ⟨_, ⟨hnotin, _⟩, hapart⟩ := hnodup
  have hbefore : ∀ j ∈ l₁, ¬ (s.users j).InUse :=
    fun j hj => honly j (hapart j hj i List.mem_cons_self)
  have hbehind : ∀ j ∈ l₂, ¬ ((s.swept env i).users j).InUse := by
    intro j hj
    have hne : j ≠ i := fun he => hnotin (he ▸ hj)
    rw [State.swept_users htime, Function.update_of_ne hne]
    exact honly j hne
  rw [processHeartbeat, hsplit, List.foldl_append, foldl_of_not_inUse hbefore, List.foldl_cons,
    heartbeatEntry_of_recent hin htime hrecent, foldl_of_not_inUse hbehind]

/-- With no other entry for the descriptor, freeing it frees this one. -/
theorem releaseFirst_eq {users : Users} {fd : Fd} (h : Owns users fd i)
    (honly : ∀ j, Owns users fd j → j = i) :
    releaseFirst users fd = Function.update users i (users i).release := by
  unfold releaseFirst
  cases hsearch : searchUserInfoByFd users fd with
  | none => exact absurd h (searchUserInfoByFd_eq_none.mp hsearch i)
  | some j => rw [honly j (searchUserInfoByFd_eq_some.mp hsearch).1]

end Visit

/-! ## The pass -/

/-- On the way through the table of `s`: entries still in use have what they had. -/
structure Underway (s t : State) : Prop where
  kept : ∀ i, (t.users i).InUse → (s.users i).InUse ∧ (t.users i).fd = (s.users i).fd
  watched : ∀ i, (t.users i).InUse → t.watched (t.users i).fd = true
  opened : ∀ i, (t.users i).InUse → t.isOpen (t.users i).fd = s.isOpen (t.users i).fd

structure Visited (env : SweepEnv) (now : Int) (i : Slot) (t t' : State) : Prop where
  users : t'.users = Function.update t.users i ((t.users i).passed now)
  conn : t'.conn =
    if (t.users i).Late now then Function.update t.conn (t.users i).fd none else t.conn
  watched : t'.watched =
    if (t.users i).Late now then Function.update t.watched (t.users i).fd false else t.watched
  writes : ∀ x, writesOn x t'.log = writesOn x t.log ++
    if (t.users i).fd = x ∧ (t.users i).Due now then [t.beat env (t.users i).fd i] else []
  bufs : t'.bufs = t.bufs
  fds : t'.fds = t.fds
  accepted : t'.accepted = t.accepted

theorem OneEach.underway {s : State} (h : OneEach s) : Underway s s := by
  refine ⟨fun i hi => ⟨hi, rfl⟩, fun i hi => ?_, fun _ _ => rfl⟩
  obtain ⟨⟨hlo, hhi⟩, hst⟩ := h.inUse_iff.mp hi
  exact (h.held i hlo hhi hst).2

section Pass

variable {s t t' : State} {env : SweepEnv} {now : Int} {i : Slot}

/-- No two entries in use have the same descriptor. -/
theorem Underway.distinct (h : OneEach s) (ht : Underway s t) {j : Slot} (hi : (t.users i).InUse)
    (hj : (t.users j).InUse) (hfd : (t.users j).fd = (t.users i).fd) : j = i := by
  obtain ⟨his, hfi⟩ := ht.kept i hi
  obtain ⟨hjs, hfj⟩ := ht.kept j hj
  obtain ⟨⟨hilo, hihi⟩, hsi⟩ := h.inUse_iff.mp his
  obtain ⟨⟨hjlo, hjhi⟩, hsj⟩ := h.inUse_iff.mp hjs
  exact h.distinct j i hjlo hjhi hilo hihi hsj hsi (hfj.symm.trans (hfd.trans hfi))

theorem Underway.visited (h : OneEach s) (ht : Underway s t) (hi : (t.users i).InUse)
    (htime : env.time i = now) (hremoved : env.removed i = true) :
    Visited env now i t (heartbeatEntry env t i) := by
  have husers := t.swept_users htime
  have hsteady := t.swept_steady env i
  by_cases hlate : (t.users i).Late now
  · rw [heartbeatEntry_of_late hi htime hlate hremoved (ht.watched i hi)]
    obtain ⟨hfreed, hbufs, hfds, hconn, hwatched, haccepted⟩ :=
      (t.swept env i).freed_spec (t.users i).fd
    -- The search comes back to the entry being visited.
    have howns : Owns (t.swept env i).users (t.users i).fd i := hsteady.owns_iff.mpr ⟨rfl, hi.2⟩
    have honly : ∀ j, Owns (t.swept env i).users (t.users i).fd j → j = i := by
      intro j hj
      have hj' := hsteady.owns_iff.mp hj
      exact ht.distinct h hi ⟨hj'.1 ▸ hi.1, hj'.2⟩ hj'.1
    constructor
    · rw [hfreed, releaseFirst_eq howns honly, husers, Function.update_self, Function.update_idem,
        UserInfo.passed, if_pos hlate]
    · rw [if_pos hlate, hconn, hsteady.conn]
    · rw [if_pos hlate, hwatched, hsteady.watched]
    · intro x
      rw [State.freed_writesOn, t.swept_writesOn htime]
    · rw [hbufs, t.swept_bufs]
    · rw [hfds, hsteady.fds]
    · rw [haccepted, hsteady.accepted]
  · rw [heartbeatEntry_of_recent hi htime hlate]
    constructor
    · rw [husers, UserInfo.passed, if_neg hlate]
    · rw [if_neg hlate, hsteady.conn]
    · rw [if_neg hlate, hsteady.watched]
    · exact t.swept_writesOn htime
    · exact t.swept_bufs env i
    · exact hsteady.fds
    · exact hsteady.accepted

theorem UserInfo.beaten_fields (u : UserInfo) (now : Int) :
    (u.beaten now).status = u.status ∧ (u.beaten now).fd = u.fd := by
  unfold UserInfo.beaten
  split <;> exact ⟨rfl, rfl⟩

/-- A visited entry that is still in use was not late. -/
theorem UserInfo.passed_inUse {u : UserInfo} (hu : (u.passed now).InUse) :
    ¬ u.Late now ∧ (u.passed now).fd = u.fd := by
  unfold UserInfo.passed at hu ⊢
  by_cases hlate : u.Late now
  · rw [if_pos hlate] at hu
    cases hu.2
  · rw [if_neg hlate]
    exact ⟨hlate, (u.beaten_fields now).2⟩

/-- What a visit leaves of the others. -/
theorem Visited.other (hv : Visited env now i t t') {fd : Fd} (hfd : fd ≠ (t.users i).fd) :
    t'.conn fd = t.conn fd ∧ t'.watched fd = t.watched fd ∧
      writesOn fd t'.log = writesOn fd t.log := by
  refine ⟨?_, ?_, ?_⟩
  · rw [hv.conn]
    split
    · exact Function.update_of_ne hfd ..
    · rfl
  · rw [hv.watched]
    split
    · exact Function.update_of_ne hfd ..
    · rfl
  · rw [hv.writes, if_neg (fun h => hfd h.1.symm), List.append_nil]

theorem Underway.visit (h : OneEach s) (ht : Underway s t) (i : Slot)
    (htime : env.time i = now) (hremoved : env.removed i = true) :
    Underway s (heartbeatEntry env t i) := by
  by_cases hi : (t.users i).InUse
  · have hv := ht.visited h hi htime hremoved
    generalize heartbeatEntry env t i = t' at hv
    have hself : t'.users i = (t.users i).passed now := by rw [hv.users, Function.update_self]
    have hother : ∀ j, j ≠ i → t'.users j = t.users j := fun j hj => by
      rw [hv.users, Function.update_of_ne hj]
    -- The descriptor of an entry that is still in use is the visited one, or not concerned.
    have hstays : ∀ j, (t'.users j).InUse → (t.users j).InUse ∧ (t'.users j).fd = (t.users j).fd ∧
        t'.conn (t.users j).fd = t.conn (t.users j).fd ∧
        t'.watched (t.users j).fd = t.watched (t.users j).fd := by
      intro j hj
      by_cases hji : j = i
      · rw [hji] at hj ⊢
        rw [hself] at hj ⊢
        obtain ⟨hrecent, hfd⟩ := UserInfo.passed_inUse hj
        rw [hv.conn, hv.watched, if_neg hrecent, if_neg hrecent]
        exact ⟨hi, hfd, rfl, rfl⟩
      · rw [hother j hji] at hj ⊢
        have hne : (t.users j).fd ≠ (t.users i).fd := fun he => hji (ht.distinct h hi hj he)
        obtain ⟨hconn, hwatched, _⟩ := hv.other hne
        exact ⟨hj, rfl, hconn, hwatched⟩
    refine ⟨fun j hj => ?_, fun j hj => ?_, fun j hj => ?_⟩
    · obtain ⟨hj', hfd, _⟩ := hstays j hj
      obtain ⟨hs, hfd'⟩ := ht.kept j hj'
      exact ⟨hs, hfd.trans hfd'⟩
    · obtain ⟨hj', hfd, _, hwatched⟩ := hstays j hj
      rw [hfd, hwatched, ht.watched j hj']
    · obtain ⟨hj', hfd, hconn, _⟩ := hstays j hj
      rw [hfd, ← ht.opened j hj', State.isOpen, State.isOpen, State.tunFd, State.tunFd, hconn, hv.fds]
  · rwa [heartbeatEntry_of_not_inUse hi]

/-- An entry that is not in use has no descriptor. -/
theorem OneEach.fd_of_not_inUse (h : OneEach s) (hi : ¬ (s.users i).InUse) :
    (s.users i).fd = -1 := by
  cases hr : reserved i with
  | true =>
      have hwhich : i = 0 ∨ i = 1 ∨ i = 255 := by simpa [reserved, or_assoc] using hr
      exact h.idle i (by tauto)
  | false =>
      cases hst : (s.users i).status with
      | true => exact h.idle i (by simp [hst])
      | false => exact absurd (h.inUse_iff.mpr ⟨reserved_eq_false.mp hr, hst⟩) hi

/-- The descriptor an entry started with is never that of another one in use. -/
theorem Underway.fd_ne (h : OneEach s) (ht : Underway s t) (hi : (t.users i).InUse) {j : Slot}
    (hj : j ≠ i) : (s.users j).fd ≠ (t.users i).fd := by
  obtain ⟨hi', hfd⟩ := ht.kept i hi
  rw [hfd]
  intro he
  by_cases hin : (s.users j).InUse
  · exact hj (h.underway.distinct h hi' hin he)
  · rw [h.fd_of_not_inUse hin] at he
    exact ne_neg_one_of_nonneg hi'.1 he.symm

theorem Underway.beat_eq (ht : Underway s t) (hi : (t.users i).InUse) (env : SweepEnv) :
    t.beat env (t.users i).fd i = s.beat env (s.users i).fd i := by
  obtain ⟨_, hfd⟩ := ht.kept i hi
  rw [State.beat, State.beat, ht.opened i hi, hfd]

/-- A visit does to its own entry what it does to it alone. -/
theorem Underway.own (h : OneEach s) (ht : Underway s t) (i : Slot) (htime : env.time i = now)
    (hremoved : env.removed i = true) :
    (heartbeatEntry env t i).entryView (s.users i).fd i =
      (t.entryView (s.users i).fd i).visit (s.beat env (s.users i).fd i) now := by
  by_cases hi : (t.users i).InUse
  · have hv := ht.visited h hi htime hremoved
    have hbeat := ht.beat_eq hi env
    have hfd := (ht.kept i hi).2
    generalize heartbeatEntry env t i = t' at hv
    rw [← hbeat, ← hfd, EntryView.visit, State.entryView, State.entryView, if_pos hi, hv.users,
      Function.update_self, hv.conn, hv.watched, hv.writes]
    simp only [true_and]
    by_cases hlate : (t.users i).Late now
    · simp only [if_pos hlate, Function.update_self]
    · simp only [if_neg hlate]
  · have hout : ¬ (t.entryView (s.users i).fd i).user.InUse := hi
    rw [heartbeatEntry_of_not_inUse hi, EntryView.visit, if_neg hout]

theorem Underway.other (h : OneEach s) (ht : Underway s t) (i : Slot) (htime : env.time i = now)
    (hremoved : env.removed i = true) {j : Slot} (hj : j ≠ i) :
    (heartbeatEntry env t i).entryView (s.users j).fd j = t.entryView (s.users j).fd j := by
  by_cases hi : (t.users i).InUse
  · have hv := ht.visited h hi htime hremoved
    obtain ⟨hconn, hwatched, hwrites⟩ := hv.other (ht.fd_ne h hi hj)
    rw [State.entryView, hconn, hwatched, hwrites, hv.users, Function.update_of_ne hj]
    rfl
  · rw [heartbeatEntry_of_not_inUse hi]

/-- What no entry in use has to do with. -/
theorem Underway.aside (h : OneEach s) (ht : Underway s t) (i : Slot) (htime : env.time i = now)
    (hremoved : env.removed i = true) {x : Fd} (hx : ∀ j, (s.users j).InUse → (s.users j).fd ≠ x) :
    ((heartbeatEntry env t i).conn x, (heartbeatEntry env t i).watched x,
      writesOn x (heartbeatEntry env t i).log) = (t.conn x, t.watched x, writesOn x t.log) := by
  by_cases hi : (t.users i).InUse
  · obtain ⟨hi', hfd⟩ := ht.kept i hi
    have hne : x ≠ (t.users i).fd := by
      rw [hfd]
      exact (hx i hi').symm
    obtain ⟨hconn, hwatched, hwrites⟩ := (ht.visited h hi htime hremoved).other hne
    rw [hconn, hwatched, hwrites]
  · rw [heartbeatEntry_of_not_inUse hi]

theorem Underway.rest (h : OneEach s) (ht : Underway s t) (i : Slot) (htime : env.time i = now)
    (hremoved : env.removed i = true) : ((heartbeatEntry env t i).bufs, (heartbeatEntry env t i).fds,
      (heartbeatEntry env t i).accepted) = (t.bufs, t.fds, t.accepted) := by
  by_cases hi : (t.users i).InUse
  · have hv := ht.visited h hi htime hremoved
    rw [hv.bufs, hv.fds, hv.accepted]
  · rw [heartbeatEntry_of_not_inUse hi]

end Pass

/-- What one pass at `now` makes of `s`. -/
structure HeartbeatPassed (env : SweepEnv) (now : Int) (s s' : State) : Prop where
  /-- The keepalive goes out where it is due, and late entries are freed and closed. -/
  allocated : ∀ i : Slot, 2 ≤ (i : Nat) → (i : Nat) ≤ 254 → (s.users i).status = false →
    s'.users i = (s.users i).passed now ∧
      writesOn (s.users i).fd s'.log = writesOn (s.users i).fd s.log ++
        (if (s.users i).Due now then [s.beat env (s.users i).fd i] else []) ∧
      s'.conn (s.users i).fd = (if (s.users i).Late now then none else s.conn (s.users i).fd) ∧
      s'.watched (s.users i).fd =
        (if (s.users i).Late now then false else s.watched (s.users i).fd)
  others : ∀ i : Slot, ¬ ((2 ≤ (i : Nat) ∧ (i : Nat) ≤ 254) ∧ (s.users i).status = false) →
    s'.users i = s.users i
  elsewhere : ∀ fd, (∀ i : Slot, 2 ≤ (i : Nat) → (i : Nat) ≤ 254 → (s.users i).status = false →
      (s.users i).fd ≠ fd) → s'.conn fd = s.conn fd ∧ s'.watched fd = s.watched fd ∧
    writesOn fd s'.log = writesOn fd s.log
  rest : s'.bufs = s.bufs ∧ s'.fds = s.fds ∧ s'.accepted = s.accepted

/-- With a descriptor for each allocated entry, the pass does to every entry what it would do to it
alone, whatever the writes answer. -/
theorem heartbeat_pass (s : State) (h : OneEach s) (env : SweepEnv) (now : Int)
    (htime : ∀ i, env.time i = now) (hremoved : ∀ i, env.removed i = true) :
    HeartbeatPassed env now s (processHeartbeat env s) := by
  have hkeep : ∀ t i, Underway s t → Underway s (heartbeatEntry env t i) := fun t i ht =>
    ht.visit h i (htime i) (hremoved i)
  have hview : ∀ i, (processHeartbeat env s).entryView (s.users i).fd i =
      (s.entryView (s.users i).fd i).visit (s.beat env (s.users i).fd i) now := by
    intro i
    have hpass := foldl_local (Underway s) (fun t i => t.entryView (s.users i).fd i)
      (fun i v => v.visit (s.beat env (s.users i).fd i) now) hkeep
      (fun t i ht => ht.own h i (htime i) (hremoved i))
      (fun t i j ht hj => ht.other h i (htime i) (hremoved i) hj)
      (List.nodup_finRange clientNum) h.underway i
    rwa [if_pos (List.mem_finRange i)] at hpass
  refine ⟨fun i hlo hhi hst => ?_, fun i hnot => ?_, fun fd hfd => ?_, ?_⟩
  · have hi := hview i
    have hin : (s.users i).InUse := h.inUse_iff.mpr ⟨⟨hlo, hhi⟩, hst⟩
    rw [EntryView.visit, State.entryView, State.entryView, if_pos hin] at hi
    obtain ⟨huser, hconn, hwatched, hwrites⟩ := EntryView.mk.inj hi
    exact ⟨huser, hwrites, hconn, hwatched⟩
  · have hi := hview i
    have hout : ¬ (s.users i).InUse := fun hin => hnot (h.inUse_iff.mp hin)
    rw [EntryView.visit, State.entryView, State.entryView, if_neg hout] at hi
    exact (EntryView.mk.inj hi).1
  · have hx : ∀ j, (s.users j).InUse → (s.users j).fd ≠ fd := by
      intro j hj
      obtain ⟨⟨hlo, hhi⟩, hst⟩ := h.inUse_iff.mp hj
      exact hfd j hlo hhi hst
    have hpass := foldl_frame (Underway s) (fun t => (t.conn fd, t.watched fd, writesOn fd t.log))
      hkeep (fun t i ht => ht.aside h i (htime i) (hremoved i) hx) (List.finRange clientNum)
      h.underway
    rw [← processHeartbeat] at hpass
    obtain ⟨hconn, hpair⟩ := Prod.mk.inj hpass
    exact ⟨hconn, Prod.mk.inj hpair⟩
  · have hpass := foldl_frame (Underway s) (fun t => (t.bufs, t.fds, t.accepted)) hkeep
      (fun t i ht => ht.rest h i (htime i) (hremoved i)) (List.finRange clientNum) h.underway
    rw [← processHeartbeat] at hpass
    obtain ⟨hbufs, hpair⟩ := Prod.mk.inj hpass
    exact ⟨hbufs, Prod.mk.inj hpair⟩

/-- While nobody has been granted a second entry the table is such a one. -/
theorem Ledger.oneEach {s : State} (h : Ledger s) (hcs : Connections s) : OneEach s := by
  have hclient : ∀ {i : Slot}, 2 ≤ (i : Nat) → (i : Nat) ≤ 254 → (s.users i).status = false →
      0 ≤ (s.users i).fd ∧ s.watched (s.users i).fd = true := by
    intro i hlo hhi hst
    have hw := h.live i (reserved_eq_false.mpr ⟨hlo, hhi⟩) hst
    obtain ⟨c, hc⟩ := hcs.watchedOpen _ hw
    exact ⟨(hcs.client _ c hc).1, hw⟩
  refine ⟨fun i hlo hhi hst => hclient hlo hhi hst, ?_, ?_⟩
  · intro i j hlo hhi hlo' hhi' hsi hsj hfd
    exact h.single (s.users i).fd (hclient hlo hhi hsi).1 i j ⟨rfl, hsi⟩ ⟨hfd.symm, hsj⟩
  · intro i hi
    by_cases hst : (s.users i).status = true
    · exact h.free i hst
    · have hres : reserved i = true := by
        rcases hi with rfl | rfl | rfl | hfree
        · rfl
        · rfl
        · rfl
        · exact absurd hfree hst
      exact (h.withheld i hres).2

/-- Two clients that have been silent for a minute. -/
theorem heartbeat_pass_twoHolders : ∃ s, runFrom .usual twoHolders = some s ∧
    HeartbeatPassed (.prompt 61) 61 s (processHeartbeat (.prompt 61) s) := by
  have hrun : ((runFrom .usual twoHolders).any fun s =>
      decide (SingleGrants s.log)) = true := by decide +kernel
  obtain ⟨s, hs, hfacts⟩ := (Option.any_eq_true _ _).mp hrun
  obtain ⟨hcs, hledger⟩ := runFrom_ledger hs (of_decide_eq_true hfacts)
  exact ⟨s, hs, heartbeat_pass s (hledger.oneEach hcs) (.prompt 61) 61 (fun _ => rfl) fun _ => rfl⟩

end Over6.Server
