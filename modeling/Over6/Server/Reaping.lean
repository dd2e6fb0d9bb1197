import Over6.Server.Indices
import Over6.Server.Eviction
import Over6.Server.HeartbeatPass

/-! # Silent connections

The heartbeat pass goes over the table, not over the descriptors epoll watches. What
an entry says about its connection is right: its clock shows a sign of life of that
connection, or a time before it was accepted. A connection without an entry is not
looked at.
-/

namespace Over6.Server

open BoundedLoop EventRun

/-! ## Runs with a clock -/

/-- The clock shows `now` when the call is over; a heartbeat pass reads it once. -/
def Event.ReadsBy (now : Int) : Event → Prop
  | .client _ _ env _ _ => ∀ k, (env k).time₁ ≤ now ∧ (env k).time₂ ≤ now
  | .heartbeat env => ∀ i, env.time i = now
  | .server _ | .tun _ _ _ => True

def Event.Removes : Event → Prop
  | .client _ _ _ removed _ => removed = true
  | .heartbeat env => ∀ i, env.removed i = true
  | .server _ | .tun _ _ _ => True

abbrev TimedEvent := Int × Event

def Timed : Int → List TimedEvent → Prop
  | _, [] => True
  | start, (now, e) :: es => start ≤ now ∧ e.ReadsBy now ∧ Timed now es

def untimed (es : List TimedEvent) : List Event := es.map Prod.snd

def acceptTimes (es : List TimedEvent) : List Int :=
  es.filterMap fun e =>
    match e.2 with
    | .server (some _) => some e.1
    | _ => none

/-! ## Signs of life -/

def SignedAt (c : Conn) (t : Int) (log : List Record) : Prop :=
  ∃ r ∈ log, r.conn = some c ∧ ((∃ i, r.act = .granted i t) ∨ ∃ id, r.act = .kept id t)

def KeptAt (c : Conn) (t : Int) (log : List Record) : Prop :=
  ∃ r ∈ log, r.conn = some c ∧ ∃ id, r.act = .kept id t

def AcceptedAt (c : Conn) (t : Int) (accepts : List Int) : Prop := accepts[c]? = some t

def Recent (now t : Int) : Prop := now - t ≤ heartbeatTimeout

instance (now t : Int) : Decidable (Recent now t) := inferInstanceAs (Decidable (_ ≤ _))

/-- Whatever epoll watches was accepted, was granted an address or was heard from of late. -/
def Reaped (accepts : List Int) (now : Int) (s : State) : Prop :=
  ∀ fd, s.watched fd = true → ∃ c, s.conn fd = some c ∧
    ((∃ t, AcceptedAt c t accepts ∧ Recent now t) ∨ ∃ t, SignedAt c t s.log ∧ Recent now t)

/-- Whoever owns no entry was accepted of late, or a keepalive of it was handled. -/
def StrangersRecent (accepts : List Int) (now : Int) (s : State) : Prop :=
  ∀ fd c, s.watched fd = true → s.conn fd = some c → (∀ i, ¬ Owns s.users fd i) →
    (∃ t, AcceptedAt c t accepts ∧ Recent now t) ∨ ∃ t, KeptAt c t s.log ∧ Recent now t

theorem SignedAt.later {c : Conn} {t : Int} {log log' : List Record} (h : SignedAt c t log)
    (hlater : log <:+ log') : SignedAt c t log' := by
  obtain ⟨r, hr, hsign⟩ := h
  exact ⟨r, hlater.subset hr, hsign⟩

/-! ## Freeing a descriptor -/

/-- The entry that is given back belongs to nobody. -/
theorem State.owns_of_freed (s : State) {fd x : Fd} {i : Slot} (h : Owns (s.freed fd).users x i) :
    Owns s.users x i := by
  rw [(s.freed_spec fd).1, releaseFirst] at h
  cases hsearch : searchUserInfoByFd s.users fd with
  | none =>
      rw [hsearch] at h
      exact h
  | some j =>
      simp only [hsearch] at h
      by_cases hij : i = j
      · have hst := h.2
        rw [hij, Function.update_self] at hst
        cases hst
      · rwa [Owns, Function.update_of_ne hij] at h

/-- Entries of other descriptors stay theirs. -/
theorem State.owns_freed (s : State) {fd x : Fd} (hx : x ≠ fd) {i : Slot} (h : Owns s.users x i) :
    Owns (s.freed fd).users x i := by
  rw [(s.freed_spec fd).1, releaseFirst]
  cases hsearch : searchUserInfoByFd s.users fd with
  | none => exact h
  | some j =>
      have hij : i ≠ j := by
        rintro rfl
        exact hx (h.1.symm.trans (searchUserInfoByFd_eq_some.mp hsearch).1.1)
      simp only
      rwa [Owns, Function.update_of_ne hij]

/-! ## What the clocks of the table say -/

/-- An entry of an open connection shows a sign of life of it or a time before it was accepted, no
clock is ahead, and who was granted an entry has one. -/
structure Dated (accepts : List Int) (now : Int) (s : State) : Prop where
  count : s.accepted = accepts.length
  signs : ∀ fd c i, s.conn fd = some c → Owns s.users fd i →
    (∃ t, AcceptedAt c t accepts ∧ (s.users i).lastHeartbeatRecvedSecs ≤ t) ∨
      SignedAt c (s.users i).lastHeartbeatRecvedSecs s.log
  past : ∀ fd i, 0 ≤ fd → Owns s.users fd i → (s.users i).lastHeartbeatRecvedSecs ≤ now
  granted : ∀ fd c, s.conn fd = some c → (∃ r ∈ s.log, r.conn = some c ∧ r.act.isGranted = true) →
    ∃ i, Owns s.users fd i

namespace Dated

variable {accepts : List Int} {now : Int} {s s' : State}

theorem initState (fds : Descriptors) (start : Int) : Dated [] start (initState fds) := by
  have hclosed : ∀ fd c, (Server.initState fds).conn fd ≠ some c := fun _ _ h => nomatch h
  refine ⟨rfl, ?_, ?_, ?_⟩
  · intro fd c i hc _
    exact absurd hc (hclosed fd c)
  · intro fd i hfd hi
    have hneg : (-1 : Int) = fd := hi.1
    exact absurd hneg.symm (ne_neg_one_of_nonneg hfd)
  · intro fd c hc _
    exact absurd hc (hclosed fd c)

theorem mono (h : Dated accepts now s) {later : Int} (hle : now ≤ later) : Dated accepts later s :=
  ⟨h.count, h.signs, fun fd i hfd hi => Int.le_trans (h.past fd i hfd hi) hle, h.granted⟩

/-- Records that are no grant, and entries that are left alone. -/
theorem frame (h : Dated accepts now s) (hconn : s'.conn = s.conn)
    (haccepted : s'.accepted = s.accepted) (howner : ∀ i, (s.users i).SameOwner (s'.users i))
    (hrecved : ∀ i, (s'.users i).lastHeartbeatRecvedSecs = (s.users i).lastHeartbeatRecvedSecs)
    {new : List Record} (hlog : s'.log = new ++ s.log)
    (hnew : ∀ r ∈ new, r.act.isGranted = false) : Dated accepts now s' := by
  have howns : ∀ fd i, Owns s'.users fd i ↔ Owns s.users fd i := by
    intro fd i
    obtain ⟨_, hs, hf, _⟩ := howner i
    rw [Owns, Owns, hs, hf]
  have hlater : s.log <:+ s'.log := ⟨new, hlog.symm⟩
  refine ⟨haccepted.trans h.count, ?_, ?_, ?_⟩
  · intro fd c i hc hi
    rw [hrecved]
    rcases h.signs fd c i (hconn ▸ hc) ((howns fd i).mp hi) with hacc | hsign
    · exact .inl hacc
    · exact .inr (hsign.later hlater)
  · intro fd i hfd hi
    rw [hrecved]
    exact h.past fd i hfd ((howns fd i).mp hi)
  · intro fd c hc hgranted
    obtain ⟨r, hr, hrc, hact⟩ := hgranted
    rw [hlog] at hr
    rcases List.mem_append.mp hr with hr | hr
    · rw [hnew r hr] at hact
      cases hact
    · obtain ⟨i, hi⟩ := h.granted fd c (hconn ▸ hc) ⟨r, hr, hrc, hact⟩
      exact ⟨i, (howns fd i).mpr hi⟩

theorem note (h : Dated accepts now s) (fd : Fd) {act : Act} (hact : act.isGranted = false := by rfl) :
    Dated accepts now (s.note fd act) := by
  have hlog : (s.note fd act).log = [⟨s.conn fd, fd, act⟩] ++ s.log := rfl
  refine h.frame rfl rfl (fun _ => ⟨rfl, rfl, rfl, rfl⟩) (fun _ => rfl) hlog fun r hr => ?_
  rw [List.mem_singleton.mp hr]
  exact hact

theorem setBuf (h : Dated accepts now s) (fd : Fd) (e : BufferEntry) :
    Dated accepts now (s.setBuf fd e) := ⟨h.count, h.signs, h.past, h.granted⟩

/-- The clock of one entry is set when its connection shows a sign of life. -/
theorem signed (h : Dated accepts now s) {fd : Fd} {c : Conn} (hc : s.conn fd = some c) {i : Slot}
    (hconn : s'.conn = s.conn) (haccepted : s'.accepted = s.accepted)
    (hother : ∀ j, j ≠ i → s'.users j = s.users j) (hfd : (s'.users i).fd = fd)
    (htime : (s'.users i).lastHeartbeatRecvedSecs ≤ now) (hlater : s.log <:+ s'.log)
    (hsign : SignedAt c (s'.users i).lastHeartbeatRecvedSecs s'.log)
    (hgranted : ∀ fd c, s'.conn fd = some c →
      (∃ r ∈ s'.log, r.conn = some c ∧ r.act.isGranted = true) → ∃ i, Owns s'.users fd i) :
    Dated accepts now s' := by
  have hold : ∀ x j, j ≠ i → Owns s'.users x j → Owns s.users x j := by
    intro x j hji hj
    rwa [Owns, hother j hji] at hj
  refine ⟨haccepted.trans h.count, ?_, ?_, hgranted⟩
  · intro x d j hd hj
    by_cases hji : j = i
    · have hx : fd = x := by
        rw [← hfd, ← hji]
        exact hj.1
      obtain rfl : c = d := by
        rw [hconn, ← hx, hc] at hd
        exact Option.some.inj hd
      exact .inr (hji ▸ hsign)
    · rw [hother j hji]
      rcases h.signs x d j (hconn ▸ hd) (hold x j hji hj) with hacc | hsign
      · exact .inl hacc
      · exact .inr (hsign.later hlater)
  · intro x j hx hj
    by_cases hji : j = i
    · rw [hji]
      exact htime
    · rw [hother j hji]
      exact h.past x j hx (hold x j hji hj)

theorem grantTo (h : Dated accepts now s) (hcs : Connections s) {env : FrameEnv} {fd : Fd} {c : Conn}
    (hc : s.conn fd = some c) (htime : env.time₂ ≤ now) {i : Slot}
    (hfree : firstFree s.users = some i) : Dated accepts now (s.grantTo env fd i) := by
  have hself : (s.grantTo env fd i).users i = (s.users i).grant fd env.time₁ env.time₂ :=
    Function.update_self ..
  have hother : ∀ j, j ≠ i → (s.grantTo env fd i).users j = s.users j := fun j hj =>
    Function.update_of_ne hj ..
  refine h.signed hc rfl rfl hother ?_ ?_ (List.suffix_append [_, _] s.log) ?_ ?_
  · rw [hself]
    rfl
  · rw [hself]
    exact htime
  · rw [hself]
    exact ⟨_, List.mem_cons_self, hc, .inl ⟨i, rfl⟩⟩
  · intro x d hd ⟨r, hr, hrd, hact⟩
    by_cases hx : x = fd
    · refine ⟨i, ?_⟩
      rw [Owns, hself, hx]
      exact ⟨rfl, rfl⟩
    · have hold : r ∈ s.log := by
        have hdc : s.conn fd ≠ some d := fun he => hx (hcs.unique x fd d hd he)
        rcases List.mem_cons.mp hr with rfl | hr
        · exact absurd hrd hdc
        · rcases List.mem_cons.mp hr with rfl | hr
          · cases hact
          · exact hr
      obtain ⟨j, hj⟩ := h.granted x d hd ⟨r, hold, hrd, hact⟩
      have hji : j ≠ i := by
        rintro rfl
        exact absurd (hj.2.symm.trans (firstFree_eq_some.mp hfree).1) (by decide)
      exact ⟨j, by rw [Owns, hother j hji]; exact hj⟩

theorem keep (h : Dated accepts now s) {env : FrameEnv} {fd : Fd} {c : Conn}
    (hc : s.conn fd = some c) (htime : env.time₁ ≤ now) {i : Slot}
    (hsome : searchUserInfoByFd s.users fd = some i) :
    Dated accepts now ((s.note fd (.kept (some i) env.time₁)).setUser i
      { s.users i with lastHeartbeatRecvedSecs := env.time₁ }) := by
  have hfd : (s.users i).fd = fd := (searchUserInfoByFd_eq_some.mp hsome).1.1
  have hnoted : Dated accepts now (s.note fd (.kept (some i) env.time₁)) := h.note fd
  have hself : ((s.note fd (.kept (some i) env.time₁)).setUser i
      { s.users i with lastHeartbeatRecvedSecs := env.time₁ }).users i =
        { s.users i with lastHeartbeatRecvedSecs := env.time₁ } := Function.update_self ..
  have hother : ∀ j, j ≠ i → ((s.note fd (.kept (some i) env.time₁)).setUser i
      { s.users i with lastHeartbeatRecvedSecs := env.time₁ }).users j = s.users j := fun j hj =>
    Function.update_of_ne hj ..
  refine hnoted.signed hc rfl rfl hother ?_ ?_ (List.suffix_refl _) ?_ ?_
  · rw [hself]
    exact hfd
  · rw [hself]
    exact htime
  · rw [hself]
    exact ⟨_, List.mem_cons_self, hc, .inr ⟨some i, rfl⟩⟩
  · intro x d hd hgranted
    obtain ⟨j, hj⟩ := hnoted.granted x d hd hgranted
    refine ⟨j, ?_⟩
    by_cases hji : j = i
    · rw [Owns, hji, hself]
      rw [hji] at hj
      exact hj
    · rw [Owns, hother j hji]
      exact hj

theorem freed (h : Dated accepts now s) (fd : Fd) : Dated accepts now (s.freed fd) := by
  obtain ⟨_, _, _, hconn, _, haccepted⟩ := s.freed_spec fd
  obtain ⟨new, hlog, _, hnew⟩ := s.freed_log fd
  have hstill : ∀ x c, (s.freed fd).conn x = some c → x ≠ fd ∧ s.conn x = some c := by
    intro x c hx
    rw [hconn] at hx
    by_cases hxf : x = fd
    · rw [hxf, Function.update_self] at hx
      cases hx
    · rw [Function.update_of_ne hxf] at hx
      exact ⟨hxf, hx⟩
  refine ⟨haccepted.trans h.count, ?_, ?_, ?_⟩
  · intro x c i hc hi
    rw [s.freed_recved fd i]
    rcases h.signs x c i (hstill x c hc).2 (s.owns_of_freed hi) with hacc | hsign
    · exact .inl hacc
    · exact .inr (hsign.later ⟨new, hlog.symm⟩)
  · intro x i hx hi
    rw [s.freed_recved fd i]
    exact h.past x i hx (s.owns_of_freed hi)
  · intro x c hc ⟨r, hr, hrc, hact⟩
    obtain ⟨hxf, hc⟩ := hstill x c hc
    have hold : r ∈ s.log := by
      rw [hlog] at hr
      rcases List.mem_append.mp hr with hr | hr
      · rcases (hnew r hr).2.2 with hclosed | ⟨i, hreleased⟩
        · rw [hclosed] at hact
          cases hact
        · rw [hreleased] at hact
          cases hact
      · exact hr
    obtain ⟨i, hi⟩ := h.granted x c hc ⟨r, hold, hrc, hact⟩
    exact ⟨i, s.owns_freed hxf hi⟩

theorem accept (h : Dated accepts now s) (hcs : Connections s) {fd : Fd} (hcan : s.CanAccept fd)
    (added : Bool) : Dated (accepts ++ [now]) now (processServer fd added s) := by
  have hlog : (processServer fd added s).log =
      ⟨Function.update s.conn fd (some s.accepted) fd, fd, .accepted⟩ :: s.log := rfl
  have husers : (processServer fd added s).users = s.users := rfl
  have hold : ∀ c t, AcceptedAt c t accepts → AcceptedAt c t (accepts ++ [now]) := by
    intro c t ht
    have hlt : c < accepts.length := (List.getElem?_eq_some_iff.mp ht).1
    rw [AcceptedAt, List.getElem?_append_left hlt]
    exact ht
  refine ⟨?_, ?_, h.past, ?_⟩
  · change s.accepted + 1 = (accepts ++ [now]).length
    rw [List.length_append, List.length_singleton, h.count]
  · intro x c i hc hi
    rcases processServer_conn hc with ⟨hx, hcnew⟩ | ⟨_, hc⟩
    · -- What the new connection finds on its number is older than itself.
      left
      refine ⟨now, ?_, h.past x i (hx ▸ hcan.1) hi⟩
      rw [AcceptedAt, hcnew, h.count, List.getElem?_concat_length]
    · rcases h.signs x c i hc hi with ⟨t, hacc, hle⟩ | hsign
      · exact .inl ⟨t, hold c t hacc, hle⟩
      · exact .inr (hsign.later (List.suffix_cons _ _))
  · intro x c hc ⟨r, hr, hrc, hact⟩
    rw [hlog] at hr
    rcases List.mem_cons.mp hr with rfl | hr
    · cases hact
    · rcases processServer_conn hc with ⟨_, hcnew⟩ | ⟨_, hc⟩
      · have hlt := hcs.logged r hr c hrc
        rw [hcnew] at hlt
        exact absurd hlt (Nat.lt_irrefl _)
      · exact h.granted x c hc ⟨r, hr, hrc, hact⟩

theorem dispatch (h : Dated accepts now s) (hcs : Connections s) {env : FrameEnv} {fd : Fd} {c : Conn}
    (hc : s.conn fd = some c) (htime : env.time₁ ≤ now ∧ env.time₂ ≤ now) {msg : Message}
    {flow : Flow State} (hd : Dispatch env fd msg s flow) : Dated accepts now flow.state := by
  have hgrant : ∀ {i}, firstFree s.users = some i → Dated accepts now (s.grantTo env fd i) :=
    fun hfree => h.grantTo hcs hc htime.2 hfree
  cases hd with
  | poolFull => exact (h.note fd).note fd
  | replyHeader _ i hi => exact ((hgrant hi).note fd).note fd
  | replyData _ i hi => exact (((hgrant hi).note fd).note fd).note fd
  | replied _ i hi => exact (((hgrant hi).note fd).note fd).note fd
  | tunData => exact ((h.note fd).note _).note fd
  | forwarded => exact (h.note fd).note _
  | stray => exact h.note fd
  | kept _ i hsome => exact h.keep hc htime.1 hsome
  | unknown => exact h

theorem parse (h : Dated accepts now s) (hcs : Connections s) {env : FrameEnv} {fd : Fd} {c : Conn}
    (hc : s.conn fd = some c) (htime : env.time₁ ≤ now ∧ env.time₂ ≤ now) {flow : Flow State}
    (hp : Parse env fd s flow) (hs : flow = .next s' ∨ flow = .stop s') : Dated accepts now s' := by
  cases hp with
  | waits =>
      obtain rfl : s = s' := by simpa using hs
      exact h
  | left _ hframe =>
      obtain rfl := Flow.stop.inj (hs.resolve_left (by simp))
      exact h.dispatch hcs hc htime hframe
  | passed _ hframe _ =>
      obtain rfl := Flow.next.inj (hs.resolve_right (by simp))
      have ht := h.dispatch hcs hc htime hframe
      exact ((((ht.note fd).note fd).setBuf fd _).note fd)
  | overran => simp at hs

theorem parseLoop (h : Dated accepts now s) (hcs : Connections s) {env : Nat → FrameEnv} {fd : Fd}
    {c : Conn} (hc : s.conn fd = some c)
    (htime : ∀ k, (env k).time₁ ≤ now ∧ (env k).time₂ ≤ now) {fuel k : Nat}
    (hloop : iterate (fun k => parseOnce (env k) fd) fuel k s = .stopped s') :
    Dated accepts now s' := by
  let Fine (t : State) : Prop := Connections t ∧ t.conn fd = some c ∧ Dated accepts now t
  have hpass : ∀ k t t' flow, Fine t → parseOnce (env k) fd t = flow →
      flow = .next t' ∨ flow = .stop t' → Fine t' := by
    intro k t t' flow ⟨ht, hct, hdt⟩ hb hflow
    have hparse : Parse (env k) fd t flow := hb ▸ parseOnce_parse (env k) fd t
    have hquiet := hparse.quiet hflow
    exact ⟨ht.quiet hquiet, (congrFun hquiet.conn fd).trans hct, hdt.parse ht hct (htime k) hparse hflow⟩
  have hchain : Relation.ReflTransGen (fun _ t' => Fine t') s s' := by
    apply iterate_reaches (fun _ t' => Fine t') Fine _ _ ⟨hcs, hc, h⟩ hloop
    · intro k t t' ht hb
      exact ⟨hpass k t t' _ ht hb (.inl rfl), hpass k t t' _ ht hb (.inl rfl)⟩
    · intro k t t' ht hb
      exact hpass k t t' _ ht hb (.inr rfl)
  rcases Relation.ReflTransGen.cases_tail hchain with rfl | ⟨_, _, hfine⟩
  · exact h
  · exact hfine.2.2

theorem swept (h : Dated accepts now s) (env : SweepEnv) (i : Slot) :
    Dated accepts now (s.swept env i) := by
  have hquiet := s.swept_quiet env i
  obtain ⟨new, hlog, hnew⟩ := hquiet.log
  refine h.frame hquiet.conn hquiet.accepted (s.swept_steady env i).owner
    (fun j => s.swept_recved env i j) hlog fun r hr => ?_
  have hact := (hnew r hr).2
  cases hgranted : r.act with
  | granted => rw [hgranted] at hact; exact hact.elim
  | _ => rfl

theorem heartbeatEntry (h : Dated accepts now s) (env : SweepEnv) (i : Slot) :
    Dated accepts now (heartbeatEntry env s i) := by
  have hsweep := heartbeatEntry_sweep env i s
  generalize Server.heartbeatEntry env s i = s' at hsweep
  cases hsweep with
  | skipped => exact h
  | spared => exact h.swept env i
  | stuck => exact h.swept env i
  | evicted => exact (h.swept env i).freed _

theorem sweep (h : Dated accepts now s) (env : SweepEnv) (entries : List Slot) :
    Dated accepts now (entries.foldl (Server.heartbeatEntry env) s) := by
  induction entries generalizing s with
  | nil => exact h
  | cons i entries ih => exact ih (h.heartbeatEntry env i)

theorem processTun (h : Dated accepts now s) {r : ReadResult} {env : Nat → RouteEnv} {fuel : Nat}
    (hcall : processTun r env fuel s = .stopped s') : Dated accepts now s' := by
  cases r with
  | error =>
      obtain rfl := Outcome.stopped.inj hcall
      exact h
  | bytes bs =>
      have hread : Dated accepts now (receive s.tunFd bs s) := (h.setBuf _ _).note _
      have hpass : ∀ k t, Dated accepts now t → Dated accepts now (routeOnce (env k) t).state := by
        intro k t ht
        have hroute := routeOnce_route (env k) t
        generalize routeOnce (env k) t = flow at hroute
        cases hroute with
        | drained => exact ht
        | nobody => exact ht
        | header => exact ht.note _
        | packet => exact (ht.note _).note _
        | routed => exact (((ht.note _).note _).setBuf _ _).note _
      have hloop := iterate_invariant (Dated accepts now) hpass fuel 0 _ hread
      change Dated accepts now (Server.processTun (.bytes bs) env fuel s).state at hloop
      rwa [hcall] at hloop

/-- What one call leaves of it. -/
theorem step (h : Dated accepts now s) (hcs : Connections s) {later : Int} {e : Event}
    (hle : now ≤ later) (hreads : e.ReadsBy later) (hstep : step s e = some s') :
    Dated (accepts ++ acceptTimes [(later, e)]) later s' := by
  have hlater := h.mono hle
  have hcall := step_call hstep
  cases hcall with
  | refused => simpa [acceptTimes] using hlater
  | accepted fd added hcan => exact hlater.accept hcs hcan added
  | tun r env fuel _ htun => simpa [acceptTimes] using hlater.processTun htun
  | ended fd r env removed fuel hw _ =>
      have hfreed : Dated accepts later (freeClientFd removed fd s) := by
        rcases freeClientFd_cases removed fd s with hf | ⟨_, hf⟩
        · rwa [hf]
        · rw [hf]
          exact hlater.freed fd
      simpa [acceptTimes] using hfreed
  | read fd bs env removed fuel hw _ hloop =>
      obtain ⟨c, hc⟩ := hcs.watchedOpen fd hw
      have hquiet : Quiet (fun _ => True) s (readClient fd bs s) :=
        (((Quiet.refl s).note fd).setBuf fd _).note fd
      have hread : Dated accepts later (readClient fd bs s) := ((hlater.note fd).setBuf fd _).note fd
      have hdone := hread.parseLoop (hcs.quiet hquiet) hc hreads hloop
      simpa [acceptTimes] using hdone
  | heartbeat env =>
      have hpass : Dated accepts later (processHeartbeat env s) := hlater.sweep env _
      rw [acceptTimes, List.filterMap_cons_none rfl, List.filterMap_nil, List.append_nil]
      exact hpass

end Dated

/-! ## A pass over the table and one descriptor -/

structure Stays (fd : Fd) (s s' : State) : Prop where
  conn : s'.conn fd = s.conn fd
  watched : s'.watched fd = s.watched fd
  owns : ∀ i, Owns s'.users fd i ↔ Owns s.users fd i
  recved : ∀ i, (s'.users i).lastHeartbeatRecvedSecs = (s.users i).lastHeartbeatRecvedSecs

namespace Stays

variable {fd : Fd} {s t s' : State}

theorem refl (fd : Fd) (s : State) : Stays fd s s := ⟨rfl, rfl, fun _ => Iff.rfl, fun _ => rfl⟩

theorem trans (h : Stays fd s t) (h' : Stays fd t s') : Stays fd s s' :=
  ⟨h'.conn.trans h.conn, h'.watched.trans h.watched, fun i => (h'.owns i).trans (h.owns i),
    fun i => (h'.recved i).trans (h.recved i)⟩

theorem swept (fd : Fd) (s : State) (env : SweepEnv) (i : Slot) : Stays fd s (s.swept env i) := by
  have hquiet := s.swept_quiet env i
  exact ⟨congrFun hquiet.conn fd, congrFun hquiet.watched fd,
    fun _ => (s.swept_steady env i).owns_iff, fun j => s.swept_recved env i j⟩

theorem freed (s : State) {x : Fd} (h : fd ≠ x) : Stays fd s (s.freed x) := by
  obtain ⟨_, _, _, hconn, hwatched, _⟩ := s.freed_spec x
  refine ⟨?_, ?_, fun i => ⟨s.owns_of_freed, s.owns_freed h⟩, s.freed_recved x⟩
  · rw [hconn, Function.update_of_ne h]
  · rw [hwatched, Function.update_of_ne h]

end Stays

section Sweep

variable {s : State} {env : SweepEnv} {now : Int} {fd : Fd}

/-- What the visit to entry `i` means for a descriptor that is watched. -/
theorem heartbeatEntry_fd (hw : s.watched fd = true) (hpos : 0 ≤ fd) (i : Slot)
    (htime : env.time i = now) (hremoved : env.removed i = true) :
    (Stays fd s (heartbeatEntry env s i) ∧
        (Owns s.users fd i → Recent now (s.users i).lastHeartbeatRecvedSecs)) ∨
      ((heartbeatEntry env s i).watched fd = false ∧ Owns s.users fd i) := by
  by_cases hfd : (s.users i).fd = fd
  · by_cases hin : (s.users i).InUse
    · by_cases hlate : (s.users i).Late now
      · right
        rw [heartbeatEntry_of_late hin htime hlate hremoved (hfd ▸ hw),
          ((s.swept env i).freed_spec _).2.2.2.2.1, hfd, Function.update_self]
        exact ⟨rfl, hfd, hin.2⟩
      · left
        rw [heartbeatEntry_of_recent hin htime hlate]
        exact ⟨Stays.swept fd s env i, fun _ => Int.not_lt.mp hlate⟩
    · left
      rw [heartbeatEntry_of_not_inUse hin]
      exact ⟨Stays.refl fd s, fun howns => absurd ⟨hfd ▸ hpos, howns.2⟩ hin⟩
  · refine .inl ⟨?_, fun howns => absurd howns.1 hfd⟩
    have hsweep := heartbeatEntry_sweep env i s
    generalize heartbeatEntry env s i = s' at hsweep
    cases hsweep with
    | skipped => exact Stays.refl fd s
    | spared => exact Stays.swept fd s env i
    | stuck => exact Stays.swept fd s env i
    | evicted => exact (Stays.swept fd s env i).trans (Stays.freed _ (Ne.symm hfd))

/-- Nothing is put under watch. -/
theorem heartbeatEntry_unwatched (hw : s.watched fd = false) (i : Slot) :
    (heartbeatEntry env s i).watched fd = false := by
  have hswept : (s.swept env i).watched fd = false := by rw [(s.swept_quiet env i).watched, hw]
  have hsweep := heartbeatEntry_sweep env i s
  generalize heartbeatEntry env s i = s' at hsweep
  cases hsweep with
  | skipped => exact hw
  | spared => exact hswept
  | stuck => exact hswept
  | evicted =>
      rw [((s.swept env i).freed_spec _).2.2.2.2.1]
      by_cases hfd : fd = (s.users i).fd
      · rw [hfd, Function.update_self]
      · rw [Function.update_of_ne hfd, hswept]

theorem sweep_unwatched (hw : s.watched fd = false) (entries : List Slot) :
    (entries.foldl (heartbeatEntry env) s).watched fd = false := by
  induction entries generalizing s with
  | nil => exact hw
  | cons i entries ih => exact ih (heartbeatEntry_unwatched hw i)

/-- A descriptor that is watched is left alone and owns nothing late, or it is gone and owned
something. -/
theorem sweep_fd (hw : s.watched fd = true) (hpos : 0 ≤ fd) (htime : ∀ i, env.time i = now)
    (hremoved : ∀ i, env.removed i = true) (entries : List Slot) :
    (Stays fd s (entries.foldl (heartbeatEntry env) s) ∧
        ∀ i ∈ entries, Owns s.users fd i → Recent now (s.users i).lastHeartbeatRecvedSecs) ∨
      ((entries.foldl (heartbeatEntry env) s).watched fd = false ∧ ∃ i, Owns s.users fd i) := by
  induction entries generalizing s with
  | nil => exact .inl ⟨Stays.refl fd s, fun i hi => absurd hi List.not_mem_nil⟩
  | cons i entries ih =>
      rw [List.foldl_cons]
      rcases heartbeatEntry_fd hw hpos i (htime i) (hremoved i) with ⟨hstays, hrecent⟩ | ⟨hgone, howns⟩
      · rcases ih (hstays.watched.trans hw) with ⟨hstays', hrecent'⟩ | ⟨hgone, j, hj⟩
        · refine .inl ⟨hstays.trans hstays', fun j hj howns => ?_⟩
          rcases List.mem_cons.mp hj with rfl | hj
          · exact hrecent howns
          · rw [← hstays.recved j]
            exact hrecent' j hj ((hstays.owns j).mpr howns)
        · exact .inr ⟨hgone, j, (hstays.owns j).mp hj⟩
      · exact .inr ⟨sweep_unwatched hgone entries, i, howns⟩

theorem heartbeatEntry_signs (env : SweepEnv) (s : State) (i : Slot) :
    ∃ new, (heartbeatEntry env s i).log = new ++ s.log ∧ ∀ r ∈ new, r.act.isSign = false := by
  obtain ⟨new, hlog, hnew⟩ := (s.swept_quiet env i).log
  have hquiet : ∀ r ∈ new, r.act.isSign = false := by
    intro r hr
    have hact := (hnew r hr).2
    cases hsign : r.act with
    | granted => rw [hsign] at hact; exact hact.elim
    | kept => rw [hsign] at hact; exact hact.elim
    | _ => rfl
  have hsweep := heartbeatEntry_sweep env i s
  generalize heartbeatEntry env s i = s' at hsweep
  cases hsweep with
  | skipped => exact ⟨[], rfl, fun r hr => absurd hr List.not_mem_nil⟩
  | spared => exact ⟨new, hlog, hquiet⟩
  | stuck => exact ⟨new, hlog, hquiet⟩
  | evicted =>
      obtain ⟨closing, hfreed, _, hclosing⟩ := (s.swept env i).freed_log (s.users i).fd
      refine ⟨closing ++ new, by rw [hfreed, hlog, List.append_assoc], fun r hr => ?_⟩
      rcases List.mem_append.mp hr with hr | hr
      · rcases (hclosing r hr).2.2 with hact | ⟨j, hact⟩
        · rw [hact]
          rfl
        · rw [hact]
          rfl
      · exact hquiet r hr

/-- A pass over the table is no sign of life. -/
theorem sweep_signs (env : SweepEnv) (entries : List Slot) (s : State) :
    ∃ new, (entries.foldl (heartbeatEntry env) s).log = new ++ s.log ∧
      ∀ r ∈ new, r.act.isSign = false := by
  induction entries generalizing s with
  | nil => exact ⟨[], rfl, fun r hr => absurd hr List.not_mem_nil⟩
  | cons i entries ih =>
      obtain ⟨first, hfirst, hquiet⟩ := heartbeatEntry_signs env s i
      obtain ⟨rest, hrest, hquiet'⟩ := ih (heartbeatEntry env s i)
      refine ⟨rest ++ first, ?_, fun r hr => ?_⟩
      · rw [List.foldl_cons, hrest, hfirst, List.append_assoc]
      · rcases List.mem_append.mp hr with hr | hr
        · exact hquiet' r hr
        · exact hquiet r hr

theorem SignedAt.earlier {c : Conn} {t : Int} {log new : List Record}
    (hnew : ∀ r ∈ new, r.act.isSign = false) (h : SignedAt c t (new ++ log)) : SignedAt c t log := by
  obtain ⟨r, hr, hc, hact⟩ := h
  rcases List.mem_append.mp hr with hr | hr
  · have hnot := hnew r hr
    rcases hact with ⟨i, hact⟩ | ⟨id, hact⟩
    · rw [hact] at hnot
      cases hnot
    · rw [hact] at hnot
      cases hnot
  · exact ⟨r, hr, hc, hact⟩

/-- Right after a pass whatever is watched has been heard from of late exactly if, right before it,
whoever owned no entry had. -/
theorem processHeartbeat_reaps_iff {accepts : List Int} (h : Dated accepts now s)
    (hcs : Connections s) (htime : ∀ i, env.time i = now) (hremoved : ∀ i, env.removed i = true) :
    Reaped accepts now (processHeartbeat env s) ↔ StrangersRecent accepts now s := by
  have hall : ∀ i, i ∈ List.finRange clientNum := List.mem_finRange
  unfold processHeartbeat
  generalize List.finRange clientNum = entries at hall ⊢
  obtain ⟨new, hlog, hnew⟩ := sweep_signs env entries s
  have hfate := fun fd (hw : s.watched fd = true) (hpos : 0 ≤ fd) =>
    sweep_fd hw hpos htime hremoved entries
  have hidle : ∀ fd, s.watched fd = false →
      (entries.foldl (heartbeatEntry env) s).watched fd = false :=
    fun fd hw => sweep_unwatched hw entries
  have hsigned : ∀ c t, SignedAt c t (entries.foldl (heartbeatEntry env) s).log ↔ SignedAt c t s.log := by
    intro c t
    rw [hlog]
    exact ⟨fun hsign => hsign.earlier hnew, fun hsign => hsign.later (List.suffix_append _ _)⟩
  constructor
  · intro hreaped fd c hw hc hnone
    have hpos := (hcs.client fd c hc).1
    rcases hfate fd hw hpos with ⟨hstays, _⟩ | ⟨_, i, hi⟩
    · obtain ⟨d, hd, hwhy⟩ := hreaped fd (hstays.watched.trans hw)
      obtain rfl : c = d := Option.some.inj (hc.symm.trans (hstays.conn.symm.trans hd))
      rcases hwhy with hacc | ⟨t, hsign, hrecent⟩
      · exact .inl hacc
      · obtain ⟨r, hr, hrc, ⟨i, hact⟩ | hact⟩ := (hsigned c t).mp hsign
        · -- Who was granted an entry still has one.
          obtain ⟨j, hj⟩ := h.granted fd c hc ⟨r, hr, hrc, by rw [hact]; rfl⟩
          exact absurd hj (hnone j)
        · exact .inr ⟨t, ⟨r, hr, hrc, hact⟩, hrecent⟩
    · exact absurd hi (hnone i)
  · intro hstrangers fd hw'
    have hw : s.watched fd = true := by
      cases hw : s.watched fd with
      | true => rfl
      | false =>
          rw [hidle fd hw] at hw'
          cases hw'
    obtain ⟨c, hc⟩ := hcs.watchedOpen fd hw
    have hpos := (hcs.client fd c hc).1
    rcases hfate fd hw hpos with ⟨hstays, hrecent⟩ | ⟨hgone, _⟩
    · refine ⟨c, hstays.conn.trans hc, ?_⟩
      simp only [hsigned]
      by_cases howns : ∃ i, Owns s.users fd i
      · obtain ⟨i, hi⟩ := howns
        have hnow : Recent now _ := hrecent i (hall i) hi
        rcases h.signs fd c i hc hi with ⟨t, hacc, hle⟩ | hsign
        · exact .inl ⟨t, hacc, by unfold Recent at hnow ⊢; omega⟩
        · exact .inr ⟨_, hsign, hnow⟩
      · rcases hstrangers fd c hw hc (fun i hi => howns ⟨i, hi⟩) with hacc | ⟨t, ⟨r, hr, hrc, hact⟩, ht⟩
        · exact .inl hacc
        · exact .inr ⟨t, ⟨r, hr, hrc, .inr hact⟩, ht⟩
    · rw [hgone] at hw'
      cases hw'

end Sweep

/-! ## Whole runs -/

/-- The clocks of the table along a run, and what is still to come. -/
theorem run_dated {accepts : List Int} {start : Int} {es rest : List TimedEvent} {s t : State}
    (h : Dated accepts start s) (hcs : Connections s) (hes : Timed start (es ++ rest))
    (hrun : run step s (untimed es) = some t) :
    ∃ now, Dated (accepts ++ acceptTimes es) now t ∧ Timed now rest := by
  induction es generalizing accepts start s with
  | nil =>
      obtain rfl := Option.some.inj hrun
      exact ⟨start, by rwa [acceptTimes, List.filterMap_nil, List.append_nil], hes⟩
  | cons e es ih =>
      obtain ⟨now, e⟩ := e
      obtain ⟨hle, hreads, hes⟩ := hes
      obtain ⟨s', hstep, hrest⟩ := run_cons_iff.mp hrun
      have hnext := h.step hcs hle hreads hstep
      obtain ⟨later, hdated, htimed⟩ := ih hnext (hcs.passes (step_passes hstep)) hes hrest
      have haccepts : acceptTimes ((now, e) :: es) = acceptTimes [(now, e)] ++ acceptTimes es := by
        rw [acceptTimes, acceptTimes, acceptTimes, ← List.filterMap_append]
        rfl
      rw [haccepts, ← List.append_assoc]
      exact ⟨later, hdated, htimed⟩

/-- After each heartbeat pass of the run whatever is watched has been heard from of late. -/
def SilentReaped (fds : Descriptors) (es : List TimedEvent) : Prop :=
  ∀ pre now env post s, es = pre ++ (now, .heartbeat env) :: post →
    runFrom fds (untimed pre) = some s → Reaped (acceptTimes pre) now (processHeartbeat env s)

/-- Silent connections are reaped throughout a run exactly if, whenever a pass begins, every
descriptor that is watched and owns no entry was accepted or had a keepalive handled of late. -/
theorem silent_reaped_iff (fds : Descriptors) (start : Int) (es : List TimedEvent)
    (hes : Timed start es) (hremoves : ∀ e ∈ es, e.2.Removes) :
    SilentReaped fds es ↔ ∀ pre now env post s, es = pre ++ (now, .heartbeat env) :: post →
      runFrom fds (untimed pre) = some s → StrangersRecent (acceptTimes pre) now s := by
  have hpass : ∀ pre now env post s, es = pre ++ (now, .heartbeat env) :: post →
      runFrom fds (untimed pre) = some s →
        (Reaped (acceptTimes pre) now (processHeartbeat env s) ↔
          StrangersRecent (acceptTimes pre) now s) := by
    rintro pre now env post s rfl hrun
    obtain ⟨last, hdated, hle, hreads, _⟩ :=
      run_dated (Dated.initState fds start) (.initState fds) hes hrun
    have hremoved : ∀ i, env.removed i = true :=
      hremoves (now, .heartbeat env) (List.mem_append_right _ List.mem_cons_self)
    exact processHeartbeat_reaps_iff (hdated.mono hle) (.runFrom hrun) hreads hremoved
  constructor
  · intro hall pre now env post s hsplit hrun
    exact (hpass pre now env post s hsplit hrun).mp (hall pre now env post s hsplit hrun)
  · intro hall pre now env post s hsplit hrun
    exact (hpass pre now env post s hsplit hrun).mpr (hall pre now env post s hsplit hrun)

/-- A run that ends with its only pass. -/
theorem split_at_pass {es pre post : List TimedEvent} {time now : Int} {env₀ env : SweepEnv}
    (hquiet : ∀ e ∈ es, ∀ env, e.2 ≠ .heartbeat env)
    (hsplit : es ++ [(time, .heartbeat env₀)] = pre ++ (now, .heartbeat env) :: post) :
    pre = es ∧ now = time := by
  induction es generalizing pre with
  | nil =>
      cases pre with
      | nil =>
          obtain ⟨hpass, _⟩ := List.cons.inj hsplit
          exact ⟨rfl, (Prod.mk.inj hpass).1.symm⟩
      | cons e pre =>
          obtain ⟨_, hnil⟩ := List.cons.inj hsplit
          exact absurd hnil.symm (by simp)
  | cons e es ih =>
      obtain ⟨hfirst, hrest⟩ := List.forall_mem_cons.mp hquiet
      cases pre with
      | nil =>
          obtain ⟨rfl, _⟩ := List.cons.inj hsplit
          exact absurd rfl (hfirst env)
      | cons e' pre =>
          obtain ⟨rfl, htail⟩ := List.cons.inj hsplit
          obtain ⟨rfl, hnow⟩ := ih hrest htail
          exact ⟨rfl, hnow⟩

/-- The client on 7 is granted an address and then says nothing, the one on 8 sends a keepalive,
and the one on 9 has only connected. -/
def oneOfThreeSilent : List TimedEvent :=
  [(0, .server (some (7, true))), (5, .client 7 (.bytes [5, 0, 0, 0, 100]) (.prompt 5) true 9),
    (10, .server (some (8, true))), (15, .client 8 (.bytes [5, 0, 0, 0, 100]) (.prompt 15) true 9),
    (60, .server (some (9, true))), (65, .client 8 (.bytes [5, 0, 0, 0, 104]) (.prompt 65) true 9)]

/-- Where `oneOfThreeSilent` leads. -/
theorem oneOfThreeSilent_run :
    ∃ s, runFrom .usual (untimed oneOfThreeSilent) = some s ∧ s.accepted = 3 ∧
    (s.conn 7 = some 0 ∧ s.conn 8 = some 1 ∧ s.conn 9 = some 2) ∧
    (Owns s.users 7 2 ∧ Owns s.users 8 3) ∧
    (processHeartbeat (.prompt 80) s).watched 7 = false ∧
    (processHeartbeat (.prompt 80) s).conn 7 = none ∧
    (processHeartbeat (.prompt 80) s).watched 8 = true ∧
    (processHeartbeat (.prompt 80) s).watched 9 = true := by
  have hany : ((runFrom .usual (untimed oneOfThreeSilent)).any fun s => decide (s.accepted = 3 ∧
      (s.conn 7 = some 0 ∧ s.conn 8 = some 1 ∧ s.conn 9 = some 2) ∧
      (Owns s.users 7 2 ∧ Owns s.users 8 3) ∧
      (processHeartbeat (.prompt 80) s).watched 7 = false ∧
      (processHeartbeat (.prompt 80) s).conn 7 = none ∧
      (processHeartbeat (.prompt 80) s).watched 8 = true ∧
      (processHeartbeat (.prompt 80) s).watched 9 = true)) = true := by decide +kernel
  obtain ⟨s, hrun, hs⟩ := (Option.any_eq_true _ _).mp hany
  exact ⟨s, hrun, of_decide_eq_true hs⟩

/-- After 75 seconds the client on 7 is reaped and the other two stay. -/
theorem silent_reaped_oneOfThreeSilent :
    SilentReaped .usual (oneOfThreeSilent ++ [(80, .heartbeat (.prompt 80))]) ∧
      ∃ s, runFrom .usual (untimed (oneOfThreeSilent ++ [(80, .heartbeat (.prompt 80))])) = some s ∧
        s.watched 7 = false ∧ s.conn 7 = none ∧ s.watched 8 = true ∧ s.watched 9 = true := by
  obtain ⟨s, hrun, haccepted, ⟨hseven, height, hnine⟩, ⟨hfirst, hsecond⟩, hafter⟩ :=
    oneOfThreeSilent_run
  have htimed : Timed 0 (oneOfThreeSilent ++ [(80, .heartbeat (.prompt 80))]) := by
    simp [oneOfThreeSilent, Timed, Event.ReadsBy, FrameEnv.prompt, SweepEnv.prompt]
  have hremoves : ∀ e ∈ oneOfThreeSilent ++ [(80, .heartbeat (.prompt 80))], e.2.Removes := by
    simp [oneOfThreeSilent, Event.Removes, SweepEnv.prompt]
  refine ⟨(silent_reaped_iff .usual 0 _ htimed hremoves).mpr ?_, _, ?_, hafter⟩
  · intro pre now env post u hsplit hpre
    have hquiet : ∀ e ∈ oneOfThreeSilent, ∀ env, e.2 ≠ .heartbeat env := by simp [oneOfThreeSilent]
    obtain ⟨rfl, rfl⟩ := split_at_pass hquiet hsplit
    obtain rfl := Option.some.inj (hrun.symm.trans hpre)
    have hcs : Connections s := .runFrom hrun
    intro fd c hw hc hnone
    have hnew : c < 3 := haccepted ▸ hcs.fresh fd c hc
    have hthree : ∀ d < 3, d = 0 ∨ d = 1 ∨ d = 2 := by decide
    obtain rfl | rfl | rfl := hthree c hnew
    · obtain rfl := hcs.unique fd 7 0 hc hseven
      exact absurd hfirst (hnone 2)
    · obtain rfl := hcs.unique fd 8 1 hc height
      exact absurd hsecond (hnone 3)
    · exact .inl ⟨60, rfl, by decide⟩
  · rw [untimed, List.map_append]
    exact run_append_iff.mpr ⟨s, hrun, rfl⟩

/-- A client that connects at time 0 and is silent until a pass at `now`. -/
def silentClient (now : Int) : List TimedEvent :=
  [(0, .server (some (7, true))), (now, .heartbeat (.prompt now))]

theorem silentClient_timed {now : Int} (h : 0 ≤ now) : Timed 0 (silentClient now) :=
  ⟨Int.le_refl 0, trivial, h, fun _ => rfl, trivial⟩

theorem silentClient_removes (now : Int) : ∀ e ∈ silentClient now, e.2.Removes := by
  intro e he
  simp only [silentClient, List.mem_cons, List.not_mem_nil, or_false] at he
  rcases he with rfl | rfl
  · trivial
  · exact fun _ => rfl

/-- Two are, and nothing happens to the client that has no entry. -/
theorem silent_client_stays :
    Timed 0 (silentClient 120) ∧ (∀ e ∈ silentClient 120, e.2.Removes) ∧
      ¬ SilentReaped .usual (silentClient 120) := by
  refine ⟨silentClient_timed (by decide), silentClient_removes 120, fun h => ?_⟩
  have hany : ((runFrom .usual (untimed [(0, .server (some (7, true)))])).any fun s =>
      decide ((processHeartbeat (.prompt 120) s).watched 7 = true ∧
        (processHeartbeat (.prompt 120) s).conn 7 = some 0 ∧
        ∀ r ∈ (processHeartbeat (.prompt 120) s).log, r.act.isSign = false)) = true := by
    decide +kernel
  obtain ⟨s, hrun, hs⟩ := (Option.any_eq_true _ _).mp hany
  obtain ⟨hw, hc, hquiet⟩ := of_decide_eq_true hs
  obtain ⟨c, hc', hwhy⟩ := h _ 120 _ [] s rfl hrun 7 hw
  obtain rfl := Option.some.inj (hc.symm.trans hc')
  rcases hwhy with ⟨t, hacc, hrecent⟩ | ⟨t, ⟨r, hr, _, hact⟩, _⟩
  · obtain rfl : 0 = t := Option.some.inj hacc
    exact absurd hrecent (by decide)
  · have hnot := hquiet r hr
    rcases hact with ⟨i, hact⟩ | ⟨id, hact⟩
    · rw [hact] at hnot
      cases hnot
    · rw [hact] at hnot
      cases hnot

end Over6.Server
