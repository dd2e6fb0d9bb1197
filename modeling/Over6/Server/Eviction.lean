import Over6.Server.Ownership

/-! # Who is evicted

The keepalive handler refreshes the first entry of a descriptor, the heartbeat pass
judges every entry. While nobody has two, the clock value in an entry is that of the
last sign of life of its connection, and a connection that gives one in time stays.
-/

namespace Over6.Server

open BoundedLoop EventRun Journal

/-- The time of the last sign of life once a record is added: a first grant, or a keepalive
after it. -/
def Act.sign (last : Option Int) : Act → Option Int
  | granted _ t => some (last.getD t)
  | kept _ t => last.map fun _ => t
  | _ => last

/-- The later of the first grant to connection `c` and its last keepalive since. -/
def lastSign (c : Conn) : List Record → Option Int
  | [] => none
  | r :: log => if r.conn = some c then r.act.sign (lastSign c log) else lastSign c log

def Act.isSign : Act → Bool
  | granted _ _ | kept _ _ => true
  | _ => false

theorem Act.sign_of_not {act : Act} (h : act.isSign = false) (last : Option Int) :
    act.sign last = last := by
  cases act with
  | granted i t => cases h
  | kept i t => cases h
  | _ => rfl

theorem lastSign_cons {c : Conn} {r : Record} {log : List Record} (h : r.act.isSign = false) :
    lastSign c (r :: log) = lastSign c log := by
  rw [lastSign, Act.sign_of_not h, ite_self]

theorem lastSign_append {c : Conn} {new log : List Record} (h : ∀ r ∈ new, r.act.isSign = false) :
    lastSign c (new ++ log) = lastSign c log := by
  induction new with
  | nil => rfl
  | cons r new ih =>
      rw [List.cons_append, lastSign_cons (h r List.mem_cons_self),
        ih fun x hx => h x (List.mem_cons_of_mem r hx)]

/-- Before the first grant there is no sign. -/
theorem lastSign_eq_none {c : Conn} {log : List Record} (h : grants c log = []) :
    lastSign c log = none := by
  induction log with
  | nil => rfl
  | cons r log ih =>
      rw [grants, gather_cons, List.append_eq_nil_iff] at h
      rw [lastSign, ih h.1]
      split
      · rename_i hc
        have hpick := h.2
        rw [onConn, if_pos hc] at hpick
        cases hact : r.act with
        | granted i t =>
            rw [hact] at hpick
            cases hpick
        | _ => rfl
      · rfl

/-- An entry carries the time of the last sign of life of the connection it was granted to. -/
def Fresh (s : State) : Prop :=
  ∀ fd c, s.conn fd = some c → ∀ i ∈ grants c s.log,
    lastSign c s.log = some (s.users i).lastHeartbeatRecvedSecs

namespace Fresh

variable {s s' : State}

theorem initState (fds : Descriptors) : Fresh (initState fds) := by
  intro fd c hc
  exact absurd hc (by simp [Server.initState])

/-- Records that are no sign, and clocks of the last receipt left alone. -/
theorem of_log (h : Fresh s) {new : List Record} (hlog : s'.log = new ++ s.log)
    (hnew : ∀ r ∈ new, r.act.isSign = false)
    (hconn : ∀ fd c, s'.conn fd = some c → s.conn fd = some c ∨ grants c s'.log = [])
    (hclock : ∀ fd c, s'.conn fd = some c → ∀ i ∈ grants c s'.log,
      (s'.users i).lastHeartbeatRecvedSecs = (s.users i).lastHeartbeatRecvedSecs) : Fresh s' := by
  intro fd c hc i hi
  have hsame : grants c s'.log = grants c s.log := by
    have hnil : grants c new = [] := by
      refine gather_eq_nil fun r hr => onConn_eq_nil fun _ => ?_
      have hsign := hnew r hr
      cases hact : r.act with
      | granted j t =>
          rw [hact] at hsign
          cases hsign
      | _ => rfl
    rw [hlog, grants, gather_append, ← grants, ← grants, hnil, List.append_nil]
  rcases hconn fd c hc with hold | hnone
  · rw [hclock fd c hc i hi, hlog, lastSign_append hnew]
    exact h fd c hold i (hsame ▸ hi)
  · rw [hnone] at hi
    exact absurd hi List.not_mem_nil

theorem note (h : Fresh s) (fd : Fd) {act : Act} (hact : act.isSign = false) :
    Fresh (s.note fd act) := by
  have hlog : (s.note fd act).log = [⟨s.conn fd, fd, act⟩] ++ s.log := rfl
  refine h.of_log hlog ?_ (fun _ _ hc => .inl hc) (fun _ _ _ _ _ => rfl)
  intro r hr
  rw [List.mem_singleton.mp hr]
  exact hact

theorem setBuf (h : Fresh s) (fd : Fd) (e : BufferEntry) : Fresh (s.setBuf fd e) := by
  intro x c hc i hi
  exact h x c hc i hi

theorem grantTo (h : Fresh s) (hl : Ledger s) (hcs : Connections s) {env : FrameEnv} {fd : Fd}
    {i : Slot} (hfree : firstFree s.users = some i) (hnone : ∀ j, ¬ Owns s.users fd j) :
    Fresh (s.grantTo env fd i) := by
  have hlog : (s.grantTo env fd i).log = ⟨s.conn fd, fd, .granted i env.time₂⟩ ::
      ⟨s.conn fd, fd, .requested (grantsTwice s.users fd)⟩ :: s.log := rfl
  intro x c hc j hj
  have hconn : s.conn x = some c := hc
  by_cases hxf : x = fd
  · -- Nothing was granted to this connection before.
    subst hxf
    have hempty : grants c s.log = [] := by
      apply List.eq_nil_iff_forall_not_mem.mpr
      intro k hk
      exact hnone k (hl.granted x c hconn k hk)
    have hgrants : grants c (s.grantTo env x i).log = [i] := by
      simp [State.grantTo, State.noteRequest, grants, onConn, hconn, Act.grants]
      exact hempty
    rw [hgrants, List.mem_singleton] at hj
    have hself : (s.grantTo env x i).users i = (s.users i).grant x env.time₁ env.time₂ :=
      Function.update_self ..
    rw [hj, hself, hlog]
    simp [lastSign, Act.sign, hconn, lastSign_eq_none hempty, UserInfo.grant]
  · have hcc : s.conn fd ≠ some c := fun hf => hxf (hcs.unique x fd c hconn hf)
    have hgrants : grants c (s.grantTo env fd i).log = grants c s.log := by
      simp [State.grantTo, State.noteRequest, grants, onConn, hcc]
    have hsign : lastSign c (s.grantTo env fd i).log = lastSign c s.log := by
      rw [hlog]
      simp [lastSign, hcc]
    rw [hgrants] at hj
    have hkept : j ≠ i ∧ Owns (s.grantTo env fd i).users x j :=
      owns_grantTo hfree (hl.granted x c hconn j hj)
    have hji : j ≠ i := hkept.1
    have hother : (s.grantTo env fd i).users j = s.users j := Function.update_of_ne hji ..
    rw [hsign, hother]
    exact h x c hconn j hj

/-- A keepalive reaches the entry of its connection. -/
theorem keep (h : Fresh s) (hl : Ledger s) (hcs : Connections s) {env : FrameEnv} {fd : Fd}
    {i : Slot} (hsome : searchUserInfoByFd s.users fd = some i) {c₀ : Conn}
    (hc₀ : s.conn fd = some c₀) :
    Fresh ((s.note fd (.kept (some i) env.time₁)).setUser i
      { s.users i with lastHeartbeatRecvedSecs := env.time₁ }) := by
  intro x c hc j hj
  have hconn : s.conn x = some c := hc
  have howned := (searchUserInfoByFd_eq_some.mp hsome).1
  have hgrants : j ∈ grants c s.log := by
    simpa [grants, onConn, Act.grants] using hj
  have hold := h x c hconn j hgrants
  have hj' := hl.granted x c hconn j hgrants
  by_cases hxf : x = fd
  · subst hxf
    have hji : j = i := hl.single x (hcs.client x c hconn).1 j i hj' howned
    subst hji
    simp [lastSign, Act.sign, hconn, hold]
  · have hcc : s.conn fd ≠ some c := fun hf => hxf (hcs.unique x fd c hconn hf)
    have hji : j ≠ i := by
      intro he
      rw [he] at hj'
      exact hxf (hj'.1.symm.trans howned.1)
    simp [lastSign, hcc, hold, hji]

theorem dispatch (h : Fresh s) (hl : Ledger s) (hcs : Connections s) {env : FrameEnv} {fd : Fd}
    {msg : Message} {flow : Flow State} (hw : s.watched fd = true)
    (hframe : Dispatch env fd msg s flow) (hsingle : SingleGrants flow.state.log) :
    Fresh flow.state := by
  have hgrant : ∀ i, firstFree s.users = some i →
      (⟨s.conn fd, fd, .requested (grantsTwice s.users fd)⟩ : Record) ∈ flow.state.log →
      Fresh (s.grantTo env fd i) := by
    intro i hfree hrequest
    refine h.grantTo hl hcs hfree fun j hj => ?_
    have htwice : grantsTwice s.users fd = true :=
      grantsTwice_eq_true.mpr ⟨⟨j, hj⟩, i, hfree⟩
    exact hsingle _ hrequest (by rw [htwice])
  cases hframe with
  | poolFull => exact Fresh.note (h.note fd rfl) fd rfl
  | replyHeader _ i hfree =>
      have hg := hgrant i hfree (by simp [State.grantTo, State.noteRequest])
      exact Fresh.note (hg.note fd rfl) fd rfl
  | replyData _ i hfree =>
      have hg := hgrant i hfree (by simp [State.grantTo, State.noteRequest])
      exact Fresh.note (Fresh.note (hg.note fd rfl) fd rfl) fd rfl
  | replied _ i hfree =>
      have hg := hgrant i hfree (by simp [State.grantTo, State.noteRequest])
      exact Fresh.note (Fresh.note (hg.note fd rfl) fd rfl) fd rfl
  | tunData => exact Fresh.note (Fresh.note (h.note fd rfl) _ rfl) fd rfl
  | forwarded => exact Fresh.note (h.note fd rfl) _ rfl
  | stray _ hnone =>
      intro x c hc j hj
      have hconn : s.conn x = some c := hc
      have hgrants : j ∈ grants c s.log := by
        simpa [grants, onConn, Act.grants] using hj
      have hxf : x ≠ fd := by
        intro he
        have hj' := hl.granted x c hconn j hgrants
        rw [he] at hj'
        exact searchUserInfoByFd_eq_none.mp hnone j hj'
      have hcc : s.conn fd ≠ some c := fun hf => hxf (hcs.unique x fd c hconn hf)
      simpa [lastSign, hcc] using h x c hconn j hgrants
  | kept _ i hsome =>
      obtain ⟨c₀, hc₀⟩ := hcs.watchedOpen fd hw
      exact h.keep hl hcs hsome hc₀
  | unknown => exact h

theorem freed (h : Fresh s) (fd : Fd) : Fresh (s.freed fd) := by
  obtain ⟨_, _, _, hconn, _, _⟩ := s.freed_spec fd
  obtain ⟨new, hlog, _, hnew⟩ := s.freed_log fd
  refine h.of_log hlog ?_ ?_ fun x c _ i _ => s.freed_recved fd i
  · intro r hr
    rcases (hnew r hr).2.2 with hact | ⟨i, hact⟩
    · rw [hact]
      rfl
    · rw [hact]
      rfl
  · intro x c hx
    rw [hconn] at hx
    by_cases hxf : x = fd
    · rw [hxf, Function.update_self] at hx
      cases hx
    · rw [Function.update_of_ne hxf] at hx
      exact .inl hx

theorem accept (h : Fresh s) (hcs : Connections s) (fd : Fd) (added : Bool) :
    Fresh (processServer fd added s) := by
  have hlog : (processServer fd added s).log =
      [⟨Function.update s.conn fd (some s.accepted) fd, fd, .accepted⟩] ++ s.log := rfl
  refine h.of_log hlog ?_ ?_ fun _ _ _ _ _ => rfl
  · intro r hr
    rw [List.mem_singleton.mp hr]
    rfl
  · intro x c hx
    rcases processServer_conn hx with ⟨_, rfl⟩ | ⟨_, hc⟩
    · right
      have hold : grants s.accepted s.log = [] := gather_eq_nil fun r hr =>
        onConn_eq_nil fun hrc => absurd (hcs.logged r hr _ hrc) (Nat.lt_irrefl _)
      rw [hlog, grants, gather_append, ← grants, hold]
      simp [onConn, Act.grants]
    · exact .inl hc

theorem swept (h : Fresh s) (env : SweepEnv) (i : Slot) : Fresh (s.swept env i) := by
  have hq := s.swept_quiet env i
  obtain ⟨new, hlog, hnew⟩ := hq.log
  refine h.of_log hlog ?_ (fun x c hx => .inl (hq.conn ▸ hx)) fun _ _ _ j _ => s.swept_recved env i j
  intro r hr
  have hact := (hnew r hr).2
  cases hr : r.act with
  | granted j t =>
      rw [hr] at hact
      exact hact.elim
  | kept j t =>
      rw [hr] at hact
      exact hact.elim
  | _ => rfl

theorem pass (h : Fresh s) (hl : Ledger s) (hcs : Connections s) (hp : Pass s s')
    (hsingle : SingleGrants s'.log) : Fresh s' := by
  cases hp with
  | accept fd added _ => exact h.accept hcs fd added
  | hangup fd _ => exact h.freed fd
  | read fd _ bs _ => exact Fresh.note (Fresh.setBuf (h.note fd rfl) fd _) fd rfl
  | parsed env fd hw hparse =>
      cases hparse with
      | @passed _ t hframe _ =>
          have hlater : t.log <:+ (t.consumed fd (s.bufs fd).header).log :=
            (t.consumed_steady fd _).log_suffix
          have hfresh : Fresh t := h.dispatch hl hcs hw hframe (hsingle.inherit t _ hlater)
          exact Fresh.note (Fresh.setBuf (Fresh.note (hfresh.note fd rfl) fd rfl) fd _) fd rfl
  | parsedLast env fd hw hparse =>
      cases hparse with
      | waits => exact h
      | left _ hframe => exact h.dispatch hl hcs hw hframe hsingle
  | readTun bs _ => exact Fresh.note (h.setBuf _ _) _ rfl
  | routed hroute =>
      cases hroute with
      | nobody => exact h
      | routed =>
          exact Fresh.note (Fresh.setBuf (Fresh.note (h.note _ rfl) _ rfl) _ _) _ rfl
  | routedLast hroute =>
      cases hroute with
      | drained => exact h
      | header => exact h.note _ rfl
      | packet => exact Fresh.note (h.note _ rfl) _ rfl
  | swept env i hsweep =>
      cases hsweep with
      | skipped => exact h
      | spared => exact h.swept env i
      | stuck => exact h.swept env i
      | evicted => exact (h.swept env i).freed _

end Fresh

theorem runFrom_fresh {fds : Descriptors} {es : List Event} {s : State}
    (hrun : runFrom fds es = some s) (hsingle : SingleGrants s.log) :
    Connections s ∧ Ledger s ∧ Fresh s := by
  refine passes_conditional (fun t => SingleGrants t.log)
    (fun t => Connections t ∧ Ledger t ∧ Fresh t) SingleGrants.inherit ?_ (runFrom_passes hrun)
    ⟨.initState fds, .initState fds, .initState fds⟩ hsingle
  intro t t' hp ⟨hcs, hl, h⟩ hsingle
  exact ⟨hcs.pass hp, hl.change hcs hp.change hsingle, h.pass hl hcs hp hsingle⟩

/-! ## The heartbeat pass -/

/-- At a heartbeat pass the last sign of life of `c` is at most a timeout old. -/
def TimelyAt (c : Conn) (env : SweepEnv) (log : List Record) : Prop :=
  ∀ last, lastSign c log = some last → ∀ i, env.time i - last ≤ heartbeatTimeout

/-- Connection `c` is open on `fd` and holds everything it was granted. -/
def Keeps (c : Conn) (fd : Fd) (s : State) : Prop :=
  s.conn fd = some c ∧ ∀ i ∈ grants c s.log, Owns s.users fd i

theorem heartbeatEntry_keeps {s : State} (hcs : Connections s) (hl : Ledger s) (h : Fresh s)
    {env : SweepEnv} {c : Conn} {fd : Fd} (hc : s.conn fd = some c) (hgranted : grants c s.log ≠ [])
    (htimely : TimelyAt c env s.log) (i : Slot) :
    (heartbeatEntry env s i).conn fd = some c ∧
      grants c (heartbeatEntry env s i).log = grants c s.log ∧
      lastSign c (heartbeatEntry env s i).log = lastSign c s.log := by
  have hsign : ∀ r : Record, r.act.OfSweep → r.act.isSign = false := by
    intro r hr
    cases hact : r.act with
    | granted j t =>
        rw [hact] at hr
        exact hr.elim
    | kept j t =>
        rw [hact] at hr
        exact hr.elim
    | _ => rfl
  have hq := s.swept_quiet env i
  have hswept : (s.swept env i).conn fd = some c ∧
      grants c (s.swept env i).log = grants c s.log ∧
      lastSign c (s.swept env i).log = lastSign c s.log := by
    refine ⟨by rwa [hq.conn], Ledger.grants_steady (s.swept_steady env i) c, ?_⟩
    obtain ⟨new, hlog, hnew⟩ := hq.log
    rw [hlog]
    exact lastSign_append fun r hr => hsign r (hnew r hr).2
  have hsweep := heartbeatEntry_sweep env i s
  generalize heartbeatEntry env s i = t at hsweep ⊢
  cases hsweep with
  | skipped => exact ⟨hc, rfl, rfl⟩
  | spared => exact hswept
  | stuck => exact hswept
  | evicted hfd hstatus hlate hw =>
      have hne : fd ≠ (s.users i).fd := by
        intro he
        -- The entry that is late would be the one the connection was granted.
        obtain ⟨j, hj⟩ := List.exists_mem_of_ne_nil _ hgranted
        have howned := hl.granted fd c hc j hj
        have hij : i = j := hl.single fd (hcs.client fd c hc).1 i j ⟨he.symm, hstatus⟩ howned
        have hlast := h fd c hc j hj
        rw [← hij] at hlast
        have hrecent := htimely _ hlast i
        omega
      obtain ⟨_, _, _, hconn, _, _⟩ := (s.swept env i).freed_spec (s.users i).fd
      obtain ⟨new, hlog, _, hnew⟩ := (s.swept env i).freed_log (s.users i).fd
      refine ⟨?_, ?_, ?_⟩
      · rw [hconn, Function.update_of_ne hne]
        exact hswept.1
      · rw [Ledger.grants_freed]
        exact hswept.2.1
      · rw [hlog, lastSign_append, hswept.2.2]
        intro r hr
        rcases (hnew r hr).2.2 with hact | ⟨k, hact⟩
        · rw [hact]
          rfl
        · rw [hact]
          rfl

theorem sweep_keeps {env : SweepEnv} {c : Conn} {fd : Fd} (entries : List Slot) {s : State}
    (hcs : Connections s) (hl : Ledger s) (h : Fresh s) (hsingle : SingleGrants s.log)
    (hc : s.conn fd = some c) (hgranted : grants c s.log ≠ []) (htimely : TimelyAt c env s.log) :
    Keeps c fd (entries.foldl (heartbeatEntry env) s) := by
  induction entries generalizing s with
  | nil => exact ⟨hc, hl.granted fd c hc⟩
  | cons i entries ih =>
      have hpass : Pass s (heartbeatEntry env s i) := .swept env i (heartbeatEntry_sweep env i s)
      have hsingle' : SingleGrants (heartbeatEntry env s i).log := sweep_single env [i] hsingle
      obtain ⟨hconn, hgrants, hlast⟩ := heartbeatEntry_keeps hcs hl h hc hgranted htimely i
      refine ih (hcs.pass hpass) (hl.change hcs hpass.change hsingle')
        (h.pass hl hcs hpass hsingle') hsingle' hconn ?_ ?_
      · rwa [hgrants]
      · intro last hsome
        exact htimely last (hlast ▸ hsome)

/-! ## Whole runs -/

/-- Nobody whose signs of life come in time loses the connection or an address in a heartbeat
pass of the run. -/
def LiveClientsStay (fds : Descriptors) (es : List Event) : Prop :=
  ∀ before env after t, es = before ++ .heartbeat env :: after → runFrom fds before = some t →
    ∀ c fd, t.conn fd = some c → grants c t.log ≠ [] → TimelyAt c env t.log →
      Keeps c fd (processHeartbeat env t)

/-- As long as nobody is granted a second entry, live clients stay. -/
theorem live_clients_stay (fds : Descriptors) (es : List Event) (s : State)
    (hrun : runFrom fds es = some s) (hsingle : SingleGrants s.log) : LiveClientsStay fds es := by
  intro before env after t hsplit ht c fd hc hgranted htimely
  subst hsplit
  obtain ⟨u, hu, hafter⟩ := run_append_iff.mp hrun
  obtain rfl := Option.some.inj (ht.symm.trans hu)
  have hsingle' := hsingle.inherit _ _ (run_log_suffix hafter)
  obtain ⟨hcs, hl, h⟩ := runFrom_fresh ht hsingle'
  exact sweep_keeps _ hcs hl h hsingle' hc hgranted htimely

theorem timelyAt_of_age {c : Conn} {log : List Record} {last now : Int}
    (hlast : lastSign c log = some last) (hage : now - last ≤ heartbeatTimeout) :
    TimelyAt c (.prompt now) log := by
  intro last' hsome i
  obtain rfl := Option.some.inj (hlast.symm.trans hsome)
  exact hage

def oneAddress : List Event :=
  [.server (some (7, true)), .heartbeat (.prompt 0),
    .client 7 (.bytes [5, 0, 0, 0, 100]) (.prompt 0) true 9, .heartbeat (.prompt 0),
    .client 7 (.bytes [5, 0, 0, 0, 104]) (.prompt 30) true 9, .heartbeat (.prompt 30)]

theorem live_clients_stay_oneAddress :
    ∃ t, runFrom .usual oneAddress = some t ∧ Keeps 0 7 (processHeartbeat (.prompt 61) t) := by
  have hrun : ((runFrom .usual oneAddress).any fun t =>
      decide (t.conn 7 = some 0 ∧ grants 0 t.log = [2] ∧ lastSign 0 t.log = some 30) &&
        ((runFrom .usual (oneAddress ++ [.heartbeat (.prompt 61)])).any fun s =>
          decide (SingleGrants s.log))) = true := by decide +kernel
  obtain ⟨t, ht, hfacts⟩ := (Option.any_eq_true _ _).mp hrun
  obtain ⟨hnow, hlater⟩ := Bool.and_eq_true_iff.mp hfacts
  obtain ⟨hconn, hgrants, hlast⟩ := of_decide_eq_true hnow
  obtain ⟨s, hs, hsingle⟩ := (Option.any_eq_true _ _).mp hlater
  have htimely : TimelyAt 0 (.prompt 61) t.log := timelyAt_of_age hlast (by decide)
  have hgranted : grants 0 t.log ≠ [] := by
    rw [hgrants]
    simp
  have hstay := live_clients_stay .usual _ s hs (of_decide_eq_true hsingle)
  exact ⟨t, ht, hstay oneAddress (.prompt 61) [] t rfl ht 0 7 hconn hgranted htimely⟩

/-- The same client asking for an address twice. -/
def twoAddresses : List Event :=
  [.server (some (7, true)), .heartbeat (.prompt 0),
    .client 7 (.bytes [5, 0, 0, 0, 100]) (.prompt 0) true 9, .heartbeat (.prompt 0),
    .client 7 (.bytes [5, 0, 0, 0, 100]) (.prompt 0) true 9, .heartbeat (.prompt 0),
    .client 7 (.bytes [5, 0, 0, 0, 104]) (.prompt 30) true 9, .heartbeat (.prompt 30)]

/-- Its keepalive is half a minute old when it is thrown out. -/
theorem second_address_evicts :
    ¬ (∀ fds es, LiveClientsStay fds es) ∧
      ∃ t, runFrom .usual twoAddresses = some t ∧ t.conn 7 = some 0 ∧
        lastSign 0 t.log = some 30 ∧ (processHeartbeat (.prompt 61) t).conn 7 = none := by
  have hrun : ((runFrom .usual twoAddresses).any fun t =>
      decide (t.conn 7 = some 0 ∧ grants 0 t.log = [2, 3] ∧ lastSign 0 t.log = some 30 ∧
        (processHeartbeat (.prompt 61) t).conn 7 = none)) = true := by decide +kernel
  obtain ⟨t, ht, hfacts⟩ := (Option.any_eq_true _ _).mp hrun
  obtain ⟨hconn, hgrants, hlast, hgone⟩ := of_decide_eq_true hfacts
  refine ⟨?_, t, ht, hconn, hlast, hgone⟩
  intro hall
  have htimely : TimelyAt 0 (.prompt 61) t.log := timelyAt_of_age hlast (by decide)
  have hgranted : grants 0 t.log ≠ [] := by
    rw [hgrants]
    simp
  have hkeeps := hall .usual (twoAddresses ++ [.heartbeat (.prompt 61)]) twoAddresses (.prompt 61)
    [] t rfl ht 0 7 hconn hgranted htimely
  rw [hkeeps.1] at hgone
  cases hgone

end Over6.Server
