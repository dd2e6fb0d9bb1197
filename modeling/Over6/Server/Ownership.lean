import Over6.Server.Connections

/-! # Who owns which address

`allocate_ip_addr` hands out the first free entry without looking whether the
descriptor owns one already, and `deallocate_ip_addr` gives back the first match
only. As long as no connection is granted a second entry the two balance: every
entry in use belongs to an open connection, which has no other.
-/

namespace Over6.Server

open BoundedLoop EventRun Journal

def Act.grants : Act → List Slot
  | .granted i _ => [i]
  | _ => []

def grants (c : Conn) (log : List Record) : List Slot := gather (onConn c Act.grants) log

/-- No IP request was met on a descriptor that owned an entry while another one was free. -/
def SingleGrants (log : List Record) : Prop := ∀ r ∈ log, r.act ≠ .requested true

instance (log : List Record) : Decidable (SingleGrants log) :=
  inferInstanceAs (Decidable (∀ r ∈ log, _))

theorem SingleGrants.inherit (s s' : State) (h : s.log <:+ s'.log) (hs : SingleGrants s'.log) :
    SingleGrants s.log := fun r hr => hs r (h.subset hr)

/-- Every allocated entry has an open registered connection, and no connection has two. -/
structure AddressesOwned (s : State) : Prop where
  live : ∀ i, reserved i = false → (s.users i).status = false →
    s.watched (s.users i).fd = true ∧ ∃ c, s.conn (s.users i).fd = some c
  single : ∀ fd c, s.conn fd = some c → ∀ i j, Owns s.users fd i → Owns s.users fd j → i = j

/-- Whoever is closed by a call leaves no entry behind. -/
def GivesBack (s s' : State) : Prop :=
  ∀ fd c, s.conn fd = some c → s'.conn fd ≠ some c →
    (∀ i, (s'.users i).fd ≠ fd) ∧ ∀ i ∈ grants c s'.log, (s'.users i).status = true

/-- The inductive strengthening. -/
structure Ledger (s : State) : Prop where
  free : ∀ i, (s.users i).status = true → (s.users i).fd = -1
  withheld : ∀ i, reserved i = true → (s.users i).status = false ∧ (s.users i).fd = -1
  live : ∀ i, reserved i = false → (s.users i).status = false →
    s.watched (s.users i).fd = true
  single : ∀ fd, 0 ≤ fd → ∀ i j, Owns s.users fd i → Owns s.users fd j → i = j
  granted : ∀ fd c, s.conn fd = some c → ∀ i ∈ grants c s.log, Owns s.users fd i

theorem reserved_of_status {fds : Descriptors} {i : Slot} :
    ((initState fds).users i).status = !reserved i := rfl

namespace Ledger

variable {s t s' : State}

theorem initState (fds : Descriptors) : Ledger (initState fds) := by
  refine ⟨fun i _ => rfl, ?_, ?_, ?_, ?_⟩
  · intro i hi
    rw [reserved_of_status, hi]
    exact ⟨rfl, rfl⟩
  · intro i hi hs
    rw [reserved_of_status, hi] at hs
    exact absurd hs (by simp)
  · intro fd hfd i j hi _
    exact absurd hi.1.symm (ne_neg_one_of_nonneg hfd)
  · intro fd c hc
    exact absurd hc (by simp [Server.initState])

/-- An entry in use by a client is not a reserved one. -/
theorem not_reserved (h : Ledger s) {fd : Fd} (hfd : 0 ≤ fd) {i : Slot} (hi : Owns s.users fd i) :
    reserved i = false := by
  by_cases hr : reserved i = true
  · have hneg := (h.withheld i hr).2
    rw [hi.1] at hneg
    exact absurd hneg (ne_neg_one_of_nonneg hfd)
  · simpa using hr

/-- The entries of a client are those whose descriptor is its own. -/
theorem owns_of_fd (h : Ledger s) {fd : Fd} (hfd : 0 ≤ fd) {i : Slot} (hi : (s.users i).fd = fd) :
    Owns s.users fd i := by
  refine ⟨hi, ?_⟩
  by_cases hs : (s.users i).status = true
  · have hneg := h.free i hs
    rw [hi] at hneg
    exact absurd hneg (ne_neg_one_of_nonneg hfd)
  · simpa using hs

theorem grants_steady (hs : Steady s s') (c : Conn) : grants c s'.log = grants c s.log := by
  refine hs.gather_eq fun r hr => onConn_eq_nil fun _ => ?_
  cases hact : r.act with
  | granted i t =>
      rw [hact] at hr
      exact hr.elim
  | _ => rfl

theorem steady (h : Ledger s) (hs : Steady s s') : Ledger s' := by
  refine ⟨?_, ?_, ?_, ?_, ?_⟩
  · intro i hi
    obtain ⟨_, hstatus, hfd, _⟩ := hs.owner i
    rw [hfd]
    exact h.free i (hstatus ▸ hi)
  · intro i hi
    obtain ⟨_, hstatus, hfd, _⟩ := hs.owner i
    rw [hstatus, hfd]
    exact h.withheld i hi
  · intro i hi hst
    obtain ⟨_, hstatus, hfd, _⟩ := hs.owner i
    rw [hs.watched, hfd]
    exact h.live i hi (hstatus ▸ hst)
  · intro fd hfd i j hi hj
    exact h.single fd hfd i j (hs.owns_iff.mp hi) (hs.owns_iff.mp hj)
  · intro fd c hc i hi
    rw [hs.conn] at hc
    rw [grants_steady hs] at hi
    exact hs.owns_iff.mpr (h.granted fd c hc i hi)

/-- A grant to a descriptor that owns nothing. -/
theorem grant (h : Ledger s) (hcs : Connections s) {env : FrameEnv} {fd : Fd} {i : Slot}
    (hw : s.watched fd = true) (hfree : firstFree s.users = some i)
    (hnone : ∀ j, ¬ Owns s.users fd j) : Ledger (s.grantTo env fd i) := by
  have hstatus : (s.users i).status = true := (firstFree_eq_some.mp hfree).1
  obtain ⟨c₀, hc₀⟩ := hcs.watchedOpen fd hw
  have hpos : 0 ≤ fd := (hcs.client fd c₀ hc₀).1
  have hself : (s.grantTo env fd i).users i = (s.users i).grant fd env.time₁ env.time₂ :=
    Function.update_self ..
  have hother : ∀ j, j ≠ i → (s.grantTo env fd i).users j = s.users j := fun j hj =>
    Function.update_of_ne hj ..
  have howns : ∀ x j, Owns (s.grantTo env fd i).users x j ↔
      (x = fd ∧ j = i) ∨ (j ≠ i ∧ Owns s.users x j) := by
    intro x j
    by_cases hj : j = i
    · subst hj
      rw [Owns, hself]
      simp [UserInfo.grant, eq_comm]
    · rw [Owns, hother j hj]
      simp [hj, Owns]
  refine ⟨?_, ?_, ?_, ?_, ?_⟩
  · intro j hj
    by_cases hji : j = i
    · rw [hji, hself] at hj
      exact absurd hj (by simp [UserInfo.grant])
    · rw [hother j hji] at hj ⊢
      exact h.free j hj
  · intro j hj
    by_cases hji : j = i
    · have hkept := (h.withheld j hj).1
      rw [hji, hstatus] at hkept
      exact absurd hkept (by simp)
    · rw [hother j hji]
      exact h.withheld j hj
  · intro j hj hst
    by_cases hji : j = i
    · rw [hji, hself]
      exact hw
    · rw [hother j hji] at hst ⊢
      exact h.live j hj hst
  · intro x hx j k hj hk
    rcases (howns x j).mp hj with ⟨hxf, hji⟩ | ⟨_, hj'⟩
    · rcases (howns x k).mp hk with ⟨_, hki⟩ | ⟨_, hk'⟩
      · rw [hji, hki]
      · exact absurd (hxf ▸ hk') (hnone k)
    · rcases (howns x k).mp hk with ⟨hxf, _⟩ | ⟨_, hk'⟩
      · exact absurd (hxf ▸ hj') (hnone j)
      · exact h.single x hx j k hj' hk'
  · intro x c hc j hj
    have hgrants : grants c (s.grantTo env fd i).log =
        grants c s.log ++ if s.conn fd = some c then [i] else [] := by
      by_cases hcc : s.conn fd = some c
      · simp [State.grantTo, State.noteRequest, grants, onConn, hcc, Act.grants]
      · simp [State.grantTo, State.noteRequest, grants, onConn, hcc]
    have hconn : s.conn x = some c := hc
    rw [hgrants, List.mem_append] at hj
    rw [howns]
    rcases hj with hj | hj
    · have hold := h.granted x c hconn j hj
      refine .inr ⟨?_, hold⟩
      intro hji
      rw [hji] at hold
      exact absurd hold.2 (by simp [hstatus])
    · split at hj
      · rename_i hcc
        exact .inl ⟨hcs.unique x fd c hconn hcc, List.mem_singleton.mp hj⟩
      · exact absurd hj List.not_mem_nil

/-- Freeing a descriptor gives its entry back and leaves those of the others. -/
theorem freed_entry (h : Ledger s) {fd : Fd} (hpos : 0 ≤ fd) (i : Slot) :
    ((s.freed fd).users i = s.users i ∧ (s.users i).fd ≠ fd) ∨
      (Owns s.users fd i ∧ (s.freed fd).users i = (s.users i).release) := by
  rw [(s.freed_spec fd).1, releaseFirst]
  cases hsearch : searchUserInfoByFd s.users fd with
  | none =>
      refine .inl ⟨rfl, ?_⟩
      intro hi
      exact searchUserInfoByFd_eq_none.mp hsearch i (h.owns_of_fd hpos hi)
  | some j =>
      have hj := (searchUserInfoByFd_eq_some.mp hsearch).1
      by_cases hij : i = j
      · rw [hij]
        exact .inr ⟨hj, Function.update_self ..⟩
      · refine .inl ⟨Function.update_of_ne hij .., ?_⟩
        intro hi
        exact hij (h.single fd hpos i j (h.owns_of_fd hpos hi) hj)

theorem grants_freed (s : State) (fd : Fd) (c : Conn) :
    grants c (s.freed fd).log = grants c s.log := by
  obtain ⟨new, hlog, _, hnew⟩ := s.freed_log fd
  have hnil : grants c new = [] := by
    refine gather_eq_nil fun r hr => onConn_eq_nil fun _ => ?_
    rcases (hnew r hr).2.2 with hact | ⟨i, hact⟩
    · rw [hact]
      rfl
    · rw [hact]
      rfl
  rw [hlog, grants, gather_append, ← grants, ← grants, hnil, List.append_nil]

theorem freed (h : Ledger s) (hcs : Connections s) {fd : Fd} (hw : s.watched fd = true) :
    Ledger (s.freed fd) := by
  obtain ⟨_, _, _, hconn, hwatched, _⟩ := s.freed_spec fd
  obtain ⟨c₀, hc₀⟩ := hcs.watchedOpen fd hw
  have hpos : 0 ≤ fd := (hcs.client fd c₀ hc₀).1
  have hentry := h.freed_entry hpos
  have hkeeps : ∀ x j, x ≠ fd → Owns s.users x j → Owns (s.freed fd).users x j := by
    intro x j hx hj
    rcases hentry j with ⟨heq, _⟩ | ⟨hown, _⟩
    · rwa [Owns, heq]
    · exact absurd (hj.1.symm.trans hown.1) hx
  refine ⟨?_, ?_, ?_, ?_, ?_⟩
  · intro i hi
    rcases hentry i with ⟨heq, _⟩ | ⟨_, heq⟩
    · rw [heq] at hi ⊢
      exact h.free i hi
    · rw [heq]
      rfl
  · intro i hi
    rcases hentry i with ⟨heq, _⟩ | ⟨hown, _⟩
    · rw [heq]
      exact h.withheld i hi
    · exact absurd (h.not_reserved hpos hown) (by simp [hi])
  · intro i hi hst
    rcases hentry i with ⟨heq, hne⟩ | ⟨_, heq⟩
    · rw [heq] at hst ⊢
      rw [hwatched, Function.update_of_ne hne]
      exact h.live i hi hst
    · rw [heq] at hst
      exact absurd hst (by simp [UserInfo.release])
  · intro x hx i j hi hj
    have hback : ∀ k, Owns (s.freed fd).users x k → Owns s.users x k := by
      intro k hk
      rcases hentry k with ⟨heq, _⟩ | ⟨_, heq⟩
      · rwa [Owns, heq] at hk
      · rw [Owns, heq] at hk
        exact absurd hk.2 (by simp [UserInfo.release])
    exact h.single x hx i j (hback i hi) (hback j hj)
  · intro x c hc i hi
    rw [hconn] at hc
    have hxf : x ≠ fd := by
      intro he
      rw [he, Function.update_self] at hc
      exact absurd hc (by simp)
    rw [Function.update_of_ne hxf] at hc
    rw [grants_freed] at hi
    exact hkeeps x i hxf (h.granted x c hc i hi)

theorem processServer (h : Ledger s) (hcs : Connections s) {fd : Fd} (hcan : s.CanAccept fd)
    (added : Bool) : Ledger (processServer fd added s) := by
  have hnot : s.watched fd ≠ true := by
    intro hw
    obtain ⟨c, hc⟩ := hcs.watchedOpen fd hw
    rw [hcan.2.1] at hc
    exact absurd hc (by simp)
  refine ⟨h.free, h.withheld, ?_, h.single, ?_⟩
  · intro i hi hst
    have hlive := h.live i hi hst
    have hne : (s.users i).fd ≠ fd := by
      intro he
      rw [he] at hlive
      exact hnot hlive
    change Function.update s.watched fd added (s.users i).fd = true
    rwa [Function.update_of_ne hne]
  · intro x c hx i hi
    have hi' : i ∈ grants c s.log := by
      simpa [Server.processServer, grants, onConn, Act.grants] using hi
    rcases processServer_conn hx with ⟨_, rfl⟩ | ⟨_, hc⟩
    · obtain ⟨r, hr, hpick⟩ := mem_gather.mp hi'
      unfold onConn at hpick
      split at hpick
      · rename_i hrc
        exact absurd (hcs.logged r hr _ hrc) (Nat.lt_irrefl _)
      · exact absurd hpick List.not_mem_nil
    · exact h.granted x c hc i hi'

theorem change (h : Ledger s) (hcs : Connections s) (hc : Change s s')
    (hsingle : SingleGrants s'.log) : Ledger s' := by
  cases hc with
  | steady hs => exact h.steady hs
  | grant env fd i hw hfree hs =>
      have hnone : ∀ j, ¬ Owns s.users fd j := by
        intro j hj
        have hrequest : (⟨s.conn fd, fd, .requested (grantsTwice s.users fd)⟩ : Record) ∈ s'.log := by
          apply hs.log_suffix.subset
          simp [State.grantTo, State.noteRequest]
        have htwice : grantsTwice s.users fd = true := by
          simp [grantsTwice, hfree, searchUserInfoByFd_isSome.mpr ⟨j, hj⟩]
        exact hsingle _ hrequest (by rw [htwice])
      exact (h.grant hcs hw hfree hnone).steady hs
  | free hs fd hw => exact (h.steady hs).freed (hcs.quiet hs.toQuiet) hw
  | accept fd added hcan => exact h.processServer hcs hcan added

end Ledger

theorem Passes.ledger {s s' : State} (hp : Passes s s') (hcs : Connections s) (h : Ledger s)
    (hsingle : SingleGrants s'.log) : Connections s' ∧ Ledger s' := by
  refine passes_conditional (fun t => SingleGrants t.log) (fun t => Connections t ∧ Ledger t)
    SingleGrants.inherit ?_ hp ⟨hcs, h⟩ hsingle
  intro t t' hpass ⟨hcs, h⟩ hsingle
  exact ⟨hcs.pass hpass, h.change hcs hpass.change hsingle⟩

theorem runFrom_ledger {fds : Descriptors} {es : List Event} {s : State}
    (hrun : runFrom fds es = some s) (hsingle : SingleGrants s.log) : Connections s ∧ Ledger s :=
  (runFrom_passes hrun).ledger (.initState fds) (.initState fds) hsingle

/-! ## What closing gives back -/

namespace Ledger

variable {s t s' : State}

theorem owned (h : Ledger s) (hcs : Connections s) : AddressesOwned s := by
  refine ⟨?_, ?_⟩
  · intro i hi hst
    have hw := h.live i hi hst
    exact ⟨hw, hcs.watchedOpen _ hw⟩
  · intro fd c hc
    exact h.single fd (hcs.client fd c hc).1

theorem givesBack_steady (hback : GivesBack s t) (hs : Steady t s') : GivesBack s s' := by
  intro fd c hc hgone
  rw [hs.conn] at hgone
  obtain ⟨hfd, hfree⟩ := hback fd c hc hgone
  constructor
  · intro i
    rw [(hs.owner i).2.2.1]
    exact hfd i
  · intro i hi
    rw [grants_steady hs] at hi
    rw [(hs.owner i).2.1]
    exact hfree i hi

theorem givesBack_freed (h : Ledger t) (hstart : Connections s) (hcs : Connections t)
    (hback : GivesBack s t) {x : Fd} (hw : t.watched x = true) : GivesBack s (t.freed x) := by
  obtain ⟨c₀, hc₀⟩ := hcs.watchedOpen x hw
  have hpos : 0 ≤ x := (hcs.client x c₀ hc₀).1
  intro fd c hc hgone
  by_cases hstill : t.conn fd = some c
  · -- The descriptor freed here is the one that goes.
    have hfx : fd = x := by
      by_cases hfx : fd = x
      · exact hfx
      · rw [(t.freed_spec x).2.2.2.1, Function.update_of_ne hfx] at hgone
        exact absurd hstill hgone
    subst hfx
    constructor
    · intro i
      rcases h.freed_entry hpos i with ⟨heq, hne⟩ | ⟨_, heq⟩
      · rwa [heq]
      · rw [heq]
        exact (ne_neg_one_of_nonneg hpos).symm
    · intro i hi
      rw [grants_freed] at hi
      rcases h.freed_entry hpos i with ⟨_, hne⟩ | ⟨_, heq⟩
      · exact absurd (h.granted fd c hstill i hi).1 hne
      · rw [heq]
        rfl
  · obtain ⟨hfd, hfree⟩ := hback fd c hc hstill
    constructor
    · intro i
      rcases h.freed_entry hpos i with ⟨heq, _⟩ | ⟨hown, heq⟩
      · rw [heq]
        exact hfd i
      · rw [heq]
        exact (ne_neg_one_of_nonneg (hstart.client fd c hc).1).symm
    · intro i hi
      rw [grants_freed] at hi
      rcases h.freed_entry hpos i with ⟨heq, _⟩ | ⟨_, heq⟩
      · rw [heq]
        exact hfree i hi
      · rw [heq]
        rfl

/-- The pass over the table gives back what it closes. -/
theorem sweep_givesBack (hstart : Connections s) (env : SweepEnv) (entries : List Slot)
    (hcs : Connections t) (h : Ledger t) (hback : GivesBack s t) :
    GivesBack s (entries.foldl (heartbeatEntry env) t) := by
  induction entries generalizing t with
  | nil => exact hback
  | cons i entries ih =>
      have hsweep := heartbeatEntry_sweep env i t
      have hcs' : Connections (heartbeatEntry env t i) := hcs.pass (.swept env i hsweep)
      have hswept := t.swept_steady env i
      rw [List.foldl_cons]
      generalize heartbeatEntry env t i = t' at hsweep hcs' ⊢
      cases hsweep with
      | skipped => exact ih hcs h hback
      | spared => exact ih hcs' (h.steady hswept) (givesBack_steady hback hswept)
      | stuck => exact ih hcs' (h.steady hswept) (givesBack_steady hback hswept)
      | evicted _ _ _ hw =>
          have hcs'' := hcs.quiet hswept.toQuiet
          exact ih hcs' ((h.steady hswept).freed hcs'' hw)
            (givesBack_freed (h.steady hswept) hstart hcs'' (givesBack_steady hback hswept) hw)

theorem givesBack_of_conn (hconn : ∀ fd c, s.conn fd = some c → s'.conn fd = some c) :
    GivesBack s s' := fun fd c hc hgone => absurd (hconn fd c hc) hgone

theorem step_givesBack (h : Ledger s) (hcs : Connections s) {e : Event}
    (hstep : step s e = some s') : GivesBack s s' := by
  have hsame : GivesBack s s := givesBack_of_conn fun _ _ hx => hx
  cases step_call hstep with
  | refused => exact hsame
  | accepted fd added hcan =>
      apply givesBack_of_conn
      intro x c hx
      have hne : x ≠ fd := by
        intro he
        rw [he, hcan.2.1] at hx
        exact absurd hx (by simp)
      exact (Function.update_of_ne hne ..).trans hx
  | tun r env fuel _ hcall =>
      apply givesBack_of_conn
      intro x c hx
      rwa [(processTun_steady hcall).conn]
  | ended fd r env removed fuel hw =>
      rcases freeClientFd_cases removed fd s with hf | ⟨_, hf⟩
      · rwa [hf]
      · rw [hf]
        exact h.givesBack_freed hcs hcs hsame hw
  | read fd bs env removed fuel _ _ hcall =>
      apply givesBack_of_conn
      intro x c hx
      rwa [(parseLoop_quiet hcall).conn]
  | heartbeat env => exact sweep_givesBack hcs env _ hcs h hsame

end Ledger

/-! ## A second grant -/

def OwnsTwo (s : State) : Prop :=
  ∃ fd c i j, s.conn fd = some c ∧ i ≠ j ∧ Owns s.users fd i ∧ Owns s.users fd j

theorem OwnsTwo.not_owned {s : State} (h : OwnsTwo s) : ¬ AddressesOwned s := by
  intro howned
  obtain ⟨fd, c, i, j, hc, hij, hi, hj⟩ := h
  exact hij (howned.single fd c hc i j hi hj)

theorem OwnsTwo.steady {s s' : State} (h : OwnsTwo s) (hs : Steady s s') : OwnsTwo s' := by
  obtain ⟨fd, c, i, j, hc, hij, hi, hj⟩ := h
  exact ⟨fd, c, i, j, hs.conn ▸ hc, hij, hs.owns_iff.mpr hi, hs.owns_iff.mpr hj⟩

theorem owns_grantTo {s : State} {env : FrameEnv} {fd x : Fd} {i j : Slot}
    (hfree : firstFree s.users = some i) (hj : Owns s.users x j) :
    j ≠ i ∧ Owns (s.grantTo env fd i).users x j := by
  have hne : j ≠ i := by
    intro he
    have hstatus := (firstFree_eq_some.mp hfree).1
    rw [← he, hj.2] at hstatus
    exact absurd hstatus (by simp)
  refine ⟨hne, ?_⟩
  have hsame : (s.grantTo env fd i).users j = s.users j := Function.update_of_ne hne ..
  rwa [Owns, hsame]

theorem SingleGrants.note {s : State} (h : SingleGrants s.log) (fd : Fd) {act : Act}
    (hact : act ≠ .requested true) : SingleGrants (s.note fd act).log := by
  intro r hr
  rcases List.mem_cons.mp hr with rfl | hr
  · exact hact
  · exact h r hr

theorem SingleGrants.steady {s s' : State} (h : SingleGrants s.log) (hs : Steady s s') :
    SingleGrants s'.log := by
  obtain ⟨new, hlog, hnew⟩ := hs.log
  intro r hr
  rw [hlog] at hr
  rcases List.mem_append.mp hr with hr | hr
  · intro hact
    have hplain := (hnew r hr).2
    rw [hact] at hplain
    exact hplain
  · exact h r hr

theorem SingleGrants.freed {s : State} (h : SingleGrants s.log) (fd : Fd) :
    SingleGrants (s.freed fd).log := by
  obtain ⟨new, hlog, _, hnew⟩ := s.freed_log fd
  intro r hr
  rw [hlog] at hr
  rcases List.mem_append.mp hr with hr | hr
  · rcases (hnew r hr).2.2 with hact | ⟨i, hact⟩ <;> simp [hact]
  · exact h r hr

/-- A grant on an open descriptor that was not the first leaves two entries with it. -/
theorem grant_single_or_two {s : State} (hcs : Connections s) {env : FrameEnv} {fd : Fd} {i : Slot}
    (hw : s.watched fd = true) (hfree : firstFree s.users = some i) (h : SingleGrants s.log) :
    SingleGrants (s.grantTo env fd i).log ∨ OwnsTwo (s.grantTo env fd i) := by
  by_cases htwice : grantsTwice s.users fd = true
  · obtain ⟨⟨j, hj⟩, _⟩ := grantsTwice_eq_true.mp htwice
    obtain ⟨c, hc⟩ := hcs.watchedOpen fd hw
    have hj' : j ≠ i ∧ Owns (s.grantTo env fd i).users fd j := owns_grantTo hfree hj
    have hi : Owns (s.grantTo env fd i).users fd i := by
      have hself : (s.grantTo env fd i).users i = (s.users i).grant fd env.time₁ env.time₂ :=
        Function.update_self ..
      rw [Owns, hself]
      exact ⟨rfl, rfl⟩
    exact .inr ⟨fd, c, j, i, hc, hj'.1, hj'.2, hi⟩
  · left
    refine SingleGrants.note ?_ fd (by simp)
    exact SingleGrants.note h fd (by simp [htwice])

/-- Either nobody has been granted a second entry, or somebody owns two. -/
theorem parse_single_or_two {s s' : State} {env : FrameEnv} {fd : Fd} {flow : Flow State}
    (hcs : Connections s) (hw : s.watched fd = true) (hparse : Parse env fd s flow)
    (hs : flow = .next s' ∨ flow = .stop s') (h : SingleGrants s.log ∨ OwnsTwo s) :
    SingleGrants s'.log ∨ OwnsTwo s' := by
  have hchange : Steady s s' ∨
      ∃ i, firstFree s.users = some i ∧ Steady (s.grantTo env fd i) s' := by
    cases hparse with
    | waits =>
        obtain rfl : s = s' := by simpa using hs
        exact .inl (Steady.refl s)
    | left _ hframe =>
        obtain rfl := Flow.stop.inj (hs.resolve_left (by simp))
        exact hframe.change
    | passed _ hframe _ =>
        obtain rfl := Flow.next.inj (hs.resolve_right (by simp))
        rcases hframe.change with hq | ⟨i, hfree, hq⟩
        · exact .inl (hq.trans (State.consumed_steady _ fd _))
        · exact .inr ⟨i, hfree, hq.trans (State.consumed_steady _ fd _)⟩
    | overran => simp at hs
  rcases hchange with hq | ⟨i, hfree, hq⟩
  · exact h.imp (fun h => h.steady hq) (fun h => h.steady hq)
  · rcases h with hone | ⟨x, c, j, k, hc, hjk, hj, hk⟩
    · exact (grant_single_or_two hcs hw hfree hone).imp (fun h => h.steady hq) (fun h => h.steady hq)
    · have htwo : OwnsTwo (s.grantTo env fd i) :=
        ⟨x, c, j, k, hc, hjk, (owns_grantTo hfree hj).2, (owns_grantTo hfree hk).2⟩
      exact .inr (htwo.steady hq)

theorem parseLoop_single_or_two {s s' : State} {env : Nat → FrameEnv} {fd : Fd} {fuel k : Nat}
    (hcs : Connections s) (hw : s.watched fd = true)
    (hcall : iterate (fun k => parseOnce (env k) fd) fuel k s = .stopped s')
    (h : SingleGrants s.log ∨ OwnsTwo s) : SingleGrants s'.log ∨ OwnsTwo s' := by
  have hchain := iterate_reaches
    (fun t t' => (SingleGrants t.log ∨ OwnsTwo t) → (SingleGrants t'.log ∨ OwnsTwo t'))
    (fun t => Connections t ∧ t.watched fd = true) ?_ ?_ ⟨hcs, hw⟩ hcall
  · clear hcall
    induction hchain with
    | refl => exact h
    | tail _ ht ih => exact ht ih
  · intro k t t' ⟨hcs, hw⟩ hb
    have hparse : Parse (env k) fd t (.next t') := hb ▸ parseOnce_parse (env k) fd t
    have hw' : t'.watched fd = true := by rwa [(hparse.quiet (.inl rfl)).watched]
    exact ⟨parse_single_or_two hcs hw hparse (.inl rfl),
      hcs.pass (.parsed (env k) fd hw hparse), hw'⟩
  · intro k t t' ⟨hcs, hw⟩ hb
    have hparse : Parse (env k) fd t (.stop t') := hb ▸ parseOnce_parse (env k) fd t
    exact parse_single_or_two hcs hw hparse (.inr rfl)

theorem sweep_single (env : SweepEnv) (entries : List Slot) {s : State} (h : SingleGrants s.log) :
    SingleGrants (entries.foldl (heartbeatEntry env) s).log := by
  induction entries generalizing s with
  | nil => exact h
  | cons i entries ih =>
      have hsweep := heartbeatEntry_sweep env i s
      have hswept : SingleGrants (s.swept env i).log := h.steady (s.swept_steady env i)
      rw [List.foldl_cons]
      generalize heartbeatEntry env s i = t at hsweep ⊢
      cases hsweep with
      | skipped => exact ih h
      | spared => exact ih hswept
      | stuck => exact ih hswept
      | evicted => exact ih (hswept.freed _)

/-- The call in which a second entry is granted leaves a connection with two. -/
theorem step_single_or_two {s s' : State} {e : Event} (hcs : Connections s)
    (h : SingleGrants s.log) (hstep : step s e = some s') : SingleGrants s'.log ∨ OwnsTwo s' := by
  cases step_call hstep with
  | refused => exact .inl h
  | accepted fd added _ =>
      left
      intro r hr
      rcases List.mem_cons.mp hr with rfl | hr
      · simp
      · exact h r hr
  | tun r env fuel _ hcall => exact .inl (h.steady (processTun_steady hcall))
  | ended fd r env removed fuel _ =>
      rcases freeClientFd_cases removed fd s with hf | ⟨_, hf⟩
      · rw [hf]
        exact .inl h
      · rw [hf]
        exact .inl (h.freed fd)
  | read fd bs env removed fuel hw hfits hcall =>
      have hread : Pass s (readClient fd bs s) := .read fd hw bs hfits
      have hstart : SingleGrants (readClient fd bs s).log := by
        refine SingleGrants.note ?_ fd (by simp)
        exact SingleGrants.note h fd (by simp)
      exact parseLoop_single_or_two (hcs.pass hread) hw hcall (.inl hstart)
  | heartbeat env => exact .inl (sweep_single env _ h)

/-! ## Whole runs -/

/-- Every state a run goes through has the property, and every call made on the way gives back
what it closes. -/
def OwnedThroughout (fds : Descriptors) (es : List Event) : Prop :=
  ∀ before after t, es = before ++ after → runFrom fds before = some t →
    AddressesOwned t ∧ ∀ e t', step t e = some t' → GivesBack t t'

/-- The property holds throughout a run exactly if nobody is granted a second entry in it. -/
theorem owned_iff_single_grants (fds : Descriptors) (es : List Event) (s : State)
    (hrun : runFrom fds es = some s) : OwnedThroughout fds es ↔ SingleGrants s.log := by
  constructor
  · intro howned
    induction es using List.reverseRecOn generalizing s with
    | nil =>
        obtain rfl := Option.some.inj hrun
        intro r hr
        exact absurd hr List.not_mem_nil
    | append_singleton es e ih =>
        obtain ⟨t, hbefore, hstep⟩ := run_snoc_iff.mp hrun
        have hearlier : OwnedThroughout fds es := by
          intro before after u hsplit hu
          exact howned before (after ++ [e]) u (by rw [hsplit, List.append_assoc]) hu
        have hsingle := ih t hbefore hearlier
        rcases step_single_or_two (Connections.runFrom hbefore) hsingle hstep with h | h
        · exact h
        · exact absurd (howned (es ++ [e]) [] s (by simp) hrun).1 h.not_owned
  · intro hsingle before after t hsplit ht
    subst hsplit
    obtain ⟨u, hu, hafter⟩ := run_append_iff.mp hrun
    obtain rfl := Option.some.inj (ht.symm.trans hu)
    obtain ⟨hcs, h⟩ := runFrom_ledger ht (hsingle.inherit _ _ (run_log_suffix hafter))
    exact ⟨h.owned hcs, fun e t' hstep => h.step_givesBack hcs hstep⟩

def secondRequest : List Event :=
  [.server (some (7, true)),
    .client 7 (.bytes [5, 0, 0, 0, 100, 5, 0, 0, 0, 100]) (.prompt 0) true 9]

/-- One connection holds two addresses, and when it ends only the first is free again. -/
theorem second_request_leaks :
    ¬ (∀ fds es, OwnedThroughout fds es) ∧
      ∃ s s', runFrom .usual secondRequest = some s ∧ Owns s.users 7 2 ∧ Owns s.users 7 3 ∧
        step s (.client 7 (.bytes []) (.prompt 0) true 9) = some s' ∧ s'.conn 7 = none ∧
          Owns s'.users 7 3 := by
  have hrun : ((runFrom .usual secondRequest).any fun s =>
      decide (s.conn 7 = some 0 ∧ Owns s.users 7 2 ∧ Owns s.users 7 3) &&
        (step s (.client 7 (.bytes []) (.prompt 0) true 9)).any fun s' =>
          decide (s'.conn 7 = none ∧ Owns s'.users 7 3)) = true := by decide +kernel
  obtain ⟨s, hs, hfacts⟩ := (Option.any_eq_true _ _).mp hrun
  obtain ⟨hnow, hlater⟩ := Bool.and_eq_true_iff.mp hfacts
  obtain ⟨hconn, htwo, hthree⟩ := of_decide_eq_true hnow
  obtain ⟨s', hs', hclosed⟩ := (Option.any_eq_true _ _).mp hlater
  obtain ⟨hgone, hleft⟩ := of_decide_eq_true hclosed
  refine ⟨?_, s, s', hs, htwo, hthree, hs', hgone, hleft⟩
  intro hall
  have howned := (hall .usual secondRequest secondRequest [] s (by simp) hs).1
  exact absurd (howned.single 7 0 hconn 2 3 htwo hthree) (by decide)

/-- One request each, the second client on the descriptor of the first. -/
theorem owned_twoClients :
    ∃ s, runFrom .usual twoClients = some s ∧ SingleGrants s.log ∧
      OwnedThroughout .usual twoClients := by
  have hrun : ((runFrom .usual twoClients).any fun s =>
      decide (SingleGrants s.log)) = true := by decide +kernel
  obtain ⟨s, hs, hfacts⟩ := (Option.any_eq_true _ _).mp hrun
  have hsingle : SingleGrants s.log := of_decide_eq_true hfacts
  exact ⟨s, hs, hsingle, (owned_iff_single_grants .usual twoClients s hs).mpr hsingle⟩

end Over6.Server
