import Mathlib.Data.Finset.Card
import Mathlib.Data.Fintype.Basic
import Over6.Server.Connections

/-! # Indices into the table

The handlers log the entry each of them reads or writes. A keepalive is the only
place where the result of a search is not looked at before it is used, so what counts
is whether its descriptor owns an entry: as many as it was granted and has not given
back.
-/

namespace Over6.Server

/-- The indices into `users[]` behind a record; a failed search leaves -1. -/
def Act.indices : Act → List Int
  | granted i _ | judged i _ | released i => [(i : Nat)]
  | kept (some i) _ => [(i : Nat)]
  | kept none _ => [-1]
  | _ => []

def indices (log : List Record) : List Int := log.flatMap fun r => r.act.indices

/-- The index `process_tun` uses for what is in its buffer: it goes back to the start of its loop
when there is none. -/
def State.routeIndex (s : State) : List Int :=
  match searchUserInfoByAddr s.users (s.bufs s.tunFd).daddr with
  | none => []
  | some i => [(i : Nat)]

/-- Every index used so far is one of the table, and so is the one `process_tun` would use next. -/
def InTable (s : State) : Prop :=
  ∀ idx ∈ indices s.log ++ s.routeIndex, 0 ≤ idx ∧ idx < clientNum

instance (s : State) : Decidable (InTable s) :=
  inferInstanceAs (Decidable (∀ idx ∈ indices s.log ++ s.routeIndex, 0 ≤ idx ∧ idx < clientNum))

/-! ## Grants and releases -/

namespace Act

def isGranted : Act → Bool
  | granted _ _ => true
  | _ => false

def isReleased : Act → Bool
  | released _ => true
  | _ => false

/-- Nothing that concerns the owners, and no keepalive. -/
def Idle : Act → Prop
  | granted _ _ | released _ | kept _ _ => False
  | _ => True

end Act

def grantedOn (fd : Fd) (log : List Record) : Nat :=
  log.countP fun r => r.fd == fd && r.act.isGranted

def releasedOn (fd : Fd) (log : List Record) : Nat :=
  log.countP fun r => r.fd == fd && r.act.isReleased

def ownedBy (users : Users) (fd : Fd) : Finset Slot := Finset.univ.filter (Owns users fd)

theorem mem_ownedBy {users : Users} {fd : Fd} {i : Slot} :
    i ∈ ownedBy users fd ↔ Owns users fd i := by
  simp [ownedBy]

theorem ownedBy_congr {users users' : Users} (h : ∀ i, (users i).SameOwner (users' i)) (fd : Fd) :
    ownedBy users' fd = ownedBy users fd := by
  apply Finset.ext
  intro i
  obtain ⟨_, hstatus, hfd, _⟩ := h i
  rw [mem_ownedBy, mem_ownedBy, Owns, Owns, hstatus, hfd]

/-- The log accounts for the table, and every keepalive in it found an entry if its descriptor had
one. -/
structure Balanced (users : Users) (log : List Record) : Prop where
  owned : ∀ fd, 0 ≤ fd → releasedOn fd log + (ownedBy users fd).card = grantedOn fd log
  kept : ∀ c fd id t older, ⟨c, fd, .kept id t⟩ :: older <:+ log →
    (id.isSome = true ↔ releasedOn fd older < grantedOn fd older)

namespace Balanced

variable {users : Users} {log : List Record} {fd : Fd} {i : Slot} {c : Option Conn} {r : Record}

theorem initState (fds : Descriptors) : Balanced (initState fds).users (initState fds).log := by
  refine ⟨fun fd hfd => ?_, fun c fd id t older h => ?_⟩
  · have hnone : ownedBy (Server.initState fds).users fd = ∅ := by
      apply Finset.eq_empty_of_forall_notMem
      intro i hi
      have hneg : (-1 : Int) = fd := (mem_ownedBy.mp hi).1
      exact absurd hneg.symm (ne_neg_one_of_nonneg hfd)
    rw [hnone]
    rfl
  · exact absurd (List.suffix_nil.mp h) (List.cons_ne_nil _ _)

theorem sameOwner (h : Balanced users log) {users' : Users}
    (hsame : ∀ i, (users i).SameOwner (users' i)) : Balanced users' log :=
  ⟨fun fd hfd => by rw [ownedBy_congr hsame, h.owned fd hfd], h.kept⟩

/-- A keepalive further down is still there. -/
theorem kept_cons (h : Balanced users log) {r : Record} (hr : ∀ id t, r.act ≠ .kept id t) :
    ∀ c fd id t older, ⟨c, fd, .kept id t⟩ :: older <:+ r :: log →
      (id.isSome = true ↔ releasedOn fd older < grantedOn fd older) := by
  intro c fd id t older hsuffix
  rcases List.suffix_cons_iff.mp hsuffix with heq | hsuffix
  · obtain ⟨rfl, _⟩ := List.cons.inj heq
    exact absurd rfl (hr id t)
  · exact h.kept c fd id t older hsuffix

theorem idle (h : Balanced users log) (hr : r.act.Idle) : Balanced users (r :: log) := by
  obtain ⟨c, x, act⟩ := r
  have hnot : act.isGranted = false ∧ act.isReleased = false ∧ ∀ id t, act ≠ .kept id t := by
    cases act with
    | granted => exact hr.elim
    | released => exact hr.elim
    | kept => exact hr.elim
    | _ => exact ⟨rfl, rfl, fun _ _ h => nomatch h⟩
  refine ⟨fun fd hfd => ?_, h.kept_cons hnot.2.2⟩
  have hgranted : grantedOn fd (⟨c, x, act⟩ :: log) = grantedOn fd log := by
    simp [grantedOn, hnot.1]
  have hreleased : releasedOn fd (⟨c, x, act⟩ :: log) = releasedOn fd log := by
    simp [releasedOn, hnot.2.1]
  rw [hgranted, hreleased, h.owned fd hfd]

theorem idles (h : Balanced users log) {new : List Record} (hnew : ∀ r ∈ new, r.act.Idle) :
    Balanced users (new ++ log) := by
  induction new with
  | nil => exact h
  | cons r new ih =>
      exact (ih fun r' hr' => hnew r' (List.mem_cons_of_mem r hr')).idle (hnew r List.mem_cons_self)

/-- The search finds an entry exactly when one has not been given back. -/
theorem kept_search (h : Balanced users log) (hfd : 0 ≤ fd) (t : Int) :
    Balanced users (⟨c, fd, .kept (searchUserInfoByFd users fd) t⟩ :: log) := by
  refine ⟨fun x hx => ?_, fun c' fd' id t' older hsuffix => ?_⟩
  · have hgranted : ∀ id, grantedOn x (⟨c, fd, .kept id t⟩ :: log) = grantedOn x log := fun _ => by
      simp [grantedOn, Act.isGranted]
    have hreleased : ∀ id, releasedOn x (⟨c, fd, .kept id t⟩ :: log) = releasedOn x log :=
      fun _ => by simp [releasedOn, Act.isReleased]
    rw [hgranted, hreleased, h.owned x hx]
  · rcases List.suffix_cons_iff.mp hsuffix with heq | hsuffix
    · obtain ⟨hrecord, rfl⟩ := List.cons.inj heq
      obtain ⟨_, rfl, hact⟩ := Record.mk.inj hrecord
      obtain ⟨rfl, _⟩ := Act.kept.inj hact
      have howned := h.owned fd' hfd
      have hpos : (∃ i, Owns users fd' i) ↔ 0 < (ownedBy users fd').card := by
        rw [Finset.card_pos]
        exact ⟨fun ⟨i, hi⟩ => ⟨i, mem_ownedBy.mpr hi⟩, fun ⟨i, hi⟩ => ⟨i, mem_ownedBy.mp hi⟩⟩
      rw [searchUserInfoByFd_isSome, hpos]
      omega
    · exact h.kept c' fd' id t' older hsuffix

theorem grant (h : Balanced users log) (hfree : (users i).status = true) (t₁ t₂ : Int) :
    Balanced (Function.update users i ((users i).grant fd t₁ t₂))
      (⟨c, fd, .granted i t₂⟩ :: log) := by
  refine ⟨fun x hx => ?_, h.kept_cons fun _ _ h => nomatch h⟩
  have hnot : ∀ x, i ∉ ownedBy users x := fun x hi => by
    have hst := (mem_ownedBy.mp hi).2
    rw [hfree] at hst
    cases hst
  have hmem : ∀ j, j ∈ ownedBy (Function.update users i ((users i).grant fd t₁ t₂)) x ↔
      (j = i ∧ x = fd) ∨ j ∈ ownedBy users x := by
    intro j
    rw [mem_ownedBy, mem_ownedBy]
    by_cases hj : j = i
    · subst hj
      have hst : ¬ Owns users x j := fun ho => hnot x (mem_ownedBy.mpr ho)
      have hself : Owns (Function.update users j ((users j).grant fd t₁ t₂)) x j ↔ fd = x := by
        rw [Owns, Function.update_self]
        exact ⟨fun h => h.1, fun h => ⟨h, rfl⟩⟩
      rw [hself]
      exact ⟨fun h => .inl ⟨rfl, h.symm⟩, fun h => h.elim (fun h => h.2.symm) fun h => absurd h hst⟩
    · simp [Owns, hj]
  have hreleased : releasedOn x (⟨c, fd, .granted i t₂⟩ :: log) = releasedOn x log := by
    simp [releasedOn, Act.isReleased]
  have hbefore := h.owned x hx
  by_cases hxf : x = fd
  · have hinsert : ownedBy (Function.update users i ((users i).grant fd t₁ t₂)) x =
        insert i (ownedBy users x) := by
      apply Finset.ext
      intro j
      rw [hmem, Finset.mem_insert]
      simp [hxf]
    have hgranted : grantedOn x (⟨c, fd, .granted i t₂⟩ :: log) = grantedOn x log + 1 := by
      simp [grantedOn, Act.isGranted, hxf]
    rw [hinsert, Finset.card_insert_of_notMem (hnot x), hreleased, hgranted]
    omega
  · have hsame : ownedBy (Function.update users i ((users i).grant fd t₁ t₂)) x =
        ownedBy users x := by
      apply Finset.ext
      intro j
      rw [hmem]
      simp [hxf]
    have hgranted : grantedOn x (⟨c, fd, .granted i t₂⟩ :: log) = grantedOn x log := by
      simp [grantedOn, Ne.symm hxf]
    rw [hsame, hreleased, hgranted, hbefore]

theorem release (h : Balanced users log) (hi : Owns users fd i) :
    Balanced (Function.update users i (users i).release) (⟨c, fd, .released i⟩ :: log) := by
  refine ⟨fun x hx => ?_, h.kept_cons fun _ _ h => nomatch h⟩
  have herase : ownedBy (Function.update users i (users i).release) x =
      (ownedBy users x).erase i := by
    apply Finset.ext
    intro j
    rw [Finset.mem_erase, mem_ownedBy, mem_ownedBy]
    by_cases hj : j = i
    · subst hj
      simp [Owns, UserInfo.release]
    · simp [Owns, hj]
  have hgranted : grantedOn x (⟨c, fd, .released i⟩ :: log) = grantedOn x log := by
    simp [grantedOn, Act.isGranted]
  have hbefore := h.owned x hx
  by_cases hxf : x = fd
  · have hmem : i ∈ ownedBy users x := mem_ownedBy.mpr (hxf ▸ hi)
    have hreleased : releasedOn x (⟨c, fd, .released i⟩ :: log) = releasedOn x log + 1 := by
      simp [releasedOn, Act.isReleased, hxf]
    have hcard := Finset.card_erase_add_one hmem
    rw [herase, hreleased, hgranted]
    omega
  · have hmem : i ∉ ownedBy users x := fun hmem => hxf ((mem_ownedBy.mp hmem).1.symm.trans hi.1)
    have hreleased : releasedOn x (⟨c, fd, .released i⟩ :: log) = releasedOn x log := by
      simp [releasedOn, Ne.symm hxf]
    rw [herase, Finset.erase_eq_of_notMem hmem, hreleased, hgranted, hbefore]

end Balanced

/-! ## In every run of the server -/

def State.Balanced (s : State) : Prop := Server.Balanced s.users s.log

namespace State.Balanced

variable {s : State} {fd : Fd}

theorem note (h : s.Balanced) (fd : Fd) {act : Act} (hact : act.Idle := by trivial) :
    (s.note fd act).Balanced := Server.Balanced.idle h hact

theorem note_kept (h : s.Balanced) (hfd : 0 ≤ fd) (t : Int) :
    (s.note fd (.kept (searchUserInfoByFd s.users fd) t)).Balanced :=
  Server.Balanced.kept_search h hfd t

theorem setBuf (h : s.Balanced) (fd : Fd) (e : BufferEntry) : (s.setBuf fd e).Balanced := h

theorem freed (h : s.Balanced) (fd : Fd) : (s.freed fd).Balanced := by
  unfold State.freed deallocateIpAddr
  cases hsearch : searchUserInfoByFd s.users fd with
  | none => exact Server.Balanced.idle h trivial
  | some i =>
      have hi := (searchUserInfoByFd_eq_some.mp hsearch).1
      exact (Server.Balanced.release h hi).idle trivial

theorem grantTo (h : s.Balanced) {env : FrameEnv} {i : Slot} (hfree : firstFree s.users = some i) :
    (s.grantTo env fd i).Balanced := by
  have hrequest : Server.Balanced s.users (s.noteRequest fd).log := Server.Balanced.idle h trivial
  exact hrequest.grant (firstFree_eq_some.mp hfree).1 env.time₁ env.time₂

theorem dispatch (h : s.Balanced) (hfd : 0 ≤ fd) {env : FrameEnv} {msg : Message}
    {flow : BoundedLoop.Flow State} (hd : Dispatch env fd msg s flow) : flow.state.Balanced := by
  cases hd with
  | poolFull => exact (h.note fd).note fd
  | replyHeader _ i hi => exact ((h.grantTo hi).note fd).note fd
  | replyData _ i hi => exact (((h.grantTo hi).note fd).note fd).note fd
  | replied _ i hi => exact (((h.grantTo hi).note fd).note fd).note fd
  | tunData => exact ((h.note fd).note _).note fd
  | forwarded => exact (h.note fd).note _
  | stray _ hnone =>
      have hkept := h.note_kept hfd env.time₁
      rw [hnone] at hkept
      exact hkept
  | kept _ i hsome =>
      have hkept := h.note_kept hfd env.time₁
      rw [hsome] at hkept
      have hsame : Steady (s.note fd (.kept (some i) env.time₁))
          ((s.note fd (.kept (some i) env.time₁)).setUser i
            { s.users i with lastHeartbeatRecvedSecs := env.time₁ }) :=
        (Steady.refl _).setUser i ⟨rfl, rfl, rfl, rfl⟩
      exact Server.Balanced.sameOwner hkept hsame.owner
  | unknown => exact h

theorem consumed (h : s.Balanced) (fd : Fd) (msg : Message) : (s.consumed fd msg).Balanced :=
  (((h.note fd).note fd).setBuf fd _).note fd

theorem swept (h : s.Balanced) (env : SweepEnv) (i : Slot) : (s.swept env i).Balanced := by
  obtain ⟨new, hlog, hnew⟩ := (s.swept_quiet env i).log
  have hidle : ∀ r ∈ new, r.act.Idle := by
    intro r hr
    have hact := (hnew r hr).2
    cases hr' : r.act with
    | granted => rw [hr'] at hact; exact hact.elim
    | released => rw [hr'] at hact; exact hact.elim
    | kept => rw [hr'] at hact; exact hact.elim
    | _ => trivial
  have hgrown := Server.Balanced.idles h hidle
  rw [← hlog] at hgrown
  exact hgrown.sameOwner (s.swept_steady env i).owner

theorem pass (h : s.Balanced) (hcs : Connections s) {s' : State} (hp : Pass s s') :
    s'.Balanced := by
  have hclient : ∀ {fd}, s.watched fd = true → 0 ≤ fd := by
    intro fd hw
    obtain ⟨c, hc⟩ := hcs.watchedOpen fd hw
    exact (hcs.client fd c hc).1
  cases hp with
  | accept => exact Server.Balanced.idle h trivial
  | hangup fd hw => exact h.freed fd
  | read fd => exact ((h.note fd).setBuf fd _).note fd
  | parsed env fd hw hparse =>
      cases hparse with
      | passed _ hframe => exact (h.dispatch (hclient hw) hframe).consumed fd _
  | parsedLast env fd hw hparse =>
      cases hparse with
      | waits => exact h
      | left _ hframe => exact h.dispatch (hclient hw) hframe
  | readTun => exact (h.setBuf _ _).note _
  | routed hroute =>
      cases hroute with
      | nobody => exact h
      | routed => exact (((h.note _).note _).setBuf _ _).note _
  | routedLast hroute =>
      cases hroute with
      | drained => exact h
      | header => exact h.note _
      | packet => exact (h.note _).note _
  | swept env i hsweep =>
      cases hsweep with
      | skipped => exact h
      | spared => exact h.swept env i
      | stuck => exact h.swept env i
      | evicted => exact (h.swept env i).freed _

theorem passes (h : s.Balanced) (hcs : Connections s) {s' : State} (hp : Passes s s') :
    s'.Balanced := by
  induction hp with
  | refl => exact h
  | tail hp hpass ih => exact ih.pass (hcs.passes hp) hpass

end State.Balanced

/-! ## The indices -/

theorem slot_inTable (i : Slot) : (0 : Int) ≤ (i : Nat) ∧ ((i : Nat) : Int) < clientNum := by
  have hi := i.isLt
  have hnum : ((clientNum : Nat) : Int) = 256 := rfl
  omega

theorem Act.indices_inTable {act : Act} :
    (∀ idx ∈ act.indices, 0 ≤ idx ∧ idx < clientNum) ↔ ∀ t, act ≠ .kept none t := by
  cases act with
  | kept id t =>
      cases id with
      | none =>
          constructor
          · intro h
            exact absurd (h (-1) List.mem_cons_self).1 (by decide)
          · intro h
            exact absurd rfl (h t)
      | some i => simp [indices, slot_inTable i]
  | granted i => simp [indices, slot_inTable i]
  | judged i => simp [indices, slot_inTable i]
  | released i => simp [indices, slot_inTable i]
  | _ => simp [indices]

theorem inTable_iff (s : State) : InTable s ↔ ∀ r ∈ s.log, ∀ t, r.act ≠ .kept none t := by
  have hroute : ∀ idx ∈ s.routeIndex, 0 ≤ idx ∧ idx < clientNum := by
    intro idx hidx
    unfold State.routeIndex at hidx
    split at hidx
    · cases hidx
    · rw [List.mem_singleton.mp hidx]
      exact slot_inTable _
  rw [InTable]
  constructor
  · intro h r hr
    apply Act.indices_inTable.mp
    intro idx hidx
    exact h idx (List.mem_append_left _ (List.mem_flatMap.mpr ⟨r, hr, hidx⟩))
  · intro h idx hidx
    rcases List.mem_append.mp hidx with hidx | hidx
    · obtain ⟨r, hr, hidx⟩ := List.mem_flatMap.mp hidx
      exact Act.indices_inTable.mpr (h r hr) idx hidx
    · exact hroute idx hidx

/-- In every state of every run, between the passes of a call as well as behind it: the indices are
in range exactly if every keepalive was handled on a descriptor number on which more entries had been
granted than given back. -/
theorem indices_in_table_iff (fds : Descriptors) (s : State) (hp : Passes (initState fds) s) :
    InTable s ↔ ∀ c fd id t older, ⟨c, fd, .kept id t⟩ :: older <:+ s.log →
      releasedOn fd older < grantedOn fd older := by
  have hbalanced : s.Balanced :=
    State.Balanced.passes (Balanced.initState fds) (.initState fds) hp
  rw [inTable_iff]
  constructor
  · intro h c fd id t older hsuffix
    have hmem : ⟨c, fd, .kept id t⟩ ∈ s.log := hsuffix.subset List.mem_cons_self
    have hsome : id.isSome = true := by
      cases id with
      | none => exact absurd rfl (h _ hmem t)
      | some i => rfl
    exact (hbalanced.kept c fd id t older hsuffix).mp hsome
  · intro h r hr t hact
    obtain ⟨newer, older, hsplit⟩ := List.append_of_mem hr
    obtain ⟨c, fd, act⟩ := r
    obtain rfl : act = .kept none t := hact
    have hsuffix : ⟨c, fd, .kept none t⟩ :: older <:+ s.log := ⟨newer, hsplit.symm⟩
    have hlt := h c fd none t older hsuffix
    exact absurd ((hbalanced.kept c fd none t older hsuffix).mpr hlt) (by simp)

/-- The keepalive of the first client comes when its request has been granted. -/
theorem indices_in_table_twoClients :
    ∃ s, runFrom .usual twoClients = some s ∧ InTable s ∧
      ∀ c fd id t older, ⟨c, fd, .kept id t⟩ :: older <:+ s.log →
        releasedOn fd older < grantedOn fd older := by
  have hany : ((runFrom .usual twoClients).any fun s => decide (InTable s)) = true := by
    decide +kernel
  obtain ⟨s, hrun, hs⟩ := (Option.any_eq_true _ _).mp hany
  have hin := of_decide_eq_true hs
  exact ⟨s, hrun, hin, (indices_in_table_iff .usual s (runFrom_passes hrun)).mp hin⟩

def earlyKeepalive : List Event :=
  [.server (some (7, true)), .client 7 (.bytes [5, 0, 0, 0, 104]) (.prompt 0) true 9]

theorem early_keepalive_outside :
    ∃ s, runFrom .usual earlyKeepalive = some s ∧ indices s.log = [-1] ∧ ¬ InTable s := by
  have hany : ((runFrom .usual earlyKeepalive).any fun s =>
      decide (indices s.log = [-1] ∧ ¬ InTable s)) = true := by decide +kernel
  obtain ⟨s, hrun, hs⟩ := (Option.any_eq_true _ _).mp hany
  exact ⟨s, hrun, of_decide_eq_true hs⟩

end Over6.Server
