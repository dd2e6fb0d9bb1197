import Over6.Server.Connections

/-! # The pool of addresses

What `allocate_ip_addr` and `deallocate_ip_addr` make of the table. Entries 0, 1 and
255 have the same descriptor as free ones and the same status as allocated ones; no
call on a client's descriptor ever takes one of them for either.
-/

namespace Over6.Server

open EventRun

theorem reserved_eq_false {i : Slot} : reserved i = false ↔ 2 ≤ (i : Nat) ∧ (i : Nat) ≤ 254 := by
  revert i
  decide +kernel

/-- What the initialisation and the two calls keep. -/
structure PoolSound (users : Users) : Prop where
  text : ∀ i, (users i).addr = slotText i
  withheld : ∀ i, reserved i = true →
    (users i).status = false ∧ (users i).fd = -1 ∧ (users i).v4addr = 0
  free : ∀ i, (users i).status = true → (users i).fd = -1
  held : ∀ i, reserved i = false → (users i).status = false →
    0 ≤ (users i).fd ∧ (users i).v4addr = slotAddr i

namespace PoolSound

variable {users : Users} {i : Slot} {clientFd : Fd}

theorem initState (fds : Descriptors) : PoolSound (initState fds).users := by
  refine ⟨fun _ => rfl, ?_, fun _ _ => rfl, ?_⟩
  · intro i hi
    have hstatus : ((Server.initState fds).users i).status = !reserved i := rfl
    rw [hstatus, hi]
    exact ⟨rfl, rfl, rfl⟩
  · intro i hi hst
    have hstatus : ((Server.initState fds).users i).status = !reserved i := rfl
    rw [hstatus, hi] at hst
    cases hst

/-- An entry that can be allocated is not reserved. -/
theorem not_reserved_of_free (h : PoolSound users) (hi : (users i).status = true) :
    reserved i = false := by
  cases hr : reserved i with
  | false => rfl
  | true =>
      rw [(h.withheld i hr).1] at hi
      cases hi

/-- Neither is one that a client's descriptor owns. -/
theorem not_reserved_of_owns (h : PoolSound users) (hfd : 0 ≤ clientFd)
    (hi : Owns users clientFd i) : reserved i = false := by
  cases hr : reserved i with
  | false => rfl
  | true =>
      have hneg := (h.withheld i hr).2.1
      rw [hi.1] at hneg
      exact absurd hneg (ne_neg_one_of_nonneg hfd)

theorem status_iff (h : PoolSound users) (hi : reserved i = false) :
    (users i).status = true ↔ (users i).fd = -1 := by
  refine ⟨h.free i, fun hfd => ?_⟩
  cases hst : (users i).status with
  | true => rfl
  | false =>
      have hpos := (h.held i hi hst).1
      exact absurd hfd (ne_neg_one_of_nonneg hpos)

/-- An entry is changed to one that fits its place. -/
theorem update (h : PoolSound users) {u : UserInfo} (htext : u.addr = slotText i)
    (hres : reserved i = false) (hfree : u.status = true → u.fd = -1)
    (hheld : u.status = false → 0 ≤ u.fd ∧ u.v4addr = slotAddr i) :
    PoolSound (Function.update users i u) := by
  have hself : Function.update users i u i = u := Function.update_self ..
  have hother : ∀ j, j ≠ i → Function.update users i u j = users j := fun j hj =>
    Function.update_of_ne hj ..
  refine ⟨fun j => ?_, fun j hj => ?_, fun j hst => ?_, fun j hj hst => ?_⟩
  · by_cases hji : j = i
    · rw [hji, hself, htext]
    · rw [hother j hji, h.text]
  · by_cases hji : j = i
    · rw [hji, hres] at hj
      cases hj
    · rw [hother j hji]
      exact h.withheld j hj
  · by_cases hji : j = i
    · rw [hji, hself] at hst ⊢
      exact hfree hst
    · rw [hother j hji] at hst ⊢
      exact h.free j hst
  · by_cases hji : j = i
    · rw [hji, hself] at hst ⊢
      exact hheld hst
    · rw [hother j hji] at hst ⊢
      exact h.held j hj hst

theorem grant (h : PoolSound users) (hfd : 0 ≤ clientFd) (hi : (users i).status = true)
    (sentSecs recvedSecs : Int) :
    PoolSound (Function.update users i ((users i).grant clientFd sentSecs recvedSecs)) := by
  have hres := h.not_reserved_of_free hi
  have haddr : ((users i).grant clientFd sentSecs recvedSecs).v4addr = slotAddr i := by
    rw [UserInfo.grant, h.text i, inetPton_slotText]
    rfl
  have hst : ((users i).grant clientFd sentSecs recvedSecs).status = false := rfl
  refine h.update (h.text i) hres (fun hst' => ?_) fun _ => ⟨hfd, haddr⟩
  rw [hst] at hst'
  cases hst'

theorem release (h : PoolSound users) (hfd : 0 ≤ clientFd) (hi : Owns users clientFd i) :
    PoolSound (Function.update users i (users i).release) := by
  have hres := h.not_reserved_of_owns hfd hi
  have hst : (users i).release.status = true := rfl
  refine h.update (h.text i) hres (fun _ => rfl) fun hst' => ?_
  rw [hst] at hst'
  cases hst'

theorem releaseFirst (h : PoolSound users) (hfd : 0 ≤ clientFd) :
    PoolSound (releaseFirst users clientFd) := by
  unfold Server.releaseFirst
  cases hsearch : searchUserInfoByFd users clientFd with
  | none => exact h
  | some i => exact h.release hfd (searchUserInfoByFd_eq_some.mp hsearch).1

/-- The clocks do not matter. -/
theorem sameOwner {users' : Users} (h : PoolSound users)
    (hsame : ∀ i, (users i).SameOwner (users' i)) : PoolSound users' := by
  refine ⟨fun i => ?_, fun i hi => ?_, fun i hst => ?_, fun i hi hst => ?_⟩
  · rw [(hsame i).1, h.text]
  · obtain ⟨_, hstatus, hfd, haddr⟩ := hsame i
    rw [hstatus, hfd, haddr]
    exact h.withheld i hi
  · obtain ⟨_, hstatus, hfd, _⟩ := hsame i
    rw [hstatus] at hst
    rw [hfd, h.free i hst]
  · obtain ⟨_, hstatus, hfd, haddr⟩ := hsame i
    rw [hstatus] at hst
    rw [hfd, haddr]
    exact h.held i hi hst

/-- Two entries are held for different addresses. -/
theorem v4addr_injective (h : PoolSound users) {j : Slot} (hi : reserved i = false)
    (hj : reserved j = false) (hsi : (users i).status = false) (hsj : (users j).status = false)
    (heq : (users i).v4addr = (users j).v4addr) : i = j := by
  rw [(h.held i hi hsi).2, (h.held j hj hsj).2] at heq
  exact slotAddr_injective heq

end PoolSound

/-! ## In every run of the server -/

theorem PoolSound.change {s s' : State} (h : PoolSound s.users) (hcs : Connections s)
    (hc : Change s s') : PoolSound s'.users := by
  cases hc with
  | steady hs => exact h.sameOwner hs.owner
  | grant env fd i hw hfree hs =>
      obtain ⟨c, hc⟩ := hcs.watchedOpen fd hw
      have hgrant : PoolSound (s.grantTo env fd i).users :=
        h.grant (hcs.client fd c hc).1 (firstFree_eq_some.mp hfree).1 env.time₁ env.time₂
      exact hgrant.sameOwner hs.owner
  | @free t hs fd hw =>
      obtain ⟨c, hc⟩ := (hcs.quiet hs.toQuiet).watchedOpen fd hw
      have hfd : 0 ≤ fd := ((hcs.quiet hs.toQuiet).client fd c hc).1
      rw [(t.freed_spec fd).1]
      exact (h.sameOwner hs.owner).releaseFirst hfd
  | accept => exact h

theorem PoolSound.passes {s s' : State} (h : PoolSound s.users) (hcs : Connections s)
    (hp : Passes s s') : PoolSound s'.users := by
  induction hp with
  | refl => exact h
  | @tail t t' hp hpass ih => exact ih.change (hcs.passes hp) hpass.change

theorem PoolSound.runFrom {fds : Descriptors} {es : List Event} {s : State}
    (h : runFrom fds es = some s) : PoolSound s.users :=
  (PoolSound.initState fds).passes (.initState fds) (runFrom_passes h)

/-! ## Calls on the pool -/

inductive PoolCall where
  | allocate (clientFd : Fd) (sentSecs recvedSecs : Int)
  | deallocate (clientFd : Fd)
deriving DecidableEq, Repr

namespace PoolCall

def clientFd : PoolCall → Fd
  | allocate fd _ _ | deallocate fd => fd

/-- The state behind the call and the entry it returns. -/
def call (s : State) : PoolCall → State × Option Slot
  | allocate fd sentSecs recvedSecs => allocateIpAddr fd sentSecs recvedSecs s
  | deallocate fd => deallocateIpAddr fd s

def isDeallocate : PoolCall → Bool
  | allocate _ _ _ => false
  | deallocate _ => true

end PoolCall

def poolStep (s : State) (c : PoolCall) : Option State := some (c.call s).1

/-- Everything a call can do, with the entry it returns. -/
inductive Allotted (s : State) : PoolCall → State × Option Slot → Prop
  | full (fd : Fd) (t₁ t₂ : Int) (h : ∀ i, (s.users i).status = false) :
      Allotted s (.allocate fd t₁ t₂) (s, none)
  | granted (fd : Fd) (t₁ t₂ : Int) (i : Slot) (h : (s.users i).status = true)
      (hfirst : ∀ j < i, (s.users j).status = false) {s' : State}
      (husers : s'.users = Function.update s.users i ((s.users i).grant fd t₁ t₂)) :
      Allotted s (.allocate fd t₁ t₂) (s', some i)
  | unknown (fd : Fd) (h : ∀ i, ¬ Owns s.users fd i) : Allotted s (.deallocate fd) (s, none)
  | released (fd : Fd) (i : Slot) (h : Owns s.users fd i) {s' : State}
      (husers : s'.users = Function.update s.users i (s.users i).release) :
      Allotted s (.deallocate fd) (s', some i)

theorem PoolCall.call_allotted (s : State) (c : PoolCall) : Allotted s c (c.call s) := by
  cases c with
  | allocate fd t₁ t₂ =>
      change Allotted s _ (allocateIpAddr fd t₁ t₂ s)
      unfold allocateIpAddr
      cases hfree : firstFree s.users with
      | none => exact .full fd t₁ t₂ (firstFree_eq_none.mp hfree)
      | some i =>
          obtain ⟨hstatus, hfirst⟩ := firstFree_eq_some.mp hfree
          exact .granted fd t₁ t₂ i hstatus hfirst rfl
  | deallocate fd =>
      change Allotted s _ (deallocateIpAddr fd s)
      unfold deallocateIpAddr
      cases hsearch : searchUserInfoByFd s.users fd with
      | none => exact .unknown fd (searchUserInfoByFd_eq_none.mp hsearch)
      | some i => exact .released fd i (searchUserInfoByFd_eq_some.mp hsearch).1 rfl

theorem PoolSound.call {s : State} {c : PoolCall} (h : PoolSound s.users) (hfd : 0 ≤ c.clientFd) :
    PoolSound (c.call s).1.users := by
  have hcall := c.call_allotted s
  generalize c.call s = out at hcall
  cases hcall with
  | full => exact h
  | granted fd t₁ t₂ i hi _ husers =>
      rw [husers]
      exact h.grant hfd hi t₁ t₂
  | unknown => exact h
  | released fd i hi husers =>
      rw [husers]
      exact h.release hfd hi

theorem PoolSound.run {s t : State} {calls : List PoolCall} (h : PoolSound s.users)
    (hfd : ∀ c ∈ calls, 0 ≤ c.clientFd) (hrun : run poolStep s calls = some t) :
    PoolSound t.users := by
  induction calls generalizing s with
  | nil => exact Option.some.inj hrun ▸ h
  | cons c calls ih =>
      obtain ⟨s', hstep, hrest⟩ := run_cons_iff.mp hrun
      obtain rfl := Option.some.inj hstep
      exact ih (h.call (hfd c List.mem_cons_self))
        (fun c' hc' => hfd c' (List.mem_cons_of_mem c hc')) hrest

/-- An entry that is not free stays so through every call but the one that returns it. -/
theorem Allotted.taken {s : State} {c : PoolCall} {out : State × Option Slot} {i : Slot}
    (h : Allotted s c out) (hi : (s.users i).status = false)
    (hother : ¬ (c.isDeallocate = true ∧ out.2 = some i)) : (out.1.users i).status = false := by
  cases h with
  | full => exact hi
  | granted fd t₁ t₂ j hj _ husers =>
      have hne : i ≠ j := by
        rintro rfl
        rw [hi] at hj
        cases hj
      rw [husers, Function.update_of_ne hne, hi]
  | unknown => exact hi
  | released fd j _ husers =>
      have hne : i ≠ j := by
        rintro rfl
        exact hother ⟨rfl, rfl⟩
      rw [husers, Function.update_of_ne hne, hi]

/-! ## Every sequence of calls -/

structure PoolCorrect (s : State) : Prop where
  /-- Entries 0, 1 and 255 are not free, and no call returns one. -/
  withheld : ∀ i : Slot, i = 0 ∨ i = 1 ∨ i = 255 → (s.users i).status = false ∧
    ∀ c : PoolCall, 0 ≤ c.clientFd → (c.call s).2 ≠ some i
  status_iff : ∀ i : Slot, 2 ≤ (i : Nat) → (i : Nat) ≤ 254 →
    ((s.users i).status = true ↔ (s.users i).fd = -1)
  smallest : ∀ fd t₁ t₂ i, (allocateIpAddr fd t₁ t₂ s).2 = some i ↔
    (s.users i).status = true ∧ ∀ j < i, (s.users j).status = false
  fails : ∀ fd t₁ t₂, ((allocateIpAddr fd t₁ t₂ s).2 = none ↔
    ∀ i : Slot, 2 ≤ (i : Nat) → (i : Nat) ≤ 254 → (s.users i).status = false) ∧
      ((allocateIpAddr fd t₁ t₂ s).2 = none → (allocateIpAddr fd t₁ t₂ s).1 = s)
  /-- The address of an allocated entry is the one its reply names. -/
  routed : ∀ i : Slot, 2 ≤ (i : Nat) → (i : Nat) ≤ 254 → (s.users i).status = false →
    inetPton (s.users i).addr = some (s.users i).v4addr
  distinct : ∀ i j : Slot, 2 ≤ (i : Nat) → (i : Nat) ≤ 254 → 2 ≤ (j : Nat) → (j : Nat) ≤ 254 →
    (s.users i).status = false → (s.users j).status = false →
    (s.users i).v4addr = (s.users j).v4addr → i = j

/-- Between two calls that grant the same entry there is one that gives it back. -/
def GrantedOnce (s : State) (calls : List PoolCall) : Prop :=
  ∀ before first between second after s₁ s₂ i,
    calls = before ++ first :: between ++ second :: after →
    first.isDeallocate = false → run poolStep s before = some s₁ → (first.call s₁).2 = some i →
    second.isDeallocate = false → run poolStep s (before ++ first :: between) = some s₂ →
    (second.call s₂).2 = some i →
    ∃ pre c post u, between = pre ++ c :: post ∧ c.isDeallocate = true ∧
      run poolStep s (before ++ first :: pre) = some u ∧ (c.call u).2 = some i

theorem allocateIpAddr_snd (fd : Fd) (t₁ t₂ : Int) (s : State) :
    (allocateIpAddr fd t₁ t₂ s).2 = firstFree s.users := by
  unfold allocateIpAddr
  cases firstFree s.users <;> rfl

theorem PoolSound.correct {s : State} (h : PoolSound s.users) : PoolCorrect s where
  withheld i hi := by
    have hres : reserved i = true := by
      rcases hi with rfl | rfl | rfl <;> rfl
    refine ⟨(h.withheld i hres).1, fun c hfd hret => ?_⟩
    have hcall := c.call_allotted s
    generalize c.call s = out at hcall hret
    have hnot : reserved i = false := by
      cases hcall with
      | full => cases hret
      | granted _ _ _ j hj =>
          obtain rfl := Option.some.inj hret
          exact h.not_reserved_of_free hj
      | unknown => cases hret
      | released fd j hj =>
          obtain rfl := Option.some.inj hret
          exact h.not_reserved_of_owns hfd hj
    rw [hres] at hnot
    cases hnot
  status_iff i hlo hhi := h.status_iff (reserved_eq_false.mpr ⟨hlo, hhi⟩)
  smallest fd t₁ t₂ i := by rw [allocateIpAddr_snd, firstFree_eq_some]
  fails fd t₁ t₂ := by
    constructor
    · rw [allocateIpAddr_snd, firstFree_eq_none]
      refine ⟨fun hall i _ _ => hall i, fun hall i => ?_⟩
      cases hres : reserved i with
      | true => exact (h.withheld i hres).1
      | false =>
          obtain ⟨hlo, hhi⟩ := reserved_eq_false.mp hres
          exact hall i hlo hhi
    · unfold allocateIpAddr
      cases firstFree s.users with
      | none => exact fun _ => rfl
      | some i => exact fun hsome => by cases hsome
  routed i hlo hhi hst := by
    rw [h.text i, inetPton_slotText, (h.held i (reserved_eq_false.mpr ⟨hlo, hhi⟩) hst).2]
  distinct i j hlo hhi hlo' hhi' hsi hsj heq :=
    h.v4addr_injective (reserved_eq_false.mpr ⟨hlo, hhi⟩) (reserved_eq_false.mpr ⟨hlo', hhi'⟩)
      hsi hsj heq

theorem grantedOnce (s : State) (calls : List PoolCall) : GrantedOnce s calls := by
  intro before first between second after s₁ s₂ i _ hfirst hbefore hgot hsecond hsplit hagain
  obtain ⟨s₁', hs₁, hrest⟩ := run_append_iff.mp hsplit
  obtain rfl := Option.some.inj (hbefore.symm.trans hs₁)
  obtain ⟨u₀, hstep, hbetween⟩ := run_cons_iff.mp hrest
  obtain rfl := Option.some.inj hstep
  -- Right behind the first call the entry is taken.
  have htaken : ((first.call s₁).1.users i).status = false := by
    have hcall := first.call_allotted s₁
    generalize first.call s₁ = out at hcall hgot
    cases hcall with
    | full => cases hgot
    | granted fd t₁ t₂ j _ _ husers =>
        obtain rfl := Option.some.inj hgot
        rw [husers, Function.update_self]
        rfl
    | unknown => cases hgot
    | released => cases hfirst
  by_contra hnone
  have hstill : (s₂.users i).status = false := by
    refine run_avoiding (fun u c => c.isDeallocate = true ∧ (PoolCall.call u c).2 = some i)
      (fun u => (u.users i).status = false) ?_ htaken hbetween ?_
    · intro u c u' hu hgood hstep
      obtain rfl := Option.some.inj hstep
      exact (c.call_allotted u).taken hu hgood
    · intro pre c post u hsplit' hu hbad
      refine hnone ⟨pre, c, post, u, hsplit', hbad.1, ?_, hbad.2⟩
      exact run_append_iff.mpr ⟨s₁, hbefore, run_cons_iff.mpr ⟨_, rfl, hu⟩⟩
  -- The second call finds it free.
  have hcall := second.call_allotted s₂
  generalize second.call s₂ = out at hcall hagain
  cases hcall with
  | full => cases hagain
  | granted _ _ _ j hj =>
      obtain rfl := Option.some.inj hagain
      rw [hstill] at hj
      cases hj
  | unknown => cases hagain
  | released => cases hsecond

/-- From the initial table, whatever calls are made with clients' descriptors. -/
theorem address_pool_correct (fds : Descriptors) (calls : List PoolCall)
    (hfd : ∀ c ∈ calls, 0 ≤ c.clientFd) :
    (∃ s, run poolStep (initState fds) calls = some s ∧ PoolCorrect s) ∧
      GrantedOnce (initState fds) calls := by
  have htotal : ∃ s, run poolStep (initState fds) calls = some s := by
    generalize initState fds = s
    induction calls generalizing s with
    | nil => exact ⟨s, rfl⟩
    | cons c calls ih => exact ih (fun c' hc' => hfd c' (List.mem_cons_of_mem c hc')) (c.call s).1
  obtain ⟨s, hs⟩ := htotal
  have hsound : PoolSound s.users := (PoolSound.initState fds).run hfd hs
  exact ⟨⟨s, hs, hsound.correct⟩, grantedOnce (initState fds) calls⟩

/-- Descriptor 7 twice, one release, and descriptor 8. -/
def poolCalls : List PoolCall :=
  [.allocate 7 0 0, .allocate 7 1 1, .deallocate 7, .allocate 8 2 2]

theorem address_pool_correct_poolCalls :
    (∃ s, run poolStep (initState .usual) poolCalls = some s ∧ PoolCorrect s) ∧
      GrantedOnce (initState .usual) poolCalls := by
  refine address_pool_correct .usual poolCalls ?_
  decide

end Over6.Server
