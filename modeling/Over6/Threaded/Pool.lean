import Over6.Threaded.Calculus

/-! # The addresses of the connections

`readThread` chooses an address, announces it, marks it as used and registers its
connection for it. Each of these is done under `ipMutex`, but other threads come in
between.
-/

namespace Over6.Threaded

open EventRun

/-- No two connections whose `readThread` has not ended hold the same address. -/
def Unique (s : State) : Prop :=
  ∀ (i j : Nat) c d, s.conns[i]? = some c → s.conns[j]? = some d → c.reading ≠ .ended →
    d.reading ≠ .ended → c.ipv4Address ≠ [] → c.ipv4Address = d.ipv4Address → i = j

/-- The address is announced and not marked as used yet, or given back next. -/
def ReadPoint.Unmarked : ReadPoint → Prop
  | reply _ | setStatus | ending => True
  | _ => False

instance (p : ReadPoint) : Decidable p.Unmarked :=
  match p with
  | .reply _ | .setStatus | .ending => inferInstanceAs (Decidable True)
  | .check | .header _ | .body _ | .dispatch | .request | .choose | .setConnection | .ended =>
      inferInstanceAs (Decidable False)

/-- `getFreeIP` returns an address that a connection holds unmarked. -/
def Doubles (s : State) : Event → Prop
  | .read i _ =>
      ∃ c ∈ s.conns[i]?, c.reading = .choose ∧ c.ipv4Address = [] ∧
        ∃ n ∈ s.getFreeIP, ∃ d ∈ s.conns, d.reading.Unmarked ∧ d.ipv4Address = ipText n
  | _ => False

instance (s : State) (e : Event) : Decidable (Doubles s e) :=
  match e with
  | .read i _ => inferInstanceAs (Decidable (∃ c ∈ s.conns[i]?, _ ∧ _))
  | .accept _ | .write .. | .keep .. | .packet _ | .route => inferInstanceAs (Decidable False)

/-- `ipMutex` is not waited for by the thread that holds it, and a thread that comes to
`setConnectionWithIp` finds its address marked. -/
structure Unlocked (s : State) : Prop where
  free : s.stuck = false
  marked : ∀ (i : Nat) c, s.conns[i]? = some c → c.reading = .setConnection →
    ∃ num, getIpNum c.ipv4Address = some num ∧ s.status num = true

/-- A `readThread` that ends gives back an address that another one is about to register. -/
def Unmarks (s : State) : Event → Prop
  | .read i _ =>
      ∃ c ∈ s.conns[i]?, c.reading = .ending ∧
        ∃ d ∈ s.conns, d.reading = .setConnection ∧ getIpNum d.ipv4Address = getIpNum c.ipv4Address
  | _ => False

instance (s : State) (e : Event) : Decidable (Unmarks s e) :=
  match e with
  | .read i _ => inferInstanceAs (Decidable (∃ c ∈ s.conns[i]?, _ ∧ _))
  | .accept _ | .write .. | .keep .. | .packet _ | .route => inferInstanceAs (Decidable False)

/-! ## What holders know of their addresses -/

/-- Addresses come from `getFreeIP`, and those that are not marked are held unmarked. -/
def Marked (s : State) : Prop :=
  ∀ (i : Nat) c, s.conns[i]? = some c → c.ipv4Address ≠ [] →
    ∃ n, n < 1024 ∧ c.ipv4Address = ipText n ∧
      (c.reading ≠ .ended → s.status n = true ∨ c.reading.Unmarked)

theorem ne_nil_of_number {addr : List UInt8} {num : Int} (h : getIpNum addr = some num) :
    addr ≠ [] := by
  rintro rfl
  rw [getIpNum_nil] at h
  cases h

/-- A number found in an address is the one the address was made of. -/
theorem Marked.number {s : State} (h : Marked s) {i : Nat} {c : Conn} (hc : s.conns[i]? = some c)
    {num : Int} (hnum : getIpNum c.ipv4Address = some num) :
    ∃ n : Nat, num = n ∧ n < 1024 ∧ c.ipv4Address = ipText n := by
  obtain ⟨n, hn, htext, _⟩ := h i c hc (ne_nil_of_number hnum)
  exact ⟨n, number_ipText hn (htext ▸ hnum), hn, htext⟩

section Steps

variable {s s' : State} {i : Nat} {c c' : Conn}

/-- Only one connection changes, and it keeps its address and is not revived. -/
theorem Touches.unique (h : Touches s i c c' s') (hunique : Unique s)
    (haddress : c'.ipv4Address = c.ipv4Address) (hrun : c'.reading ≠ .ended → c.reading ≠ .ended) :
    Unique s' := by
  have hback : ∀ (j : Nat) d, s'.conns[j]? = some d → d.reading ≠ .ended →
      ∃ d', s.conns[j]? = some d' ∧ d'.reading ≠ .ended ∧ d'.ipv4Address = d.ipv4Address := by
    intro j d hd hlive
    rcases h.conns hd with ⟨rfl, rfl⟩ | ⟨_, hd⟩
    · exact ⟨c, h.before, hrun hlive, haddress.symm⟩
    · exact ⟨d, hd, hlive, rfl⟩
  intro j k d e hd he hlive hlive' hne hsame
  obtain ⟨d', hd', hdlive, hdaddress⟩ := hback j d hd hlive
  obtain ⟨e', he', helive, headdress⟩ := hback k e he hlive'
  exact hunique j k d' e' hd' he' hdlive helive (hdaddress ▸ hne)
    (hdaddress.trans (hsame.trans headdress.symm))

/-- The others keep what they know if no address but the own one is unmarked. -/
theorem Touches.marked (h : Touches s i c c' s') (hmarked : Marked s)
    (hself : c'.ipv4Address ≠ [] → ∃ n, n < 1024 ∧ c'.ipv4Address = ipText n ∧
      (c'.reading ≠ .ended → s'.status n = true ∨ c'.reading.Unmarked))
    (hothers : ∀ (j : Nat) d (n : Nat), j ≠ i → s.conns[j]? = some d → d.reading ≠ .ended →
      n < 1024 → d.ipv4Address = ipText n → s.status n = true → s'.status n = true) : Marked s' := by
  intro j d hd hne
  rcases h.conns hd with ⟨rfl, rfl⟩ | ⟨hj, hd⟩
  · exact hself hne
  · obtain ⟨n, hn, haddress, hlive⟩ := hmarked j d hd hne
    refine ⟨n, hn, haddress, fun hrunning => ?_⟩
    rcases hlive hrunning with hstatus | hpoint
    · exact .inl (hothers j d n hj hd hrunning hn haddress hstatus)
    · exact .inr hpoint

/-- A step that leaves the pool and the address alone. -/
theorem Touches.marked_of_same (h : Touches s i c c' s') (hmarked : Marked s)
    (hstatus : s'.status = s.status) (haddress : c'.ipv4Address = c.ipv4Address)
    (hpoint : (c.reading.Unmarked → c'.reading.Unmarked) ∧
      (c'.reading ≠ .ended → c.reading ≠ .ended) ∨ c'.reading.Unmarked) : Marked s' := by
  refine h.marked hmarked ?_ (by rw [hstatus]; exact fun _ _ _ _ _ _ _ _ hn => hn)
  intro hne
  rw [haddress] at hne ⊢
  obtain ⟨n, hn, htext, hlive⟩ := hmarked i c h.before hne
  refine ⟨n, hn, htext, fun hrunning => ?_⟩
  rcases hpoint with ⟨hkeep, hback⟩ | hunmarked
  · rw [hstatus]
    exact (hlive (hback hrunning)).imp_right hkeep
  · exact .inr hunmarked

/-- Marking and giving back an address do not touch those of others. -/
theorem Reads.marked {a : Answer} (h : Reads s i c a c' s') (hmarked : Marked s)
    (hunique : Unique s) : Marked s' := by
  have hsent : s'.status = s.status → c'.ipv4Address = c.ipv4Address → c'.reading.Unmarked →
      Marked s' := fun hstatus haddress hpoint =>
    h.touches.marked_of_same hmarked hstatus haddress (.inr hpoint)
  have hstayed : s'.status = s.status → c' = c → Marked s' := by
    rintro hstatus rfl
    exact h.touches.marked_of_same hmarked hstatus rfl (.inl ⟨id, fun _ => h.running⟩)
  obtain ⟨t, hstep, hpool⟩ := h.step
  cases hstep with
  | goes hpoint htarget haddress =>
      refine h.touches.marked_of_same hmarked hpool.status haddress (.inl ⟨?_, fun _ => h.running⟩)
      intro hunmarked
      cases hreading : c.reading <;> rw [hreading] at hpoint hunmarked <;>
        first | exact hpoint.elim | exact hunmarked.elim
  | asks hpoint _ htarget haddress =>
      refine h.touches.marked_of_same hmarked hpool.status haddress (.inl ⟨?_, fun _ => h.running⟩)
      rw [hpoint]
      exact False.elim
  | passes hpoint htarget haddress =>
      refine h.touches.marked_of_same hmarked hpool.status haddress (.inl ⟨?_, fun _ => h.running⟩)
      rw [hpoint]
      exact False.elim
  | stops _ htarget haddress =>
      exact hsent hpool.status haddress (by rw [htarget]; trivial)
  | takes n _ _ hfree htarget haddress =>
      refine h.touches.marked hmarked (fun _ => ?_) fun _ _ _ _ _ _ _ _ hused => ?_
      · refine ⟨n, (getFreeIP_spec hfree).2.1, haddress, fun _ => .inr ?_⟩
        rw [htarget]
        trivial
      · rw [hpool.status]
        exact hused
  | retakes _ _ htarget haddress =>
      exact hsent hpool.status haddress (by rw [htarget]; trivial)
  | sends p _ htarget _ haddress =>
      refine hsent hpool.status haddress ?_
      rcases htarget with ⟨p', htarget⟩ | htarget <;> rw [htarget] <;> trivial
  | loses p _ _ htarget haddress =>
      exact hsent hpool.status haddress (by rw [htarget]; trivial)
  | marks num hpoint hnum _ htarget haddress =>
      refine h.touches.marked hmarked ?_ ?_
      · intro _
        obtain ⟨n, rfl, hn, htext⟩ := hmarked.number h.touches.before hnum
        refine ⟨n, hn, haddress.trans htext, fun _ => .inl ?_⟩
        rw [hpool.status_update, if_pos rfl]
      · intro j d n _ _ _ _ _ hn
        rw [hpool.status_update]
        split
        · rfl
        · exact hn
  | registers num hpoint hnum hused htarget haddress =>
      refine h.touches.marked hmarked ?_ fun _ _ _ _ _ _ _ _ hheld => ?_
      · intro _
        obtain ⟨n, rfl, hn, htext⟩ := hmarked.number h.touches.before hnum
        refine ⟨n, hn, haddress.trans htext, fun _ => .inl ?_⟩
        rw [hpool.status]
        exact hused
      · rw [hpool.status]
        exact hheld
  | hangs _ _ _ _ hsame => exact hstayed hpool.status hsame
  | leaves num hpoint hnum _ htarget haddress =>
      refine h.touches.marked hmarked ?_ ?_
      · intro _
        obtain ⟨n, _, hn, htext⟩ := hmarked.number h.touches.before hnum
        exact ⟨n, hn, haddress.trans htext, fun hlive => absurd htarget hlive⟩
      · intro j d n hj hd hlive hn htext hused
        -- Nobody else holds the address that is given back.
        obtain ⟨m, rfl, hm, hown⟩ := hmarked.number h.touches.before hnum
        rw [hpool.status_update, if_neg, hused]
        intro hsame
        have hmn : m = n := by omega
        have hdouble : c.ipv4Address = d.ipv4Address := by rw [hown, htext, hmn]
        exact hj (hunique i j c d h.touches.before hd h.running hlive (ne_nil_of_number hnum)
          hdouble).symm
  | dies _ _ _ hsame => exact hstayed hpool.status hsame
  | asserts _ _ _ hsame => exact hstayed hpool.status hsame

theorem Aside.marked (h : Aside s i c c' s') (hmarked : Marked s) : Marked s' := by
  refine h.touches.marked_of_same hmarked h.pool.status h.address (.inl ?_)
  rw [h.reading]
  exact ⟨id, id⟩

theorem marked_next {e : Event} (hmarked : Marked s) (hunique : Unique s)
    (h : next s e = some s') : Marked s' := by
  obtain ⟨_, hnext⟩ := next_spec h
  cases hnext with
  | accepts stale =>
      intro i c hc hne
      rcases conns_accept hc with hold | ⟨_, rfl⟩
      · exact hmarked i c hold hne
      · exact absurd rfl hne
  | reads hstep => exact hstep.marked hmarked hunique
  | writes hstep => exact hstep.toAside.marked hmarked
  | keeps hstep => exact hstep.toAside.marked hmarked
  | arrives => exact hmarked
  | finds => exact hmarked
  | throws => exact hmarked
  | queues _ hstep => exact hstep.marked hmarked

/-- Choosing a free address doubles it exactly if a connection holds it unmarked. -/
theorem Reads.unique_takes {a : Answer} (h : Reads s i c a c' s') (hmarked : Marked s)
    (hunique : Unique s) {n : Nat} (hwithout : c.ipv4Address = []) (hfree : s.getFreeIP = some n)
    (htarget : c'.reading = .reply .lock) (haddress : c'.ipv4Address = ipText n) :
    Unique s' ↔ ¬ ∃ d ∈ s.conns, d.reading.Unmarked ∧ d.ipv4Address = ipText n := by
  have hlive : c'.reading ≠ .ended := by simp [htarget]
  constructor
  · rintro hafter ⟨d, hd, hunmarked, htext⟩
    obtain ⟨j, hj⟩ := List.mem_iff_getElem?.mp hd
    have hne : j ≠ i := by
      rintro rfl
      obtain rfl := h.touches.eq_before hj
      exact ipText_ne_nil n (htext.symm.trans hwithout)
    have hdlive : d.reading ≠ .ended := by
      intro hended
      rw [hended] at hunmarked
      exact hunmarked
    have hj' : s'.conns[j]? = some d := (h.touches.others j hne).trans hj
    refine hne (hafter i j c' d h.touches.after hj' hlive hdlive ?_ ?_).symm
    · rw [haddress]
      exact ipText_ne_nil n
    · rw [haddress, htext]
  · intro hno
    -- Who holds the chosen address has it marked, and then it is not free.
    have hnobody : ∀ (j : Nat) d, s.conns[j]? = some d → d.reading ≠ .ended →
        d.ipv4Address ≠ ipText n := by
      intro j d hd hdlive htext
      have hne : d.ipv4Address ≠ [] := by
        rw [htext]
        exact ipText_ne_nil n
      obtain ⟨m, hm, hown, hholds⟩ := hmarked j d hd hne
      obtain rfl : m = n := ipText_injective (hown.symm.trans htext)
      rcases hholds hdlive with hused | hunmarked
      · rw [(getFreeIP_spec hfree).2.2] at hused
        cases hused
      · exact hno ⟨d, List.mem_of_getElem? hd, hunmarked, htext⟩
    intro j k d e hd he hdlive helive hne hsame
    rcases h.touches.conns hd with ⟨rfl, rfl⟩ | ⟨_, hd⟩
    · rcases h.touches.conns he with ⟨rfl, _⟩ | ⟨_, he⟩
      · rfl
      · exact absurd (hsame.symm.trans haddress) (hnobody k e he helive)
    · rcases h.touches.conns he with ⟨rfl, rfl⟩ | ⟨_, he⟩
      · exact absurd (hsame.trans haddress) (hnobody j d hd hdlive)
      · exact hunique j k d e hd he hdlive helive hne hsame

theorem Reads.unique_iff {a : Answer} (h : Reads s i c a c' s') (hmarked : Marked s)
    (hunique : Unique s) : Unique s' ↔ ¬ Doubles s (.read i a) := by
  have hkept : c'.ipv4Address = c.ipv4Address →
      (c.reading ≠ .choose ∨ c.ipv4Address ≠ [] ∨ s.getFreeIP = none) →
      (Unique s' ↔ ¬ Doubles s (.read i a)) := by
    intro haddress hno
    refine ⟨fun _ => ?_, fun _ => h.touches.unique hunique haddress fun _ => h.running⟩
    rintro ⟨d, hd, hpoint, hwithout, n, hn, _⟩
    obtain rfl := h.touches.eq_before hd
    rcases hno with hno | hno | hno
    · exact hno hpoint
    · exact hno hwithout
    · rw [hno] at hn
      cases hn
  obtain ⟨t, hstep, _⟩ := h.step
  cases hstep with
  | goes hpoint _ haddress =>
      refine hkept haddress (.inl fun hchoose => ?_)
      rw [hchoose] at hpoint
      exact hpoint
  | asks hpoint _ _ haddress => exact hkept haddress (.inl (by simp [hpoint]))
  | passes hpoint _ haddress => exact hkept haddress (.inl (by simp [hpoint]))
  | stops hpoint _ haddress =>
      refine hkept haddress (.inl ?_)
      rcases hpoint with ⟨hpoint, _⟩ | ⟨total, hpoint, _⟩ <;> simp [hpoint]
  | takes n hpoint hwithout hfree htarget haddress =>
      rw [h.unique_takes hmarked hunique hwithout hfree htarget haddress, not_iff_not]
      constructor
      · exact fun hdouble => ⟨c, h.touches.before, hpoint, hwithout, n, hfree, hdouble⟩
      · rintro ⟨_, _, _, _, m, hm, hdouble⟩
        obtain rfl := Option.some.inj (hfree.symm.trans hm)
        exact hdouble
  | retakes _ hheld _ haddress => exact hkept haddress (.inr (.inl hheld))
  | sends p hpoint _ _ haddress => exact hkept haddress (.inl (by simp [hpoint]))
  | loses p hpoint _ _ haddress => exact hkept haddress (.inl (by simp [hpoint]))
  | marks num hpoint _ _ _ haddress => exact hkept haddress (.inl (by simp [hpoint]))
  | registers num hpoint _ _ _ haddress => exact hkept haddress (.inl (by simp [hpoint]))
  | hangs num hpoint _ _ hsame => exact hkept (by rw [hsame]) (.inl (by simp [hpoint]))
  | leaves num hpoint _ _ _ haddress => exact hkept haddress (.inl (by simp [hpoint]))
  | dies why hpoint _ hsame =>
      refine hkept (by rw [hsame]) ?_
      rcases hpoint with ⟨hpoint, _⟩ | ⟨total, hpoint, _⟩ | ⟨_, hnone⟩
      · exact .inl (by simp [hpoint])
      · exact .inl (by simp [hpoint])
      · exact .inr (.inr hnone)
  | asserts why _ hunsound hsame =>
      refine hkept (by rw [hsame]) (.inl fun hpoint => hunsound ?_)
      rw [State.Sound, hpoint]
      trivial

theorem Aside.unique (h : Aside s i c c' s') (hunique : Unique s) : Unique s' :=
  h.touches.unique hunique h.address (by rw [h.reading]; exact id)

theorem unique_next {e : Event} (hmarked : Marked s) (hunique : Unique s)
    (h : next s e = some s') : Unique s' ↔ ¬ Doubles s e := by
  have hkept : Unique s' → ¬ Doubles s e → (Unique s' ↔ ¬ Doubles s e) :=
    fun hafter hno => ⟨fun _ => hno, fun _ => hafter⟩
  obtain ⟨_, hnext⟩ := next_spec h
  cases hnext with
  | accepts stale =>
      refine hkept ?_ id
      intro i j c d hc hd hlive hlive' hne hsame
      rcases conns_accept hc with hold | ⟨_, rfl⟩
      · rcases conns_accept hd with hold' | ⟨_, rfl⟩
        · exact hunique i j c d hold hold' hlive hlive' hne hsame
        · exact absurd hsame hne
      · exact absurd rfl hne
  | reads hstep => exact hstep.unique_iff hmarked hunique
  | writes hstep => exact hkept (hstep.toAside.unique hunique) id
  | keeps hstep => exact hkept (hstep.toAside.unique hunique) id
  | arrives => exact hkept hunique id
  | finds => exact hkept hunique id
  | throws => exact hkept hunique id
  | queues _ hstep => exact hkept (hstep.unique hunique) id

/-! ## The nested lock -/

/-- A step that marks no address as free and leads to the registration of a marked one only. -/
theorem Touches.unlocked (h : Touches s i c c' s') (hunlocked : Unlocked s)
    (hstuck : s'.stuck = s.stuck) (hstatus : ∀ num, s.status num = true → s'.status num = true)
    (hself : c'.reading = .setConnection →
      ∃ num, getIpNum c'.ipv4Address = some num ∧ s'.status num = true) : Unlocked s' := by
  refine ⟨hstuck.trans hunlocked.free, fun j d hd hpoint => ?_⟩
  rcases h.conns hd with ⟨rfl, rfl⟩ | ⟨_, hd⟩
  · exact hself hpoint
  · obtain ⟨num, hnum, hused⟩ := hunlocked.marked j d hd hpoint
    exact ⟨num, hnum, hstatus num hused⟩

/-- Giving back an address takes the mark from those that are about to register it. -/
theorem Reads.unlocked_leaves {a : Answer} (h : Reads s i c a c' s') (hunlocked : Unlocked s)
    {num : Int} (hending : c.reading = .ending) (hnum : getIpNum c.ipv4Address = some num)
    (htarget : c'.reading = .ended)
    (hpool : SamePool { s with status := Function.update s.status num false } s') :
    Unlocked s' ↔ ¬ ∃ d ∈ s.conns, d.reading = .setConnection ∧
      getIpNum d.ipv4Address = getIpNum c.ipv4Address := by
  constructor
  · rintro hafter ⟨d, hd, hpoint, hsame⟩
    obtain ⟨j, hj⟩ := List.mem_iff_getElem?.mp hd
    have hj' : s'.conns[j]? = some d := by
      rw [h.touches.others j ?_, hj]
      rintro rfl
      obtain rfl := h.touches.eq_before hj
      rw [hending] at hpoint
      cases hpoint
    obtain ⟨k, hk, hused⟩ := hafter.marked j d hj' hpoint
    obtain rfl := Option.some.inj (hk.symm.trans (hsame.trans hnum))
    rw [hpool.status_update, if_pos rfl] at hused
    cases hused
  · intro hno
    refine ⟨hpool.stuck.trans hunlocked.free, fun j d hd hpoint => ?_⟩
    rcases h.touches.conns hd with ⟨_, rfl⟩ | ⟨_, hd⟩
    · rw [htarget] at hpoint
      cases hpoint
    · obtain ⟨k, hk, hused⟩ := hunlocked.marked j d hd hpoint
      refine ⟨k, hk, ?_⟩
      rw [hpool.status_update, if_neg ?_, hused]
      rintro rfl
      exact hno ⟨d, List.mem_of_getElem? hd, hpoint, hk.trans hnum.symm⟩

theorem Reads.unlocked_iff {a : Answer} (h : Reads s i c a c' s') (hunlocked : Unlocked s) :
    Unlocked s' ↔ ¬ Unmarks s (.read i a) := by
  have hkept : Unlocked s' → c.reading ≠ .ending → (Unlocked s' ↔ ¬ Unmarks s (.read i a)) := by
    intro hafter hno
    refine ⟨fun _ => ?_, fun _ => hafter⟩
    rintro ⟨d, hd, hpoint, _⟩
    obtain rfl := h.touches.eq_before hd
    exact hno hpoint
  have hsame : s'.status = s.status → s'.stuck = s.stuck → c'.reading ≠ .setConnection →
      Unlocked s' := by
    intro hstatus hstuck hpoint
    exact h.touches.unlocked hunlocked hstuck (by rw [hstatus]; exact fun _ => id)
      fun hto => absurd hto hpoint
  obtain ⟨t, hstep, hpool⟩ := h.step
  cases hstep with
  | goes hpoint htarget =>
      refine hkept (hsame hpool.status hpool.stuck fun hto => ?_) fun hending => ?_
      · rw [hto] at htarget
        exact htarget
      · rw [hending] at hpoint
        exact hpoint
  | asks hpoint _ htarget =>
      exact hkept (hsame hpool.status hpool.stuck (by simp [htarget])) (by simp [hpoint])
  | passes hpoint htarget =>
      exact hkept (hsame hpool.status hpool.stuck (by simp [htarget])) (by simp [hpoint])
  | stops hpoint htarget =>
      refine hkept (hsame hpool.status hpool.stuck (by simp [htarget])) ?_
      rcases hpoint with ⟨hpoint, _⟩ | ⟨total, hpoint, _⟩ <;> simp [hpoint]
  | takes n hpoint _ _ htarget =>
      exact hkept (hsame hpool.status hpool.stuck (by simp [htarget])) (by simp [hpoint])
  | retakes hpoint _ htarget =>
      exact hkept (hsame hpool.status hpool.stuck (by simp [htarget])) (by simp [hpoint])
  | sends p hpoint htarget =>
      refine hkept (hsame hpool.status hpool.stuck ?_) (by simp [hpoint])
      rcases htarget with ⟨p', htarget⟩ | htarget <;> simp [htarget]
  | loses p hpoint _ htarget =>
      exact hkept (hsame hpool.status hpool.stuck (by simp [htarget])) (by simp [hpoint])
  | marks num hpoint hnum _ htarget haddress =>
      refine hkept (h.touches.unlocked hunlocked hpool.stuck ?_ fun _ => ?_) (by simp [hpoint])
      · intro k hused
        rw [hpool.status_update]
        split
        · rfl
        · exact hused
      · exact ⟨num, by rw [haddress, hnum], by rw [hpool.status_update, if_pos rfl]⟩
  | registers num hpoint _ _ htarget =>
      exact hkept (hsame hpool.status hpool.stuck (by simp [htarget])) (by simp [hpoint])
  | hangs num hpoint hnum hunused =>
      obtain ⟨k, hk, hused⟩ := hunlocked.marked i c h.touches.before hpoint
      obtain rfl := Option.some.inj (hk.symm.trans hnum)
      rw [hunused] at hused
      cases hused
  | leaves num hpoint hnum _ htarget =>
      rw [h.unlocked_leaves hunlocked hpoint hnum htarget hpool, not_iff_not]
      constructor
      · exact fun hothers => ⟨c, h.touches.before, hpoint, hothers⟩
      · rintro ⟨d, hd, _, hothers⟩
        obtain rfl := h.touches.eq_before hd
        exact hothers
  | dies why hpoint _ hc =>
      have hother : c.reading ≠ .ending ∧ c.reading ≠ .setConnection := by
        rcases hpoint with ⟨hpoint, _⟩ | ⟨total, hpoint, _⟩ | ⟨hpoint, _⟩ <;> simp [hpoint]
      exact hkept (hsame hpool.status hpool.stuck (hc ▸ hother.2)) hother.1
  | asserts why _ hunsound hc =>
      refine iff_of_true ?_ ?_
      · refine h.touches.unlocked hunlocked hpool.stuck (by rw [hpool.status]; exact fun _ => id) ?_
        rw [hc, hpool.status]
        exact hunlocked.marked i c h.touches.before
      · -- A number that another thread is about to register is marked: nothing fails here.
        rintro ⟨d, hd, hpoint, e, he, hto, hnumber⟩
        obtain rfl := h.touches.eq_before hd
        obtain ⟨j, hj⟩ := List.mem_iff_getElem?.mp he
        obtain ⟨k, hk, hused⟩ := hunlocked.marked j e hj hto
        refine hunsound ?_
        rw [State.Sound, hpoint]
        exact ⟨k, hnumber.symm.trans hk, hused⟩

theorem Aside.unlocked (h : Aside s i c c' s') (hunlocked : Unlocked s) : Unlocked s' := by
  refine h.touches.unlocked hunlocked h.pool.stuck (by rw [h.pool.status]; exact fun _ => id) ?_
  rw [h.reading, h.address, h.pool.status]
  exact hunlocked.marked i c h.touches.before

theorem unlocked_next {e : Event} (hunlocked : Unlocked s) (h : next s e = some s') :
    Unlocked s' ↔ ¬ Unmarks s e := by
  have hkept : Unlocked s' → ¬ Unmarks s e → (Unlocked s' ↔ ¬ Unmarks s e) :=
    fun hafter hno => ⟨fun _ => hno, fun _ => hafter⟩
  obtain ⟨_, hnext⟩ := next_spec h
  cases hnext with
  | accepts stale =>
      refine hkept ⟨hunlocked.free, fun i c hc hpoint => ?_⟩ id
      rcases conns_accept hc with hold | ⟨_, rfl⟩
      · exact hunlocked.marked i c hold hpoint
      · cases hpoint
  | reads hstep => exact hstep.unlocked_iff hunlocked
  | writes hstep => exact hkept (hstep.toAside.unlocked hunlocked) id
  | keeps hstep => exact hkept (hstep.toAside.unlocked hunlocked) id
  | arrives => exact hkept ⟨hunlocked.free, hunlocked.marked⟩ id
  | finds => exact hkept ⟨hunlocked.free, hunlocked.marked⟩ id
  | throws => exact hkept ⟨hunlocked.free, hunlocked.marked⟩ id
  | queues _ hstep => exact hkept (hstep.unlocked hunlocked) id

end Steps

/-! ## Runs -/

/-- However the threads interleave: no two connections whose `readThread` has not ended hold the same
address exactly if `getFreeIP` never returns one that a connection has announced and not marked, or
is about to give back. -/
theorem addresses_unique_iff (files : List (Option File)) (es : List Event) (s : State)
    (hrun : run next (State.start files) es = some s) :
    (∀ pre u, pre <+: es → run next (State.start files) pre = some u → Unique u) ↔
      ∀ pre e post u, es = pre ++ e :: post → run next (State.start files) pre = some u →
        ¬ Doubles u e := by
  have hmarked : Marked (State.start files) := by
    intro i c hc
    simp [State.start] at hc
  have hunique : Unique (State.start files) := by
    intro i j c d hc
    simp [State.start] at hc
  exact run_guarded_iff Doubles Marked Unique
    (fun _ _ _ hi hsafe hstep _ => marked_next hi hsafe hstep)
    (fun _ _ _ hi hsafe hstep => unique_next hi hsafe hstep) hmarked hunique hrun

def twoGrants : List Event := [.accept blank, .accept blank] ++ grant 0 54 ++ grant 1 54

theorem addresses_unique_twoGrants :
    ∃ s, run next (State.start opened) twoGrants = some s ∧
      ∀ pre u, pre <+: twoGrants → run next (State.start opened) pre = some u → Unique u := by
  have hsome : (run next (State.start opened) twoGrants).isSome = true := by decide +kernel
  obtain ⟨s, hs⟩ := Option.isSome_iff_exists.mp hsome
  refine ⟨s, hs, (addresses_unique_iff opened twoGrants s hs).mpr ?_⟩
  exact not_bad_of_clean (by decide +kernel)

def twoRequests : List Event := [.accept blank, .accept blank] ++ ask 0 ++ ask 1

theorem two_requests_share :
    ∃ s, run next (State.start opened) twoRequests = some s ∧ ¬ Unique s := by
  have hview : (run next (State.start opened) twoRequests).map
      (fun s => s.conns.map fun c => (c.ipv4Address, c.reading)) =
        some (List.replicate 2 (ipText 2, .reply .lock)) := by decide +kernel
  obtain ⟨s, hs, hconns⟩ := Option.map_eq_some_iff.mp hview
  have hheld : ∀ i < 2, ∃ c, s.conns[i]? = some c ∧ c.reading ≠ .ended ∧
      c.ipv4Address = ipText 2 := by
    intro i hi
    have hat := congrArg (·[i]?) hconns
    simp only [List.getElem?_map, List.getElem?_replicate, if_pos hi] at hat
    obtain ⟨c, hc, hpair⟩ := Option.map_eq_some_iff.mp hat
    obtain ⟨haddress, hpoint⟩ := Prod.mk.inj hpair
    exact ⟨c, hc, by simp [hpoint], haddress⟩
  obtain ⟨c, hc, hlive, haddress⟩ := hheld 0 (by decide)
  obtain ⟨d, hd, hlive', haddress'⟩ := hheld 1 (by decide)
  refine ⟨s, hs, fun h => ?_⟩
  have hone := h 0 1 c d hc hd hlive hlive' (haddress ▸ ipText_ne_nil 2)
    (haddress.trans haddress'.symm)
  exact absurd hone (by decide)

/-- However the threads interleave: `ipMutex` is never locked by the thread that holds it, and every
thread that comes to `setConnectionWithIp` finds its address marked, exactly if no `readThread` that
ends gives back an address that another one is about to register. -/
theorem no_self_deadlock_iff (files : List (Option File)) (es : List Event) (s : State)
    (hrun : run next (State.start files) es = some s) :
    (∀ pre u, pre <+: es → run next (State.start files) pre = some u → Unlocked u) ↔
      ∀ pre e post u, es = pre ++ e :: post → run next (State.start files) pre = some u →
        ¬ Unmarks u e := by
  have hunlocked : Unlocked (State.start files) := by
    refine ⟨rfl, fun i c hc => ?_⟩
    simp [State.start] at hc
  exact run_always_iff Unmarks (fun _ => True) Unlocked (fun _ _ _ _ _ => trivial)
    (fun _ _ _ _ hsafe hstep => unlocked_next hsafe hstep) trivial hunlocked hrun

theorem no_self_deadlock_twoGrants :
    ∃ s, run next (State.start opened) twoGrants = some s ∧
      ∀ pre u, pre <+: twoGrants → run next (State.start opened) pre = some u → Unlocked u := by
  have hsome : (run next (State.start opened) twoGrants).isSome = true := by decide +kernel
  obtain ⟨s, hs⟩ := Option.isSome_iff_exists.mp hsome
  refine ⟨s, hs, (no_self_deadlock_iff opened twoGrants s hs).mpr ?_⟩
  exact not_bad_of_clean (by decide +kernel)

/-- Two clients get the same address; the reply to the first one fails while the second one is between
`setIpStatus` and `setConnectionWithIp`. -/
def lostReply : List Event :=
  twoRequests ++ takeReply 1 54 ++
    [.read 1 .again, .read 0 .again, .read 0 .error, .read 0 .again, .read 1 .again]

theorem lost_reply_deadlocks :
    ∃ s, run next (State.start opened) lostReply = some s ∧ s.stuck = true ∧ ¬ Unlocked s := by
  have hstuck : (run next (State.start opened) lostReply).map State.stuck = some true := by
    decide +kernel
  obtain ⟨s, hs, hwaits⟩ := Option.map_eq_some_iff.mp hstuck
  refine ⟨s, hs, hwaits, fun h => ?_⟩
  rw [h.free] at hwaits
  cases hwaits

end Over6.Threaded
