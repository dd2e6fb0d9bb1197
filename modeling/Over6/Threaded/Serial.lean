import Over6.Threaded.Pool

/-! # Grants and releases one after another

While one thread at a time is occupied with an address, `status` and `connections`
say who holds which address.
-/

namespace Over6.Threaded

open EventRun

/-- Between an IP request and the registration of its address, or before the release of one. -/
def ReadPoint.Occupied (p : ReadPoint) : Prop := ¬ p.Idle ∧ p ≠ .ended

/-- No two threads are occupied with addresses at a time. -/
def Serial (s : State) : Prop :=
  ∀ (i j : Nat) c d, s.conns[i]? = some c → s.conns[j]? = some d → c.reading.Occupied →
    d.reading.Occupied → i = j

def Conn.Holds (c : Conn) (n : Nat) : Prop := c.ipv4Address = ipText n ∧ c.reading ≠ .ended

/-- The address of a connection is in the tables. -/
def ReadPoint.Entered (p : ReadPoint) : Prop := ¬ p.Unmarked ∧ p ≠ .setConnection

/-- Both tables agree with what the connections hold. -/
structure Tabled (s : State) : Prop where
  held : ∀ (i n : Nat) c, s.conns[i]? = some c → c.Holds n → c.reading.Entered →
    s.status n = true ∧ s.connections n = some i
  used : ∀ num, s.status num = true → ∃ (i n : Nat) (c : Conn), num = n ∧
    s.conns[i]? = some c ∧ c.Holds n ∧ (s.connections num = some i ∨ c.reading = .setConnection)

theorem unmarked_occupied {p : ReadPoint} (h : p.Unmarked) : p.Occupied := by
  cases p <;> first | exact h.elim | exact ⟨id, nofun⟩

theorem Serial.not_doubles {s : State} (h : Serial s) (e : Event) : ¬ Doubles s e := by
  cases e with
  | read i a =>
      rintro ⟨c, hc, hpoint, _, n, _, d, hd, hunmarked, _⟩
      obtain ⟨j, hj⟩ := List.mem_iff_getElem?.mp hd
      obtain rfl := h i j c d hc hj (by rw [hpoint]; exact ⟨id, nofun⟩) (unmarked_occupied hunmarked)
      obtain rfl := Option.some.inj (hj.symm.trans hc)
      rw [hpoint] at hunmarked
      exact hunmarked
  | _ => exact id

theorem Serial.not_unmarks {s : State} (h : Serial s) (e : Event) : ¬ Unmarks s e := by
  cases e with
  | read i a =>
      rintro ⟨c, hc, hpoint, d, hd, hother, _⟩
      obtain ⟨j, hj⟩ := List.mem_iff_getElem?.mp hd
      obtain rfl := h i j c d hc hj (by rw [hpoint]; exact ⟨id, nofun⟩)
        (by rw [hother]; exact ⟨id, nofun⟩)
      obtain rfl := Option.some.inj (hj.symm.trans hc)
      exact absurd (hpoint.symm.trans hother) nofun
  | _ => exact id

section Steps

variable {s s' : State} {i : Nat} {c c' : Conn} {a : Answer}

/-- A step that leaves the tables and the address alone. -/
theorem Touches.tabled (h : Touches s i c c' s') (htabled : Tabled s)
    (htables : s'.status = s.status ∧ s'.connections = s.connections)
    (haddress : c'.ipv4Address = c.ipv4Address)
    (hreading : c'.reading = c.reading ∨
      c.reading ≠ .ended ∧ c'.reading ≠ .ended ∧ c.reading ≠ .setConnection ∧
        (c'.reading.Entered → c.reading.Entered)) : Tabled s' where
  held j n d hd hholds hentered := by
    rw [htables.1, htables.2]
    rcases h.conns hd with ⟨rfl, rfl⟩ | ⟨_, hd⟩
    · refine htabled.held _ n c h.before ⟨haddress.symm.trans hholds.1, ?_⟩ ?_
      · exact hreading.elim (fun hsame => hsame ▸ hholds.2) And.left
      · exact hreading.elim (fun hsame => hsame ▸ hentered) fun hgoes => hgoes.2.2.2 hentered
    · exact htabled.held j n d hd hholds hentered
  used num hused := by
    rw [htables.1] at hused
    rw [htables.2]
    obtain ⟨j, n, d, hnum, hd, hholds, hentry⟩ := htabled.used num hused
    by_cases hj : j = i
    · subst hj
      obtain rfl := h.eq_before hd
      refine ⟨j, n, c', hnum, h.after, ⟨haddress.trans hholds.1, ?_⟩, ?_⟩
      · exact hreading.elim (fun hsame => hsame ▸ hholds.2) fun hgoes => hgoes.2.1
      · rcases hreading with hsame | hgoes
        · rwa [hsame]
        · exact hentry.imp_right fun hset => absurd hset hgoes.2.2.1
    · exact ⟨j, n, d, hnum, (h.others j hj).trans hd, hholds, hentry⟩

theorem Conn.Holds.number {n m : Nat} (h : c.Holds n) (h' : c.Holds m) : n = m :=
  ipText_injective (h.1.symm.trans h'.1)

theorem Unique.alone (h : Unique s) (hc : s.conns[i]? = some c) {n : Nat} (hholds : c.Holds n) :
    ∀ (j : Nat) d, j ≠ i → s.conns[j]? = some d → ¬ d.Holds n := by
  intro j d hj hd hother
  refine hj (h i j c d hc hd hholds.2 hother.2 ?_ (hholds.1.trans hother.1.symm)).symm
  rw [hholds.1]
  exact ipText_ne_nil n

/-- A step on the address that the connection holds: the entries of the other numbers stay. -/
theorem Touches.tabled_own (h : Touches s i c c' s') (htabled : Tabled s) (hunique : Unique s)
    {n : Nat} (hholds : c.Holds n)
    (hother : ∀ m : Nat, m ≠ n → s'.status m = s.status m ∧ s'.connections m = s.connections m)
    (hnumber : ∀ num, s'.status num = true → s.status num = true ∨ num = n)
    (hheld : ∀ m, c'.Holds m → c'.reading.Entered →
      m = n ∧ s'.status n = true ∧ s'.connections n = some i)
    (hused : s'.status n = true →
      c'.Holds n ∧ (s'.connections n = some i ∨ c'.reading = .setConnection)) : Tabled s' where
  held j m d hd hother' hentered := by
    rcases h.conns hd with ⟨rfl, rfl⟩ | ⟨hj, hd⟩
    · obtain ⟨rfl, hentry⟩ := hheld m hother' hentered
      exact hentry
    · have hne : m ≠ n := by
        rintro rfl
        exact hunique.alone h.before hholds j d hj hd hother'
      rw [(hother m hne).1, (hother m hne).2]
      exact htabled.held j m d hd hother' hentered
  used num hstatus := by
    by_cases hn : num = n
    · subst hn
      exact ⟨i, n, c', rfl, h.after, hused hstatus⟩
    · have hbefore := (hnumber num hstatus).resolve_right hn
      obtain ⟨j, m, d, rfl, hd, hother', hentry⟩ := htabled.used num hbefore
      have hj : j ≠ i := by
        rintro rfl
        obtain rfl := h.eq_before hd
        exact hn (congrArg _ (hother'.number hholds))
      refine ⟨j, m, d, rfl, (h.others j hj).trans hd, hother', ?_⟩
      rwa [(hother m fun hm => hn (congrArg _ hm)).2]

theorem Reads.tabled (h : Reads s i c a c' s') (htabled : Tabled s) (hmarked : Marked s)
    (hunique : Unique s) : Tabled s' := by
  have hquiet : SamePool s s' → c'.ipv4Address = c.ipv4Address → c'.reading ≠ .ended →
      c.reading ≠ .setConnection → (c'.reading.Entered → c.reading.Entered) → Tabled s' :=
    fun hpool haddress hlive hset hentered =>
      h.touches.tabled htabled ⟨hpool.status, hpool.connections⟩ haddress
        (.inr ⟨h.running, hlive, hset, hentered⟩)
  have hunmarked : c'.reading.Unmarked → c'.reading.Entered → c.reading.Entered :=
    fun hyes hentered => absurd hyes hentered.1
  obtain ⟨t, hstep, hpool⟩ := h.step
  cases hstep with
  | goes hpoint htarget haddress =>
      have hidle : ∀ {p : ReadPoint}, p.Idle → p ≠ .ended ∧ p ≠ .setConnection ∧ p.Entered := by
        intro p hp
        cases p <;> first | exact hp.elim | exact ⟨nofun, nofun, id, nofun⟩
      exact hquiet hpool haddress (hidle htarget).1 (hidle hpoint).2.1 fun _ => (hidle hpoint).2.2
  | asks hpoint _ htarget haddress =>
      exact hquiet hpool haddress (by simp [htarget]) (by simp [hpoint])
        (fun _ => by rw [hpoint]; exact ⟨id, nofun⟩)
  | passes hpoint htarget haddress =>
      exact hquiet hpool haddress (by simp [htarget]) (by simp [hpoint])
        (fun _ => by rw [hpoint]; exact ⟨id, nofun⟩)
  | stops hpoint htarget haddress =>
      refine hquiet hpool haddress (by simp [htarget]) ?_ (hunmarked (by rw [htarget]; trivial))
      rcases hpoint with ⟨hpoint, _⟩ | ⟨total, hpoint, _⟩ <;> simp [hpoint]
  | takes n hpoint hwithout hfree htarget haddress =>
      have hnone : ∀ m, ¬ c.Holds m := fun m hholds =>
        ipText_ne_nil m (hholds.1.symm.trans hwithout)
      have hpoint' : c'.reading.Unmarked := by
        rw [htarget]
        trivial
      refine ⟨fun j m d hd hholds hentered => ?_, fun num hused => ?_⟩
      · rw [hpool.status, hpool.connections]
        rcases h.touches.conns hd with ⟨_, rfl⟩ | ⟨_, hd⟩
        · exact absurd hpoint' hentered.1
        · exact htabled.held j m d hd hholds hentered
      · rw [hpool.status] at hused
        obtain ⟨j, m, d, hnum, hd, hholds, hentry⟩ := htabled.used num hused
        have hj : j ≠ i := by
          rintro rfl
          obtain rfl := h.touches.eq_before hd
          exact hnone m hholds
        rw [hpool.connections]
        exact ⟨j, m, d, hnum, (h.touches.others j hj).trans hd, hholds, hentry⟩
  | retakes hpoint _ htarget haddress =>
      exact hquiet hpool haddress (by simp [htarget]) (by simp [hpoint])
        (hunmarked (by rw [htarget]; trivial))
  | sends p hpoint htarget _ haddress =>
      have hreply : c'.reading.Unmarked ∧ c'.reading ≠ .ended := by
        rcases htarget with ⟨p', htarget⟩ | htarget <;> rw [htarget] <;> exact ⟨trivial, nofun⟩
      exact hquiet hpool haddress hreply.2 (by simp [hpoint]) (hunmarked hreply.1)
  | loses p hpoint _ htarget haddress =>
      exact hquiet hpool haddress (by simp [htarget]) (by simp [hpoint])
        (hunmarked (by rw [htarget]; trivial))
  | marks num hpoint hnum _ htarget haddress =>
      obtain ⟨n, rfl, hn, htext⟩ := hmarked.number h.touches.before hnum
      have hholds : c.Holds n := ⟨htext, h.running⟩
      have hafter : c'.Holds n := ⟨haddress.trans htext, by simp [htarget]⟩
      refine h.touches.tabled_own htabled hunique hholds (fun m hm => ⟨?_, ?_⟩) (fun k hk => ?_)
        ?_ ?_
      · rw [hpool.status_update, if_neg (by omega)]
      · rw [hpool.connections]
      · rw [hpool.status_update] at hk
        split at hk
        · exact .inr ‹_›
        · exact .inl hk
      · intro _ _ hentered
        exact absurd htarget hentered.2
      · exact fun _ => ⟨hafter, .inr htarget⟩
  | registers num hpoint hnum hused htarget haddress =>
      obtain ⟨n, rfl, hn, htext⟩ := hmarked.number h.touches.before hnum
      have hholds : c.Holds n := ⟨htext, h.running⟩
      have hafter : c'.Holds n := ⟨haddress.trans htext, by simp [htarget]⟩
      have hentry : s'.connections n = some i := by
        rw [hpool.connections]
        exact Function.update_self ..
      refine h.touches.tabled_own htabled hunique hholds (fun m hm => ⟨?_, ?_⟩) (fun k hk => ?_)
        ?_ ?_
      · rw [hpool.status]
      · rw [hpool.connections]
        exact Function.update_of_ne (by omega) ..
      · rw [hpool.status] at hk
        exact .inl hk
      · intro m hm _
        obtain rfl := hm.number hafter
        exact ⟨rfl, by rw [hpool.status]; exact hused, hentry⟩
      · exact fun _ => ⟨hafter, .inl hentry⟩
  | hangs _ _ _ _ hsame =>
      exact h.touches.tabled htabled ⟨hpool.status, hpool.connections⟩ (by rw [hsame])
        (.inl (by rw [hsame]))
  | leaves num hpoint hnum _ htarget haddress =>
      obtain ⟨n, rfl, hn, htext⟩ := hmarked.number h.touches.before hnum
      have hholds : c.Holds n := ⟨htext, h.running⟩
      have hgone : s'.status n = false := by rw [hpool.status_update, if_pos rfl]
      refine h.touches.tabled_own htabled hunique hholds (fun m hm => ⟨?_, ?_⟩) (fun k hk => ?_)
        ?_ ?_
      · rw [hpool.status_update, if_neg (by omega)]
      · rw [hpool.connections]
      · rw [hpool.status_update] at hk
        split at hk
        · cases hk
        · exact .inl hk
      · exact fun m hm _ => absurd htarget hm.2
      · exact fun hused => absurd (hgone.symm.trans hused) nofun
  | dies _ _ _ hsame =>
      exact h.touches.tabled htabled ⟨hpool.status, hpool.connections⟩ (by rw [hsame])
        (.inl (by rw [hsame]))
  | asserts _ _ _ hsame =>
      exact h.touches.tabled htabled ⟨hpool.status, hpool.connections⟩ (by rw [hsame])
        (.inl (by rw [hsame]))

theorem Aside.tabled (h : Aside s i c c' s') (htabled : Tabled s) : Tabled s' :=
  h.touches.tabled htabled ⟨h.pool.status, h.pool.connections⟩ h.address (.inl h.reading)

theorem tabled_next {e : Event} (htabled : Tabled s) (hmarked : Marked s) (hunique : Unique s)
    (h : next s e = some s') : Tabled s' := by
  obtain ⟨_, hnext⟩ := next_spec h
  cases hnext with
  | accepts stale =>
      refine ⟨fun i n c hc hholds hentered => ?_, fun num hused => ?_⟩
      · rcases conns_accept hc with hold | ⟨_, rfl⟩
        · exact htabled.held i n c hold hholds hentered
        · exact absurd hholds.1.symm (ipText_ne_nil n)
      · obtain ⟨i, n, c, hnum, hc, hrest⟩ := htabled.used num hused
        refine ⟨i, n, c, hnum, ?_, hrest⟩
        exact (List.getElem?_append_left (List.getElem?_eq_some_iff.mp hc).1).trans hc
  | reads hstep => exact hstep.tabled htabled hmarked hunique
  | writes hstep => exact hstep.toAside.tabled htabled
  | keeps hstep => exact hstep.toAside.tabled htabled
  | arrives => exact ⟨htabled.held, htabled.used⟩
  | finds => exact ⟨htabled.held, htabled.used⟩
  | throws => exact ⟨htabled.held, htabled.used⟩
  | queues _ hstep => exact hstep.tabled htabled

/-- No grant and no release is under way. -/
def Quiescent (s : State) : Prop :=
  ∀ (i : Nat) c, s.conns[i]? = some c → ¬ c.reading.Occupied

/-- What a connection holds is in both tables, and nothing else is. -/
theorem Quiescent.lookup_iff (h : Quiescent s) (htabled : Tabled s) {n : Nat} :
    (if s.status n then s.connections n else none) = some i ↔
      ∃ c, s.conns[i]? = some c ∧ c.Holds n := by
  constructor
  · intro hfound
    split at hfound
    · rename_i hused
      obtain ⟨j, m, c, hnum, hc, hholds, hentry⟩ := htabled.used n hused
      obtain rfl : n = m := by omega
      rcases hentry with hentry | hset
      · obtain rfl := Option.some.inj (hfound.symm.trans hentry)
        exact ⟨c, hc, hholds⟩
      · exact absurd (by rw [hset]; exact ⟨id, nofun⟩) (h j c hc)
    · cases hfound
  · rintro ⟨c, hc, hholds⟩
    have hentered : c.reading.Entered := by
      refine ⟨fun hunmarked => h i c hc (unmarked_occupied hunmarked), fun hset => h i c hc ?_⟩
      rw [hset]
      exact ⟨id, nofun⟩
    obtain ⟨hused, hentry⟩ := htabled.held i n c hc hholds hentered
    rw [if_pos hused, hentry]

end Steps

structure Ordered (s : State) : Prop where
  marked : Marked s
  unique : Unique s
  unlocked : Unlocked s
  tabled : Tabled s

theorem ordered_of_run {files : List (Option File)} {es : List Event} {s : State}
    (hrun : run next (State.start files) es = some s)
    (hserial : ∀ pre u, pre <+: es → run next (State.start files) pre = some u → Serial u) :
    Ordered s := by
  have hstart : Ordered (State.start files) := by
    refine ⟨fun i c hc => ?_, fun i j c d hc => ?_, ⟨rfl, fun i c hc => ?_⟩,
      fun i n c hc => ?_, fun num hused => ?_⟩
    · simp [State.start] at hc
    · simp [State.start] at hc
    · simp [State.start] at hc
    · simp [State.start] at hc
    · cases hused
  refine run_meeting (fun u _ => Serial u) Ordered ?_ hstart hrun ?_
  · intro u e v hu hserial hstep
    exact ⟨marked_next hu.marked hu.unique hstep,
      (unique_next hu.marked hu.unique hstep).mpr (hserial.not_doubles e),
      (unlocked_next hu.unlocked hstep).mpr (hserial.not_unmarks e),
      tabled_next hu.tabled hu.marked hu.unique hstep⟩
  · exact fun pre e post u hsplit hu => hserial pre u ⟨e :: post, hsplit.symm⟩ hu

/-! ## One connection at a time -/

/-- No connection but `k` is occupied. -/
def Solo (k : Nat) (s : State) : Prop :=
  ∀ (j : Nat) c, j ≠ k → s.conns[j]? = some c → ¬ c.reading.Occupied

/-- No `readThread` but that of connection `k` takes a step. -/
def Event.For (k : Nat) : Event → Prop
  | read j _ => j = k
  | _ => True

instance (k : Nat) : DecidablePred (Event.For k) := fun e =>
  match e with
  | .read j _ => inferInstanceAs (Decidable (j = k))
  | .accept _ | .write .. | .keep .. | .packet _ | .route => inferInstanceAs (Decidable True)

section Solo

variable {s s' t : State} {k : Nat} {e : Event} {es : List Event}

theorem Solo.serial (h : Solo k s) : Serial s := by
  intro i j c d hc hd hoccupied hoccupied'
  have hi : i = k := by
    by_contra hi
    exact h i c hi hc hoccupied
  have hj : j = k := by
    by_contra hj
    exact h j d hj hd hoccupied'
  rw [hi, hj]

theorem Quiescent.solo (h : Quiescent s) : Solo k s := fun j c _ hc => h j c hc

theorem Solo.next (h : Solo k s) (he : e.For k) (hstep : Threaded.next s e = some s') :
    Solo k s' := by
  intro j d hj hd
  obtain ⟨_, hnext⟩ := next_spec hstep
  have hasides : ∀ {i : Nat} {c c' : Conn}, Aside s i c c' s' → ¬ d.reading.Occupied := by
    intro i c c' haside
    rcases haside.touches.conns hd with ⟨rfl, rfl⟩ | ⟨_, hd⟩
    · rw [haside.reading]
      exact h j c hj haside.touches.before
    · exact h j d hj hd
  cases hnext with
  | accepts stale =>
      rcases conns_accept hd with hold | ⟨_, rfl⟩
      · exact h j d hj hold
      · exact fun hoccupied => hoccupied.1 trivial
  | reads hreads =>
      rcases hreads.touches.conns hd with ⟨rfl, _⟩ | ⟨_, hd⟩
      · exact absurd he hj
      · exact h j d hj hd
  | writes hwrites => exact hasides hwrites.toAside
  | keeps hkeeps => exact hasides hkeeps.toAside
  | queues _ hqueues => exact hasides hqueues
  | arrives => exact h j d hj hd
  | finds => exact h j d hj hd
  | throws => exact h j d hj hd

/-- All along a run of one thread. -/
theorem Solo.run (h : Solo k s) (hes : ∀ e ∈ es, e.For k) {pre : List Event} {u : State}
    (hpre : pre <+: es) (hu : EventRun.run Threaded.next s pre = some u) : Solo k u := by
  refine run_meeting (fun _ e => e.For k) (Solo k) (fun v e w hv => hv.next) h hu ?_
  rintro pre' e post v rfl _
  exact hes e (hpre.subset (by simp))

end Solo

end Over6.Threaded
