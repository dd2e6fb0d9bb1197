import Over6.Server.Pass

/-! # Connections and descriptor numbers

Which connection a descriptor number denotes, over whole runs: numbers are reused
but never shared, a client is never taken for the tun, and epoll watches open
descriptors only.
-/

namespace Over6.Server

open EventRun

structure Connections (s : State) : Prop where
  fresh : ∀ fd c, s.conn fd = some c → c < s.accepted
  unique : ∀ fd fd' c, s.conn fd = some c → s.conn fd' = some c → fd = fd'
  client : ∀ fd c, s.conn fd = some c → 0 ≤ fd ∧ fd ≠ s.tunFd
  watchedOpen : ∀ fd, s.watched fd = true → ∃ c, s.conn fd = some c
  logged : ∀ r ∈ s.log, ∀ c, r.conn = some c → c < s.accepted

/-- Accepting opens one descriptor, for a connection that is new. -/
theorem processServer_conn {s : State} {fd x : Fd} {added : Bool} {c : Conn}
    (h : (processServer fd added s).conn x = some c) :
    (x = fd ∧ c = s.accepted) ∨ (x ≠ fd ∧ s.conn x = some c) := by
  change Function.update s.conn fd (some s.accepted) x = some c at h
  by_cases hx : x = fd
  · rw [hx, Function.update_self] at h
    exact .inl ⟨hx, (Option.some.inj h).symm⟩
  · rw [Function.update_of_ne hx] at h
    exact .inr ⟨hx, h⟩

namespace Connections

variable {s s' : State}

theorem initState (fds : Descriptors) : Connections (initState fds) := by
  refine ⟨?_, ?_, ?_, ?_, ?_⟩ <;> simp [Server.initState]

theorem quiet {P : Act → Prop} (h : Connections s) (hq : Quiet P s s') : Connections s' := by
  obtain ⟨new, hlog, hnew⟩ := hq.log
  refine ⟨?_, ?_, ?_, ?_, ?_⟩
  · rw [hq.conn, hq.accepted]
    exact h.fresh
  · rw [hq.conn]
    exact h.unique
  · rw [hq.conn, State.tunFd, hq.fds]
    exact h.client
  · rw [hq.conn, hq.watched]
    exact h.watchedOpen
  · rw [hlog, hq.accepted]
    intro r hr c hc
    rcases List.mem_append.mp hr with hr | hr
    · exact h.fresh r.fd c ((hnew r hr).1 ▸ hc)
    · exact h.logged r hr c hc

theorem grantTo (h : Connections s) (env : FrameEnv) (fd : Fd) (i : Slot) :
    Connections (s.grantTo env fd i) := by
  have hq : Quiet (fun _ => True) s (s.grantTo env fd i) :=
    (((Quiet.refl s).note fd).setUser i _).note fd
  exact h.quiet hq

theorem freed (h : Connections s) (fd : Fd) : Connections (s.freed fd) := by
  obtain ⟨_, _, hfds, hconn, hwatched, haccepted⟩ := s.freed_spec fd
  obtain ⟨new, hlog, _, hnew⟩ := s.freed_log fd
  have hstill : ∀ x c, (s.freed fd).conn x = some c → s.conn x = some c := by
    intro x c hx
    rw [hconn] at hx
    by_cases hxf : x = fd
    · subst hxf
      simp at hx
    · rwa [Function.update_of_ne hxf] at hx
  refine ⟨?_, ?_, ?_, ?_, ?_⟩
  · intro x c hx
    rw [haccepted]
    exact h.fresh x c (hstill x c hx)
  · intro x y c hx hy
    exact h.unique x y c (hstill x c hx) (hstill y c hy)
  · intro x c hx
    rw [State.tunFd, hfds]
    exact h.client x c (hstill x c hx)
  · intro x hx
    rw [hwatched] at hx
    have hxf : x ≠ fd := by
      intro he
      subst he
      simp at hx
    rw [Function.update_of_ne hxf] at hx
    rw [hconn, Function.update_of_ne hxf]
    exact h.watchedOpen x hx
  · rw [hlog, haccepted]
    intro r hr c hc
    rcases List.mem_append.mp hr with hr | hr
    · exact h.fresh fd c ((hnew r hr).1 ▸ hc)
    · exact h.logged r hr c hc

theorem processServer (h : Connections s) {fd : Fd} (hcan : s.CanAccept fd) (added : Bool) :
    Connections (processServer fd added s) := by
  obtain ⟨hpos, hfree, _, htun, _⟩ := hcan
  refine ⟨?_, ?_, ?_, ?_, ?_⟩
  · intro x c hx
    change c < s.accepted + 1
    rcases processServer_conn hx with ⟨_, rfl⟩ | ⟨_, hx⟩
    · exact Nat.lt_succ_self _
    · exact Nat.lt_succ_of_lt (h.fresh x c hx)
  · intro x y c hx hy
    rcases processServer_conn hx with ⟨rfl, rfl⟩ | ⟨_, hx'⟩
    · rcases processServer_conn hy with ⟨rfl, _⟩ | ⟨_, hy'⟩
      · rfl
      · exact absurd (h.fresh y _ hy') (Nat.lt_irrefl _)
    · rcases processServer_conn hy with ⟨rfl, rfl⟩ | ⟨_, hy'⟩
      · exact absurd (h.fresh x _ hx') (Nat.lt_irrefl _)
      · exact h.unique x y c hx' hy'
  · intro x c hx
    rcases processServer_conn hx with ⟨rfl, rfl⟩ | ⟨_, hx⟩
    · exact ⟨hpos, htun⟩
    · exact h.client x c hx
  · intro x hx
    change Function.update s.watched fd added x = true at hx
    change ∃ c, Function.update s.conn fd (some s.accepted) x = some c
    by_cases hxf : x = fd
    · subst hxf
      exact ⟨s.accepted, Function.update_self ..⟩
    · rw [Function.update_of_ne hxf] at hx ⊢
      exact h.watchedOpen x hx
  · intro r hr c hc
    change c < s.accepted + 1
    rcases List.mem_cons.mp hr with rfl | hr
    · have hx : Function.update s.conn fd (some s.accepted) fd = some c := hc
      rw [Function.update_self] at hx
      obtain rfl := Option.some.inj hx
      exact Nat.lt_succ_self _
    · exact Nat.lt_succ_of_lt (h.logged r hr c hc)

theorem change (h : Connections s) (hc : Change s s') : Connections s' := by
  cases hc with
  | steady hs => exact h.quiet hs.toQuiet
  | grant env fd i _ _ hs => exact (h.grantTo env fd i).quiet hs.toQuiet
  | free hs fd _ => exact (h.quiet hs.toQuiet).freed fd
  | accept fd added hcan => exact h.processServer hcan added

theorem pass (h : Connections s) (hp : Pass s s') : Connections s' := h.change hp.change

theorem passes (h : Connections s) (hp : Passes s s') : Connections s' := by
  induction hp with
  | refl => exact h
  | tail _ hp ih => exact ih.pass hp

theorem runFrom {fds : Descriptors} {es : List Event} (h : runFrom fds es = some s) :
    Connections s := (initState fds).passes (runFrom_passes h)

end Connections

end Over6.Server
