import Over6.Server.MainLoop

/-! # Open and closed descriptors

What becomes of the descriptors that `accept` returns, in each server: one is open
until `free_client_fd` closes it, which it does once. One that epoll refuses is
never closed.
-/

namespace Over6.Server

open EventRun

/-- The connection that a call accepts and epoll refuses. -/
def Report.refused (s : State) (r : Report) : List Conn :=
  if r.fd = s.fds.serverFd then
    match r.accepted with
    | some (_, false) => [s.accepted]
    | _ => []
  else []

def Turn.refused (p : Program) (s : State) (t : Turn) : List Conn :=
  outputs (handleEvent p) Report.refused s t.events

/-- Where every connection is: on one descriptor, or closed. -/
structure Accounted (refused : List Conn) (s : State) : Prop where
  fresh : ∀ x c, s.conn x = some c → c < s.accepted
  unique : ∀ x y c, s.conn x = some c → s.conn y = some c → x = y
  watchesOpen : s.WatchesOpen
  future : ∀ c, s.accepted ≤ c → closings c s.log = 0
  once : ∀ c, c < s.accepted → closings c s.log = 0 ∧ (∃ x, s.conn x = some c) ∨
    closings c s.log = 1 ∧ ∀ x, s.conn x ≠ some c
  leaked : ∀ c, (∃ x, s.conn x = some c ∧ s.watched x = false) ↔ c ∈ refused

namespace Accounted

variable {p : Program} {refused : List Conn} {s s' : State} {fd : Fd} {r : Report} {t : Turn}

theorem initState (fds : Descriptors) : Accounted [] (initState fds) := by
  refine ⟨?_, ?_, ?_, fun _ _ => rfl, ?_, ?_⟩
  · intro x c hx
    cases hx
  · intro x y c hx
    cases hx
  · intro x hx
    cases hx
  · intro c hc
    exact absurd hc (Nat.not_lt_zero c)
  · intro c
    refine iff_of_false ?_ List.not_mem_nil
    rintro ⟨x, hx, _⟩
    cases hx

/-- A call that closes nothing. -/
theorem of_same (h : Accounted refused s) (hconn : s'.conn = s.conn)
    (hwatched : s'.watched = s.watched) (haccepted : s'.accepted = s.accepted)
    (hclosings : ∀ c, closings c s'.log = closings c s.log) : Accounted refused s' := by
  refine ⟨?_, ?_, ?_, ?_, ?_, ?_⟩
  · rw [hconn, haccepted]
    exact h.fresh
  · rw [hconn]
    exact h.unique
  · rw [State.WatchesOpen, hconn, hwatched]
    exact h.watchesOpen
  · intro c hc
    rw [hclosings, h.future c (haccepted ▸ hc)]
  · intro c hc
    rw [hclosings, hconn]
    exact h.once c (haccepted ▸ hc)
  · rw [hconn, hwatched]
    exact h.leaked

/-- The connection on `fd` is closed. -/
theorem closed {c₀ : Conn} (h : Accounted refused s) (hopen : s.conn fd = some c₀)
    (hwas : s.watched fd = true) (hconn : s'.conn = Function.update s.conn fd none)
    (hwatched : s'.watched = Function.update s.watched fd false)
    (haccepted : s'.accepted = s.accepted)
    (hclosings : ∀ c, closings c s'.log = closings c s.log + if s.conn fd = some c then 1 else 0) :
    Accounted refused s' := by
  have hstill : ∀ x c, s'.conn x = some c ↔ x ≠ fd ∧ s.conn x = some c := by
    intro x c
    rw [hconn]
    by_cases hx : x = fd
    · subst hx
      simp
    · simp [hx]
  have hother : ∀ c, c ≠ c₀ → closings c s'.log = closings c s.log := by
    intro c hc
    have hne : s.conn fd ≠ some c := fun heq => hc (Option.some.inj (heq.symm.trans hopen))
    rw [hclosings, if_neg hne, Nat.add_zero]
  have hlast : closings c₀ s'.log = closings c₀ s.log + 1 := by rw [hclosings, if_pos hopen]
  refine ⟨?_, ?_, ?_, ?_, ?_, ?_⟩
  · intro x c hx
    rw [haccepted]
    exact h.fresh x c ((hstill x c).mp hx).2
  · intro x y c hx hy
    exact h.unique x y c ((hstill x c).mp hx).2 ((hstill y c).mp hy).2
  · intro x hx
    rw [hwatched] at hx
    have hxf : x ≠ fd := by
      rintro rfl
      rw [Function.update_self] at hx
      cases hx
    rw [Function.update_of_ne hxf] at hx
    obtain ⟨c, hc⟩ := h.watchesOpen x hx
    exact ⟨c, (hstill x c).mpr ⟨hxf, hc⟩⟩
  · intro c hc
    have hne : c ≠ c₀ := by
      rintro rfl
      exact absurd (h.fresh fd c hopen) (Nat.not_lt.mpr (haccepted ▸ hc))
    rw [hother c hne, h.future c (haccepted ▸ hc)]
  · intro c hc
    by_cases hsame : c = c₀
    · subst hsame
      rcases h.once c (haccepted ▸ hc) with ⟨hzero, _⟩ | ⟨_, hnone⟩
      · refine .inr ⟨by rw [hlast, hzero], fun x hx => ?_⟩
        obtain ⟨hne, hx⟩ := (hstill x c).mp hx
        exact hne (h.unique x fd c hx hopen)
      · exact absurd hopen (hnone fd)
    · rw [hother c hsame]
      rcases h.once c (haccepted ▸ hc) with ⟨hzero, x, hx⟩ | ⟨hone, hnone⟩
      · refine .inl ⟨hzero, x, (hstill x c).mpr ⟨?_, hx⟩⟩
        rintro rfl
        exact hsame (Option.some.inj (hx.symm.trans hopen))
      · exact .inr ⟨hone, fun x hx => hnone x ((hstill x c).mp hx).2⟩
  · intro c
    rw [← h.leaked c]
    constructor
    · rintro ⟨x, hx, hw⟩
      obtain ⟨hne, hx⟩ := (hstill x c).mp hx
      rw [hwatched, Function.update_of_ne hne] at hw
      exact ⟨x, hx, hw⟩
    · rintro ⟨x, hx, hw⟩
      have hne : x ≠ fd := by
        rintro rfl
        rw [hwas] at hw
        cases hw
      refine ⟨x, (hstill x c).mpr ⟨hne, hx⟩, ?_⟩
      rw [hwatched, Function.update_of_ne hne]
      exact hw

theorem keepsTo (h : Accounted refused s) (hkeeps : KeepsTo fd s s') : Accounted refused s' := by
  cases hkeeps.own with
  | stays hconn hwatched hclosings =>
      refine h.of_same (funext fun x => ?_) (funext fun x => ?_) hkeeps.accepted hclosings
      · by_cases hx : x = fd
        · rw [hx, hconn]
        · exact (hkeeps.other x hx).1
      · by_cases hx : x = fd
        · rw [hx, hwatched]
        · exact (hkeeps.other x hx).2.1
  | closes hwas hconn hwatched hclosings =>
      obtain ⟨c₀, hopen⟩ := h.watchesOpen fd hwas
      refine h.closed hopen hwas (funext fun x => ?_) (funext fun x => ?_) hkeeps.accepted hclosings
      · by_cases hx : x = fd
        · rw [hx, hconn, Function.update_self]
        · rw [Function.update_of_ne hx]
          exact (hkeeps.other x hx).1
      · by_cases hx : x = fd
        · rw [hx, hwatched, Function.update_self]
        · rw [Function.update_of_ne hx]
          exact (hkeeps.other x hx).2.1

/-- The connection is new, and lost to epoll unless it takes it on. -/
theorem processServer (h : Accounted refused s) (hcan : s.CanAccept fd) (added : Bool) :
    Accounted (refused ++ if added then [] else [s.accepted]) (processServer fd added s) := by
  have hconn : ∀ x c, (Server.processServer fd added s).conn x = some c ↔
      x = fd ∧ c = s.accepted ∨ x ≠ fd ∧ s.conn x = some c := by
    intro x c
    change Function.update s.conn fd (some s.accepted) x = some c ↔ _
    by_cases hx : x = fd
    · simp [hx, eq_comm]
    · simp [hx]
  have hwatched : ∀ x, (Server.processServer fd added s).watched x =
      if x = fd then added else s.watched x := by
    intro x
    change Function.update s.watched fd added x = _
    rw [Function.update_apply]
  have hclosings : ∀ c, closings c (Server.processServer fd added s).log = closings c s.log :=
    fun c => List.countP_cons_of_neg (by simp)
  have hfree : ∀ c, s.conn fd ≠ some c := by
    intro c
    rw [hcan.2.1]
    exact Option.some_ne_none c ∘ Eq.symm
  refine ⟨?_, ?_, ?_, ?_, ?_, ?_⟩
  · intro x c hx
    change c < s.accepted + 1
    rcases (hconn x c).mp hx with ⟨_, rfl⟩ | ⟨_, hx⟩
    · exact Nat.lt_succ_self _
    · exact Nat.lt_succ_of_lt (h.fresh x c hx)
  · intro x y c hx hy
    rcases (hconn x c).mp hx with ⟨hxf, hc⟩ | ⟨_, hx'⟩
    · rcases (hconn y c).mp hy with ⟨hyf, _⟩ | ⟨_, hy'⟩
      · rw [hxf, hyf]
      · exact absurd (h.fresh y c hy') (Nat.not_lt.mpr hc.ge)
    · rcases (hconn y c).mp hy with ⟨_, hc⟩ | ⟨_, hy'⟩
      · exact absurd (h.fresh x c hx') (Nat.not_lt.mpr hc.ge)
      · exact h.unique x y c hx' hy'
  · intro x hx
    rw [hwatched] at hx
    by_cases hxf : x = fd
    · exact ⟨s.accepted, (hconn x _).mpr (.inl ⟨hxf, rfl⟩)⟩
    · rw [if_neg hxf] at hx
      obtain ⟨c, hc⟩ := h.watchesOpen x hx
      exact ⟨c, (hconn x c).mpr (.inr ⟨hxf, hc⟩)⟩
  · intro c hc
    rw [hclosings, h.future c (Nat.le_of_succ_le hc)]
  · intro c hc
    rw [hclosings]
    rcases Nat.lt_succ_iff_lt_or_eq.mp hc with hold | hnew
    · rcases h.once c hold with ⟨hzero, x, hx⟩ | ⟨hone, hnone⟩
      · have hxf : x ≠ fd := fun heq => hfree c (heq ▸ hx)
        exact .inl ⟨hzero, x, (hconn x c).mpr (.inr ⟨hxf, hx⟩)⟩
      · refine .inr ⟨hone, fun x hx => ?_⟩
        rcases (hconn x c).mp hx with ⟨_, rfl⟩ | ⟨_, hx⟩
        · exact Nat.lt_irrefl _ hold
        · exact hnone x hx
    · exact .inl ⟨h.future c hnew.ge, fd, (hconn fd c).mpr (.inl ⟨rfl, hnew⟩)⟩
  · intro c
    rw [List.mem_append, ← h.leaked c]
    constructor
    · rintro ⟨x, hx, hw⟩
      rw [hwatched] at hw
      rcases (hconn x c).mp hx with ⟨hxf, rfl⟩ | ⟨hxf, hx⟩
      · rw [if_pos hxf] at hw
        exact .inr (by simp [hw])
      · rw [if_neg hxf] at hw
        exact .inl ⟨x, hx, hw⟩
    · rintro (⟨x, hx, hw⟩ | hnew)
      · have hxf : x ≠ fd := fun heq => hfree c (heq ▸ hx)
        exact ⟨x, (hconn x c).mpr (.inr ⟨hxf, hx⟩), by rw [hwatched, if_neg hxf, hw]⟩
      · cases added with
        | true => exact absurd hnew List.not_mem_nil
        | false =>
            have hc : c = s.accepted := by simpa using hnew
            exact ⟨fd, (hconn fd c).mpr (.inl ⟨rfl, hc⟩), by rw [hwatched, if_pos rfl]⟩

theorem handleEvent (h : Accounted refused s) (he : handleEvent p s r = some s') :
    Accounted (refused ++ r.refused s) s' := by
  rcases handleEvent_cases he with ⟨hkeeps, hnone⟩ | ⟨x, added, hserver, haccepted, hcan, rfl⟩
  · have hnew : r.refused s = [] := by
      rw [Report.refused]
      split
      · rename_i hserver
        rw [hnone hserver]
      · rfl
    rw [hnew, List.append_nil]
    exact h.keepsTo hkeeps
  · have hnew : r.refused s = if added then [] else [s.accepted] := by
      rw [Report.refused, if_pos hserver, haccepted]
      cases added <;> rfl
    rw [hnew]
    exact h.processServer hcan added

theorem turn (h : Accounted refused s) (ht : turn p s t = some s') :
    Accounted (refused ++ t.refused p s) s' := by
  obtain ⟨_, u, hevents, rfl⟩ := turn_eq_some.mp ht
  have hu : Accounted (refused ++ t.refused p s) u :=
    run_outputs Report.refused (fun _ _ => False) Accounted
      (fun _ _ _ _ hs _ he => hs.handleEvent he) h hevents fun _ _ _ _ _ _ => id
  exact processHeartbeat_keepsTo (fun _ _ _ hs hkeeps => hs.keepsTo hkeeps) t.sweep hu

end Accounted

/-- In each of the servers a connection is open on one descriptor until it is closed, and it is
closed once. The descriptors that are open and not watched are those that epoll has refused when
they were accepted; these stay open for good. -/
theorem descriptors_accounted (p : Program) (fds : Descriptors) (ts : List Turn) (s : State)
    (hrun : mainFrom p fds ts = some s) :
    (∀ c, c < s.accepted → closings c s.log = 0 ∧ (∃! x, s.conn x = some c) ∨
      closings c s.log = 1 ∧ ∀ x, s.conn x ≠ some c) ∧
    ∀ c, (∃ x, s.conn x = some c ∧ s.watched x = false) ↔
      c ∈ outputs (turn p) (Turn.refused p) (initState fds) ts := by
  have haccounted := run_outputs (Turn.refused p) (fun _ _ => False) Accounted
    (fun _ _ _ _ hs _ ht => hs.turn ht) (.initState fds) hrun fun _ _ _ _ _ _ => id
  rw [List.nil_append] at haccounted
  refine ⟨fun c hc => ?_, haccounted.leaked⟩
  rcases haccounted.once c hc with ⟨hzero, x, hx⟩ | hclosed
  · exact .inl ⟨hzero, x, hx, fun y hy => haccounted.unique y x c hy hx⟩
  · exact .inr hclosed

/-- Epoll refuses the second of three clients, and the third hangs up. -/
def threeClients : List Turn :=
  [⟨[.connects 7], .prompt 0⟩, ⟨[⟨3, some (8, false), .error, .prompt, .prompt 0, true, 9⟩], .prompt 0⟩,
    ⟨[.connects 9], .prompt 0⟩, ⟨[.brings 9 []], .prompt 0⟩]

theorem descriptors_accounted_threeClients :
    ∃ s, mainFrom .server .usual threeClients = some s ∧ s.accepted = 3 ∧
      (∃! x, s.conn x = some 0) ∧ (∃ x, s.conn x = some 1 ∧ s.watched x = false) ∧
      ∀ x, s.conn x ≠ some 2 := by
  have hview : (mainFrom .server .usual threeClients).map (fun s =>
      decide (s.accepted = 3 ∧ closings 0 s.log = 0 ∧ closings 2 s.log = 1)) = some true := by
    decide +kernel
  have hrefused : outputs (turn .server) (Turn.refused .server) (initState .usual) threeClients =
      [1] := by decide +kernel
  obtain ⟨s, hrun, hs⟩ := Option.map_eq_some_iff.mp hview
  obtain ⟨hthree, hfirst, hthird⟩ := of_decide_eq_true hs
  obtain ⟨honce, hleaked⟩ := descriptors_accounted .server .usual threeClients s hrun
  rw [hrefused] at hleaked
  refine ⟨s, hrun, hthree, ?_, (hleaked 1).mpr List.mem_cons_self, ?_⟩
  · rcases honce 0 (by omega) with ⟨_, hopen⟩ | ⟨hone, _⟩
    · exact hopen
    · omega
  · rcases honce 2 (by omega) with ⟨hzero, _⟩ | ⟨_, hnone⟩
    · omega
    · exact hnone

end Over6.Server
