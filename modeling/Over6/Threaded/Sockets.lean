import Over6.Threaded.Calculus

/-! # Whose socket a thread is at

`keepLiveThread` closes the socket, and the other two threads of the connection go on
with the number. Until `accept` gives it out again they find it closed.
-/

namespace Over6.Threaded

open EventRun

/-- The call was made on the socket of its own connection, or on a closed number. -/
def Act.Own : Act → Prop
  | read i on _ => on = none ∨ on = some i
  | wrote i _ on _ => on = none ∨ on = some i
  | _ => True

/-- A thread that may still read from or write to the socket. -/
def Conn.Running (c : Conn) : Prop := c.reading ≠ .ended ∨ c.writing ≠ .ended

instance (c : Conn) : Decidable c.Running := inferInstanceAs (Decidable (_ ∨ _))

/-- No call was made on another connection's socket, and no thread is left with a number that denotes
one. -/
structure OwnSockets (s : State) : Prop where
  calls : ∀ act ∈ s.log, act.Own
  numbers : ∀ (i j : Nat) c, s.conns[i]? = some c → c.Running → s.socket c.socketFd = some j → j = i

/-- `accept` returns the number of a connection that has a thread running. -/
def Reuses (s : State) : Event → Prop
  | .accept _ => ∃ c ∈ s.conns, c.socketFd = s.lowestFree ∧ c.Running
  | _ => False

instance (s : State) (e : Event) : Decidable (Reuses s e) :=
  match e with
  | .accept _ => inferInstanceAs (Decidable (∃ c ∈ s.conns, _ ∧ _))
  | .read .. | .write .. | .keep .. | .packet _ | .route => inferInstanceAs (Decidable False)

/-! ## The descriptor table -/

theorem socket_of_files {s s' : State} (h : s'.files = s.files) (fd : Nat) :
    s'.socket fd = s.socket fd := by
  rw [State.socket, State.socket, h]

theorem socket_close {s s' : State} {fd : Nat} (h : s'.files = s.files.set fd none) (k : Nat) :
    s'.socket k = if k = fd then none else s.socket k := by
  rw [State.socket, State.socket, h, List.getElem?_set]
  by_cases hk : fd = k
  · subst hk
    by_cases hlt : fd < s.files.length
    · simp [hlt]
    · simp [hlt]
  · simp [hk, Ne.symm hk]

/-- The number that is given out is free. -/
theorem lowestFree_free (s : State) : s.files[s.lowestFree]? = some none ∨
    s.lowestFree = s.files.length := by
  by_cases hlt : s.lowestFree < s.files.length
  · left
    have hnone := List.findIdx_getElem (w := hlt)
    rw [List.getElem?_eq_getElem hlt]
    exact congrArg some (Option.isNone_iff_eq_none.mp hnone)
  · exact .inr (Nat.le_antisymm List.findIdx_le_length (Nat.le_of_not_lt hlt))

theorem socket_lowestFree (s : State) : s.socket s.lowestFree = none := by
  unfold State.socket
  rcases lowestFree_free s with h | h
  · rw [h]
  · rw [h, List.getElem?_eq_none (Nat.le_refl _)]

theorem socket_accept (s : State) (stale : Msg) (k : Nat) :
    (s.accept stale).socket k = if k = s.lowestFree then some s.conns.length else s.socket k := by
  unfold State.socket State.accept
  simp only
  rcases lowestFree_free s with h | h
  · have hlt : s.lowestFree < s.files.length := (List.getElem?_eq_some_iff.mp h).1
    rw [if_pos hlt, List.getElem?_set]
    by_cases hk : s.lowestFree = k
    · subst hk
      simp [hlt]
    · simp [hk, Ne.symm hk]
  · rw [h, if_neg (Nat.lt_irrefl _), List.getElem?_append]
    by_cases hlt : k < s.files.length
    · simp [hlt, Nat.ne_of_lt hlt]
    · by_cases hk : k = s.files.length
      · simp [hk]
      · have hbehind : k - s.files.length ≠ 0 := by omega
        simp [hlt, hk, hbehind]

/-- Until `keepLiveThread` has ended the number denotes the socket of the connection. -/
def Filed (s : State) : Prop :=
  ∀ (i : Nat) c, s.conns[i]? = some c → c.keeping ≠ .ended → s.socket c.socketFd = some i

/-! ## One step -/

section Steps

variable {s s' : State} {i : Nat} {c c' : Conn}

theorem Touches.filed (h : Touches s i c c' s') (hfiled : Filed s)
    (hkeep : c'.keeping ≠ .ended → c.keeping ≠ .ended) (hfiles : s'.files = s.files) : Filed s' := by
  intro j d hd hopen
  rw [socket_of_files hfiles]
  rcases h.conns hd with ⟨rfl, rfl⟩ | ⟨_, hd⟩
  · rw [h.socketFd]
    exact hfiled j c h.before (hkeep hopen)
  · exact hfiled j d hd hopen

theorem Touches.calls (h : Touches s i c c' s') (hown : OwnSockets s)
    (hself : ∀ j, s.socket c.socketFd = some j → j = i) : ∀ act ∈ s'.log, act.Own := by
  have hon : s.socket c.socketFd = none ∨ s.socket c.socketFd = some i := by
    cases hsocket : s.socket c.socketFd with
    | none => exact .inl rfl
    | some j => exact .inr (congrArg some (hself j hsocket))
  intro act hact
  rcases h.log with hlog | ⟨new, hlog, hof⟩
  · rw [hlog] at hact
    exact hown.calls act hact
  · rw [hlog, List.mem_cons] at hact
    rcases hact with rfl | hact
    · cases act with
      | read k on a =>
          obtain ⟨rfl, rfl⟩ := hof
          exact hon
      | wrote k who on bs =>
          obtain ⟨rfl, rfl⟩ := hof
          exact hon
      | locked k who m => trivial
      | pushed k bs => trivial
    · exact hown.calls act hact

theorem Touches.numbers (h : Touches s i c c' s') (hown : OwnSockets s)
    (hrun : c'.Running → c.Running) (hsockets : ∀ k j, s'.socket k = some j → s.socket k = some j) :
    ∀ (j k : Nat) d, s'.conns[j]? = some d → d.Running → s'.socket d.socketFd = some k → k = j := by
  intro j k d hd hrunning hsocket
  have hbefore := hsockets d.socketFd k hsocket
  rcases h.conns hd with ⟨rfl, rfl⟩ | ⟨_, hd⟩
  · rw [h.socketFd] at hbefore
    exact hown.numbers j k c h.before (hrun hrunning) hbefore
  · exact hown.numbers j k d hd hrunning hbefore

theorem filed_next {e : Event} (hfiled : Filed s) (h : next s e = some s') : Filed s' := by
  obtain ⟨_, hnext⟩ := next_spec h
  cases hnext with
  | accepts stale =>
      intro i c hc hopen
      rw [socket_accept]
      rcases conns_accept hc with hold | ⟨rfl, rfl⟩
      · have hsocket := hfiled i c hold hopen
        rw [if_neg ?_, hsocket]
        intro hfree
        rw [hfree, socket_lowestFree] at hsocket
        cases hsocket
      · exact if_pos rfl
  | reads hstep => exact hstep.touches.filed hfiled (by rw [hstep.keeping]; exact id) hstep.files
  | writes hstep => exact hstep.touches.filed hfiled (by rw [hstep.keeping]; exact id) hstep.files
  | @keeps i a c c' _ hstep =>
      rcases hstep.files with ⟨_, hfiles⟩ | ⟨hended, hfiles⟩
      · exact hstep.touches.filed hfiled (fun _ => hstep.running) hfiles
      · intro j d hd hopen
        have hself := hfiled i c hstep.touches.before hstep.running
        rcases hstep.touches.conns hd with ⟨_, rfl⟩ | ⟨hj, hd⟩
        · exact absurd hended hopen
        · have hother := hfiled j d hd hopen
          rw [socket_close hfiles, if_neg ?_, hother]
          intro hsame
          rw [hsame, hself] at hother
          exact hj (Option.some.inj hother).symm
  | arrives => exact hfiled
  | finds => exact hfiled
  | throws => exact hfiled
  | queues _ hstep _ _ _ _ hkeeping hfiles =>
      exact hstep.touches.filed hfiled (by rw [hkeeping]; exact id) hfiles

/-- An `accept` leaves every thread at its own socket unless it reuses the number of one. -/
theorem ownSockets_accept (hown : OwnSockets s) (stale : Msg) :
    OwnSockets (s.accept stale) ↔ ¬ Reuses s (.accept stale) := by
  constructor
  · rintro hafter ⟨c, hc, hfd, hrunning⟩
    obtain ⟨i, hi⟩ := List.mem_iff_getElem?.mp hc
    have hlt : i < s.conns.length := (List.getElem?_eq_some_iff.mp hi).1
    have hi' : (s.accept stale).conns[i]? = some c := (List.getElem?_append_left hlt).trans hi
    have hsocket : (s.accept stale).socket c.socketFd = some s.conns.length := by
      rw [socket_accept, if_pos hfd]
    have hsame := hafter.numbers i s.conns.length c hi' hrunning hsocket
    omega
  · intro hno
    refine ⟨hown.calls, fun i j c hc hrunning hsocket => ?_⟩
    rw [socket_accept] at hsocket
    rcases conns_accept hc with hold | ⟨rfl, rfl⟩
    · have hmem : c ∈ s.conns := List.mem_of_getElem? hold
      rw [if_neg fun hfd => hno ⟨c, hmem, hfd, hrunning⟩] at hsocket
      exact hown.numbers i j c hold hrunning hsocket
    · have hfd : (Conn.start s.lowestFree stale).socketFd = s.lowestFree := rfl
      rw [if_pos hfd] at hsocket
      exact (Option.some.inj hsocket).symm

theorem ownSockets_next {e : Event} (hfiled : Filed s) (hown : OwnSockets s)
    (h : next s e = some s') : OwnSockets s' ↔ ¬ Reuses s e := by
  obtain ⟨_, hnext⟩ := next_spec h
  have hkept : OwnSockets s' → (∀ stale, e ≠ .accept stale) → (OwnSockets s' ↔ ¬ Reuses s e) := by
    intro hafter hother
    refine ⟨fun _ => ?_, fun _ => hafter⟩
    cases e with
    | accept stale => exact absurd rfl (hother stale)
    | _ => exact not_false
  cases hnext with
  | accepts stale => exact ownSockets_accept hown stale
  | reads hstep =>
      have hself := fun j => hown.numbers _ j _ hstep.touches.before (.inl hstep.running)
      refine hkept ⟨hstep.touches.calls hown hself, hstep.touches.numbers hown ?_ ?_⟩ (by simp)
      · exact fun _ => .inl hstep.running
      · exact fun k j hk => (socket_of_files hstep.files k).symm.trans hk
  | writes hstep =>
      have hself := fun j => hown.numbers _ j _ hstep.touches.before (.inr hstep.running)
      refine hkept ⟨hstep.touches.calls hown hself, hstep.touches.numbers hown ?_ ?_⟩ (by simp)
      · exact fun _ => .inr hstep.running
      · exact fun k j hk => (socket_of_files hstep.files k).symm.trans hk
  | @keeps i a c c' _ hstep =>
      have hopen := hfiled i c hstep.touches.before hstep.running
      have hself : ∀ j, s.socket c.socketFd = some j → j = i :=
        fun j hj => (Option.some.inj (hopen.symm.trans hj)).symm
      refine hkept ⟨hstep.touches.calls hown hself, hstep.touches.numbers hown ?_ ?_⟩ (by simp)
      · rw [Conn.Running, hstep.reading, hstep.writing]
        exact id
      · intro k j hk
        rcases hstep.files with ⟨_, hfiles⟩ | ⟨_, hfiles⟩
        · exact (socket_of_files hfiles k).symm.trans hk
        · rw [socket_close hfiles] at hk
          split at hk
          · cases hk
          · exact hk
  | arrives => exact hkept ⟨hown.calls, hown.numbers⟩ (by simp)
  | finds => exact hkept ⟨hown.calls, hown.numbers⟩ (by simp)
  | throws => exact hkept ⟨hown.calls, hown.numbers⟩ (by simp)
  | queues _ hstep hquiet _ _ hwriting _ hfiles =>
      refine hkept ⟨hquiet ▸ hown.calls, hstep.touches.numbers hown ?_ ?_⟩ (by simp)
      · rw [Conn.Running, hstep.reading, hwriting]
        exact id
      · exact fun k j hk => (socket_of_files hfiles k).symm.trans hk

end Steps

/-! ## Runs -/

/-- However the threads of any number of connections interleave with `accept` and `tunReader`: every
thread reads and writes at its own connection's socket exactly if `accept` never returns the number
of a connection whose `readThread` or `writeThread` is still running. -/
theorem own_sockets_iff (files : List (Option File)) (es : List Event) (s : State)
    (hrun : run next (State.start files) es = some s) :
    (∀ pre u, pre <+: es → run next (State.start files) pre = some u → OwnSockets u) ↔
      ∀ pre e post u, es = pre ++ e :: post → run next (State.start files) pre = some u →
        ¬ Reuses u e := by
  have hfiled : Filed (State.start files) := by
    intro i c hc
    simp [State.start] at hc
  have hown : OwnSockets (State.start files) := by
    constructor
    · intro act hact
      simp [State.start] at hact
    · intro i j c hc
      simp [State.start] at hc
  exact run_always_iff Reuses Filed OwnSockets (fun _ _ _ => filed_next)
    (fun _ _ _ => ownSockets_next) hfiled hown hrun

def twoClients : List Event :=
  [.accept blank, .accept blank, .read 0 .again, .read 0 (.bytes [5, 0, 0, 0, 104]), .read 0 .again,
    .read 1 .again, .read 1 .error]

theorem own_sockets_twoClients :
    ∃ s, run next (State.start opened) twoClients = some s ∧
      ∀ pre u, pre <+: twoClients → run next (State.start opened) pre = some u → OwnSockets u := by
  refine ⟨_, rfl, (own_sockets_iff opened twoClients _ rfl).mpr ?_⟩
  exact not_bad_of_clean (by decide +kernel)

/-- Twenty seconds without a keepalive, and a heartbeat that cannot be sent. -/
def giveUp (i : Nat) : List Event :=
  (List.replicate 20 [Event.keep i .again, .keep i .again, .keep i .again]).flatten ++
    [.keep i .again, .keep i .error, .keep i .again]

/-- A second client is given the number of the first, and then the packets of the first. -/
def strayPacket : List Event :=
  .accept blank :: grant 0 54 ++ giveUp 0 ++
    [.accept blank, .packet packetToTwo, .route, .route, .write 0 .again, .write 0 .again,
      .write 0 (.count 5), .write 0 (.count 20)]

def Act.write? : Act → Option (Nat × Thread × Option Nat × List UInt8)
  | wrote i who on bs => some (i, who, on, bs)
  | _ => none

theorem stray_packet :
    ∃ s, run next (State.start opened) strayPacket = some s ∧
      .wrote 0 .write (some 1) packetToTwo ∈ s.log ∧ ¬ OwnSockets s := by
  have hlast : (run next (State.start opened) strayPacket).map
      (fun s => (s.log.filterMap Act.write?).head?) =
        some (some (0, .write, some 1, packetToTwo)) := by decide +kernel
  obtain ⟨s, hs, hhead⟩ := Option.map_eq_some_iff.mp hlast
  have hmem : .wrote 0 .write (some 1) packetToTwo ∈ s.log := by
    obtain ⟨act, hact, hwrite⟩ := List.mem_filterMap.mp (List.mem_of_mem_head? hhead)
    cases act with
    | wrote i who on bs =>
        cases hwrite
        exact hact
    | _ => cases hwrite
  refine ⟨s, hs, hmem, fun h => ?_⟩
  have hown : some 1 = none ∨ some 1 = some 0 := h.calls _ hmem
  exact absurd hown (by decide)

end Over6.Threaded
