import Over6.Server.Lookup

/-! # One packet from the tun

A call of `process_tun` on a packet, whoever its destination belongs to. The server
in `server/main.cpp` does not take a packet nobody holds out of the buffer, the one
that `run.sh` builds does.
-/

namespace Over6.Server

open MachineInt BoundedLoop EventRun

def HeldFor (s : State) (addr : UInt32) (i : Slot) : Prop :=
  (2 ≤ (i : Nat) ∧ (i : Nat) ≤ 254) ∧ (s.users i).status = false ∧ (s.users i).v4addr = addr

/-- The buffer of the tun is empty, and allocated entries have open descriptors. -/
structure TunReady (s : State) : Prop extends Tabled s where
  nonneg : ∀ fd, s.isOpen fd = true → 0 ≤ fd
  opened : ∀ i : Slot, 2 ≤ (i : Nat) → (i : Nat) ≤ 254 → (s.users i).status = false →
    s.isOpen (s.users i).fd = true

/-- The packet has gone out as one frame to the descriptor of its holder and nothing was written
elsewhere; a packet without a holder has gone nowhere. It is no longer in the buffer. -/
structure Relayed (packet : List UInt8) (s s' : State) : Prop where
  drained : (s'.bufs s'.tunFd).used = 0
  delivered : ∀ i, HeldFor s (destination packet) i → ∀ fd, writesOn fd s'.log =
    writesOn fd s.log ++ if fd = (s.users i).fd then
      [Message.bytes ⟨packet.length + 5, msgDataRsb⟩, packet] else []
  dropped : (∀ i, ¬ HeldFor s (destination packet) i) →
    ∀ fd, writesOn fd s'.log = writesOn fd s.log

/-- A call on the packet returns, with the packet handled. -/
def Handles (process : ProcessTun) (s : State) (packet : List UInt8) (env : Nat → RouteEnv) : Prop :=
  ∃ fuel s', process (.bytes packet) env fuel s = .stopped s' ∧ Relayed packet s s'

section OnePacket

variable {s : State} {packet : List UInt8} {env : Nat → RouteEnv}

theorem TunReady.lookup (hs : TunReady s) {addr : UInt32} {i : Slot} (hi : HeldFor s addr i) :
    searchUserInfoByAddr s.users addr = some i := by
  obtain ⟨hrange, hst, haddr⟩ := hi
  have hres := reserved_eq_false.mpr hrange
  have hslot : addr = slotAddr i := haddr.symm.trans (hs.sound.held i hres hst).2
  have hne : addr ≠ 0 := by
    rw [hslot]
    exact slotAddr_ne_zero i
  exact (hs.sound.lookup hne).mpr ⟨hres, hst, hslot⟩

/-- An address whose search leads to no holder leads to entry 0, or nowhere. -/
theorem TunReady.lookup_other (hs : TunReady s) {addr : UInt32} (hnone : ∀ i, ¬ HeldFor s addr i) :
    (addr = 0 ∧ searchUserInfoByAddr s.users addr = some 0) ∨
      (addr ≠ 0 ∧ searchUserInfoByAddr s.users addr = none) := by
  by_cases hzero : addr = 0
  · left
    rw [hzero]
    exact ⟨rfl, hs.sound.lookup_zero⟩
  · right
    refine ⟨hzero, ?_⟩
    cases hsearch : searchUserInfoByAddr s.users addr with
    | none => rfl
    | some i =>
        obtain ⟨hres, hst, haddr⟩ := (hs.sound.lookup hzero).mp hsearch
        refine absurd ⟨reserved_eq_false.mp hres, hst, ?_⟩ (hnone i)
        rw [(hs.sound.held i hres hst).2, haddr]

theorem TunReady.closed (hs : TunReady s) : s.isOpen (-1) = false := by
  cases hopen : s.isOpen (-1) with
  | false => rfl
  | true => exact absurd (hs.nonneg (-1) hopen) (by decide)

theorem State.routedTo_writesOn (t : State) (fd x : Fd) :
    writesOn x (t.routedTo fd).log = writesOn x t.log ++
      if x = fd then [replyHeader (t.bufs t.tunFd).used, t.packet] else [] := by
  by_cases hx : x = fd
  · subst hx
    rw [State.routedTo, writesOn_note, State.setBuf_log, writesOn_note, writesOn_note, if_pos rfl]
    simp [Act.writeCall]
  · have hne : fd ≠ x := fun h => hx h.symm
    rw [State.routedTo, writesOn_note_of_ne _ hne, State.setBuf_log, writesOn_note_of_ne _ hne,
      writesOn_note_of_ne _ hne, if_neg hx, List.append_nil]

variable (hs : TunReady s) (hmin : 20 ≤ packet.length) (hmax : packet.length ≤ bufSize)

include hs hmin hmax

/-- A packet for a holder whose writes succeed, with either server. -/
theorem DrainsKnown.handles {process : ProcessTun} (hprocess : DrainsKnown process) {i : Slot}
    (hi : HeldFor s (destination packet) i) (h₁ : ∀ k j, ∃ n, (env k).write₁ j = .wrote n)
    (h₂ : ∀ k j, ∃ n, (env k).write₂ j = .wrote n) : Handles process s packet env := by
  obtain ⟨once, honce, hsame⟩ := hprocess
  have hin := arrived hs.bounded hs.empty hmin hmax
  have hread : ∀ x, writesOn x (receive s.tunFd packet s).log = writesOn x s.log := fun x =>
    writesOn_receive s x s.tunFd packet
  have hopen : (receive s.tunFd packet s).isOpen (s.users i).fd = true :=
    hs.opened i hi.1.1 hi.1.2 hi.2.1
  rw [Handles]
  simp only [honce]
  generalize receive s.tunFd packet s = t at hin hread hopen
  have hknown : searchUserInfoByAddr t.users (t.bufs t.tunFd).daddr = some i := by
    rw [hin.users, hin.daddr]
    exact hs.lookup hi
  have hfirst := hsame (env 0) t (.inr ⟨i, hknown⟩)
  rw [← hin.users] at hopen
  rw [routeOnce_of_wrote (h₁ 0) (h₂ 0) hin.long hknown hopen, hin.users] at hfirst
  have hused := t.routedTo_used (s.users i).fd
  have hshort : ((t.routedTo (s.users i).fd).bufs (t.routedTo (s.users i).fd).tunFd).used <
      sizeofIphdr := by
    rw [hused]
    decide
  have hsecond := hsame (env 1) _ (.inl hshort)
  rw [routeOnce_of_short _ hshort] at hsecond
  refine ⟨2, t.routedTo (s.users i).fd, ?_, hused, ?_, fun hnone => absurd hi (hnone i)⟩
  · rw [iterate_of_next _ hfirst, iterate_of_stop _ hsecond]
  · intro j hj fd
    have hji : i = j := by
      have hsearch := hs.lookup hj
      rw [hs.lookup hi] at hsearch
      exact Option.some.inj hsearch
    have hheader : (Frame.message ⟨msgDataRsb, packet⟩).bytes =
        Message.bytes ⟨packet.length + 5, msgDataRsb⟩ := rfl
    rw [t.routedTo_writesOn, hin.header, hin.whole, hread, hheader, hji]

/-- A packet for the address zero is written to descriptor `-1`, and stays. -/
theorem DrainsKnown.not_handles {process : ProcessTun} (hprocess : DrainsKnown process)
    (hzero : destination packet = 0) : ¬ Handles process s packet env := by
  obtain ⟨once, honce, hsame⟩ := hprocess
  have hin := arrived hs.bounded hs.empty hmin hmax
  have hopen : (receive s.tunFd packet s).isOpen (-1) = false := hs.closed
  rw [Handles]
  simp only [honce]
  generalize receive s.tunFd packet s = t at hin hopen
  have hknown : searchUserInfoByAddr t.users (t.bufs t.tunFd).daddr = some 0 := by
    rw [hin.users, hin.daddr, hzero]
    exact hs.sound.lookup_zero
  have hfd : (t.users 0).fd = -1 := by
    rw [hin.users]
    exact (hs.sound.withheld 0 rfl).2.1
  have hnot : ¬ t.Carries (env 0) (t.users 0).fd := by
    rintro ⟨ho, _⟩
    rw [hfd, hopen] at ho
    cases ho
  obtain ⟨t', hstop, hbufs, hfds⟩ := routeOnce_of_not_carries hin.long hknown hnot
  rw [← hsame (env 0) t (.inr ⟨0, hknown⟩)] at hstop
  rintro ⟨fuel, s', hcall, hrelayed⟩
  have hend : iterate (fun k => once (env k)) 1 0 t = .stopped t' := iterate_of_stop 0 hstop
  obtain rfl := iterate_stopped_unique hend hcall
  have hlong := hin.long
  have hused := hrelayed.drained
  rw [State.tunFd, hbufs, hfds] at hused
  rw [State.tunFd, hused] at hlong
  exact absurd hlong (by decide)

/-- A packet for an address nobody holds is met again and again. -/
theorem never_returns_of_nobody
    (hnone : searchUserInfoByAddr s.users (destination packet) = none) (fuel : Nat) (s' : State) :
    processTun (.bytes packet) env fuel s ≠ .stopped s' := by
  have hin := arrived hs.bounded hs.empty hmin hmax
  have hforever : ∀ k t, t = receive s.tunFd packet s → ∃ t',
      routeOnce (env k) t = .next t' ∧ t' = receive s.tunFd packet s := by
    rintro k t rfl
    have hnobody : searchUserInfoByAddr (receive s.tunFd packet s).users
        ((receive s.tunFd packet s).bufs (receive s.tunFd packet s).tunFd).daddr = none := by
      rw [hin.users, hin.daddr, hnone]
    unfold routeOnce
    simp only [Int.not_lt.mpr hin.long, if_false, hnobody]
    exact ⟨_, rfl, rfl⟩
  intro hcall
  exact not_terminates_of_recurrent (fun t => t = receive s.tunFd packet s) hforever 0 _ rfl
    ⟨fuel, s', hcall⟩

/-- The other server gives such a packet up. -/
theorem Built.handles_of_nobody
    (hnone : searchUserInfoByAddr s.users (destination packet) = none) :
    Handles Built.processTun s packet env := by
  have hin := arrived hs.bounded hs.empty hmin hmax
  have hread : ∀ x, writesOn x (receive s.tunFd packet s).log = writesOn x s.log := fun x =>
    writesOn_receive s x s.tunFd packet
  rw [Handles]
  simp only [Built.processTun]
  generalize receive s.tunFd packet s = t at hin hread
  have hnobody : searchUserInfoByAddr t.users (t.bufs t.tunFd).daddr = none := by
    rw [hin.users, hin.daddr, hnone]
  obtain ⟨t', hfirst, hlog, hused⟩ : ∃ t', Built.routeOnce (env 0) t = .next t' ∧
      t'.log = t.log ∧ (t'.bufs t'.tunFd).used = 0 := by
    unfold Built.routeOnce
    simp only [Int.not_lt.mpr hin.long, if_false, Int.lt_irrefl, hnobody]
    refine ⟨_, rfl, rfl, ?_⟩
    change (Function.update t.bufs t.tunFd _ t.tunFd).used = 0
    rw [Function.update_self]
    exact Int.sub_self _
  have hshort : (t'.bufs t'.tunFd).used < sizeofIphdr := by
    rw [hused]
    decide
  have hsecond : Built.routeOnce (env 1) t' = .stop t' := by
    unfold Built.routeOnce
    simp only [hshort, if_true]
  refine ⟨2, t', ?_, hused, fun i hi => ?_, fun _ fd => ?_⟩
  · rw [iterate_of_next _ hfirst, iterate_of_stop _ hsecond]
  · rw [hs.lookup hi] at hnone
    cases hnone
  · rw [hlog, hread]

end OnePacket

/-- Whatever table it meets, `process_tun` handles a packet exactly if somebody holds its
destination. -/
theorem packet_handled_iff (s : State) (hs : TunReady s) (packet : List UInt8)
    (hmin : 20 ≤ packet.length) (hmax : packet.length ≤ 65535) (env : Nat → RouteEnv)
    (h₁ : ∀ k j, ∃ n, (env k).write₁ j = .wrote n) (h₂ : ∀ k j, ∃ n, (env k).write₂ j = .wrote n) :
    Handles processTun s packet env ↔ ∃ i, HeldFor s (destination packet) i := by
  have hfits : packet.length ≤ bufSize := Nat.le_trans hmax (by decide)
  constructor
  · intro hhandles
    by_contra hnone
    rcases hs.lookup_other (not_exists.mp hnone) with ⟨hzero, _⟩ | ⟨_, hsearch⟩
    · exact processTun_drainsKnown.not_handles hs hmin hfits hzero hhandles
    · obtain ⟨fuel, s', hcall, _⟩ := hhandles
      exact never_returns_of_nobody hs hmin hfits hsearch fuel s' hcall
  · rintro ⟨i, hi⟩
    exact processTun_drainsKnown.handles hs hmin hfits hi h₁ h₂

theorem Tabled.runFrom {fds : Descriptors} {es : List Event} {s : State}
    (hrun : runFrom fds es = some s) (hempty : (s.bufs s.tunFd).used = 0) : Tabled s :=
  ⟨.runFrom hrun, .runFrom hrun, hempty⟩

theorem Connections.isOpen_nonneg {s : State} (h : Connections s) {fd : Fd}
    (hopen : s.isOpen fd = true) : 0 ≤ fd := by
  rw [State.isOpen, Bool.or_eq_true, Option.isSome_iff_exists, beq_iff_eq] at hopen
  rcases hopen with ⟨c, hc⟩ | hfd
  · exact (h.client fd c hc).1
  · rw [hfd]
    exact s.fds.nonneg.2.1

/-- In a reachable state without leftovers. -/
theorem TunReady.runFrom {fds : Descriptors} {es : List Event} {s : State}
    (hrun : runFrom fds es = some s) (hempty : (s.bufs s.tunFd).used = 0)
    (hopen : ∀ i : Slot, 2 ≤ (i : Nat) → (i : Nat) ≤ 254 → (s.users i).status = false →
      s.isOpen (s.users i).fd = true) : TunReady s :=
  ⟨.runFrom hrun hempty, fun _ h => (Connections.runFrom hrun).isOpen_nonneg h, hopen⟩

theorem packet_handled_twoHolders : ∃ s, runFrom .usual twoHolders = some s ∧
    Handles processTun s packetToTwo .prompt := by
  have hrun : ((runFrom .usual twoHolders).any fun s =>
      decide ((s.bufs s.tunFd).used = 0 ∧ (s.users 2).status = false ∧
        (s.users 2).v4addr = destination packetToTwo ∧
        ∀ i : Slot, 2 ≤ (i : Nat) → (i : Nat) ≤ 254 → (s.users i).status = false →
          s.isOpen (s.users i).fd = true)) = true := by
    decide +kernel
  obtain ⟨s, hs, hfacts⟩ := (Option.any_eq_true _ _).mp hrun
  obtain ⟨hempty, hst, haddr, hopen⟩ := of_decide_eq_true hfacts
  refine ⟨s, hs, ?_⟩
  refine (packet_handled_iff s (.runFrom hs hempty hopen) packetToTwo (by decide) (by decide)
    .prompt (fun _ _ => ⟨_, rfl⟩) (fun _ _ => ⟨_, rfl⟩)).mpr ?_
  exact ⟨2, by decide, hst, haddr⟩

theorem TunReady.initState (fds : Descriptors) : TunReady (initState fds) := by
  have hrun : Server.runFrom fds [] = some (Server.initState fds) := rfl
  refine .runFrom hrun rfl fun i hlo hhi hst => ?_
  have hstatus : ((Server.initState fds).users i).status = !reserved i := rfl
  rw [hstatus, reserved_eq_false.mpr ⟨hlo, hhi⟩] at hst
  cases hst

/-- Nobody has been given an address, and a packet for one comes in: the call does not return. -/
theorem unheld_packet_hangs :
    TunReady (initState .usual) ∧ (∀ i, ¬ HeldFor (initState .usual) (destination packetToTwo) i) ∧
      (∀ fuel s', processTun (.bytes packetToTwo) .prompt fuel (initState .usual) ≠ .stopped s') ∧
      ¬ ∀ s, TunReady s → ∀ packet, 20 ≤ packet.length → packet.length ≤ 65535 →
        Handles processTun s packet .prompt := by
  have hready : TunReady (initState .usual) := .initState .usual
  have hnone : ∀ i, ¬ HeldFor (initState .usual) (destination packetToTwo) i := by
    rintro i ⟨hrange, hst, _⟩
    have hstatus : ((initState .usual).users i).status = !reserved i := rfl
    rw [hstatus, reserved_eq_false.mpr hrange] at hst
    cases hst
  have hsearch := ((hready.lookup_other hnone).resolve_left fun h =>
    absurd h.1 (by decide)).2
  have hnever : ∀ fuel s', processTun (.bytes packetToTwo) .prompt fuel (initState .usual) ≠
      .stopped s' := never_returns_of_nobody hready (by decide) (by decide) hsearch
  refine ⟨hready, hnone, hnever, fun hall => ?_⟩
  obtain ⟨fuel, s', hcall, _⟩ := hall _ hready packetToTwo (by decide) (by decide)
  exact hnever fuel s' hcall

/-- The server that `run.sh` builds handles every packet but those for the address zero. -/
theorem Built.packet_handled_iff_ne_zero (s : State) (hs : TunReady s) (packet : List UInt8)
    (hmin : 20 ≤ packet.length) (hmax : packet.length ≤ 65535) (env : Nat → RouteEnv)
    (h₁ : ∀ k j, ∃ n, (env k).write₁ j = .wrote n) (h₂ : ∀ k j, ∃ n, (env k).write₂ j = .wrote n) :
    Handles Built.processTun s packet env ↔ destination packet ≠ 0 := by
  have hfits : packet.length ≤ bufSize := Nat.le_trans hmax (by decide)
  constructor
  · intro hhandles hzero
    exact Built.processTun_drainsKnown.not_handles hs hmin hfits hzero hhandles
  · intro hne
    by_cases hheld : ∃ i, HeldFor s (destination packet) i
    · obtain ⟨i, hi⟩ := hheld
      exact Built.processTun_drainsKnown.handles hs hmin hfits hi h₁ h₂
    · rcases hs.lookup_other (not_exists.mp hheld) with ⟨hzero, _⟩ | ⟨_, hsearch⟩
      · exact absurd hzero hne
      · exact Built.handles_of_nobody hs hmin hfits hsearch

/-- Nobody has been given an address here either. -/
theorem Built.packet_handled_start : Handles Built.processTun (initState .usual) packetToTwo .prompt :=
  (Built.packet_handled_iff_ne_zero (initState .usual) (.initState .usual) packetToTwo (by decide)
    (by decide) .prompt (fun _ _ => ⟨_, rfl⟩) (fun _ _ => ⟨_, rfl⟩)).mpr (by decide)

end Over6.Server
