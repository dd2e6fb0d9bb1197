import Over6.Server.Reservation
import Over6.Server.Tunnel

/-! # Finding the holder of an address

`search_user_info_by_addr` on the tables that allocations, releases and heartbeat
passes leave behind, and what `process_tun` does with its answer. The reserved
entries are in use as far as the search can see, and they have the address zero.
-/

namespace Over6.Server

open MachineInt BoundedLoop EventRun Journal

/-! ## Exactness -/

theorem slotAddr_ne_zero (i : Slot) : slotAddr i ≠ 0 := by
  revert i
  decide +kernel

/-- Any address but zero leads to the entry that is held for it. -/
theorem PoolSound.lookup {users : Users} (h : PoolSound users) {addr : UInt32} (hne : addr ≠ 0)
    {i : Slot} : searchUserInfoByAddr users addr = some i ↔
      reserved i = false ∧ (users i).status = false ∧ addr = slotAddr i := by
  -- A match is never one of the reserved entries.
  have hmatch : ∀ {j}, searchUserInfoByAddr users addr = some j →
      reserved j = false ∧ (users j).status = false ∧ addr = slotAddr j := by
    intro j hj
    obtain ⟨haddr, hst⟩ := searchUserInfoByAddr_eq_some hj
    have hres : reserved j = false := by
      cases hr : reserved j with
      | false => rfl
      | true => exact absurd (haddr.symm.trans (h.withheld j hr).2.2) hne
    exact ⟨hres, hst, haddr.symm.trans (h.held j hres hst).2⟩
  refine ⟨hmatch, fun ⟨hres, hst, haddr⟩ => ?_⟩
  cases hsearch : searchUserInfoByAddr users addr with
  | none =>
      have hfree := searchUserInfoByAddr_eq_none.mp hsearch i ((h.held i hres hst).2.trans haddr.symm)
      rw [hst] at hfree
      cases hfree
  | some j =>
      obtain ⟨_, _, haddr'⟩ := hmatch hsearch
      rw [slotAddr_injective (haddr.symm.trans haddr')]

/-- The address zero leads to a reserved entry. -/
theorem PoolSound.lookup_zero {users : Users} (h : PoolSound users) :
    searchUserInfoByAddr users 0 = some 0 := by
  obtain ⟨hst, _, haddr⟩ := h.withheld 0 rfl
  exact searchUserInfoByAddr_zero haddr hst

/-! ## What is written where -/

def Act.writeCall : Act → List (List UInt8)
  | wrote bs _ => [bs]
  | _ => []

/-- The calls of `write_all` on a descriptor, with the bytes each of them got across. -/
def writesOn (fd : Fd) (log : List Record) : List (List UInt8) :=
  gather (fun r => if r.fd = fd then r.act.writeCall else []) log

theorem writesOn_note (s : State) (x fd : Fd) (act : Act) :
    writesOn x (s.note fd act).log = writesOn x s.log ++ if fd = x then act.writeCall else [] :=
  rfl

theorem writesOn_note_of_ne (s : State) {x fd : Fd} (h : fd ≠ x) (act : Act) :
    writesOn x (s.note fd act).log = writesOn x s.log := by
  rw [writesOn_note, if_neg h, List.append_nil]

theorem writesOn_receive (s : State) (x fd : Fd) (bs : List UInt8) :
    writesOn x (receive fd bs s).log = writesOn x s.log := by
  change writesOn x s.log ++ (if fd = x then [] else []) = writesOn x s.log
  rw [ite_self, List.append_nil]

/-- A pass of the drain loop writes to the descriptor of whoever holds the destination. -/
theorem Route.writesOn {s : State} {flow : Flow State} (h : Route s flow) {x : Fd}
    (hother : ∀ i, searchUserInfoByAddr s.users (s.bufs s.tunFd).daddr = some i →
      sizeofIphdr ≤ (s.bufs s.tunFd).used → (s.users i).fd ≠ x) :
    writesOn x flow.state.log = writesOn x s.log := by
  cases h with
  | drained => rfl
  | nobody => rfl
  | header hlong id hsome sent => exact writesOn_note_of_ne s (hother id hsome hlong) _
  | packet hlong id hsome =>
      rw [Flow.state_stop, writesOn_note_of_ne _ (hother id hsome hlong),
        writesOn_note_of_ne _ (hother id hsome hlong)]
  | routed hlong id hsome =>
      have hne := hother id hsome hlong
      rw [Flow.state_next, State.routedTo, writesOn_note_of_ne _ hne, State.setBuf_log,
        writesOn_note_of_ne _ hne, writesOn_note_of_ne _ hne]

/-! ## Calls on the table -/

/-- A call of the pool, or a heartbeat pass with some descriptors registered with epoll. -/
inductive TableCall where
  | pool (c : PoolCall)
  | heartbeat (watched : Fd → Bool) (env : SweepEnv)

def tableStep (s : State) : TableCall → Option State
  | .pool c => some (c.call s).1
  | .heartbeat watched env => some (processHeartbeat env { s with watched := watched })

def TableCall.OnClient : TableCall → Prop
  | .pool c => 0 ≤ c.clientFd
  | .heartbeat _ _ => True

/-- What the calls make of a state: the table is sound, and nothing has come in from the tun. -/
structure Tabled (s : State) : Prop where
  sound : PoolSound s.users
  bounded : s.Bounded
  empty : (s.bufs s.tunFd).used = 0

namespace Tabled

variable {s s' : State}

theorem initState (fds : Descriptors) : Tabled (initState fds) :=
  ⟨.initState fds, .initState fds, rfl⟩

theorem of_users (h : Tabled s) (hsound : PoolSound s'.users) (hbufs : s'.bufs = s.bufs)
    (hfds : s'.fds = s.fds) : Tabled s' := by
  refine ⟨hsound, h.bounded.of_bufs hbufs, ?_⟩
  rw [State.tunFd, hfds, hbufs]
  exact h.empty

theorem call (h : Tabled s) {c : PoolCall} (hfd : 0 ≤ c.clientFd) : Tabled (c.call s).1 := by
  refine h.of_users (h.sound.call hfd) ?_ ?_
  · cases c with
    | allocate fd t₁ t₂ =>
        change (allocateIpAddr fd t₁ t₂ s).1.bufs = s.bufs
        unfold allocateIpAddr
        cases firstFree s.users <;> rfl
    | deallocate fd =>
        change (deallocateIpAddr fd s).1.bufs = s.bufs
        unfold deallocateIpAddr
        cases searchUserInfoByFd s.users fd <;> rfl
  · cases c with
    | allocate fd t₁ t₂ =>
        change (allocateIpAddr fd t₁ t₂ s).1.fds = s.fds
        unfold allocateIpAddr
        cases firstFree s.users <;> rfl
    | deallocate fd =>
        change (deallocateIpAddr fd s).1.fds = s.fds
        unfold deallocateIpAddr
        cases searchUserInfoByFd s.users fd <;> rfl

theorem swept (h : Tabled s) (env : SweepEnv) (i : Slot) : Tabled (s.swept env i) :=
  h.of_users (h.sound.sameOwner (s.swept_steady env i).owner) (s.swept_bufs env i)
    (s.swept_steady env i).fds

theorem sweep (h : Tabled s) {env : SweepEnv} {i : Slot} (hs : Sweep env i s s') : Tabled s' := by
  cases hs with
  | skipped => exact h
  | spared => exact h.swept env i
  | stuck => exact h.swept env i
  | evicted hfd =>
      obtain ⟨husers, hbufs, hfds, _⟩ := (s.swept env i).freed_spec (s.users i).fd
      refine (h.swept env i).of_users ?_ hbufs hfds
      rw [husers]
      exact (h.swept env i).sound.releaseFirst hfd

theorem heartbeat (h : Tabled s) (env : SweepEnv) (entries : List Slot) :
    Tabled (entries.foldl (heartbeatEntry env) s) := by
  induction entries generalizing s with
  | nil => exact h
  | cons i entries ih => exact ih (h.sweep (heartbeatEntry_sweep env i s))

theorem run {calls : List TableCall} (h : Tabled s) (hclient : ∀ c ∈ calls, c.OnClient)
    (hrun : EventRun.run tableStep s calls = some s') : Tabled s' := by
  induction calls generalizing s with
  | nil => exact Option.some.inj hrun ▸ h
  | cons c calls ih =>
      obtain ⟨t, hstep, hrest⟩ := run_cons_iff.mp hrun
      have ht : Tabled t := by
        have hc := hclient c List.mem_cons_self
        cases c with
        | pool c =>
            obtain rfl := Option.some.inj hstep
            exact h.call hc
        | heartbeat watched env =>
            obtain rfl := Option.some.inj hstep
            have hwatched : Tabled { s with watched := watched } := h.of_users h.sound rfl rfl
            exact hwatched.heartbeat env _
      exact ih ht (fun c' hc' => hclient c' (List.mem_cons_of_mem c hc')) hrest

end Tabled

/-- The search finds exactly the entries held for the address, and a packet for it makes
`process_tun` write to no descriptor `-1`. -/
structure ExactLookup (s : State) (addr : UInt32) : Prop where
  exact : ∀ i : Slot, searchUserInfoByAddr s.users addr = some i ↔
    2 ≤ (i : Nat) ∧ (i : Nat) ≤ 254 ∧ (s.users i).status = false ∧ 0 ≤ (s.users i).fd ∧
      inetPton (slotText i) = some addr
  nowhere : ∀ packet env fuel, 20 ≤ packet.length → packet.length ≤ bufSize →
    destination packet = addr →
    writesOn (-1) (processTun (.bytes packet) env fuel s).state.log = writesOn (-1) s.log

structure Seeking (addr : UInt32) (s t : State) : Prop where
  users : t.users = s.users
  front : (t.bufs t.tunFd).used < sizeofIphdr ∨ (t.bufs t.tunFd).daddr = addr
  writes : writesOn (-1) t.log = writesOn (-1) s.log

theorem Seeking.route {addr : UInt32} {s t : State} {flow : Flow State} (h : Seeking addr s t)
    (hfound : ∀ i, searchUserInfoByAddr s.users addr = some i → 0 ≤ (s.users i).fd)
    (hroute : Route t flow) : Seeking addr s flow.state := by
  have hwrites : writesOn (-1) flow.state.log = writesOn (-1) t.log := by
    refine hroute.writesOn fun i hsome hlong => ?_
    rw [h.front.resolve_left (Int.not_lt.mpr hlong), h.users] at hsome
    rw [h.users]
    exact ne_neg_one_of_nonneg (hfound i hsome)
  refine ⟨?_, ?_, hwrites.trans h.writes⟩
  · rw [← h.users]
    cases hroute <;> rfl
  · cases hroute with
    | drained => exact h.front
    | nobody => exact h.front
    | header => exact h.front
    | packet => exact h.front
    | routed _ id =>
        left
        rw [Flow.state_next, t.routedTo_used]
        decide

theorem Tabled.exactLookup {s : State} (h : Tabled s) {addr : UInt32} (hne : addr ≠ 0) :
    ExactLookup s addr := by
  have hexact : ∀ i : Slot, searchUserInfoByAddr s.users addr = some i ↔
      2 ≤ (i : Nat) ∧ (i : Nat) ≤ 254 ∧ (s.users i).status = false ∧ 0 ≤ (s.users i).fd ∧
        inetPton (slotText i) = some addr := by
    intro i
    rw [h.sound.lookup hne, reserved_eq_false, inetPton_slotText, Option.some_inj, and_assoc]
    constructor
    · rintro ⟨hlo, hhi, hst, haddr⟩
      exact ⟨hlo, hhi, hst, (h.sound.held i (reserved_eq_false.mpr ⟨hlo, hhi⟩) hst).1, haddr.symm⟩
    · rintro ⟨hlo, hhi, hst, _, haddr⟩
      exact ⟨hlo, hhi, hst, haddr.symm⟩
  refine ⟨hexact, fun packet env fuel hmin hmax hdest => ?_⟩
  have hin := arrived h.bounded h.empty hmin hmax
  have hstart : Seeking addr s (receive s.tunFd packet s) :=
    ⟨rfl, .inr (hin.daddr.trans hdest), writesOn_receive s (-1) s.tunFd packet⟩
  exact (iterate_invariant (Seeking addr s)
    (fun k t ht => ht.route (fun i hi => ((hexact i).mp hi).2.2.2.1) (routeOnce_route (env k) t))
    fuel 0 _ hstart).writes

/-- After any allocations, releases and heartbeat passes the search is exact for every address but
zero, and for that one it is not. -/
theorem lookup_exact_iff (fds : Descriptors) (calls : List TableCall)
    (hclient : ∀ c ∈ calls, c.OnClient) (s : State)
    (hrun : run tableStep (initState fds) calls = some s) (addr : UInt32) :
    ExactLookup s addr ↔ addr ≠ 0 := by
  have h : Tabled s := (Tabled.initState fds).run hclient hrun
  refine ⟨?_, Tabled.exactLookup h⟩
  rintro hexact rfl
  have hlow := ((hexact.exact 0).mp h.sound.lookup_zero).1
  exact absurd hlow (by decide)

def packetToNobody : List UInt8 := [69, 0, 0, 20, 0, 0, 0, 0, 64, 17, 0, 0, 8, 8, 8, 8, 0, 0, 0, 0]

/-- Before anything is allocated the search finds entry 0, and `process_tun` writes to descriptor
`-1`. -/
theorem lookup_zero_found :
    ¬ (∀ fds calls s, run tableStep (initState fds) calls = some s →
        ∀ addr, ExactLookup s addr) ∧
      searchUserInfoByAddr (initState .usual).users 0 = some 0 ∧
      ((initState .usual).users 0).fd = -1 ∧
      writesOn (-1) (processTun (.bytes packetToNobody) .prompt 9 (initState .usual)).state.log =
        [[]] := by
  have hfound : searchUserInfoByAddr (initState .usual).users 0 = some 0 :=
    (PoolSound.initState .usual).lookup_zero
  refine ⟨fun hall => ?_, hfound, rfl, by decide +kernel⟩
  have hlow := (((hall .usual [] _ rfl 0).exact 0).mp hfound).1
  exact absurd hlow (by decide)

/-- An allocation on descriptor 7 and the address it gives. -/
theorem lookup_exact_allocated :
    ∃ s, run tableStep (initState .usual) [.pool (.allocate 7 0 0)] = some s ∧
      ExactLookup s (slotAddr 2) := by
  have hclient : ∀ c ∈ [TableCall.pool (.allocate 7 0 0)], c.OnClient := by
    intro c hc
    rw [List.mem_singleton.mp hc]
    show (0 : Int) ≤ 7
    decide
  refine ⟨_, rfl, ?_⟩
  exact (lookup_exact_iff .usual _ hclient _ rfl (slotAddr 2)).mpr (slotAddr_ne_zero 2)

end Over6.Server
