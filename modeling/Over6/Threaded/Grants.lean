import Over6.Threaded.Serial
import Over6.Threaded.Sockets
import Over6.Threaded.Stream

/-! # Grants that go through

A new client asks for an address and takes the reply while nobody else does anything.
-/

namespace Over6.Threaded

open EventRun

/-! ## The reply -/

theorem reply_header (m : Msg) {n : Nat} (hn : n < 1024) (behind : List UInt8) :
    (replyMsg m (ipText n) behind).header = ⟨(ipInfoStr (ipText n)).length + 5, msgIpRsb⟩ := by
  have hlen := ipInfoStr_length hn
  rw [replyMsg]
  refine header_fill _ ?_ ?_ _
  · change 0 ≤ ((ipInfoStr (ipText n)).length : Int) + 5
    omega
  · change ((ipInfoStr (ipText n)).length : Int) + 5 < 2 ^ 31
    omega

theorem reply_bodySize (m : Msg) {n : Nat} (hn : n < 1024) (behind : List UInt8) :
    (replyMsg m (ipText n) behind).bodySize = (ipInfoStr (ipText n)).length := by
  have hlen := ipInfoStr_length hn
  rw [Msg.bodySize, reply_header m hn, Int.add_sub_cancel]
  exact MachineInt.int32_of_range (by omega) (by omega)

theorem ipInfoStr_pos (n : Nat) : 0 < (ipInfoStr (ipText n)).length := by
  have hne := List.length_pos_iff.mpr (ipText_ne_nil n)
  rw [ipInfoStr, List.length_append]
  omega

theorem reply_carriesData (m : Msg) {n : Nat} (hn : n < 1024) (behind : List UInt8) :
    (replyMsg m (ipText n) behind).CarriesData := by
  refine ⟨.inl (by rw [reply_header m hn]), ?_⟩
  rw [reply_bodySize m hn]
  exact Int.natCast_pos.mpr (ipInfoStr_pos n)

/-- The first of the two writes that take the reply across. -/
theorem writeOnce_header {m : Msg} (h : m.CarriesData) :
    writeOnce m (.header 0) (.count 5) = some (m.load 0 5, .more (.data 0)) := by
  have hall : (m.load 0 sizeofMessage).take 5 = m.load 0 sizeofMessage :=
    List.take_of_length_le (Nat.le_of_eq (CellMemory.load_length ..))
  simp [writeOnce, SendPoint.offer, SendPoint.advance, h, CellMemory.load_length, hall, sizeofMessage]

theorem writeOnce_data {m : Msg} {n : Nat} (h : m.bodySize = n) (hn : 0 < n) :
    writeOnce m (.data 0) (.count n) = some (m.load sizeofMessage n, .done) := by
  have hall : (m.load sizeofMessage n).take n = m.load sizeofMessage n :=
    List.take_of_length_le (Nat.le_of_eq (CellMemory.load_length ..))
  simp [writeOnce, SendPoint.offer, SendPoint.advance, h, CellMemory.load_length, hall, hn]

/-! ## One client at a time -/

/-- The client `c` came last to those of `s`; nothing that they share has changed since. -/
structure Serving (s : State) (c : Conn) (t : State) : Prop where
  conns : t.conns = s.conns ++ [c]
  pool : SamePool s t
  /-- Its socket is open. -/
  socket : (t.socket c.socketFd).isSome

def Leads (s : State) (c : Conn) (es : List Event) (c' : Conn) : Prop :=
  ∀ t, Serving s c t → ∃ t', run next t es = some t' ∧ Serving s c' t'

section Steps

variable {s t t' : State} {c c' c'' : Conn} {a : Answer} {es es' : List Event}

theorem last_conn (ht : t.conns = s.conns ++ [c]) : t.conns[s.conns.length]? = some c := by
  rw [ht]
  simp

theorem next_read {i : Nat} (hup : t.crash = none) (hc : t.conns[i]? = some c) (a : Answer) :
    next t (.read i a) = stepRead t i c a := by
  simp only [next, hup, Option.isSome_none, Bool.false_eq_true, if_false, hc, Option.bind_some]

theorem set_last (ht : t.conns = s.conns ++ [c]) (c' : Conn) :
    (t.set s.conns.length c').conns = s.conns ++ [c'] := by
  change t.conns.set s.conns.length c' = _
  rw [ht]
  simp

theorem serving_accept (stale : Msg) :
    Serving s (Conn.start s.lowestFree stale) (s.accept stale) where
  conns := rfl
  pool := ⟨rfl, rfl, rfl, rfl⟩
  socket := by
    have hsocket := socket_accept s stale s.lowestFree
    rw [if_pos rfl] at hsocket
    exact (congrArg Option.isSome hsocket).trans rfl

theorem Leads.trans (h : Leads s c es c') (h' : Leads s c' es' c'') : Leads s c (es ++ es') c'' := by
  intro t ht
  obtain ⟨u, hu, hserving⟩ := h t ht
  obtain ⟨v, hv, hserved⟩ := h' u hserving
  exact ⟨v, run_append_iff.mpr ⟨u, hu, hv⟩, hserved⟩

/-- A step that changes the new client alone. -/
theorem leads_step (hup : s.crash = none) (hfd : c'.socketFd = c.socketFd)
    (hstep : ∀ t, Serving s c t →
      ∃ log, stepRead t s.conns.length c a = some { t.set s.conns.length c' with log := log }) :
    Leads s c [.read s.conns.length a] c' := by
  intro t ht
  obtain ⟨log, hlog⟩ := hstep t ht
  have hnext := next_read (ht.pool.crash.trans hup) (last_conn ht.conns) a
  refine ⟨_, run_cons_iff.mpr ⟨_, hnext.trans hlog, rfl⟩, set_last ht.conns c', ?_, ?_⟩
  · exact ⟨ht.pool.status, ht.pool.connections, ht.pool.stuck, ht.pool.crash⟩
  · have hsocket := ht.socket
    rw [hfd]
    exact hsocket

end Steps

/-! ## Single steps -/

section Single

variable {t : State} {i n : Nat} {c : Conn} {a : Answer}

theorem stepRead_gives (hpoint : c.reading = .choose) (hwithout : c.ipv4Address = [])
    (hfree : t.stuck = false) (hn : t.getFreeIP = some n) {behind : List UInt8}
    (hfour : behind.length = 4) : stepRead t i c (.bytes behind) =
      some (t.set i (c.answer (ipText n) behind)) := by
  simp [stepRead, hpoint, hwithout, hfour, State.locked, hfree, hn]

theorem stepRead_locks (hpoint : c.reading = .reply .lock) (hmutex : c.sendMutex = none) :
    stepRead t i c a = some ((t.set i { c with
      reading := .reply (.header 0), sendMutex := some .read }).note (.locked i .read c.message)) := by
  simp only [stepRead, hpoint, State.send, hmutex, if_true]
  rfl

theorem stepRead_writes {p : SendPoint} (hpoint : c.reading = .reply p) (hlock : p ≠ .lock)
    (hanswers : t.Answers c.socketFd a) {bs : List UInt8} {p' : SendPoint}
    (honce : writeOnce c.message p a = some (bs, .more p')) :
    stepRead t i c a = some ((t.set i { c with reading := .reply p' }).note
      (.wrote i .read (t.socket c.socketFd) bs)) := by
  cases p with
  | lock => exact absurd rfl hlock
  | header total =>
      simp only [stepRead, hpoint, State.send, if_pos hanswers, honce]
      rfl
  | data total =>
      simp only [stepRead, hpoint, State.send, if_pos hanswers, honce]
      rfl

theorem stepRead_sent {p : SendPoint} (hpoint : c.reading = .reply p) (hlock : p ≠ .lock)
    (hanswers : t.Answers c.socketFd a) {bs : List UInt8}
    (honce : writeOnce c.message p a = some (bs, .done)) :
    stepRead t i c a = some ((t.set i { c with reading := .setStatus, sendMutex := none }).note
      (.wrote i .read (t.socket c.socketFd) bs)) := by
  cases p with
  | lock => exact absurd rfl hlock
  | header total =>
      simp only [stepRead, hpoint, State.send, if_pos hanswers, honce]
      rfl
  | data total =>
      simp only [stepRead, hpoint, State.send, if_pos hanswers, honce]
      rfl

theorem stepRead_enters (hpoint : c.reading = .setStatus) (hfree : t.stuck = false) {num : Int}
    (hnumber : getIpNum c.ipv4Address = some num) (hunused : t.status num = false) :
    stepRead t i c a = some (State.set { t with status := Function.update t.status num true } i
      { c with reading := .setConnection }) := by
  have hsection : t.setIpStatus c.ipv4Address true =
      .ok { t with status := Function.update t.status num true } := by
    simp only [State.setIpStatus, hnumber, hunused, Bool.false_eq_true, if_false]
  simp only [stepRead, hpoint, hsection, State.locked, hfree, Bool.false_eq_true, if_false]

theorem stepRead_connects (hpoint : c.reading = .setConnection) (hfree : t.stuck = false) {num : Int}
    (hnumber : getIpNum c.ipv4Address = some num) (hused : t.status num = true) :
    stepRead t i c a = some (State.set
      { t with connections := Function.update t.connections num (some i) } i
      { c with reading := .check }) := by
  have hsection : t.setConnectionWithIp c.ipv4Address i =
      .ok { t with connections := Function.update t.connections num (some i) } := by
    simp only [State.setConnectionWithIp, hnumber, hused, Bool.true_eq_false, if_false]
  simp only [stepRead, hpoint, hsection, State.locked, hfree, Bool.false_eq_true, if_false]

end Single

/-! ## A grant -/

def ipRequest : List UInt8 := [5, 0, 0, 0, 100]

def asking (fd : Nat) (p : ReadPoint) : Conn :=
  { Conn.start fd blank with message := blank.store 0 ipRequest, reading := p }

theorem ipRequest_type : Message.type (Msg.header (blank.store 0 ipRequest)) = msgIpReq := by
  decide +kernel

theorem readHeader_ipRequest (fd : Nat) :
    Conn.readHeader { Conn.start fd blank with reading := .header 0 } 0 (.bytes ipRequest) =
      some (asking fd .dispatch) := by
  have hnone : ¬ (Message.type (Msg.header (blank.store 0 ipRequest)) = msgDataReq ∧
      0 < Msg.bodySize (blank.store 0 ipRequest)) := by
    rw [ipRequest_type]
    exact fun hdata => absurd hdata.1 (by decide)
  have hsize : ipRequest ≠ [] ∧ 0 + ipRequest.length ≤ sizeofMessage := by decide
  have hall : ¬ 0 + ipRequest.length < sizeofMessage := by decide
  simp only [Conn.readHeader, if_pos hsize, if_neg hall, Conn.headerRead]
  exact congrArg some (congrArg (fun p => asking fd p) (if_neg hnone))

/-- A client that has been given `addr`, with `readThread` at `p` and its reply in `m`. -/
def answered (fd : Nat) (addr : List UInt8) (m : Msg) (p : ReadPoint) (mutex : Option Thread) : Conn :=
  { Conn.start fd blank with ipv4Address := addr, message := m, reading := p, sendMutex := mutex }

def firstReply (n : Nat) : Msg := replyMsg (blank.store 0 ipRequest) (ipText n) [0, 0, 0, 0]

section Grant

variable {s : State} {n : Nat}

/-- From the connection to the choice of an address. -/
theorem leads_ask (hup : s.crash = none) (fd : Nat) :
    Leads s (Conn.start fd blank) ((ask s.conns.length).take 4) (asking fd .choose) := by
  have hcheck : Leads s (Conn.start fd blank) [.read s.conns.length .again]
      { Conn.start fd blank with reading := .header 0 } :=
    leads_step hup rfl fun t _ => ⟨t.log, rfl⟩
  have hheader : Leads s { Conn.start fd blank with reading := .header 0 }
      [.read s.conns.length (.bytes ipRequest)] (asking fd .dispatch) := by
    refine leads_step hup rfl fun t ht =>
      ⟨.read s.conns.length (t.socket fd) (.bytes ipRequest) :: t.log, ?_⟩
    simp only [stepRead]
    rw [if_pos (.inl ht.socket), readHeader_ipRequest]
    rfl
  have hdispatch : Leads s (asking fd .dispatch) [.read s.conns.length .again] (asking fd .request) :=
    by
    refine leads_step hup rfl fun t _ => ⟨t.log, ?_⟩
    have hgoes : t.dispatch s.conns.length (asking fd .dispatch) =
        t.set s.conns.length (asking fd .request) := by
      rw [State.dispatch]
      exact if_pos ipRequest_type
    exact congrArg some hgoes
  have hrequest : Leads s (asking fd .request) [.read s.conns.length .again] (asking fd .choose) :=
    leads_step hup rfl fun t _ => ⟨t.log, rfl⟩
  exact hcheck.trans (hheader.trans (hdispatch.trans hrequest))

theorem leads_choose (hup : s.crash = none) (hfree : s.stuck = false) (hn : s.getFreeIP = some n)
    (fd : Nat) : Leads s (asking fd .choose) [.read s.conns.length (.bytes [0, 0, 0, 0])]
      (answered fd (ipText n) (firstReply n) (.reply .lock) none) := by
  refine leads_step hup rfl fun t ht => ⟨t.log, ?_⟩
  have hfound : t.getFreeIP = some n := by
    rw [State.getFreeIP, ht.pool.status]
    exact hn
  exact stepRead_gives rfl rfl (ht.pool.stuck.trans hfree) hfound rfl

/-- A reply with data gets across in two writes. -/
theorem leads_reply (hup : s.crash = none) (fd : Nat) (addr : List UInt8) {m : Msg}
    (hcarries : m.CarriesData) {length : Nat} (hlength : m.bodySize = length) (hpos : 0 < length) :
    Leads s (answered fd addr m (.reply .lock) none) (takeReply s.conns.length length)
      (answered fd addr m .setStatus none) := by
  have hlock : Leads s (answered fd addr m (.reply .lock) none) [.read s.conns.length .again]
      (answered fd addr m (.reply (.header 0)) (some .read)) :=
    leads_step hup rfl fun t _ => ⟨_, stepRead_locks rfl rfl⟩
  have hheader : Leads s (answered fd addr m (.reply (.header 0)) (some .read))
      [.read s.conns.length (.count 5)] (answered fd addr m (.reply (.data 0)) (some .read)) :=
    leads_step hup rfl fun t ht =>
      ⟨_, stepRead_writes (p := .header 0) rfl nofun (.inl ht.socket) (writeOnce_header hcarries)⟩
  have hdata : Leads s (answered fd addr m (.reply (.data 0)) (some .read))
      [.read s.conns.length (.count length)] (answered fd addr m .setStatus none) :=
    leads_step hup rfl fun t ht =>
      ⟨_, stepRead_sent (p := .data 0) rfl nofun (.inl ht.socket) (writeOnce_data hlength hpos)⟩
  exact hlock.trans (hheader.trans hdata)

/-- A new client that asks while nobody else does anything is granted the lowest free address. -/
theorem run_grant (hup : s.crash = none) (hfree : s.stuck = false) (hn : s.getFreeIP = some n) :
    ∃ t c, run next s (.accept blank :: grant s.conns.length (ipInfoStr (ipText n)).length) = some t ∧
      t.conns = s.conns ++ [c] ∧ c.reading = .check ∧ c.ipv4Address = ipText n ∧
      t.status = Function.update s.status n true ∧ t.crash = none ∧ t.stuck = false := by
  obtain ⟨_, hlt, hunused⟩ := getFreeIP_spec hn
  have hleads := (leads_ask hup s.lowestFree).trans ((leads_choose hup hfree hn s.lowestFree).trans
    (leads_reply hup s.lowestFree (ipText n) (reply_carriesData _ hlt _) (reply_bodySize _ hlt _)
      (ipInfoStr_pos n)))
  obtain ⟨t, ht, hserving⟩ := hleads _ (serving_accept blank)
  have hnumber : getIpNum (ipText n) = some (n : Int) := getIpNum_ipText (by omega)
  have hgoes : t.crash = none ∧ t.stuck = false :=
    ⟨hserving.pool.crash.trans hup, hserving.pool.stuck.trans hfree⟩
  have haccept : next s (.accept blank) = some (s.accept blank) := if_neg (by simp [hup])
  generalize hc : answered s.lowestFree (ipText n) _ .setStatus none = c at hserving
  have hpoint : c.reading = .setStatus := hc ▸ rfl
  have haddress : c.ipv4Address = ipText n := hc ▸ rfl
  have hentered := stepRead_enters (t := t) (i := s.conns.length) (a := .again) hpoint hgoes.2
    (haddress ▸ hnumber) ((congrFun hserving.pool.status n).trans hunused)
  generalize hu : State.set { t with status := Function.update t.status n true } s.conns.length
    { c with reading := .setConnection } = u at hentered
  have hconns : u.conns = s.conns ++ [{ c with reading := .setConnection }] :=
    hu ▸ set_last (t := { t with status := Function.update t.status n true }) hserving.conns _
  have hstatus : u.status = Function.update s.status n true := by
    rw [← hu, ← hserving.pool.status]
    rfl
  have hstill : u.crash = none ∧ u.stuck = false := hu ▸ hgoes
  have hconnected := stepRead_connects (t := u) (i := s.conns.length) (a := .again)
    (c := { c with reading := .setConnection }) rfl hstill.2 (haddress ▸ hnumber)
    (by rw [hstatus]; exact Function.update_self ..)
  refine ⟨_, { c with reading := .check }, run_cons_iff.mpr ⟨_, haccept, ?_⟩,
    set_last (t := { u with connections := Function.update u.connections n (some s.conns.length) })
      hconns _, rfl, haddress, hstatus, hstill⟩
  have hparts : grant s.conns.length (ipInfoStr (ipText n)).length =
      ((ask s.conns.length).take 4 ++ ([.read s.conns.length (.bytes [0, 0, 0, 0])] ++
        takeReply s.conns.length (ipInfoStr (ipText n)).length)) ++
        [.read s.conns.length .again, .read s.conns.length .again] := rfl
  rw [hparts]
  exact run_append_iff.mpr ⟨t, ht, run_cons_iff.mpr
    ⟨u, (next_read hgoes.1 (last_conn hserving.conns) _).trans hentered, run_cons_iff.mpr
      ⟨_, (next_read hstill.1 (last_conn hconns) _).trans hconnected, rfl⟩⟩⟩

end Grant

/-! ## One client after another -/

/-- As many clients come, each is granted the lowest address, and all stay. -/
def manyGrants : Nat → List Event
  | 0 => []
  | count + 1 =>
      manyGrants count ++ .accept blank :: grant count (ipInfoStr (ipText (count + 2))).length

structure Granted (count : Nat) (s : State) : Prop where
  running : s.crash = none
  free : s.stuck = false
  length : s.conns.length = count
  held : ∀ (i : Nat) c, s.conns[i]? = some c → c.reading = .check ∧ c.ipv4Address = ipText (i + 2)
  status : ∀ num, s.status num = true ↔ 2 ≤ num ∧ num < count + 2

section Many

variable {s : State} {count : Nat}

theorem getFreeIP_of_least {n : Nat} (hn : 2 ≤ n) (hlt : n < 1024) (hfree : s.status n = false)
    (hbelow : ∀ l : Nat, 2 ≤ l → l < n → s.status l = true) : s.getFreeIP = some n := by
  refine List.find?_eq_some_iff_getElem.mpr ⟨by rw [hfree]; rfl, n - 2, ?_, ?_, ?_⟩
  · rw [List.length_map, List.length_range]
    omega
  · simp only [List.getElem_map, List.getElem_range]
    omega
  · intro j hj
    simp only [List.getElem_map, List.getElem_range, Bool.not_not]
    exact hbelow (j + 2) (by omega) (by omega)

theorem Granted.getFreeIP (h : Granted count s) (hcount : count < 1022) :
    s.getFreeIP = some (count + 2) := by
  refine getFreeIP_of_least (by omega) (by omega) ?_ fun l hl hlt => (h.status l).mpr (by omega)
  refine Bool.eq_false_iff.mpr fun hused => ?_
  have hbound := (h.status _).mp hused
  omega

theorem Granted.quiescent (h : Granted count s) : Quiescent s := by
  intro i c hc hoccupied
  refine hoccupied.1 ?_
  rw [(h.held i c hc).1]
  trivial

theorem granted_zero (files : List (Option File)) : Granted 0 (State.start files) where
  running := rfl
  free := rfl
  length := rfl
  held i c hc := by simp [State.start] at hc
  status num := ⟨fun hused => (nomatch hused), fun hbound => by omega⟩

theorem Granted.next (h : Granted count s) (hcount : count < 1022) :
    ∃ t, run next s (.accept blank :: grant count (ipInfoStr (ipText (count + 2))).length) = some t ∧
      Granted (count + 1) t := by
  obtain ⟨t, c, hrun, hconns, hreading, haddress, hstatus, hrunning, hfree⟩ :=
    run_grant h.running h.free (h.getFreeIP hcount)
  rw [h.length] at hrun
  refine ⟨t, hrun, hrunning, hfree, ?_, fun i d hd => ?_, fun num => ?_⟩
  · rw [hconns, List.length_append, h.length]
    rfl
  · rw [hconns] at hd
    rcases Nat.lt_or_ge i s.conns.length with hlt | hge
    · rw [List.getElem?_append_left hlt] at hd
      exact h.held i d hd
    · rw [List.getElem?_append_right hge] at hd
      obtain ⟨hi, rfl⟩ := List.getElem?_eq_some_iff.mp hd
      have hlast : i = count := by
        rw [List.length_singleton] at hi
        rw [h.length] at hi hge
        omega
      simpa [hlast] using ⟨hreading, haddress⟩
  · rw [hstatus, Function.update_apply]
    split
    · exact ⟨fun _ => by omega, fun _ => rfl⟩
    · rw [h.status]
      omega

theorem run_manyGrants (files : List (Option File)) (count : Nat) (hcount : count ≤ 1022) :
    ∃ s, run next (State.start files) (manyGrants count) = some s ∧ Granted count s := by
  induction count with
  | zero => exact ⟨_, rfl, granted_zero files⟩
  | succ count ih =>
      obtain ⟨s, hrun, hgranted⟩ := ih (by omega)
      obtain ⟨t, hgrant, hnext⟩ := hgranted.next (by omega)
      exact ⟨t, run_append_iff.mpr ⟨s, hrun, hgrant⟩, hnext⟩

theorem grant_for (k length : Nat) : ∀ e ∈ Event.accept blank :: grant k length, e.For k := by
  intro e he
  simp only [grant, ask, takeReply, List.cons_append, List.nil_append, List.mem_cons,
    List.not_mem_nil, or_false] at he
  rcases he with rfl | rfl | rfl | rfl | rfl | rfl | rfl | rfl | rfl | rfl | rfl <;>
    first | exact rfl | trivial

/-- At no time are two of the clients occupied. -/
theorem manyGrants_serial (files : List (Option File)) (count : Nat) (hcount : count ≤ 1022)
    {pre : List Event} {u : State} (hpre : pre <+: manyGrants count)
    (hu : run next (State.start files) pre = some u) : Serial u := by
  induction count with
  | zero =>
      rw [List.prefix_nil.mp hpre] at hu
      cases hu
      intro i j c d hc
      simp [State.start] at hc
  | succ count ih =>
      obtain ⟨s, hrun, hgranted⟩ := run_manyGrants files count (by omega)
      rcases List.prefix_or_prefix_of_prefix hpre (List.prefix_append ..) with hbefore | ⟨now, rfl⟩
      · exact ih (by omega) hbefore
      · have hnow := (List.prefix_append_right_inj _).mp hpre
        obtain ⟨v, hv, hu⟩ := run_append_iff.mp hu
        obtain rfl := Option.some.inj (hrun.symm.trans hv)
        exact (hgranted.quiescent.solo.run (grant_for count _) hnow hu).serial

end Many

end Over6.Threaded
