import Over6.Threaded.State

/-! # What a step of a thread can do

For each thread one lemma that says everything a step of it can change. What is
proved about the server rests on these and not on the steps.
-/

namespace Over6.Threaded

open MachineInt

/-! ## What a step leaves as it is -/

/-- The message that a thread comes to `sendMessage` with. -/
def Conn.Offers (c : Conn) (m : Msg) : Thread → Prop
  | .read => c.reading = .reply .lock ∧ m = c.message
  | .write => c.writing = .send .lock ∧ m = c.outgoing
  | .keep => m = heartBeatMsg

/-- The call is one of connection `i`, at a time when its number denotes `on`. -/
def Act.Of (i : Nat) (c : Conn) (on : Option Nat) : Act → Prop
  | read j on' _ => j = i ∧ on' = on
  | wrote j _ on' _ => j = i ∧ on' = on
  | locked j who m => j = i ∧ c.Offers m who
  | pushed j _ => j = i

/-- Of the connections only `i` changes, from `c` to `c'`, and keeps its number; at most one call is
recorded. -/
structure Touches (s : State) (i : Nat) (c c' : Conn) (s' : State) : Prop where
  before : s.conns[i]? = some c
  after : s'.conns[i]? = some c'
  others : ∀ j, j ≠ i → s'.conns[j]? = s.conns[j]?
  socketFd : c'.socketFd = c.socketFd
  log : s'.log = s.log ∨ ∃ act, s'.log = act :: s.log ∧ act.Of i c (s.socket c.socketFd)

/-- What `ipMutex` protects, and whether the process goes on, is left alone. -/
structure SamePool (s s' : State) : Prop where
  status : s'.status = s.status
  connections : s'.connections = s.connections
  stuck : s'.stuck = s.stuck
  crash : s'.crash = s.crash

theorem SamePool.refl (s : State) : SamePool s s := ⟨rfl, rfl, rfl, rfl⟩

theorem SamePool.status_update {s s' : State} {num : Int} {b : Bool}
    (h : SamePool { s with status := Function.update s.status num b } s') (k : Int) :
    s'.status k = if k = num then b else s.status k := by
  rw [h.status]
  exact Function.update_apply ..

section Touches

variable {s s' : State} {i : Nat} {c c' : Conn}

theorem touches_set (h : s.conns[i]? = some c) (hfd : c'.socketFd = c.socketFd)
    (hconns : s'.conns = s.conns.set i c') (hlog : s'.log = s.log) : Touches s i c c' s' where
  before := h
  after := by rw [hconns, List.getElem?_set_self (List.getElem?_eq_some_iff.mp h).1]
  others j hj := by rw [hconns, List.getElem?_set_ne (Ne.symm hj)]
  socketFd := hfd
  log := .inl hlog

theorem Touches.note (h : Touches s i c c' s') (hlog : s'.log = s.log) (act : Act)
    (hact : act.Of i c (s.socket c.socketFd)) : Touches s i c c' (s'.note act) where
  before := h.before
  after := h.after
  others := h.others
  socketFd := h.socketFd
  log := .inr ⟨act, congrArg _ hlog, hact⟩

theorem Touches.conns (h : Touches s i c c' s') {j : Nat} {d : Conn}
    (hd : s'.conns[j]? = some d) : j = i ∧ d = c' ∨ j ≠ i ∧ s.conns[j]? = some d := by
  by_cases hj : j = i
  · subst hj
    exact .inl ⟨rfl, Option.some.inj (hd.symm.trans h.after)⟩
  · exact .inr ⟨hj, (h.others j hj).symm.trans hd⟩

/-- There is one connection `i`. -/
theorem Touches.eq_before (h : Touches s i c c' s') {d : Conn} (hd : s.conns[i]? = some d) :
    d = c :=
  Option.some.inj (hd.symm.trans h.before)

theorem touches_fail (h : s.conns[i]? = some c) (why : Crash) : Touches s i c c (s.fail why) where
  before := h
  after := h
  others _ _ := rfl
  socketFd := rfl
  log := .inl rfl

end Touches

/-! ## `sendMessage` -/

/-- A step of `sendMessage` by the thread `who`, which goes on as `goto` says. -/
inductive Sends (s : State) (i : Nat) (c : Conn) (who : Thread) (m : Msg) (p : SendPoint)
    (a : Answer) (goto : Sent → Conn → Conn) : State → Prop
  | locks (point : p = .lock) (free : c.sendMutex = none) :
      Sends s i c who m p a goto
        ((s.set i (goto (.more (.header 0)) { c with sendMutex := some who })).note
          (.locked i who m))
  | writes {bs : List UInt8} {sent : Sent} {mutex : Option Thread} (point : p ≠ .lock)
      (answer : s.Answers c.socketFd a) (once : writeOnce m p a = some (bs, sent))
      (released : mutex = match sent with | .more _ => c.sendMutex | _ => none) :
      Sends s i c who m p a goto
        ((s.set i (goto sent { c with sendMutex := mutex })).note
          (.wrote i who (s.socket c.socketFd) bs))

theorem send_spec {s s' : State} {i : Nat} {c : Conn} {who : Thread} {m : Msg} {p : SendPoint}
    {a : Answer} {goto : Sent → Conn → Conn} (h : s.send i c who m p a goto = some s') :
    Sends s i c who m p a goto s' := by
  unfold State.send at h
  split at h
  · split at h
    · cases h
      exact .locks rfl ‹_›
    · cases h
  · rename_i hpoint
    split at h
    · rename_i hanswer
      split at h
      · cases h
      · rename_i hwrite
        cases h
        exact .writes hpoint hanswer hwrite rfl
      · rename_i bs sent hmore hwrite
        cases h
        refine .writes hpoint hanswer hwrite ?_
        cases sent with
        | more p' => exact absurd rfl (hmore p')
        | done => rfl
        | failed => rfl
    · cases h

/-- A failed `write` is an error, and nothing else is. -/
theorem writeOnce_failed_iff {m : Msg} {p : SendPoint} {a : Answer} {bs : List UInt8} {sent : Sent}
    (h : writeOnce m p a = some (bs, sent)) : sent = .failed ↔ a = .error := by
  cases a with
  | again =>
      cases h
      simp
  | error =>
      cases h
      simp
  | bytes _ => cases h
  | count n =>
      unfold writeOnce at h
      simp only at h
      split at h
      · obtain ⟨_, rfl⟩ := Prod.mk.inj (Option.some.inj h)
        cases p with
        | lock => simp [SendPoint.advance]
        | header total =>
            simp only [SendPoint.advance]
            split
            · simp
            · split <;> simp
        | data total =>
            simp only [SendPoint.advance]
            split <;> simp
      · cases h

/-! ## Sections -/

theorem locked_spec {α : Type} {s s' : State} {r : Except Crash α} {go : α → State}
    (h : s.locked r go = some s') :
    s.stuck = false ∧ ((∃ a, r = .ok a ∧ s' = go a) ∨ ∃ why, r = .error why ∧ s' = s.fail why) := by
  unfold State.locked at h
  split at h
  · cases h
  · rename_i hfree
    refine ⟨by simpa using hfree, ?_⟩
    cases r with
    | ok a => exact .inl ⟨a, rfl, (Option.some.inj h).symm⟩
    | error why => exact .inr ⟨why, rfl, (Option.some.inj h).symm⟩

theorem setIpStatus_spec (s : State) (addr : List UInt8) (b : Bool) :
    (∃ num, getIpNum addr = some num ∧ s.status num = !b ∧
      s.setIpStatus addr b = .ok { s with status := Function.update s.status num b }) ∨
    ∃ why, s.setIpStatus addr b = .error why ∧ (why = .stoi ∨ why = .statusAssert) ∧
      ¬ ∃ num, getIpNum addr = some num ∧ s.status num = !b := by
  unfold State.setIpStatus
  cases hnum : getIpNum addr with
  | none =>
      right
      exact ⟨.stoi, rfl, .inl rfl, by simp⟩
  | some num =>
      by_cases hsame : s.status num = b
      · right
        refine ⟨.statusAssert, by simp [hsame], .inr rfl, ?_⟩
        rintro ⟨n, hn, hopposite⟩
        obtain rfl := Option.some.inj hn
        rw [hsame] at hopposite
        cases b <;> cases hopposite
      · left
        refine ⟨num, rfl, ?_, by simp [hsame]⟩
        cases b <;> simpa using hsame

/-- `setIpStatus` under the lock of `ipMutex`. -/
theorem setIpStatus_locked {s s' : State} {addr : List UInt8} {b : Bool} {go : State → State}
    (h : s.locked (s.setIpStatus addr b) go = some s') :
    (∃ num, getIpNum addr = some num ∧ s.status num = !b ∧
      s' = go { s with status := Function.update s.status num b }) ∨
    ∃ why, s' = s.fail why ∧ (why = .stoi ∨ why = .statusAssert) ∧
      ¬ ∃ num, getIpNum addr = some num ∧ s.status num = !b := by
  obtain ⟨_, hsection⟩ := locked_spec h
  obtain ⟨num, hnum, hstatus, hok⟩ | ⟨why, herror, hcause, hunsound⟩ := setIpStatus_spec s addr b
  · obtain ⟨t, ht, rfl⟩ | ⟨_, hno, _⟩ := hsection
    · obtain rfl := Except.ok.inj (hok.symm.trans ht)
      exact .inl ⟨num, hnum, hstatus, rfl⟩
    · rw [hok] at hno
      cases hno
  · obtain ⟨t, ht, _⟩ | ⟨why', hwhy, rfl⟩ := hsection
    · rw [herror] at ht
      cases ht
    · obtain rfl := Except.error.inj (herror.symm.trans hwhy)
      exact .inr ⟨why, rfl, hcause, hunsound⟩

theorem getFreeIP_spec {s : State} {n : Nat} (h : s.getFreeIP = some n) :
    2 ≤ n ∧ n < 1024 ∧ s.status n = false := by
  have hfree := List.find?_some h
  have hmem := List.mem_of_find?_eq_some h
  simp only [List.mem_map, List.mem_range] at hmem
  obtain ⟨k, hk, rfl⟩ := hmem
  exact ⟨by omega, by omega, by simpa using hfree⟩

/-! ## `readThread` -/

def ReadPoint.Idle : ReadPoint → Prop
  | check | header _ | body _ | dispatch => True
  | _ => False

/-- The assert that `readThread` comes to next holds, and it finds a number in its address. -/
def State.Sound (s : State) (c : Conn) : Prop :=
  match c.reading with
  | .request => c.ipv4Address = [] ∨ s.getConnectionByIp c.ipv4Address = .ok none
  | .setStatus => ∃ num, getIpNum c.ipv4Address = some num ∧ s.status num = false
  | .setConnection => ∃ num, getIpNum c.ipv4Address = some num
  | .ending => ∃ num, getIpNum c.ipv4Address = some num ∧ s.status num = true
  | _ => True

/-- What a step of `readThread` can do about addresses, from `c` to `c'`; of the new state it gives
the parts that matter for all connections. -/
inductive ReadStep (s : State) (i : Nat) (c : Conn) (a : Answer) (c' : Conn) : State → Prop
  | goes (point : c.reading.Idle) (target : c'.reading.Idle)
      (address : c'.ipv4Address = c.ipv4Address)
      (unasked : c.reading = .dispatch → c.message.header.type ≠ msgIpReq)
      (below : c.reading = .check → c.heartBeatCount < 60)
      (intact : ∀ total, c.reading = .body total → a ≠ .error) : ReadStep s i c a c' s
  | asks (point : c.reading = .dispatch) (type : c.message.header.type = msgIpReq)
      (target : c'.reading = .request) (address : c'.ipv4Address = c.ipv4Address) :
      ReadStep s i c a c' s
  | passes (point : c.reading = .request) (target : c'.reading = .choose)
      (address : c'.ipv4Address = c.ipv4Address) : ReadStep s i c a c' s
  | stops (point : c.reading = .check ∧ 60 ≤ c.heartBeatCount ∨
        ∃ total, c.reading = .body total ∧ a = .error)
      (target : c'.reading = .ending) (address : c'.ipv4Address = c.ipv4Address) :
      ReadStep s i c a c' s
  | takes (n : Nat) (point : c.reading = .choose) (without : c.ipv4Address = [])
      (free : s.getFreeIP = some n) (target : c'.reading = .reply .lock)
      (address : c'.ipv4Address = ipText n)
      (message : ∃ behind, c'.message = replyMsg c.message c'.ipv4Address behind) :
      ReadStep s i c a c' s
  | retakes (point : c.reading = .choose) (held : c.ipv4Address ≠ [])
      (target : c'.reading = .reply .lock) (address : c'.ipv4Address = c.ipv4Address)
      (message : ∃ behind, c'.message = replyMsg c.message c'.ipv4Address behind) :
      ReadStep s i c a c' s
  | sends (p : SendPoint) (point : c.reading = .reply p)
      (target : (∃ p', c'.reading = .reply p') ∨ c'.reading = .setStatus)
      (intact : p = .lock ∨ a ≠ .error) (address : c'.ipv4Address = c.ipv4Address)
      (message : c'.message = c.message) : ReadStep s i c a c' s
  | loses (p : SendPoint) (point : c.reading = .reply p) (error : p ≠ .lock ∧ a = .error)
      (target : c'.reading = .ending) (address : c'.ipv4Address = c.ipv4Address) :
      ReadStep s i c a c' s
  | marks (num : Int) (point : c.reading = .setStatus) (number : getIpNum c.ipv4Address = some num)
      (free : s.status num = false) (target : c'.reading = .setConnection)
      (address : c'.ipv4Address = c.ipv4Address) :
      ReadStep s i c a c' { s with status := Function.update s.status num true }
  | registers (num : Int) (point : c.reading = .setConnection)
      (number : getIpNum c.ipv4Address = some num) (used : s.status num = true)
      (target : c'.reading = .check) (address : c'.ipv4Address = c.ipv4Address) :
      ReadStep s i c a c' { s with connections := Function.update s.connections num (some i) }
  | hangs (num : Int) (point : c.reading = .setConnection)
      (number : getIpNum c.ipv4Address = some num) (unused : s.status num = false) (same : c' = c) :
      ReadStep s i c a c' { s with stuck := true }
  | leaves (num : Int) (point : c.reading = .ending) (number : getIpNum c.ipv4Address = some num)
      (used : s.status num = true) (target : c'.reading = .ended)
      (address : c'.ipv4Address = c.ipv4Address) :
      ReadStep s i c a c' { s with status := Function.update s.status num false }
  | dies (why : Crash) (point : c.reading = .dispatch ∧ c.message.header.type ≠ msgIpReq ∨
        (∃ total, c.reading = .body total ∧ a ≠ .error) ∨
        c.reading = .choose ∧ s.getFreeIP = none)
      (cause : why = .badString ∨ why = .overflow ∨ why = .noAddress) (same : c' = c) :
      ReadStep s i c a c' { s with crash := some why }
  | asserts (why : Crash) (cause : why = .requestAssert ∨ why = .statusAssert ∨ why = .stoi)
      (unsound : ¬ s.Sound c) (same : c' = c) : ReadStep s i c a c' { s with crash := some why }

structure Reads (s : State) (i : Nat) (c : Conn) (a : Answer) (c' : Conn) (s' : State) : Prop where
  touches : Touches s i c c' s'
  running : c.reading ≠ .ended
  writing : c'.writing = c.writing
  keeping : c'.keeping = c.keeping
  mail : c'.wtSktQue = c.wtSktQue ∧ c'.outgoing = c.outgoing
  files : s'.files = s.files
  tunReader : s'.tunReader = s.tunReader
  step : ∃ t, ReadStep s i c a c' t ∧ SamePool t s'

theorem headerRead_idle (c : Conn) : c.headerRead.reading.Idle := by
  simp only [Conn.headerRead]
  split <;> trivial

theorem readHeader_spec {c c' : Conn} {total : Nat} {a : Answer} (h : c.readHeader total a = some c')
    (hpoint : c.reading = .header total) :
    ∃ m p, c' = { c with message := m, reading := p } ∧ p.Idle := by
  cases a with
  | again =>
      obtain rfl := Option.some.inj h
      exact ⟨_, _, rfl, by rw [hpoint]; trivial⟩
  | error =>
      obtain rfl := Option.some.inj h
      exact ⟨_, _, rfl, headerRead_idle c⟩
  | count n => cases h
  | bytes bs =>
      unfold Conn.readHeader at h
      simp only at h
      split at h
      · obtain rfl := Option.some.inj h
        split
        · exact ⟨_, _, rfl, trivial⟩
        · exact ⟨_, _, rfl, headerRead_idle _⟩
      · cases h

inductive BodyRead (c : Conn) (a : Answer) : Except Crash Conn → Prop
  | goes {m : Msg} {p : ReadPoint} (idle : p.Idle) (intact : a ≠ .error) :
      BodyRead c a (.ok { c with message := m, reading := p })
  | stops (error : a = .error) : BodyRead c a (.ok { c with reading := .ending })
  | dies (intact : a ≠ .error) : BodyRead c a (.error .overflow)

theorem readBody_spec {c : Conn} {total : Nat} {a : Answer} {r : Except Crash Conn}
    (h : c.readBody total a = some r) (hpoint : c.reading = .body total) : BodyRead c a r := by
  cases a with
  | again =>
      obtain rfl := Option.some.inj h
      exact .goes (m := c.message) (p := c.reading) (by rw [hpoint]; trivial) (by simp)
  | error =>
      obtain rfl := Option.some.inj h
      exact .stops rfl
  | count n => cases h
  | bytes bs =>
      unfold Conn.readBody at h
      simp only at h
      split at h
      · split at h
        · obtain rfl := Option.some.inj h
          split
          · exact .goes trivial (by simp)
          · exact .goes trivial (by simp)
        · obtain rfl := Option.some.inj h
          exact .dies (by simp)
      · cases h

section Reads

variable {s s' : State} {i : Nat} {c c' : Conn} {a : Answer}

/-- A step in which the pool goes from that of `s` to that of `t`. -/
theorem reads_pool {t : State} (hc : s.conns[i]? = some c) (hrun : c.reading ≠ .ended)
    (hstep : ReadStep s i c a c' t) (hconns : t.conns = s.conns)
    (hrest : t.log = s.log ∧ t.files = s.files ∧ t.tunReader = s.tunReader)
    (hfd : c'.socketFd = c.socketFd) (hw : c'.writing = c.writing) (hk : c'.keeping = c.keeping)
    (hmail : c'.wtSktQue = c.wtSktQue ∧ c'.outgoing = c.outgoing) :
    Reads s i c a c' (t.set i c') where
  touches := touches_set hc hfd (congrArg (List.set · i c') hconns) hrest.1
  running := hrun
  writing := hw
  keeping := hk
  mail := hmail
  files := hrest.2.1
  tunReader := hrest.2.2
  step := ⟨t, hstep, rfl, rfl, rfl, rfl⟩

/-- A step that leaves its mark on the connection only. -/
theorem reads_set (hc : s.conns[i]? = some c) (hrun : c.reading ≠ .ended)
    (hstep : ReadStep s i c a c' s) (hfd : c'.socketFd = c.socketFd) (hw : c'.writing = c.writing)
    (hk : c'.keeping = c.keeping) (hmail : c'.wtSktQue = c.wtSktQue ∧ c'.outgoing = c.outgoing) :
    Reads s i c a c' (s.set i c') :=
  reads_pool hc hrun hstep rfl ⟨rfl, rfl, rfl⟩ hfd hw hk hmail

theorem reads_fail (hc : s.conns[i]? = some c) (hrun : c.reading ≠ .ended) {why : Crash}
    (hstep : ReadStep s i c a c { s with crash := some why }) : Reads s i c a c (s.fail why) :=
  ⟨touches_fail hc why, hrun, rfl, rfl, ⟨rfl, rfl⟩, rfl, rfl, _, hstep, .refl _⟩

theorem Reads.note (h : Reads s i c a c' s') (hlog : s'.log = s.log) (act : Act)
    (hact : act.Of i c (s.socket c.socketFd)) : Reads s i c a c' (s'.note act) := by
  obtain ⟨t, hstep, hpool⟩ := h.step
  exact ⟨h.touches.note hlog act hact, h.running, h.writing, h.keeping, h.mail, h.files, h.tunReader,
    t, hstep, hpool.1, hpool.2, hpool.3, hpool.4⟩

theorem stepRead_check (hc : s.conns[i]? = some c) (hpoint : c.reading = .check)
    (h : stepRead s i c a = some s') : ∃ c', Reads s i c a c' s' := by
  have hrun : c.reading ≠ .ended := by simp [hpoint]
  simp only [stepRead, hpoint, Option.some.injEq] at h
  subst h
  refine ⟨_, reads_set hc hrun ?_ rfl rfl rfl ⟨rfl, rfl⟩⟩
  by_cases hcount : c.heartBeatCount < 60
  · refine .goes (by rw [hpoint]; trivial) ?_ rfl (by simp [hpoint]) (fun _ => hcount)
      (by simp [hpoint])
    rw [if_pos hcount]
    trivial
  · exact .stops (.inl ⟨hpoint, Nat.le_of_not_lt hcount⟩) (if_neg hcount) rfl

theorem stepRead_header {total : Nat} (hc : s.conns[i]? = some c)
    (hpoint : c.reading = .header total) (h : stepRead s i c a = some s') : ∃ c', Reads s i c a c' s' := by
  have hrun : c.reading ≠ .ended := by simp [hpoint]
  simp only [stepRead, hpoint] at h
  split at h
  · obtain ⟨c', hread, rfl⟩ := Option.map_eq_some_iff.mp h
    obtain ⟨m, p, rfl, hidle⟩ := readHeader_spec hread hpoint
    have hstep : ReadStep s i c a { c with message := m, reading := p } s :=
      .goes (by rw [hpoint]; trivial) hidle rfl (by simp [hpoint]) (by simp [hpoint])
        (by simp [hpoint])
    exact ⟨_, (reads_set hc hrun hstep rfl rfl rfl ⟨rfl, rfl⟩).note rfl
      (.read i (s.socket c.socketFd) a) ⟨rfl, rfl⟩⟩
  · cases h

theorem stepRead_body {total : Nat} (hc : s.conns[i]? = some c) (hpoint : c.reading = .body total)
    (h : stepRead s i c a = some s') : ∃ c', Reads s i c a c' s' := by
  have hrun : c.reading ≠ .ended := by simp [hpoint]
  simp only [stepRead, hpoint] at h
  split at h
  · obtain ⟨r, hread, rfl⟩ := Option.map_eq_some_iff.mp h
    cases readBody_spec hread hpoint with
    | @goes m p hidle hintact =>
        have hstep : ReadStep s i c a { c with message := m, reading := p } s :=
          .goes (by rw [hpoint]; trivial) hidle rfl (by simp [hpoint]) (by simp [hpoint])
            fun _ _ => hintact
        exact ⟨_, (reads_set hc hrun hstep rfl rfl rfl ⟨rfl, rfl⟩).note rfl
          (.read i (s.socket c.socketFd) a) ⟨rfl, rfl⟩⟩
    | stops herror =>
        have hstep : ReadStep s i c a { c with reading := .ending } s :=
          .stops (.inr ⟨total, hpoint, herror⟩) rfl rfl
        exact ⟨_, (reads_set hc hrun hstep rfl rfl rfl ⟨rfl, rfl⟩).note rfl
          (.read i (s.socket c.socketFd) a) ⟨rfl, rfl⟩⟩
    | dies hintact =>
        have hstep : ReadStep s i c a c { s with crash := some .overflow } :=
          .dies _ (.inr (.inl ⟨total, hpoint, hintact⟩)) (.inr (.inl rfl)) rfl
        exact ⟨_, (reads_fail hc hrun hstep).note rfl (.read i (s.socket c.socketFd) a) ⟨rfl, rfl⟩⟩
  · cases h

theorem stepRead_dispatch (hc : s.conns[i]? = some c) (hpoint : c.reading = .dispatch)
    (h : stepRead s i c a = some s') : ∃ c', Reads s i c a c' s' := by
  have hrun : c.reading ≠ .ended := by simp [hpoint]
  have hback : ∀ c', c'.reading = .check → c'.ipv4Address = c.ipv4Address →
      c.message.header.type ≠ msgIpReq → ReadStep s i c a c' s := by
    intro c' hto haddress htype
    exact .goes (by rw [hpoint]; trivial) (by rw [hto]; trivial) haddress (fun _ => htype)
      (by simp [hpoint]) (by simp [hpoint])
  simp only [stepRead, hpoint, Option.some.injEq, State.dispatch] at h
  split at h
  · subst h
    rename_i htype
    exact ⟨_, reads_set hc hrun (.asks hpoint htype rfl rfl) rfl rfl rfl ⟨rfl, rfl⟩⟩
  · rename_i htype
    split at h
    · subst h
      exact ⟨_, reads_set hc hrun (hback _ rfl rfl htype) rfl rfl rfl ⟨rfl, rfl⟩⟩
    · split at h
      · split at h
        · subst h
          exact ⟨_, reads_fail hc hrun (.dies _ (.inl ⟨hpoint, htype⟩) (.inl rfl) rfl)⟩
        · subst h
          have hreads : Reads s i c a { c with reading := .check } (s.set i _) :=
            reads_set hc hrun (hback _ rfl rfl htype) rfl rfl rfl ⟨rfl, rfl⟩
          exact ⟨_, hreads.note rfl (.pushed i _) rfl⟩
      · subst h
        exact ⟨_, reads_set hc hrun (hback _ rfl rfl htype) rfl rfl rfl ⟨rfl, rfl⟩⟩

theorem stepRead_request (hc : s.conns[i]? = some c) (hpoint : c.reading = .request)
    (h : stepRead s i c a = some s') : ∃ c', Reads s i c a c' s' := by
  have hrun : c.reading ≠ .ended := by simp [hpoint]
  have hpass : Reads s i c a { c with reading := .choose } (s.set i { c with reading := .choose }) :=
    reads_set hc hrun (.passes hpoint rfl rfl) rfl rfl rfl ⟨rfl, rfl⟩
  simp only [stepRead, hpoint] at h
  split at h
  · cases h
    exact ⟨_, hpass⟩
  · rename_i hheld
    obtain ⟨_, ⟨found, hfound, rfl⟩ | ⟨why, hwhy, rfl⟩⟩ := locked_spec h
    · split
      · rename_i hsome
        refine ⟨_, reads_fail hc hrun (.asserts _ (.inl rfl) ?_ rfl)⟩
        simp only [State.Sound, hpoint, hfound]
        rintro (hnil | hnone)
        · exact hheld hnil
        · rw [Except.ok.inj hnone] at hsome
          cases hsome
      · exact ⟨_, hpass⟩
    · have hstoi : why = .stoi := by
        unfold State.getConnectionByIp at hwhy
        split at hwhy
        · exact (Except.error.inj hwhy).symm
        · cases hwhy
      refine ⟨_, reads_fail hc hrun (.asserts _ (.inr (.inr hstoi)) ?_ rfl)⟩
      simp only [State.Sound, hpoint, hwhy]
      rintro (hnil | hnone)
      · exact hheld hnil
      · cases hnone

theorem stepRead_choose (hc : s.conns[i]? = some c) (hpoint : c.reading = .choose)
    (h : stepRead s i c a = some s') : ∃ c', Reads s i c a c' s' := by
  have hrun : c.reading ≠ .ended := by simp [hpoint]
  simp only [stepRead, hpoint] at h
  split at h
  · rename_i behind
    split at h
    · split at h
      · rename_i hnil
        obtain ⟨_, ⟨free, hfree, rfl⟩ | ⟨why, hwhy, _⟩⟩ := locked_spec h
        · obtain rfl := Except.ok.inj hfree
          split
          · rename_i hnone
            have hstep : ReadStep s i c (.bytes behind) c { s with crash := some .noAddress } :=
              .dies _ (.inr (.inr ⟨hpoint, hnone⟩)) (.inr (.inr rfl)) rfl
            exact ⟨_, reads_fail hc hrun hstep⟩
          · rename_i n hn
            exact ⟨_, reads_set hc hrun (.takes n hpoint hnil hn rfl rfl ⟨_, rfl⟩) rfl rfl rfl
              ⟨rfl, rfl⟩⟩
        · cases hwhy
      · rename_i hheld
        cases h
        exact ⟨_, reads_set hc hrun (.retakes hpoint hheld rfl rfl ⟨_, rfl⟩) rfl rfl rfl ⟨rfl, rfl⟩⟩
    · cases h
  · cases h

theorem stepRead_reply {p : SendPoint} (hc : s.conns[i]? = some c) (hpoint : c.reading = .reply p)
    (h : stepRead s i c a = some s') : ∃ c', Reads s i c a c' s' := by
  have hrun : c.reading ≠ .ended := by simp [hpoint]
  simp only [stepRead, hpoint] at h
  cases send_spec h with
  | locks hlock =>
      have hstep : ReadStep s i c a
          (Conn.afterReply (.more (.header 0)) { c with sendMutex := some .read }) s :=
        .sends p hpoint (.inl ⟨_, rfl⟩) (.inl hlock) rfl rfl
      exact ⟨_, (reads_set hc hrun hstep rfl rfl rfl ⟨rfl, rfl⟩).note rfl
        (.locked i .read c.message) ⟨rfl, hlock ▸ hpoint, rfl⟩⟩
  | @writes bs sent mutex hlock _ hwrite =>
      have hfailed := writeOnce_failed_iff hwrite
      have hstep : ReadStep s i c a (Conn.afterReply sent { c with sendMutex := mutex }) s := by
        cases sent with
        | more p' => exact .sends p hpoint (.inl ⟨_, rfl⟩) (.inr (hfailed.not.mp (by simp))) rfl rfl
        | done => exact .sends p hpoint (.inr rfl) (.inr (hfailed.not.mp (by simp))) rfl rfl
        | failed => exact .loses p hpoint ⟨hlock, hfailed.mp rfl⟩ rfl rfl
      exact ⟨_, (reads_set hc hrun hstep rfl rfl rfl ⟨rfl, rfl⟩).note rfl
        (.wrote i .read (s.socket c.socketFd) bs) ⟨rfl, rfl⟩⟩

theorem stepRead_setStatus (hc : s.conns[i]? = some c) (hpoint : c.reading = .setStatus)
    (h : stepRead s i c a = some s') : ∃ c', Reads s i c a c' s' := by
  have hrun : c.reading ≠ .ended := by simp [hpoint]
  simp only [stepRead, hpoint] at h
  obtain ⟨num, hnum, hfree, rfl⟩ | ⟨why, rfl, hcause, hunsound⟩ := setIpStatus_locked h
  · exact ⟨_, reads_pool hc hrun (.marks num hpoint hnum hfree rfl rfl) rfl ⟨rfl, rfl, rfl⟩ rfl rfl
      rfl ⟨rfl, rfl⟩⟩
  · refine ⟨_, reads_fail hc hrun (.asserts _ (.inr hcause.symm) ?_ rfl)⟩
    simpa [State.Sound, hpoint] using hunsound

theorem stepRead_setConnection (hc : s.conns[i]? = some c) (hpoint : c.reading = .setConnection)
    (h : stepRead s i c a = some s') : ∃ c', Reads s i c a c' s' := by
  have hrun : c.reading ≠ .ended := by simp [hpoint]
  simp only [stepRead, hpoint] at h
  obtain ⟨hfree, hsection⟩ := locked_spec h
  unfold State.setConnectionWithIp at hsection
  cases hnum : getIpNum c.ipv4Address with
  | none =>
      simp only [hnum] at hsection
      obtain ⟨_, hno, _⟩ | ⟨why, hwhy, rfl⟩ := hsection
      · cases hno
      · obtain rfl := Except.error.inj hwhy
        refine ⟨_, reads_fail hc hrun (.asserts _ (.inr (.inr rfl)) ?_ rfl)⟩
        simp [State.Sound, hpoint, hnum]
  | some num =>
      simp only [hnum] at hsection
      by_cases hused : s.status num = false
      · rw [if_pos hused] at hsection
        obtain ⟨t, ht, rfl⟩ | ⟨_, hno, _⟩ := hsection
        · obtain rfl := Except.ok.inj ht
          have htouches : Touches s i c c { s with stuck := true } :=
            ⟨hc, hc, fun _ _ => rfl, rfl, .inl rfl⟩
          exact ⟨c, htouches, hrun, rfl, rfl, ⟨rfl, rfl⟩, rfl, rfl, _,
            .hangs num hpoint hnum hused rfl, .refl _⟩
        · cases hno
      · rw [if_neg hused] at hsection
        obtain ⟨t, ht, rfl⟩ | ⟨_, hno, _⟩ := hsection
        · obtain rfl := Except.ok.inj ht
          rw [if_neg (by simp [hfree])]
          have hmarked : s.status num = true := by simpa using hused
          exact ⟨_, reads_pool hc hrun (.registers num hpoint hnum hmarked rfl rfl) rfl
            ⟨rfl, rfl, rfl⟩ rfl rfl rfl ⟨rfl, rfl⟩⟩
        · cases hno

theorem stepRead_ending (hc : s.conns[i]? = some c) (hpoint : c.reading = .ending)
    (h : stepRead s i c a = some s') : ∃ c', Reads s i c a c' s' := by
  have hrun : c.reading ≠ .ended := by simp [hpoint]
  simp only [stepRead, hpoint] at h
  obtain ⟨num, hnum, hused, rfl⟩ | ⟨why, rfl, hcause, hunsound⟩ := setIpStatus_locked h
  · exact ⟨_, reads_pool hc hrun (.leaves num hpoint hnum hused rfl rfl) rfl ⟨rfl, rfl, rfl⟩ rfl rfl
      rfl ⟨rfl, rfl⟩⟩
  · refine ⟨_, reads_fail hc hrun (.asserts _ (.inr hcause.symm) ?_ rfl)⟩
    simpa [State.Sound, hpoint] using hunsound

theorem stepRead_reads (hc : s.conns[i]? = some c) (h : stepRead s i c a = some s') :
    ∃ c', Reads s i c a c' s' := by
  cases hpoint : c.reading with
  | check => exact stepRead_check hc hpoint h
  | header total => exact stepRead_header hc hpoint h
  | body total => exact stepRead_body hc hpoint h
  | dispatch => exact stepRead_dispatch hc hpoint h
  | request => exact stepRead_request hc hpoint h
  | choose => exact stepRead_choose hc hpoint h
  | reply p => exact stepRead_reply hc hpoint h
  | setStatus => exact stepRead_setStatus hc hpoint h
  | setConnection => exact stepRead_setConnection hc hpoint h
  | ending => exact stepRead_ending hc hpoint h
  | ended =>
      simp only [stepRead, hpoint] at h
      cases h

end Reads

/-! ## The other threads -/

/-- A step that `readThread` and the addresses have no part in. -/
structure Aside (s : State) (i : Nat) (c c' : Conn) (s' : State) : Prop where
  touches : Touches s i c c' s'
  reading : c'.reading = c.reading
  address : c'.ipv4Address = c.ipv4Address
  message : c'.message = c.message
  pool : SamePool s s'

structure Writes (s : State) (i : Nat) (c c' : Conn) (s' : State) : Prop extends
    Aside s i c c' s' where
  running : c.writing ≠ .ended
  keeping : c'.keeping = c.keeping
  queue : ∀ m ∈ c'.wtSktQue, m ∈ c.wtSktQue
  outgoing : ∀ p, c'.writing = .send p →
    (∃ p', c.writing = .send p') ∧ c'.outgoing = c.outgoing ∨ c'.outgoing ∈ c.wtSktQue
  files : s'.files = s.files
  tunReader : s'.tunReader = s.tunReader

/-- A step of `keepLiveThread`; its last one closes the socket. -/
structure Keeps (s : State) (i : Nat) (c c' : Conn) (s' : State) : Prop extends
    Aside s i c c' s' where
  running : c.keeping ≠ .ended
  writing : c'.writing = c.writing
  mail : c'.wtSktQue = c.wtSktQue ∧ c'.outgoing = c.outgoing
  files : c'.keeping ≠ .ended ∧ s'.files = s.files ∨
    c'.keeping = .ended ∧ s'.files = s.files.set c.socketFd none
  tunReader : s'.tunReader = s.tunReader

section Others

variable {s s' : State} {i : Nat} {c c' : Conn} {a : Answer}

theorem aside_set (hc : s.conns[i]? = some c) (hconns : s'.conns = s.conns.set i c')
    (hlog : s'.log = s.log) (hfd : c'.socketFd = c.socketFd) (hreading : c'.reading = c.reading)
    (haddress : c'.ipv4Address = c.ipv4Address) (hmessage : c'.message = c.message)
    (hpool : SamePool s s') : Aside s i c c' s' :=
  ⟨touches_set hc hfd hconns hlog, hreading, haddress, hmessage, hpool⟩

theorem Aside.note (h : Aside s i c c' s') (hlog : s'.log = s.log) (act : Act)
    (hact : act.Of i c (s.socket c.socketFd)) : Aside s i c c' (s'.note act) :=
  ⟨h.touches.note hlog act hact, h.reading, h.address, h.message, h.pool.1, h.pool.2, h.pool.3,
    h.pool.4⟩

/-- The thread goes on with nothing changed but its own point. -/
def Undisturbed (goto : Sent → Conn → Conn) : Prop :=
  ∀ sent c, (goto sent c).socketFd = c.socketFd ∧ (goto sent c).reading = c.reading ∧
    (goto sent c).ipv4Address = c.ipv4Address ∧ (goto sent c).message = c.message

/-- `sendMessage` in one of the other threads. -/
theorem Sends.aside {who : Thread} {m : Msg} {p : SendPoint} {goto : Sent → Conn → Conn}
    (h : Sends s i c who m p a goto s') (hc : s.conns[i]? = some c)
    (hoffer : p = .lock → c.Offers m who) (hgoto : Undisturbed goto) :
    (∃ sent mutex, Aside s i c (goto sent { c with sendMutex := mutex }) s') ∧
      s'.files = s.files ∧ s'.tunReader = s.tunReader := by
  cases h with
  | locks hlock =>
      obtain ⟨hfd, hreading, haddress, hmessage⟩ :=
        hgoto (.more (.header 0)) { c with sendMutex := some who }
      have haside : Aside s i c _ (s.set i _) :=
        aside_set hc rfl rfl hfd hreading haddress hmessage ⟨rfl, rfl, rfl, rfl⟩
      exact ⟨⟨_, _, haside.note rfl (.locked i who m) ⟨rfl, hoffer hlock⟩⟩, rfl, rfl⟩
  | @writes bs sent mutex =>
      obtain ⟨hfd, hreading, haddress, hmessage⟩ := hgoto sent { c with sendMutex := mutex }
      have haside : Aside s i c _ (s.set i _) :=
        aside_set hc rfl rfl hfd hreading haddress hmessage ⟨rfl, rfl, rfl, rfl⟩
      exact ⟨⟨_, _, haside.note rfl (.wrote i who _ bs) ⟨rfl, rfl⟩⟩, rfl, rfl⟩

theorem stepWrite_writes (hc : s.conns[i]? = some c) (h : stepWrite s i c a = some s') :
    ∃ c', Writes s i c c' s' := by
  unfold stepWrite at h
  split at h
  · rename_i hpoint
    split at h
    · cases h
    · rename_i m queue hqueue
      cases h
      refine ⟨_, aside_set hc rfl rfl rfl rfl rfl rfl ⟨rfl, rfl, rfl, rfl⟩, by simp [hpoint], rfl,
        ?_, fun _ _ => .inr ?_, rfl, rfl⟩
      · rw [hqueue]
        exact fun n hn => List.mem_cons_of_mem m hn
      · rw [hqueue]
        exact List.mem_cons_self
  · rename_i p hpoint
    have hoffer : p = .lock → c.Offers c.outgoing .write := fun hlock => ⟨hlock ▸ hpoint, rfl⟩
    obtain ⟨⟨sent, mutex, haside⟩, hfiles, htun⟩ :=
      (send_spec h).aside hc hoffer fun _ _ => ⟨rfl, rfl, rfl, rfl⟩
    exact ⟨_, haside, by simp [hpoint], rfl, fun _ hm => hm, fun _ _ => .inl ⟨⟨p, hpoint⟩, rfl⟩,
      hfiles, htun⟩
  · cases h

theorem stepKeep_keeps (hc : s.conns[i]? = some c) (h : stepKeep s i c a = some s') :
    ∃ c', Keeps s i c c' s' := by
  unfold stepKeep at h
  split at h
  · rename_i hpoint
    cases h
    refine ⟨_, aside_set hc rfl rfl rfl rfl rfl rfl ⟨rfl, rfl, rfl, rfl⟩, by simp [hpoint], rfl,
      ⟨rfl, rfl⟩, .inl ⟨?_, rfl⟩, rfl⟩
    simp only
    split <;> simp
  · rename_i hpoint
    cases h
    exact ⟨_, aside_set hc rfl rfl rfl rfl rfl rfl ⟨rfl, rfl, rfl, rfl⟩, by simp [hpoint], rfl,
      ⟨rfl, rfl⟩, .inl ⟨by simp, rfl⟩, rfl⟩
  · rename_i hpoint
    cases h
    refine ⟨_, aside_set hc rfl rfl rfl rfl rfl rfl ⟨rfl, rfl, rfl, rfl⟩, by simp [hpoint], rfl,
      ⟨rfl, rfl⟩, .inl ⟨?_, rfl⟩, rfl⟩
    simp only
    split <;> simp
  · rename_i p hpoint
    obtain ⟨⟨sent, mutex, haside⟩, hfiles, htun⟩ :=
      (send_spec h).aside hc (fun _ => rfl) fun _ _ => ⟨rfl, rfl, rfl, rfl⟩
    refine ⟨_, haside, by simp [hpoint], rfl, ⟨rfl, rfl⟩, .inl ⟨?_, hfiles⟩, htun⟩
    cases sent <;> simp [Conn.afterHeartBeat]
  · rename_i hpoint
    cases h
    exact ⟨_, aside_set hc rfl rfl rfl rfl rfl rfl ⟨rfl, rfl, rfl, rfl⟩, by simp [hpoint], rfl,
      ⟨rfl, rfl⟩, .inr ⟨rfl, rfl⟩, rfl⟩
  · cases h

end Others

/-! ## Events -/

inductive Next (s : State) : Event → State → Prop
  | accepts (stale : Msg) : Next s (.accept stale) (s.accept stale)
  | reads {i : Nat} {a : Answer} {c c' : Conn} {s' : State} (step : Reads s i c a c' s') :
      Next s (.read i a) s'
  | writes {i : Nat} {a : Answer} {c c' : Conn} {s' : State} (step : Writes s i c c' s') :
      Next s (.write i a) s'
  | keeps {i : Nat} {a : Answer} {c c' : Conn} {s' : State} (step : Keeps s i c c' s') :
      Next s (.keep i a) s'
  | arrives {buf : List UInt8} (size : 20 ≤ buf.length ∧ buf.length ≤ 1600)
      (point : s.tunReader = .read) : Next s (.packet buf) { s with tunReader := .lookup buf }
  | finds {buf : List UInt8} {found : Option Nat} (point : s.tunReader = .lookup buf) :
      s.getConnectionByIp (mkAddr ((buf.drop 16).take 4)) = .ok found → Next s .route { s with
        tunReader :=
          match found with
          | none => .read
          | some i => .push i buf }
  | throws {buf : List UInt8} (point : s.tunReader = .lookup buf)
      (none : getIpNum (mkAddr ((buf.drop 16).take 4)) = none) : Next s .route (s.fail .stoi)
  | queues {i : Nat} {buf : List UInt8} {c c' : Conn} {s' : State}
      (point : s.tunReader = .push i buf) (step : Aside s i c c' s') (quiet : s'.log = s.log)
      (queue : c'.wtSktQue = c.wtSktQue ++ [dataMsg buf]) (outgoing : c'.outgoing = c.outgoing)
      (writing : c'.writing = c.writing) (keeping : c'.keeping = c.keeping)
      (files : s'.files = s.files) (tunReader : s'.tunReader = .read) : Next s .route s'

/-- The connections after an `accept`. -/
theorem conns_accept {s : State} {stale : Msg} {i : Nat} {c : Conn}
    (h : (s.accept stale).conns[i]? = some c) :
    s.conns[i]? = some c ∨ i = s.conns.length ∧ c = Conn.start s.lowestFree stale := by
  change (s.conns ++ [Conn.start s.lowestFree stale])[i]? = some c at h
  rw [List.getElem?_append] at h
  split at h
  · exact .inl h
  · rw [List.getElem?_singleton] at h
    split at h
    · exact .inr ⟨by omega, (Option.some.inj h).symm⟩
    · cases h

theorem next_spec {s s' : State} {e : Event} (h : next s e = some s') :
    s.crash = none ∧ Next s e s' := by
  unfold next at h
  split at h
  · cases h
  · rename_i hcrash
    refine ⟨by simpa using hcrash, ?_⟩
    cases e with
    | accept stale =>
        cases h
        exact .accepts stale
    | read i a =>
        obtain ⟨c, hc, hstep⟩ := Option.bind_eq_some_iff.mp h
        obtain ⟨c', hreads⟩ := stepRead_reads hc hstep
        exact .reads hreads
    | write i a =>
        obtain ⟨c, hc, hstep⟩ := Option.bind_eq_some_iff.mp h
        obtain ⟨c', hwrites⟩ := stepWrite_writes hc hstep
        exact .writes hwrites
    | keep i a =>
        obtain ⟨c, hc, hstep⟩ := Option.bind_eq_some_iff.mp h
        obtain ⟨c', hkeeps⟩ := stepKeep_keeps hc hstep
        exact .keeps hkeeps
    | packet buf =>
        simp only at h
        split at h
        · rename_i hready
          cases h
          exact .arrives hready.2 hready.1
        · cases h
    | route =>
        simp only [stepTun] at h
        split at h
        · cases h
        · rename_i buf hpoint
          obtain ⟨_, ⟨found, hfound, rfl⟩ | ⟨why, hwhy, rfl⟩⟩ := locked_spec h
          · exact .finds hpoint hfound
          · unfold State.getConnectionByIp at hwhy
            split at hwhy
            · rename_i hnone
              obtain rfl := Except.error.inj hwhy
              exact .throws hpoint hnone
            · cases hwhy
        · rename_i hpoint
          split at h
          · cases h
          · rename_i c hc
            cases h
            exact .queues hpoint (aside_set hc rfl rfl rfl rfl rfl rfl ⟨rfl, rfl, rfl, rfl⟩) rfl rfl
              rfl rfl rfl rfl rfl

end Over6.Threaded
