import Over6.Threaded.Sending

/-! # Requests of the clients

`readThread` takes a header, and for type 102 the data behind it, and comes to the
`switch` with both in `message`. What it has read and not come to the `switch` with
yet is in `message` too.
-/

namespace Over6.Threaded

open MachineInt EventRun Journal

/-- How many bytes `readThread` waits for behind a header. -/
def awaited (m : Message) : Nat :=
  if m.type = msgDataReq then (int32 (m.length - 5)).toNat else 0

/-- What `readThread` takes for one message. -/
structure Request where
  header : List UInt8
  data : List UInt8
  size : header.length = sizeofMessage
  whole : data.length = awaited (Message.ofBytes header)

namespace Request

def message (r : Request) : Message := Message.ofBytes r.header

def bytes (r : Request) : List UInt8 := r.header ++ r.data

@[simp] theorem bytes_length (r : Request) : r.bytes.length = sizeofMessage + awaited r.message := by
  rw [bytes, List.length_append, r.size, r.whole, message]

theorem bytes_separated (r q : Request) (x y : List UInt8) (h : r.bytes ++ x = q.bytes ++ y) :
    r = q := by
  rw [bytes, bytes, List.append_assoc, List.append_assoc] at h
  obtain ⟨hheader, htail⟩ := List.append_inj h (r.size.trans q.size.symm)
  have hlen : r.data.length = q.data.length := by rw [r.whole, q.whole, hheader]
  have hdata := (List.append_inj htail hlen).1
  cases r
  cases q
  simp_all

end Request

def requestCode : PrefixCode Request UInt8 where
  encode := Request.bytes
  Valid _ := True
  nonempty r h := by
    have hlen := congrArg List.length h
    rw [Request.bytes_length, List.length_nil] at hlen
    exact absurd (Nat.eq_zero_of_add_eq_zero_right hlen) (by decide)
  separated r q x y _ _ := Request.bytes_separated r q x y

def Msg.request (m : Msg) : Request where
  header := m.load 0 sizeofMessage
  data := m.load sizeofMessage (awaited m.header)
  size := CellMemory.load_length m 0 sizeofMessage
  whole := CellMemory.load_length m sizeofMessage _

theorem Msg.request_message (m : Msg) : m.request.message = m.header := rfl

theorem Msg.request_bytes (m : Msg) : m.request.bytes = m.load 0 (sizeofMessage + awaited m.header) := by
  rw [CellMemory.load_add, Nat.zero_add]
  rfl

/-- Data stored behind the header leave it as it is. -/
theorem Msg.header_store (m : Msg) (total : Nat) (bs : List UInt8) :
    Msg.header (m.store (sizeofMessage + total) bs) = m.header := by
  rw [Msg.header, Msg.header]
  refine congrArg Message.ofBytes (CellMemory.load_congr fun k hk => ?_)
  exact CellMemory.store_of_lt m bs (by omega)

theorem Msg.bodySize_store (m : Msg) (total : Nat) (bs : List UInt8) :
    Msg.bodySize (m.store (sizeofMessage + total) bs) = m.bodySize := by
  rw [Msg.bodySize, Msg.bodySize, Msg.header_store]

/-! ## One step of `readThread` on its message -/

/-- What becomes of a message that `readThread` reads into, and of the thread. -/
inductive Takes (s : State) (i : Nat) (c : Conn) : Answer → Conn → State → Prop
  | begins {a : Answer} (point : c.reading = .check) (below : c.heartBeatCount < 60) :
      Takes s i c a { c with reading := .header 0 } (s.set i { c with reading := .header 0 })
  | stops {a : Answer} (point : c.reading = .check) (limit : 60 ≤ c.heartBeatCount) :
      Takes s i c a { c with reading := .ending } (s.set i { c with reading := .ending })
  | waits (point : (∃ total, c.reading = .header total) ∨ ∃ total, c.reading = .body total) :
      Takes s i c .again c ((s.set i c).note (.read i (s.socket c.socketFd) .again))
  | reads {bs : List UInt8} {total : Nat} {c' : Conn} (point : c.reading = .header total)
      (some : bs ≠ []) (short : total + bs.length < sizeofMessage)
      (result : c' = { c with
        message := c.message.store total bs, reading := .header (total + bs.length) }) :
      Takes s i c (.bytes bs) c' ((s.set i c').note (.read i (s.socket c.socketFd) (.bytes bs)))
  | completes {bs : List UInt8} {total : Nat} {c' : Conn} (point : c.reading = .header total)
      (some : bs ≠ []) (all : total + bs.length = sizeofMessage)
      (result : c' = Conn.headerRead { c with message := c.message.store total bs }) :
      Takes s i c (.bytes bs) c' ((s.set i c').note (.read i (s.socket c.socketFd) (.bytes bs)))
  /-- The `break` of the inner loop. -/
  | breaks {total : Nat} (point : c.reading = .header total) :
      Takes s i c .error c.headerRead
        ((s.set i c.headerRead).note (.read i (s.socket c.socketFd) .error))
  | stores {bs : List UInt8} {total : Nat} {p : ReadPoint} {c' : Conn}
      (point : c.reading = .body total) (some : bs ≠ [])
      (fits : total + bs.length ≤ sizeofData)
      (next : ((total + bs.length : Nat) : Int) < c.message.bodySize ∧ p = .body (total + bs.length) ∨
        ((total + bs.length : Nat) : Int) = c.message.bodySize ∧ p = .dispatch)
      (result : c' = { c with
        message := c.message.store (sizeofMessage + total) bs, reading := p }) :
      Takes s i c (.bytes bs) c' ((s.set i c').note (.read i (s.socket c.socketFd) (.bytes bs)))
  | overflows {bs : List UInt8} {total : Nat} (point : c.reading = .body total)
      (behind : sizeofData < total + bs.length) :
      Takes s i c (.bytes bs) c
        ((s.fail .overflow).note (.read i (s.socket c.socketFd) (.bytes bs)))
  | loses {total : Nat} (point : c.reading = .body total) :
      Takes s i c .error { c with reading := .ending }
        ((s.set i { c with reading := .ending }).note (.read i (s.socket c.socketFd) .error))
  | asks {a : Answer} (point : c.reading = .dispatch) (type : c.message.header.type = msgIpReq) :
      Takes s i c a { c with reading := .request } (s.set i { c with reading := .request })
  | resets {a : Answer} (point : c.reading = .dispatch) (type : c.message.header.type = msgHeartbeat) :
      Takes s i c a { c with heartBeatCount := 0, reading := .check }
        (s.set i { c with heartBeatCount := 0, reading := .check })
  | pushes {a : Answer} (point : c.reading = .dispatch) (type : c.message.header.type = msgDataReq)
      (length : 0 ≤ c.message.header.length) :
      Takes s i c a { c with reading := .check } ((s.set i { c with reading := .check }).note
        (.pushed i (c.message.load sizeofMessage c.message.header.length.toNat)))
  | throws {a : Answer} (point : c.reading = .dispatch) (type : c.message.header.type = msgDataReq)
      (length : c.message.header.length < 0) : Takes s i c a c (s.fail .badString)
  | skips {a : Answer} (point : c.reading = .dispatch)
      (type : c.message.header.type ≠ msgIpReq ∧ c.message.header.type ≠ msgHeartbeat ∧
        c.message.header.type ≠ msgDataReq) :
      Takes s i c a { c with reading := .check } (s.set i { c with reading := .check })

section Takes

variable {s s' : State} {i : Nat} {c : Conn} {a : Answer}

theorem takes_header {total : Nat} (hpoint : c.reading = .header total)
    (h : stepRead s i c a = some s') : ∃ c', Takes s i c a c' s' := by
  simp only [stepRead, hpoint] at h
  split at h
  · obtain ⟨c', hread, rfl⟩ := Option.map_eq_some_iff.mp h
    cases a with
    | again =>
        obtain rfl := Option.some.inj hread
        exact ⟨_, .waits (.inl ⟨total, hpoint⟩)⟩
    | error =>
        obtain rfl := Option.some.inj hread
        exact ⟨_, .breaks hpoint⟩
    | count n => cases hread
    | bytes bs =>
        simp only [Conn.readHeader] at hread
        split at hread
        · rename_i hsize
          obtain rfl := Option.some.inj hread
          by_cases hshort : total + bs.length < sizeofMessage
          · rw [if_pos hshort]
            exact ⟨_, .reads hpoint hsize.1 hshort rfl⟩
          · rw [if_neg hshort]
            exact ⟨_, .completes hpoint hsize.1 (by omega) rfl⟩
        · cases hread
  · cases h

theorem takes_body {total : Nat} (hpoint : c.reading = .body total)
    (h : stepRead s i c a = some s') : ∃ c', Takes s i c a c' s' := by
  simp only [stepRead, hpoint] at h
  split at h
  · obtain ⟨r, hread, rfl⟩ := Option.map_eq_some_iff.mp h
    cases a with
    | again =>
        obtain rfl := Option.some.inj hread
        exact ⟨_, .waits (.inr ⟨total, hpoint⟩)⟩
    | error =>
        obtain rfl := Option.some.inj hread
        exact ⟨_, .loses hpoint⟩
    | count n => cases hread
    | bytes bs =>
        simp only [Conn.readBody] at hread
        split at hread
        · rename_i hsize
          split at hread
          · rename_i hfits
            obtain rfl := Option.some.inj hread
            refine ⟨_, .stores hpoint hsize.1 hfits ?_ rfl⟩
            rw [Msg.bodySize_store]
            by_cases hshort : ((total + bs.length : Nat) : Int) < c.message.bodySize
            · exact .inl ⟨hshort, if_pos hshort⟩
            · exact .inr ⟨by omega, if_neg hshort⟩
          · obtain rfl := Option.some.inj hread
            exact ⟨_, .overflows hpoint (by omega)⟩
        · cases hread
  · cases h

theorem takes_dispatch (hpoint : c.reading = .dispatch) (h : stepRead s i c a = some s') :
    ∃ c', Takes s i c a c' s' := by
  simp only [stepRead, hpoint, Option.some.injEq, State.dispatch] at h
  subst h
  split
  · exact ⟨_, .asks hpoint ‹_›⟩
  · split
    · exact ⟨_, .resets hpoint ‹_›⟩
    · split
      · split
        · exact ⟨_, .throws hpoint ‹_› ‹_›⟩
        · exact ⟨_, .pushes hpoint ‹_› (by omega)⟩
      · exact ⟨_, .skips hpoint ⟨‹_›, ‹_›, ‹_›⟩⟩

/-- What a step can do that is not occupied with an address. -/
theorem stepRead_takes (hidle : c.reading.Idle) (h : stepRead s i c a = some s') :
    ∃ c', Takes s i c a c' s' := by
  cases hpoint : c.reading with
  | check =>
      simp only [stepRead, hpoint, Option.some.injEq] at h
      subst h
      by_cases hcount : c.heartBeatCount < 60
      · rw [if_pos hcount]
        exact ⟨_, .begins hpoint hcount⟩
      · rw [if_neg hcount]
        exact ⟨_, .stops hpoint (by omega)⟩
  | header total => exact takes_header hpoint h
  | body total => exact takes_body hpoint h
  | dispatch => exact takes_dispatch hpoint h
  | _ =>
      rw [hpoint] at hidle
      exact hidle.elim

end Takes

/-! ## The other steps -/

def Act.Sending : Act → Prop
  | locked _ _ _ | wrote _ _ _ _ => True
  | _ => False

/-- At most a call of `sendMessage` is recorded. -/
def Records (log log' : List Act) : Prop := log' = log ∨ ∃ act, log' = act :: log ∧ act.Sending

theorem Records.refl (log : List Act) : Records log log := .inl rfl

def State.assigned (s : State) (c : Conn) : Option (List UInt8) :=
  if c.ipv4Address = [] then s.getFreeIP.map ipText else some c.ipv4Address

/-- The reply is built for an address, with what lies behind the string. -/
structure Builds (s : State) (c : Conn) (a : Answer) (c' : Conn) (addr behind : List UInt8) :
    Prop where
  point : c.reading = .choose
  assigned : s.assigned c = some addr
  copied : a = .bytes behind ∧ behind.length = 4
  result : c'.reading = .reply .lock ∧ c'.ipv4Address = addr ∧
    c'.message = replyMsg c.message addr behind

/-- A step of `readThread` that is occupied with an address. The message changes only where it becomes
the reply. -/
structure Serves (s : State) (i : Nat) (c : Conn) (a : Answer) (c' : Conn) (s' : State) :
    Prop where
  after : s'.conns[i]? = some c'
  target : ¬ c'.reading.Idle ∨ c'.reading = .check
  message : c'.message = c.message ∧
      (c.reading = .request ∨ c.reading = .choose → c'.reading = .request ∨ c'.reading = .choose) ∨
    ∃ addr behind, Builds s c a c' addr behind
  leaving : c.reading = .ending ∨ c.reading = .ended → c'.reading = .ending ∨ c'.reading = .ended
  count : c'.heartBeatCount = c.heartBeatCount
  log : Records s.log s'.log

section Serves

variable {s s' : State} {i : Nat} {c : Conn} {a : Answer}

theorem Sends.records {who : Thread} {m : Msg} {p : SendPoint} {goto : Sent → Conn → Conn}
    (h : Sends s i c who m p a goto s') : Records s.log s'.log := by
  cases h with
  | locks => exact .inr ⟨_, rfl, trivial⟩
  | writes => exact .inr ⟨_, rfl, trivial⟩

/-- `readThread` goes on at another point. -/
theorem serves_goto (hc : s.conns[i]? = some c) {t : State} (hconns : t.conns = s.conns)
    (hlog : t.log = s.log) {p : ReadPoint} (htarget : ¬ p.Idle ∨ p = .check)
    (hstays : c.reading = .request ∨ c.reading = .choose → p = .request ∨ p = .choose)
    (hleaving : c.reading = .ending ∨ c.reading = .ended → p = .ending ∨ p = .ended) :
    ∃ c', Serves s i c a c' (t.set i { c with reading := p }) :=
  ⟨{ c with reading := p }, at_set hc hconns _, htarget, .inl ⟨rfl, hstays⟩, hleaving, rfl, .inl hlog⟩

theorem serves_stay (hbusy : ¬ c.reading.Idle) {t : State} (ht : t.conns[i]? = some c)
    (hlog : t.log = s.log) : ∃ c', Serves s i c a c' t :=
  ⟨c, ht, .inl hbusy, .inl ⟨rfl, id⟩, id, rfl, .inl hlog⟩

theorem serves_locked {α : Type} {r : Except Crash α} {go : α → State} (hc : s.conns[i]? = some c)
    (hbusy : ¬ c.reading.Idle) (h : s.locked r go = some s')
    (hgo : ∀ x, r = .ok x → ∃ c', Serves s i c a c' (go x)) : ∃ c', Serves s i c a c' s' := by
  obtain ⟨_, ⟨x, hx, rfl⟩ | ⟨why, _, rfl⟩⟩ := locked_spec h
  · exact hgo x hx
  · exact serves_stay hbusy hc rfl

theorem serves_choose (hc : s.conns[i]? = some c) (hbusy : ¬ c.reading.Idle)
    (hpoint : c.reading = .choose) (h : stepRead s i c a = some s') : ∃ c', Serves s i c a c' s' := by
  have hanswer : ∀ {addr behind}, s.assigned c = some addr → a = .bytes behind ∧ behind.length = 4 →
      ∃ c', Serves s i c a c' (s.set i (c.answer addr behind)) :=
    fun haddr hbehind => ⟨c.answer _ _, at_set hc rfl _, .inl id,
      .inr ⟨_, _, hpoint, haddr, hbehind, rfl, rfl, rfl⟩, by simp [hpoint], rfl, .refl _⟩
  simp only [stepRead, hpoint] at h
  split at h
  · split at h
    · rename_i hbehind
      split at h
      · rename_i hnil
        refine serves_locked hc hbusy h fun free hfree => ?_
        obtain rfl := Except.ok.inj hfree
        cases hfound : s.getFreeIP with
        | none => exact serves_stay hbusy hc rfl
        | some n =>
            refine hanswer ?_ ⟨rfl, hbehind⟩
            rw [State.assigned, if_pos hnil, hfound]
            rfl
      · rename_i hheld
        cases h
        exact hanswer (if_neg hheld) ⟨rfl, hbehind⟩
    · cases h
  · cases h

theorem serves_reply {p : SendPoint} (hc : s.conns[i]? = some c) (hpoint : c.reading = .reply p)
    (h : stepRead s i c a = some s') : ∃ c', Serves s i c a c' s' := by
  have hstays : ∀ q : ReadPoint, c.reading = .request ∨ c.reading = .choose →
      q = .request ∨ q = .choose := by
    rw [hpoint]
    exact fun q => nofun
  simp only [stepRead, hpoint] at h
  cases send_spec h with
  | locks =>
      exact ⟨_, at_set hc rfl _, .inl id, .inl ⟨rfl, hstays _⟩, by simp [hpoint], rfl,
        .inr ⟨_, rfl, trivial⟩⟩
  | @writes bs sent mutex =>
      refine ⟨Conn.afterReply sent { c with sendMutex := mutex }, at_set hc rfl _, .inl ?_,
        .inl ⟨rfl, hstays _⟩, by simp [hpoint], rfl, .inr ⟨_, rfl, trivial⟩⟩
      cases sent <;> exact id

/-- The steps from an IP request to the address, and the last one. -/
theorem stepRead_serves (hc : s.conns[i]? = some c) (hbusy : ¬ c.reading.Idle)
    (h : stepRead s i c a = some s') : ∃ c', Serves s i c a c' s' := by
  cases hpoint : c.reading with
  | request =>
      have hpass : ∃ c', Serves s i c a c' (s.set i { c with reading := .choose }) :=
        serves_goto hc rfl rfl (.inl id) (fun _ => .inr rfl) (by simp [hpoint])
      simp only [stepRead, hpoint] at h
      split at h
      · cases h
        exact hpass
      · refine serves_locked hc hbusy h fun found _ => ?_
        split
        · exact serves_stay hbusy hc rfl
        · exact hpass
  | choose => exact serves_choose hc hbusy hpoint h
  | reply p => exact serves_reply hc hpoint h
  | setStatus =>
      simp only [stepRead, hpoint] at h
      refine serves_locked hc hbusy h fun t ht => ?_
      obtain ⟨hconns, hlog⟩ := setIpStatus_quiet ht
      exact serves_goto hc hconns hlog (.inl id) (by simp [hpoint]) (by simp [hpoint])
  | setConnection =>
      simp only [stepRead, hpoint] at h
      refine serves_locked hc hbusy h fun t ht => ?_
      obtain ⟨hconns, hlog⟩ := setConnectionWithIp_quiet ht
      split
      · exact serves_stay hbusy (hconns ▸ hc) hlog
      · exact serves_goto hc hconns hlog (.inr rfl) (by simp [hpoint]) (by simp [hpoint])
  | ending =>
      simp only [stepRead, hpoint] at h
      refine serves_locked hc hbusy h fun t ht => ?_
      obtain ⟨hconns, hlog⟩ := setIpStatus_quiet ht
      exact serves_goto hc hconns hlog (.inl id) (by simp [hpoint]) fun _ => .inr rfl
  | ended =>
      simp only [stepRead, hpoint] at h
      cases h
  | _ =>
      rw [hpoint] at hbusy
      exact absurd trivial hbusy

theorem stepWrite_records (h : stepWrite s i c a = some s') : Records s.log s'.log := by
  unfold stepWrite at h
  split at h
  · split at h
    · cases h
    · cases h
      exact .refl _
  · exact (send_spec h).records
  · cases h

theorem stepKeep_records (h : stepKeep s i c a = some s') : Records s.log s'.log := by
  unfold stepKeep at h
  split at h
  · cases h
    exact .refl _
  · cases h
    exact .refl _
  · cases h
    exact .refl _
  · exact (send_spec h).records
  · cases h
    exact .refl _
  · cases h

end Serves

/-! ## Events -/

/-- A call that is no `read` and no `pushQueue` of connection `i`. -/
def Act.Alien (i : Nat) : Act → Prop
  | read j _ _ | pushed j _ => j ≠ i
  | _ => True

/-- A step in which `readThread` of connection `i` has no part. -/
structure Elsewhere (i : Nat) (s s' : State) : Prop where
  kept : ∀ c, s.conns[i]? = some c → ∃ c', s'.conns[i]? = some c' ∧ c'.socketFd = c.socketFd ∧
    c'.reading = c.reading ∧ c'.message = c.message ∧ c'.ipv4Address = c.ipv4Address
  fresh : s.conns[i]? = none → ∀ c', s'.conns[i]? = some c' → ∃ fd stale, c' = Conn.start fd stale
  log : s'.log = s.log ∨ ∃ act, s'.log = act :: s.log ∧ act.Alien i

inductive Reader (i : Nat) (s : State) (e : Event) (s' : State) : Prop
  | takes {a : Answer} {c c' : Conn} (event : e = .read i a) (before : s.conns[i]? = some c)
      (after : s'.conns[i]? = some c') (step : Takes s i c a c' s')
  | serves {a : Answer} {c c' : Conn} (event : e = .read i a) (before : s.conns[i]? = some c)
      (busy : ¬ c.reading.Idle) (step : Serves s i c a c' s')
  | elsewhere (other : ∀ a, e ≠ .read i a) (step : Elsewhere i s s')

section Events

variable {s s' : State} {i j : Nat} {c c' : Conn} {a : Answer}

theorem Takes.after (h : Takes s i c a c' s') (hc : s.conns[i]? = some c) :
    s'.conns[i]? = some c' := by
  cases h with
  | overflows => exact hc
  | throws => exact hc
  | _ => exact at_set hc rfl _

theorem Records.alien (h : Records s.log s'.log) :
    s'.log = s.log ∨ ∃ act, s'.log = act :: s.log ∧ act.Alien i := by
  rcases h with hlog | ⟨act, hlog, hsending⟩
  · exact .inl hlog
  · refine .inr ⟨act, hlog, ?_⟩
    cases act with
    | locked _ _ _ => trivial
    | wrote _ _ _ _ => trivial
    | _ => exact hsending.elim

/-- A step of another connection. -/
theorem Touches.elsewhere (h : Touches s j c c' s') (hj : j ≠ i) : Elsewhere i s s' := by
  have hsame := h.others i hj.symm
  refine ⟨fun d hd => ⟨d, hsame.trans hd, rfl, rfl, rfl, rfl⟩, fun hnone d hd => ?_, ?_⟩
  · rw [hsame, hnone] at hd
    cases hd
  · rcases h.log with hlog | ⟨act, hlog, hof⟩
    · exact .inl hlog
    · refine .inr ⟨act, hlog, ?_⟩
      cases act with
      | read k on b => exact hof.1 ▸ hj
      | pushed k bs =>
          obtain rfl : k = j := hof
          exact hj
      | wrote _ _ _ _ => trivial
      | locked _ _ _ => trivial

/-- A step of another thread. -/
theorem Aside.elsewhere (h : Aside s j c c' s') (hlog : Records s.log s'.log) : Elsewhere i s s' := by
  by_cases hj : j = i
  · subst hj
    refine ⟨fun d hd => ?_, fun hnone => ?_, hlog.alien⟩
    · obtain rfl := h.touches.eq_before hd
      exact ⟨c', h.touches.after, h.touches.socketFd, h.reading, h.message, h.address⟩
    · rw [h.touches.before] at hnone
      cases hnone
  · exact h.touches.elsewhere hj

theorem elsewhere_refl (hconns : s'.conns = s.conns) (hlog : s'.log = s.log) : Elsewhere i s s' := by
  refine ⟨fun d hd => ⟨d, hconns ▸ hd, rfl, rfl, rfl, rfl⟩, fun hnone d hd => ?_, .inl hlog⟩
  rw [hconns, hnone] at hd
  cases hd

theorem elsewhere_accept (s : State) (stale : Msg) : Elsewhere i s (s.accept stale) := by
  refine ⟨fun d hd => ⟨d, ?_, rfl, rfl, rfl, rfl⟩, fun hnone d hd => ?_, .inl rfl⟩
  · exact (List.getElem?_append_left (List.getElem?_eq_some_iff.mp hd).1).trans hd
  · rcases conns_accept hd with hold | ⟨_, rfl⟩
    · rw [hnone] at hold
      cases hold
    · exact ⟨_, _, rfl⟩

theorem stepRead_of_next (hc : s.conns[i]? = some c) (h : next s (.read i a) = some s') :
    stepRead s i c a = some s' := by
  simpa only [next, (next_spec h).1, Option.isSome_none, Bool.false_eq_true, if_false, hc,
    Option.bind_some] using h

theorem next_reader {e : Event} (h : next s e = some s') (i : Nat) : Reader i s e s' := by
  obtain ⟨hup, hnext⟩ := next_spec h
  cases hnext with
  | accepts stale => exact .elsewhere nofun (elsewhere_accept s stale)
  | @reads j a c c' _ hreads =>
      by_cases hj : j = i
      · subst hj
        have hc := hreads.touches.before
        have hstep := stepRead_of_next hc h
        by_cases hidle : c.reading.Idle
        · obtain ⟨d, htakes⟩ := stepRead_takes hidle hstep
          exact .takes rfl hc (htakes.after hc) htakes
        · obtain ⟨d, hserves⟩ := stepRead_serves hc hidle hstep
          exact .serves rfl hc hidle hserves
      · refine .elsewhere (fun b hb => ?_) (hreads.touches.elsewhere hj)
        exact hj (Event.read.inj hb).1
  | @writes j a c c' _ hwrites =>
      refine .elsewhere nofun (hwrites.toAside.elsewhere ?_)
      refine stepWrite_records (s := s) (i := j) (c := c) (a := a) ?_
      simpa only [next, hup, Option.isSome_none, Bool.false_eq_true, if_false,
        hwrites.touches.before, Option.bind_some] using h
  | @keeps j a c c' _ hkeeps =>
      refine .elsewhere nofun (hkeeps.toAside.elsewhere ?_)
      refine stepKeep_records (s := s) (i := j) (c := c) (a := a) ?_
      simpa only [next, hup, Option.isSome_none, Bool.false_eq_true, if_false,
        hkeeps.touches.before, Option.bind_some] using h
  | arrives => exact .elsewhere nofun (elsewhere_refl rfl rfl)
  | finds => exact .elsewhere nofun (elsewhere_refl rfl rfl)
  | throws => exact .elsewhere nofun (elsewhere_refl rfl rfl)
  | queues _ haside hquiet => exact .elsewhere nofun (haside.elsewhere (.inl hquiet))

end Events

/-! ## What has been read -/

def Act.input (i : Nat) : Act → List UInt8
  | read j _ (.bytes bs) => if j = i then bs else []
  | _ => []

def received (i : Nat) (log : List Act) : List UInt8 := gather (Act.input i) log

def Act.Refused (i : Nat) : Act → Prop
  | read j _ a => j = i ∧ a = .error
  | _ => False

instance (i : Nat) (act : Act) : Decidable (act.Refused i) :=
  match act with
  | .read .. => inferInstanceAs (Decidable (_ ∧ _))
  | .wrote .. | .locked .. | .pushed .. => inferInstanceAs (Decidable False)

def Refused (i : Nat) (log : List Act) : Prop := ∃ act ∈ log, act.Refused i

instance (i : Nat) (log : List Act) : Decidable (Refused i log) :=
  inferInstanceAs (Decidable (∃ act ∈ log, act.Refused i))

/-- The request that `readThread` comes to the `switch` with. -/
def Conn.taken (c : Conn) : List Request :=
  if c.reading = .dispatch then [c.message.request] else []

def taken (i : Nat) (s : State) : Event → List Request
  | .read j _ => if j = i then s.conns[i]?.toList.flatMap Conn.taken else []
  | _ => []

/-- How many bytes from the front of `message` have been read and not been used yet. -/
def Conn.held (c : Conn) : Nat :=
  match c.reading with
  | .header total => total
  | .body total => sizeofMessage + total
  | .dispatch => sizeofMessage + awaited c.message.header
  | _ => 0

/-- The bytes that a step adds to what is held: those it reads, and where a read of the header fails
those that `message` has in place of the missing ones. -/
def Conn.fed (c : Conn) (a : Answer) : List UInt8 :=
  match c.reading, a with
  | .header _, .bytes bs => bs
  | .header total, .error => c.message.load total (sizeofMessage - total)
  | .body _, .bytes bs => bs
  | _, _ => []

def fed (i : Nat) (s : State) : Event → List UInt8
  | .read j a => if j = i then s.conns[i]?.toList.flatMap fun c => c.fed a else []
  | _ => []

/-- A read loop is entered only while something is missing. -/
def Conn.Waiting (c : Conn) : Prop :=
  match c.reading with
  | .header total => total < sizeofMessage
  | .body total => c.message.header.type = msgDataReq ∧ total < c.message.bodySize
  | _ => True

/-- `readThread` has come to the `switch` with `seen`, and holds the rest of what was read. -/
structure Reading (i : Nat) (seen : List Request) (s : State) : Prop where
  early : s.conns[i]? = none → seen = [] ∧ received i s.log = []
  waiting : ∀ c, s.conns[i]? = some c → c.Waiting
  held : ∀ c, s.conns[i]? = some c → s.crash = none → ¬ Refused i s.log →
    received i s.log = requestCode.stream seen ++ c.message.load 0 c.held

section Reading

variable {s s' : State} {i : Nat} {c c' : Conn} {a : Answer}

theorem received_read (on : Option Nat) (bs : List UInt8) (log : List Act) :
    received i (.read i on (.bytes bs) :: log) = received i log ++ bs := by
  rw [received, gather_cons, Act.input, if_pos rfl]
  rfl

theorem received_alien {act : Act} (h : act.Alien i) (log : List Act) :
    received i (act :: log) = received i log ∧ (Refused i (act :: log) ↔ Refused i log) := by
  have hnothing : Act.input i act = [] ∧ ¬ act.Refused i := by
    cases act with
    | read j on b =>
        refine ⟨?_, fun hrefused => h hrefused.1⟩
        cases b with
        | bytes bs => exact if_neg h
        | _ => rfl
    | _ => exact ⟨rfl, id⟩
  refine ⟨?_, fun ⟨old, hold, hrefused⟩ => ?_, fun ⟨old, hold, hrefused⟩ => ?_⟩
  · rw [received, gather_cons, hnothing.1, List.append_nil]
    rfl
  · rcases List.mem_cons.mp hold with rfl | hold
    · exact absurd hrefused hnothing.2
    · exact ⟨old, hold, hrefused⟩
  · exact ⟨old, List.mem_cons_of_mem act hold, hrefused⟩

/-- Behind a header comes the data or the `switch`. -/
theorem headerRead_waiting (c : Conn) : c.headerRead.Waiting ∧
    (c.headerRead.held = sizeofMessage) ∧ c.headerRead.message = c.message := by
  by_cases hbody : c.message.header.type = msgDataReq ∧ 0 < c.message.bodySize
  · have hpoint : c.headerRead.reading = .body 0 := if_pos hbody
    refine ⟨?_, ?_, rfl⟩
    · rw [Conn.Waiting, hpoint]
      exact hbody
    · rw [Conn.held, hpoint]
  · have hpoint : c.headerRead.reading = .dispatch := if_neg hbody
    refine ⟨?_, ?_, rfl⟩
    · rw [Conn.Waiting, hpoint]
      trivial
    · rw [Conn.held, hpoint]
      have hzero : awaited c.message.header = 0 := by
        unfold awaited
        split
        · rename_i htype
          have hsize : ¬ 0 < c.message.bodySize := fun hpos => hbody ⟨htype, hpos⟩
          exact Int.toNat_of_nonpos (Int.not_lt.mp hsize)
        · rfl
      exact congrArg (sizeofMessage + ·) hzero

/-- Bytes stored behind what is held are held as well. -/
theorem load_store_held (m : Msg) (n : Nat) (bs : List UInt8) :
    (m.store n bs).load 0 (n + bs.length) = m.load 0 n ++ bs := by
  have happ := CellMemory.load_store_append m 0 n bs
  rwa [Nat.zero_add] at happ

theorem held_dispatch (hpoint : c.reading = .dispatch) :
    c.message.load 0 c.held = c.message.request.bytes := by
  rw [Conn.held, hpoint, Msg.request_bytes]

theorem taken_dispatch (hpoint : c.reading = .dispatch) : c.taken = [c.message.request] :=
  if_pos hpoint

theorem taken_of_ne (hpoint : c.reading ≠ .dispatch) : c.taken = [] := if_neg hpoint

/-- The body loop ends with all the data that the header announces. -/
theorem awaited_body {m : Message} (htype : m.type = msgDataReq) {n : Nat}
    (hsize : (n : Int) = int32 (m.length - 5)) : awaited m = n := by
  rw [awaited, if_pos htype, ← hsize, Int.toNat_natCast]

theorem Takes.waiting (h : Takes s i c a c' s') (hwaiting : c.Waiting) : c'.Waiting := by
  cases h with
  | begins => exact (Nat.succ_pos 4 : 0 < sizeofMessage)
  | waits => exact hwaiting
  | reads _ _ hshort hresult =>
      rw [hresult]
      exact hshort
  | completes _ _ _ hresult =>
      rw [hresult]
      exact (headerRead_waiting _).1
  | breaks => exact (headerRead_waiting c).1
  | stores hpoint _ _ hnext hresult =>
      rw [Conn.Waiting, hpoint] at hwaiting
      rw [hresult]
      rcases hnext with ⟨hshort, rfl⟩ | ⟨_, rfl⟩
      · refine ⟨?_, ?_⟩
        · rw [Msg.header_store]
          exact hwaiting.1
        · rw [Msg.bodySize_store]
          exact hshort
      · trivial
  | overflows => exact hwaiting
  | throws => exact hwaiting
  | _ => trivial

theorem fed_again (c : Conn) : c.fed .again = [] := by
  unfold Conn.fed
  split <;> simp_all

theorem fed_of_idle (hheader : ∀ total, c.reading ≠ .header total)
    (hbody : ∀ total, c.reading ≠ .body total) : c.fed a = [] := by
  unfold Conn.fed
  split <;> simp_all

theorem fed_bytes (hpoint : (∃ total, c.reading = .header total) ∨ ∃ total, c.reading = .body total)
    (bs : List UInt8) : c.fed (.bytes bs) = bs := by
  rcases hpoint with ⟨total, hpoint⟩ | ⟨total, hpoint⟩ <;> simp [Conn.fed, hpoint]

/-- What comes in is added to what is held, and the `switch` takes all of it. Only a failed read of the
data loses what is held. -/
theorem Takes.fed (h : Takes s i c a c' s') (hwaiting : c.Waiting) (hup : s'.crash = none) :
    c.message.load 0 c.held ++ c.fed a = requestCode.stream c.taken ++ c'.message.load 0 c'.held ∨
      Refused i s'.log ∧ ∃ total, c.reading = .body total ∧ a = .error ∧
        c' = { c with reading := .ending } := by
  have hswitch : c.reading = .dispatch → c'.held = 0 →
      c.message.load 0 c.held ++ c.fed a =
        requestCode.stream c.taken ++ c'.message.load 0 c'.held := by
    intro hpoint hnone
    rw [held_dispatch hpoint, taken_dispatch hpoint, hnone, CellMemory.load_zero,
      fed_of_idle (by simp [hpoint]) (by simp [hpoint]), PrefixCode.stream_cons,
      PrefixCode.stream_nil, List.append_nil, List.append_nil, List.append_nil]
    rfl
  cases h with
  | begins hpoint _ =>
      left
      rw [taken_of_ne (by simp [hpoint]), fed_of_idle (by simp [hpoint]) (by simp [hpoint]), Conn.held,
        hpoint]
      rfl
  | stops hpoint _ =>
      left
      rw [taken_of_ne (by simp [hpoint]), fed_of_idle (by simp [hpoint]) (by simp [hpoint]), Conn.held,
        hpoint]
      rfl
  | waits hpoint =>
      left
      have hnone : c.taken = [] := taken_of_ne (by rcases hpoint with ⟨_, h⟩ | ⟨_, h⟩ <;> simp [h])
      rw [hnone, fed_again, List.append_nil]
      rfl
  | @reads bs total _ hpoint _ hshort hresult =>
      left
      rw [taken_of_ne (by simp [hpoint]), fed_bytes (.inl ⟨total, hpoint⟩), Conn.held, hpoint, hresult]
      exact (load_store_held c.message total bs).symm
  | @completes bs total _ hpoint _ hall hresult =>
      left
      obtain ⟨_, hheld, hmessage⟩ :=
        headerRead_waiting { c with message := c.message.store total bs }
      rw [taken_of_ne (by simp [hpoint]), fed_bytes (.inl ⟨total, hpoint⟩), Conn.held, hpoint, hresult,
        hheld, hmessage, ← hall]
      exact (load_store_held c.message total bs).symm
  | @breaks total hpoint =>
      left
      obtain ⟨_, hheld, hmessage⟩ := headerRead_waiting c
      rw [Conn.Waiting, hpoint] at hwaiting
      have hfill := CellMemory.load_add c.message 0 total (sizeofMessage - total)
      rw [Nat.zero_add, Nat.add_sub_cancel' (Nat.le_of_lt hwaiting)] at hfill
      have hrest : c.fed .error = c.message.load total (sizeofMessage - total) := by
        simp [Conn.fed, hpoint]
      rw [taken_of_ne (by simp [hpoint]), hrest, hheld, hmessage, Conn.held, hpoint]
      exact hfill.symm
  | @stores bs total p _ hpoint _ _ hnext hresult =>
      left
      rw [Conn.Waiting, hpoint] at hwaiting
      have hheld : c'.held = sizeofMessage + total + bs.length := by
        rw [hresult]
        rcases hnext with ⟨_, rfl⟩ | ⟨hall, rfl⟩
        · exact (Nat.add_assoc _ _ _).symm
        · simp only [Conn.held]
          rw [Msg.header_store, awaited_body hwaiting.1 hall, Nat.add_assoc]
      rw [taken_of_ne (by simp [hpoint]), fed_bytes (.inr ⟨total, hpoint⟩), hheld, Conn.held, hpoint,
        hresult]
      exact (load_store_held c.message (sizeofMessage + total) bs).symm
  | overflows => cases hup
  | @loses total hpoint =>
      exact .inr ⟨⟨_, List.mem_cons_self, rfl, rfl⟩, total, hpoint, rfl, rfl⟩
  | asks hpoint _ => exact .inl (hswitch hpoint rfl)
  | resets hpoint _ => exact .inl (hswitch hpoint rfl)
  | pushes hpoint _ _ => exact .inl (hswitch hpoint rfl)
  | throws => cases hup
  | skips hpoint _ => exact .inl (hswitch hpoint rfl)

/-- As long as no read has failed, it is what has been read. -/
theorem Takes.input (h : Takes s i c a c' s') (hfine : ¬ Refused i s'.log) :
    received i s'.log = received i s.log ++ c.fed a := by
  have hquiet : (∀ total, c.reading ≠ .header total) → (∀ total, c.reading ≠ .body total) →
      received i s.log = received i s.log ++ c.fed a := by
    intro hheader hbody
    rw [fed_of_idle hheader hbody, List.append_nil]
  cases h with
  | waits =>
      rw [fed_again]
      rfl
  | reads hpoint =>
      rw [fed_bytes (.inl ⟨_, hpoint⟩)]
      exact received_read _ _ s.log
  | completes hpoint =>
      rw [fed_bytes (.inl ⟨_, hpoint⟩)]
      exact received_read _ _ s.log
  | stores hpoint =>
      rw [fed_bytes (.inr ⟨_, hpoint⟩)]
      exact received_read _ _ s.log
  | overflows hpoint =>
      rw [fed_bytes (.inr ⟨_, hpoint⟩)]
      exact received_read _ _ s.log
  | breaks => exact absurd ⟨_, List.mem_cons_self, rfl, rfl⟩ hfine
  | loses => exact absurd ⟨_, List.mem_cons_self, rfl, rfl⟩ hfine
  | pushes hpoint =>
      exact (List.append_nil _).trans (hquiet (by simp [hpoint]) (by simp [hpoint]))
  | begins hpoint => exact hquiet (by simp [hpoint]) (by simp [hpoint])
  | stops hpoint => exact hquiet (by simp [hpoint]) (by simp [hpoint])
  | asks hpoint => exact hquiet (by simp [hpoint]) (by simp [hpoint])
  | resets hpoint => exact hquiet (by simp [hpoint]) (by simp [hpoint])
  | throws hpoint => exact hquiet (by simp [hpoint]) (by simp [hpoint])
  | skips hpoint => exact hquiet (by simp [hpoint]) (by simp [hpoint])

/-- What is read is added to what is held, and the `switch` takes all of it. -/
theorem Takes.held (h : Takes s i c a c' s') (hwaiting : c.Waiting) (hup : s'.crash = none)
    (hfine : ¬ Refused i s'.log) :
    ∃ bs, received i s'.log = received i s.log ++ bs ∧
      c.message.load 0 c.held ++ bs = requestCode.stream c.taken ++ c'.message.load 0 c'.held :=
  ⟨c.fed a, h.input hfine, (h.fed hwaiting hup).resolve_right fun hlost => hfine hlost.1⟩

/-- Nothing is read and nothing is held on the way to an address. -/
theorem Serves.held (h : Serves s i c a c' s') (hbusy : ¬ c.reading.Idle) :
    c.held = 0 ∧ c'.held = 0 ∧ c.taken = [] ∧ c'.Waiting := by
  have hnone : ∀ d : Conn, ¬ d.reading.Idle ∨ d.reading = .check → d.held = 0 ∧ d.Waiting := by
    intro d hd
    unfold Conn.held Conn.Waiting
    cases hpoint : d.reading with
    | header total => simp [hpoint, ReadPoint.Idle] at hd
    | body total => simp [hpoint, ReadPoint.Idle] at hd
    | dispatch => simp [hpoint, ReadPoint.Idle] at hd
    | _ => exact ⟨rfl, trivial⟩
  refine ⟨(hnone c (.inl hbusy)).1, (hnone c' h.target).1, taken_of_ne fun hpoint => ?_,
    (hnone c' h.target).2⟩
  rw [hpoint] at hbusy
  exact hbusy trivial

theorem taken_of_read {seen : List Request} (hc : s.conns[i]? = some c) :
    seen ++ taken i s (.read i a) = seen ++ c.taken := by
  simp [taken, hc]

theorem taken_of_other {e : Event} (hother : ∀ a, e ≠ .read i a) : taken i s e = [] := by
  cases e with
  | read j a =>
      refine if_neg fun hj => hother a ?_
      rw [hj]
  | _ => rfl

/-- What was recorded stays. -/
theorem refused_next {e : Event} (hstep : next s e = some s') (h : Refused i s.log) :
    Refused i s'.log := by
  obtain ⟨act, hact, hrefused⟩ := h
  refine ⟨act, ?_, hrefused⟩
  have hmore : s'.log = s.log ∨ ∃ new, s'.log = new :: s.log := by
    obtain ⟨_, hnext⟩ := next_spec hstep
    have htouches : ∀ {j : Nat} {d d' : Conn}, Touches s j d d' s' →
        s'.log = s.log ∨ ∃ new, s'.log = new :: s.log :=
      fun htouches => htouches.log.imp_right fun ⟨new, hlog, _⟩ => ⟨new, hlog⟩
    cases hnext with
    | reads hreads => exact htouches hreads.touches
    | writes hwrites => exact htouches hwrites.touches
    | keeps hkeeps => exact htouches hkeeps.touches
    | queues _ haside => exact htouches haside.touches
    | _ => exact .inl rfl
  rcases hmore with hlog | ⟨new, hlog⟩
  · exact hlog ▸ hact
  · exact hlog ▸ List.mem_cons_of_mem new hact

theorem received_of_alien (h : s'.log = s.log ∨ ∃ act, s'.log = act :: s.log ∧ act.Alien i) :
    received i s'.log = received i s.log := by
  rcases h with hlog | ⟨act, hlog, halien⟩
  · rw [hlog]
  · rw [hlog, (received_alien halien s.log).1]

theorem reading_next {seen : List Request} {e : Event} (h : Reading i seen s)
    (hstep : next s e = some s') : Reading i (seen ++ taken i s e) s' := by
  have hup : s.crash = none := (next_spec hstep).1
  have hbefore : ¬ Refused i s'.log → ¬ Refused i s.log := fun hfine hrefused =>
    hfine (refused_next hstep hrefused)
  cases next_reader hstep i with
  | @takes a c c' hevent hc hc' htakes =>
      subst hevent
      have hwaiting := h.waiting c hc
      refine ⟨fun hnone => ?_, fun d hd => ?_, fun d hd hup' hfine => ?_⟩
      · rw [hc'] at hnone
        cases hnone
      · obtain rfl := Option.some.inj (hd.symm.trans hc')
        exact htakes.waiting hwaiting
      · obtain rfl := Option.some.inj (hd.symm.trans hc')
        obtain ⟨bs, hread, hmove⟩ := htakes.held hwaiting hup' hfine
        rw [hread, h.held c hc hup (hbefore hfine), taken_of_read hc, PrefixCode.stream_append,
          List.append_assoc, List.append_assoc, hmove]
  | @serves a c c' hevent hc hbusy hserves =>
      subst hevent
      obtain ⟨hheld, hheld', htaken, hwaiting⟩ := hserves.held hbusy
      refine ⟨fun hnone => ?_, fun d hd => ?_, fun d hd hup' hfine => ?_⟩
      · rw [hserves.after] at hnone
        cases hnone
      · obtain rfl := Option.some.inj (hd.symm.trans hserves.after)
        exact hwaiting
      · obtain rfl := Option.some.inj (hd.symm.trans hserves.after)
        rw [received_of_alien hserves.log.alien, h.held c hc hup (hbefore hfine), hheld, hheld',
          taken_of_read hc, htaken, List.append_nil]
        rfl
  | elsewhere hother haway =>
      rw [taken_of_other hother, List.append_nil]
      have hread := received_of_alien haway.log
      cases hc : s.conns[i]? with
      | none =>
          obtain ⟨hseen, hnothing⟩ := h.early hc
          refine ⟨fun _ => ⟨hseen, hread.trans hnothing⟩, fun d hd => ?_, fun d hd _ _ => ?_⟩
          · obtain ⟨fd, stale, rfl⟩ := haway.fresh hc d hd
            trivial
          · obtain ⟨fd, stale, rfl⟩ := haway.fresh hc d hd
            rw [hread, hnothing, hseen]
            rfl
      | some c =>
          obtain ⟨c', hc', _, hpoint, hmessage, _⟩ := haway.kept c hc
          have hheld : c'.held = c.held := by rw [Conn.held, Conn.held, hpoint, hmessage]
          refine ⟨fun hnone => ?_, fun d hd => ?_, fun d hd _ hfine => ?_⟩
          · rw [hc'] at hnone
            cases hnone
          · obtain rfl := Option.some.inj (hd.symm.trans hc')
            have hwaiting := h.waiting c hc
            rw [Conn.Waiting, hpoint, hmessage]
            exact hwaiting
          · obtain rfl := Option.some.inj (hd.symm.trans hc')
            rw [hread, h.held c hc hup (hbefore hfine), hheld, hmessage]

end Reading

theorem reading_start (i : Nat) (files : List (Option File)) : Reading i [] (State.start files) where
  early _ := ⟨rfl, rfl⟩
  waiting c hc := by simp [State.start] at hc
  held c hc := by simp [State.start] at hc

/-- In every run the bytes that a connection has read are the requests that its `readThread` came to
the `switch` with, and what it holds. -/
theorem reading_of_run {files : List (Option File)} {es : List Event} {s : State}
    (hrun : run next (State.start files) es = some s) (i : Nat) :
    Reading i (outputs next (taken i) (State.start files) es) s := by
  have hreading := run_outputs (taken i) (fun _ _ => False) (Reading i)
    (fun _ _ _ _ h _ hstep => reading_next h hstep) (reading_start i files) hrun
    (fun _ _ _ _ _ _ => not_false)
  rwa [List.nil_append] at hreading

end Over6.Threaded
