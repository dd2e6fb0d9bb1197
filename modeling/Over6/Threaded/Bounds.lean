import Over6.Threaded.Stream
import Over6.Threaded.Upstream

/-! # What `readThread` stores

`message.data` has 4096 bytes. The length of a request says how much is read into them
and how much is taken out for the tun; nothing checks it.
-/

namespace Over6.Threaded

open MachineInt EventRun

/-! ## The cells of a step -/

/-- The stores of a step to `message`: where each begins, and how many cells it takes. -/
def State.stores (s : State) (c : Conn) : Answer → List (Nat × Nat)
  | .bytes bs =>
      match c.reading with
      | .header total => [(total, bs.length)]
      | .body total => [(sizeofMessage + total, bs.length)]
      | .choose =>
          match s.assigned c with
          | none => []
          | some addr =>
              let length := (ipInfoStr addr).length + 5
              -- `memset`, the type and the length, `memcpy`, and the last `'\0'`.
              [(sizeofMessage, sizeofData), (0, sizeofMessage), (sizeofMessage, length),
                (sizeofMessage + length, 1)]
      | _ => []
  | _ => []

/-- The length of the string that is made of `message.data` for `pushQueue`. -/
def Conn.handed (c : Conn) : Option Int :=
  if c.reading = .dispatch ∧ c.message.header.type = msgDataReq then some c.message.header.length
  else none

/-- No store of the step goes behind the end of `message.data`. -/
def Contained (s : State) : Event → Prop
  | .read i a =>
      ∀ c ∈ s.conns[i]?, ∀ st ∈ s.stores c a, st.1 + st.2 ≤ sizeofMessage + sizeofData
  | _ => True

/-- A string that is to be made has bytes of `message.data` only. -/
def Conn.Enclosed (c : Conn) : Prop := ∀ n ∈ c.handed, 0 ≤ n ∧ n ≤ sizeofData

structure InBounds (files : List (Option File)) (es : List Event) : Prop where
  stores : ∀ pre e post u, es = pre ++ e :: post → run next (State.start files) pre = some u →
    Contained u e
  /-- No byte behind `message.data` changes. -/
  cells : ∀ pre e post u u', es = pre ++ e :: post → run next (State.start files) pre = some u →
    next u e = some u' → ∀ (i : Nat) c c', u.conns[i]? = some c → u'.conns[i]? = some c' →
      ∀ k, sizeofMessage + sizeofData ≤ k → c'.message k = c.message k
  strings : ∀ pre u, pre <+: es → run next (State.start files) pre = some u →
    ∀ (i : Nat) c, u.conns[i]? = some c → c.Enclosed

/-! ## Bytes that do not fit -/

/-- `message.data` has room for as many bytes as a type-102 message has with its header. -/
def Roomy (m : Message) : Prop := m.type = msgDataReq → 0 ≤ m.length ∧ m.length ≤ sizeofData

instance (m : Message) : Decidable (Roomy m) := inferInstanceAs (Decidable (_ → _))

/-- A type-102 header with a length below 0 or above 4096, and behind it all the data it announces, or
more than 4096 bytes of them. -/
def Bursts (bytes : List UInt8) : Prop :=
  ∃ header data : List UInt8, bytes = header ++ data ∧ header.length = sizeofMessage ∧
    ¬ Roomy (Message.ofBytes header) ∧
    min (awaited (Message.ofBytes header)) (sizeofData + 1) ≤ data.length

/-- They come behind whole requests. -/
def Overruns (bytes : List UInt8) : Prop :=
  ∃ (seen : List Request) (rest : List UInt8), bytes = requestCode.stream seen ++ rest ∧ Bursts rest

/-- The bytes are less than a request, and have not burst. -/
structure Stuck (rest : List UInt8) : Prop where
  short : ∀ (r : Request) more, rest ≠ r.bytes ++ more
  calm : ¬ Bursts rest

theorem Overruns.append {bytes : List UInt8} (h : Overruns bytes) (more : List UInt8) :
    Overruns (bytes ++ more) := by
  obtain ⟨seen, _, rfl, header, data, rfl, hsize, hroomy, henough⟩ := h
  refine ⟨seen, header ++ (data ++ more), by simp, header, data ++ more, rfl, hsize, hroomy, ?_⟩
  rw [List.length_append]
  omega

theorem stuck_of_short {rest : List UInt8} (h : rest.length < sizeofMessage) : Stuck rest := by
  refine ⟨?_, ?_⟩
  · rintro r more rfl
    rw [List.length_append, Request.bytes_length] at h
    omega
  · rintro ⟨header, data, rfl, hsize, _⟩
    rw [List.length_append] at h
    omega

/-- Data that are not complete and not too many. -/
theorem stuck_of_data {header data : List UInt8} (hsize : header.length = sizeofMessage)
    (hpart : data.length < awaited (Message.ofBytes header)) (hroom : data.length ≤ sizeofData) :
    Stuck (header ++ data) := by
  refine ⟨fun r more hr => ?_, ?_⟩
  · rw [Request.bytes, List.append_assoc] at hr
    obtain ⟨rfl, rfl⟩ := List.append_inj hr (hsize.trans r.size.symm)
    rw [List.length_append, r.whole] at hpart
    omega
  · rintro ⟨header', data', hr, hsize', _, henough⟩
    obtain ⟨rfl, rfl⟩ := List.append_inj hr (hsize.trans hsize'.symm)
    omega

theorem not_overruns {seen : List Request} {rest : List UInt8} (hseen : ∀ r ∈ seen, Roomy r.message)
    (hrest : Stuck rest) : ¬ Overruns (requestCode.stream seen ++ rest) := by
  rintro ⟨other, burst, hsplit, hburst⟩
  induction seen generalizing other with
  | nil =>
      cases other with
      | nil => exact hrest.calm (by rwa [show rest = burst from hsplit])
      | cons r other =>
          rw [PrefixCode.stream_cons, List.append_assoc] at hsplit
          exact hrest.short r _ hsplit
  | cons r seen ih =>
      rw [PrefixCode.stream_cons, List.append_assoc] at hsplit
      cases other with
      | nil =>
          obtain ⟨header, data, rfl, hsize, hroomy, _⟩ := hburst
          have hfront : r.header ++ (r.data ++ (requestCode.stream seen ++ rest)) = header ++ data := by
            rw [← List.append_assoc]
            exact hsplit
          obtain ⟨rfl, _⟩ := List.append_inj hfront (r.size.trans hsize.symm)
          exact hroomy (hseen r List.mem_cons_self)
      | cons r' other =>
          rw [PrefixCode.stream_cons, List.append_assoc] at hsplit
          obtain rfl := requestCode.separated r r' _ _ trivial trivial hsplit
          exact ih (fun q hq => hseen q (List.mem_cons_of_mem r hq)) other
            (List.append_cancel_left hsplit)

theorem stuck_nil : Stuck [] := stuck_of_short (by decide)

theorem not_overruns_nil : ¬ Overruns [] := by
  have hnone := not_overruns (List.forall_mem_nil fun r : Request => Roomy r.message) stuck_nil
  rwa [PrefixCode.stream_nil] at hnone

/-- More than 4096 bytes of data are announced by a length out of range only. -/
theorem not_roomy {m : Message} (htype : m.type = msgDataReq)
    (hmany : (sizeofData : Int) < int32 (m.length - 5)) : ¬ Roomy m := by
  intro hroomy
  obtain ⟨hlo, hhi⟩ := hroomy htype
  have hdata : (sizeofData : Int) = 4096 := rfl
  rw [int32_of_range (by omega) (by omega)] at hmany
  omega

/-! ## Other cells stay as they are -/

def Outside (k : Nat) (stores : List (Nat × Nat)) : Prop :=
  ∀ st ∈ stores, k < st.1 ∨ st.1 + st.2 ≤ k

theorem store_outside (m : Msg) {off k : Nat} {bs : List UInt8} (h : k < off ∨ off + bs.length ≤ k) :
    CellMemory.store m off bs k = m k := by
  rcases h with hlt | hge
  · exact CellMemory.store_of_lt m bs hlt
  · rw [CellMemory.store, if_pos (by omega), List.getD_eq_getElem?_getD,
      List.getElem?_eq_none (by omega), Option.getD_none]

/-- The reply is stored where `stores` says. -/
theorem replyMsg_outside (m : Msg) {addr behind : List UInt8} {k : Nat} (hbehind : behind.length = 4)
    (hclear : k < sizeofMessage ∨ sizeofMessage + sizeofData ≤ k) (hheader : sizeofMessage ≤ k)
    (hcopy : k < sizeofMessage ∨ sizeofMessage + ((ipInfoStr addr).length + 5) ≤ k)
    (hnul : k < sizeofMessage + ((ipInfoStr addr).length + 5) ∨
      sizeofMessage + ((ipInfoStr addr).length + 5) + 1 ≤ k) :
    replyMsg m addr behind k = m k := by
  have hlen : ((ipInfoStr addr ++ 0 :: behind).take ((ipInfoStr addr).length + 5) ++ [0]).length =
      (ipInfoStr addr).length + 5 + 1 := by
    simp [hbehind]
  have hcells : m.clearData k = m k := if_neg (by omega)
  rw [replyMsg, Msg.fill, store_outside _ (by rw [hlen]; omega), store_outside _ ?_, hcells]
  rw [Message.bytes_length]
  omega

section Steps

variable {s s' : State} {i : Nat} {c c' : Conn} {a : Answer}

theorem Takes.outside (h : Takes s i c a c' s') {k : Nat} (hk : Outside k (s.stores c a)) :
    c'.message k = c.message k := by
  cases h with
  | reads hpoint _ _ hresult =>
      simp only [State.stores, hpoint, Outside, List.mem_singleton, forall_eq] at hk
      rw [hresult]
      exact store_outside c.message hk
  | completes hpoint _ _ hresult =>
      simp only [State.stores, hpoint, Outside, List.mem_singleton, forall_eq] at hk
      rw [hresult]
      exact store_outside c.message hk
  | stores hpoint _ _ _ hresult =>
      simp only [State.stores, hpoint, Outside, List.mem_singleton, forall_eq] at hk
      rw [hresult]
      exact store_outside c.message hk
  | _ => rfl

theorem Serves.outside (h : Serves s i c a c' s') {k : Nat} (hk : Outside k (s.stores c a)) :
    c'.message k = c.message k := by
  rcases h.message with ⟨hsame, _⟩ | ⟨addr, behind, hbuilds⟩
  · rw [hsame]
  · obtain ⟨rfl, hfour⟩ := hbuilds.copied
    simp only [State.stores, hbuilds.point, hbuilds.assigned, Outside, List.mem_cons,
      List.not_mem_nil, or_false, forall_eq_or_imp, forall_eq] at hk
    obtain ⟨hclear, hheader, hcopy, hnul⟩ := hk
    rw [hbuilds.result.2.2]
    exact replyMsg_outside c.message hfour hclear (by omega) hcopy hnul

/-- A step changes no other cell of the message than those it stores to. -/
theorem stores_only (hc : s.conns[i]? = some c) (h : next s (.read i a) = some s') {k : Nat}
    (hk : Outside k (s.stores c a)) :
    ∀ c', s'.conns[i]? = some c' → c'.message k = c.message k := by
  intro c' hc'
  cases next_reader h i with
  | takes hevent hbefore hafter htakes =>
      obtain ⟨_, rfl⟩ := Event.read.inj hevent
      obtain rfl := Option.some.inj (hc.symm.trans hbefore)
      obtain rfl := Option.some.inj (hc'.symm.trans hafter)
      exact htakes.outside hk
  | serves hevent hbefore _ hserves =>
      obtain ⟨_, rfl⟩ := Event.read.inj hevent
      obtain rfl := Option.some.inj (hc.symm.trans hbefore)
      obtain rfl := Option.some.inj (hc'.symm.trans hserves.after)
      exact hserves.outside hk
  | elsewhere hother _ => exact absurd rfl (hother a)

/-- If they all are inside, no byte behind `message.data` changes. -/
theorem behind_same {e : Event} (h : next s e = some s') (hin : Contained s e)
    (hc : s.conns[i]? = some c) (hc' : s'.conns[i]? = some c') {k : Nat}
    (hk : sizeofMessage + sizeofData ≤ k) : c'.message k = c.message k := by
  cases next_reader h i with
  | takes hevent _ _ _ =>
      subst hevent
      exact stores_only hc h (fun st hst => .inr (Nat.le_trans (hin c hc st hst) hk)) c' hc'
  | serves hevent _ _ _ =>
      subst hevent
      exact stores_only hc h (fun st hst => .inr (Nat.le_trans (hin c hc st hst) hk)) c' hc'
  | elsewhere _ haway =>
      obtain ⟨d, hd, _, _, hmessage, _⟩ := haway.kept c hc
      obtain rfl := Option.some.inj (hd.symm.trans hc')
      rw [hmessage]

/-! ## What is in bounds -/

theorem assigned_length (hmailed : c.Mailed) {addr : List UInt8} (h : s.assigned c = some addr) :
    (ipInfoStr addr).length ≤ 57 := by
  have htext : ∃ n, n < 1024 ∧ addr = ipText n := by
    unfold State.assigned at h
    split at h
    · obtain ⟨n, hfree, rfl⟩ := Option.map_eq_some_iff.mp h
      exact ⟨n, (getFreeIP_spec hfree).2.1, rfl⟩
    · rename_i hheld
      obtain rfl := Option.some.inj h
      exact hmailed.address.resolve_left hheld
  obtain ⟨n, hn, rfl⟩ := htext
  exact ipInfoStr_length hn

/-- A read of the rest of the header stays in the header. -/
theorem header_inBounds {total : Nat} {bs : List UInt8} (hc : s.conns[i]? = some c)
    (hpoint : c.reading = .header total) (h : next s (.read i (.bytes bs)) = some s') :
    total + bs.length ≤ sizeofMessage := by
  have hstep := stepRead_of_next hc h
  simp only [stepRead, hpoint, Conn.readHeader] at hstep
  split at hstep
  · obtain ⟨c', hread, _⟩ := Option.map_eq_some_iff.mp hstep
    split at hread
    · rename_i hsize
      exact hsize.2
    · cases hread
  · cases hstep

/-- The reply fits for every address. -/
theorem reply_inBounds (hmailed : c.Mailed) (hpoint : c.reading = .choose) :
    ∀ st ∈ s.stores c a, st.1 + st.2 ≤ sizeofMessage + sizeofData := by
  intro st hst
  cases a with
  | bytes bs =>
      cases haddr : s.assigned c with
      | none => simp [State.stores, hpoint, haddr] at hst
      | some addr =>
          have hlen := assigned_length hmailed haddr
          have hroom : 57 + 6 ≤ sizeofData := by decide
          simp only [State.stores, hpoint, haddr, List.mem_cons, List.not_mem_nil, or_false] at hst
          rcases hst with rfl | rfl | rfl | rfl <;> simp only <;> omega
  | _ => cases hst

/-- No more than the data that are missing is read. -/
theorem body_asked {total : Nat} {bs : List UInt8} (hc : s.conns[i]? = some c)
    (hpoint : c.reading = .body total) (h : next s (.read i (.bytes bs)) = some s') :
    ((total + bs.length : Nat) : Int) ≤ c.message.bodySize := by
  have hstep := stepRead_of_next hc h
  simp only [stepRead, hpoint, Conn.readBody] at hstep
  split at hstep
  · obtain ⟨r, hread, _⟩ := Option.map_eq_some_iff.mp hstep
    split at hread
    · rename_i hsize
      exact hsize.2
    · cases hread
  · cases hstep

/-- Only the data can be too many. -/
theorem stores_inBounds (hmailed : c.Mailed) (hc : s.conns[i]? = some c)
    (h : next s (.read i a) = some s')
    (hbody : ∀ total bs, c.reading = .body total → a = .bytes bs → total + bs.length ≤ sizeofData) :
    ∀ st ∈ s.stores c a, st.1 + st.2 ≤ sizeofMessage + sizeofData := by
  intro st hst
  cases hpoint : c.reading with
  | header total =>
      cases a with
      | bytes bs =>
          have hfits := header_inBounds hc hpoint h
          simp only [State.stores, hpoint, List.mem_singleton] at hst
          rw [hst]
          exact Nat.le_trans hfits (Nat.le_add_right _ _)
      | _ => cases hst
  | body total =>
      cases a with
      | bytes bs =>
          have hroom := hbody total bs hpoint rfl
          simp only [State.stores, hpoint, List.mem_singleton] at hst
          rw [hst]
          simp only
          omega
      | _ => cases hst
  | choose => exact reply_inBounds hmailed hpoint st hst
  | _ => cases a <;> simp [State.stores, hpoint] at hst

theorem handed_of_ne (hpoint : c.reading ≠ .dispatch) : c.handed = none :=
  if_neg fun h => hpoint h.1

/-- The string of a message that fits is inside, and of no other one. -/
theorem enclosed_iff (hpoint : c.reading = .dispatch) : c.Enclosed ↔ Roomy c.message.header := by
  by_cases htype : c.message.header.type = msgDataReq
  · have hhanded : c.handed = some c.message.header.length := if_pos ⟨hpoint, htype⟩
    simp [Conn.Enclosed, hhanded, Roomy, htype]
  · have hhanded : c.handed = none := if_neg fun hboth => htype hboth.2
    simp [Conn.Enclosed, hhanded, Roomy, htype]

/-- A step within bounds runs over no end, and makes no string of a negative length. -/
theorem Takes.up (h : Takes s i c a c' s')
    (hstores : ∀ st ∈ s.stores c a, st.1 + st.2 ≤ sizeofMessage + sizeofData) (hin : c.Enclosed) :
    s'.crash = s.crash := by
  cases h with
  | @overflows bs total hpoint hbehind =>
      have hstore : (sizeofMessage + total, bs.length) ∈ s.stores c (.bytes bs) := by
        simp [State.stores, hpoint]
      have hfits := hstores _ hstore
      simp only at hfits
      omega
  | throws hpoint htype hlength =>
      have hrange := hin _ (if_pos ⟨hpoint, htype⟩)
      omega
  | _ => rfl

end Steps

/-! ## What the bytes that came in have made of the message -/

/-- `all` is what has come in for connection `i`: requests that fitted, and what is held. -/
structure Feeding (i : Nat) (all : List UInt8) (s : State) : Prop where
  early : s.conns[i]? = none → all = []
  waiting : ∀ c, s.conns[i]? = some c → c.Waiting
  room : ∀ c, s.conns[i]? = some c → ∀ total, c.reading = .body total → total ≤ sizeofData
  held : ∀ c, s.conns[i]? = some c → ∃ (seen : List Request) (rest : List UInt8),
    all = requestCode.stream seen ++ rest ∧ (∀ r ∈ seen, Roomy r.message) ∧
      (rest = c.message.load 0 c.held ∨ (c.reading = .ending ∨ c.reading = .ended) ∧ Stuck rest)

section Feeding

variable {s s' : State} {i : Nat} {c c' : Conn} {a : Answer} {all : List UInt8}

theorem fed_of_read (hc : s.conns[i]? = some c) : fed i s (.read i a) = c.fed a := by
  simp [fed, hc]

theorem fed_of_other {e : Event} (hother : ∀ a, e ≠ .read i a) : fed i s e = [] := by
  cases e with
  | read j a =>
      refine if_neg fun hj => hother a ?_
      rw [hj]
  | _ => rfl

theorem fed_of_busy (hbusy : ¬ c.reading.Idle) : c.fed a = [] := by
  refine fed_of_idle (fun total hpoint => hbusy ?_) fun total hpoint => hbusy ?_ <;>
    rw [hpoint] <;> trivial

theorem feeding_start (i : Nat) (files : List (Option File)) :
    Feeding i [] (State.start files) where
  early _ := rfl
  waiting c hc := by simp [State.start] at hc
  room c hc := by simp [State.start] at hc
  held c hc := by simp [State.start] at hc

/-- Data in the body loop. -/
theorem load_body {total : Nat} (hpoint : c.reading = .body total) :
    c.message.load 0 c.held = c.message.load 0 sizeofMessage ++ c.message.load sizeofMessage total := by
  rw [Conn.held, hpoint, CellMemory.load_add, Nat.zero_add]

theorem awaited_of_body {total n : Nat} (hpoint : c.reading = .body total) (hwaiting : c.Waiting)
    (hn : (n : Int) ≤ c.message.bodySize) : n ≤ awaited c.message.header := by
  rw [Conn.Waiting, hpoint] at hwaiting
  rw [awaited, if_pos hwaiting.1]
  rw [Msg.bodySize] at hn
  omega

/-- What is held in a read loop is less than a request that fits. -/
theorem stuck_body {total : Nat} (hpoint : c.reading = .body total) (hwaiting : c.Waiting)
    (hroom : total ≤ sizeofData) : Stuck (c.message.load 0 c.held) := by
  have hmore : total < awaited c.message.header := by
    refine awaited_of_body hpoint hwaiting ?_
    rw [Conn.Waiting, hpoint] at hwaiting
    exact hwaiting.2
  rw [load_body hpoint]
  refine stuck_of_data (CellMemory.load_length ..) ?_ ?_
  · rw [CellMemory.load_length]
    exact hmore
  · rw [CellMemory.load_length]
    exact hroom

/-- A step of `readThread` on its message. -/
theorem Feeding.takes (h : Feeding i all s) (hc : s.conns[i]? = some c) (htakes : Takes s i c a c' s')
    (hup : s'.crash = none) (hin : c.Enclosed) :
    ∃ (seen : List Request) (rest : List UInt8),
      all ++ c.fed a = requestCode.stream seen ++ rest ∧ (∀ r ∈ seen, Roomy r.message) ∧
        (rest = c'.message.load 0 c'.held ∨
          (c'.reading = .ending ∨ c'.reading = .ended) ∧ Stuck rest) := by
  obtain ⟨seen, rest, rfl, hseen, hrest⟩ := h.held c hc
  have hwaiting := h.waiting c hc
  have hheld : rest = c.message.load 0 c.held := by
    refine hrest.resolve_right ?_
    rintro ⟨hpoint | hpoint, _⟩ <;> cases htakes <;> simp_all
  rcases htakes.fed hwaiting hup with hmove | ⟨_, total, hpoint, rfl, rfl⟩
  · refine ⟨seen ++ c.taken, c'.message.load 0 c'.held, ?_, fun r hr => ?_, .inl rfl⟩
    · rw [List.append_assoc, hheld, hmove, PrefixCode.stream_append, List.append_assoc]
    · rcases List.mem_append.mp hr with hold | hnew
      · exact hseen r hold
      · by_cases hpoint : c.reading = .dispatch
        · rw [taken_dispatch hpoint, List.mem_singleton] at hnew
          subst hnew
          exact (enclosed_iff hpoint).mp hin
        · rw [taken_of_ne hpoint] at hnew
          cases hnew
  · refine ⟨seen, rest, ?_, hseen, .inr ⟨.inl rfl, ?_⟩⟩
    · have hnothing : c.fed .error = [] := by simp [Conn.fed, hpoint]
      rw [hnothing, List.append_nil]
    · rw [hheld]
      exact stuck_body hpoint hwaiting (h.room c hc total hpoint)

theorem Takes.room (h : Takes s i c a c' s')
    (hroom : ∀ total, c.reading = .body total → total ≤ sizeofData)
    {total : Nat} (hpoint : c'.reading = .body total) : total ≤ sizeofData := by
  have hread : ∀ d : Conn, d.headerRead.reading = .body total → total ≤ sizeofData := by
    intro d hd
    unfold Conn.headerRead at hd
    simp only at hd
    split at hd
    · obtain rfl := ReadPoint.body.inj hd
      exact Nat.zero_le _
    · cases hd
  cases h with
  | stores _ _ hfits hnext hresult =>
      rw [hresult] at hpoint
      rcases hnext with ⟨_, rfl⟩ | ⟨_, rfl⟩
      · obtain rfl := ReadPoint.body.inj hpoint
        exact hfits
      · cases hpoint
  | completes _ _ _ hresult =>
      rw [hresult] at hpoint
      exact hread _ hpoint
  | breaks => exact hread c hpoint
  | reads _ _ _ hresult =>
      rw [hresult] at hpoint
      cases hpoint
  | waits => exact hroom total hpoint
  | overflows => exact hroom total hpoint
  | throws => exact hroom total hpoint
  | _ => cases hpoint

theorem feeding_next {e : Event} (h : Feeding i all s) (hstep : next s e = some s')
    (hstores : Contained s e) (hin : ∀ (i : Nat) c, s.conns[i]? = some c → c.Enclosed) :
    Feeding i (all ++ fed i s e) s' := by
  have hup : s.crash = none := (next_spec hstep).1
  cases next_reader hstep i with
  | @takes a c c' hevent hc hc' htakes =>
      subst hevent
      have hself : ∀ {d}, s'.conns[i]? = some d → d = c' :=
        fun hd => Option.some.inj (hd.symm.trans hc')
      have hup' : s'.crash = none := (htakes.up (hstores c hc) (hin i c hc)).trans hup
      rw [fed_of_read hc]
      refine ⟨fun hnone => ?_, fun d hd => ?_, fun d hd total hpoint => ?_, fun d hd => ?_⟩
      · rw [hc'] at hnone
        cases hnone
      · exact hself hd ▸ htakes.waiting (h.waiting c hc)
      · exact htakes.room (h.room c hc) (hself hd ▸ hpoint)
      · exact hself hd ▸ h.takes hc htakes hup' (hin i c hc)
  | @serves a c c' hevent hc hbusy hserves =>
      subst hevent
      have hself : ∀ {d}, s'.conns[i]? = some d → d = c' :=
        fun hd => Option.some.inj (hd.symm.trans hserves.after)
      obtain ⟨hheld, hheld', _, hwaiting⟩ := hserves.held hbusy
      rw [fed_of_read hc, fed_of_busy hbusy, List.append_nil]
      refine ⟨fun hnone => ?_, fun d hd => ?_, fun d hd total hpoint => ?_, fun d hd => ?_⟩
      · rw [hserves.after] at hnone
        cases hnone
      · exact hself hd ▸ hwaiting
      · obtain rfl := hself hd
        rcases hserves.target with htarget | htarget
        · exact absurd (by rw [hpoint]; trivial) htarget
        · rw [hpoint] at htarget
          cases htarget
      · obtain rfl := hself hd
        obtain ⟨seen, rest, hall, hseen, hrest⟩ := h.held c hc
        refine ⟨seen, rest, hall, hseen, ?_⟩
        rcases hrest with hrest | ⟨hleaving, hstuck⟩
        · rw [hheld] at hrest
          rw [hheld']
          exact .inl hrest
        · exact .inr ⟨hserves.leaving hleaving, hstuck⟩
  | elsewhere hother haway =>
      rw [fed_of_other hother, List.append_nil]
      cases hc : s.conns[i]? with
      | none =>
          have hnothing := h.early hc
          refine ⟨fun _ => hnothing, fun d hd => ?_, fun d hd total hpoint => ?_, fun d hd => ?_⟩
          · obtain ⟨fd, stale, rfl⟩ := haway.fresh hc d hd
            trivial
          · obtain ⟨fd, stale, rfl⟩ := haway.fresh hc d hd
            cases hpoint
          · obtain ⟨fd, stale, rfl⟩ := haway.fresh hc d hd
            exact ⟨[], [], hnothing, by simp, .inl rfl⟩
      | some c =>
          obtain ⟨c', hc', _, hpoint, hmessage, _⟩ := haway.kept c hc
          have hself : ∀ {d}, s'.conns[i]? = some d → d = c' :=
            fun hd => Option.some.inj (hd.symm.trans hc')
          have hheld : c'.held = c.held := by rw [Conn.held, Conn.held, hpoint, hmessage]
          refine ⟨fun hnone => ?_, fun d hd => ?_, fun d hd total hbody => ?_, fun d hd => ?_⟩
          · rw [hc'] at hnone
            cases hnone
          · obtain rfl := hself hd
            have hwaiting := h.waiting c hc
            rw [Conn.Waiting, hpoint, hmessage]
            exact hwaiting
          · obtain rfl := hself hd
            exact h.room c hc total (hpoint ▸ hbody)
          · obtain rfl := hself hd
            rw [hheld, hmessage, hpoint]
            exact h.held c hc

/-- What has come in without overrunning makes no string that goes out of `message.data`. -/
theorem Feeding.enclosed (h : Feeding i all s) (hclear : ¬ Overruns all) (hc : s.conns[i]? = some c) :
    c.Enclosed := by
  by_cases hpoint : c.reading = .dispatch
  · rw [enclosed_iff hpoint]
    by_contra hroomy
    obtain ⟨seen, rest, rfl, _, hrest⟩ := h.held c hc
    have hheld := hrest.resolve_right (by simp [hpoint])
    refine hclear ⟨seen, rest, rfl, c.message.request.header, c.message.request.data, ?_,
      c.message.request.size, hroomy, ?_⟩
    · rw [hheld, held_dispatch hpoint]
      rfl
    · rw [c.message.request.whole]
      exact Nat.min_le_left _ _
  · intro n hn
    rw [handed_of_ne hpoint] at hn
    cases hn

/-- Neither does it store behind `message.data`. -/
theorem Feeding.contained (h : Feeding i all s) (hmailed : c.Mailed) (hc : s.conns[i]? = some c)
    (hstep : next s (.read i a) = some s') (hclear : ¬ Overruns (all ++ fed i s (.read i a))) :
    ∀ st ∈ s.stores c a, st.1 + st.2 ≤ sizeofMessage + sizeofData := by
  refine stores_inBounds hmailed hc hstep ?_
  rintro total bs hpoint rfl
  by_contra hmany
  obtain ⟨seen, rest, rfl, _, hrest⟩ := h.held c hc
  have hheld := hrest.resolve_right (by simp [hpoint])
  have hasked := body_asked hc hpoint hstep
  have hwaiting := h.waiting c hc
  have hlong := awaited_of_body hpoint hwaiting hasked
  rw [Conn.Waiting, hpoint] at hwaiting
  refine hclear ⟨seen, _, by rw [List.append_assoc], c.message.load 0 sizeofMessage,
    c.message.load sizeofMessage total ++ bs, ?_, CellMemory.load_length .., ?_, ?_⟩
  · rw [fed_of_read hc, fed_bytes (.inr ⟨total, hpoint⟩), hheld, load_body hpoint, List.append_assoc]
  · refine not_roomy hwaiting.1 ?_
    change (sizeofData : Int) < c.message.bodySize
    omega
  · rw [List.length_append, CellMemory.load_length]
    omega

/-- As long as all strings are inside, nothing has overrun. -/
theorem Feeding.clear (h : Feeding i all s)
    (hin : ∀ (i : Nat) c, s.conns[i]? = some c → c.Enclosed) : ¬ Overruns all := by
  cases hc : s.conns[i]? with
  | none =>
      rw [h.early hc]
      exact not_overruns_nil
  | some c =>
      obtain ⟨seen, rest, rfl, hseen, hrest⟩ := h.held c hc
      rcases hrest with rfl | ⟨_, hstuck⟩
      · have hwaiting := h.waiting c hc
        cases hpoint : c.reading with
        | header total =>
            rw [Conn.Waiting, hpoint] at hwaiting
            refine not_overruns hseen (stuck_of_short ?_)
            rw [CellMemory.load_length, Conn.held, hpoint]
            exact hwaiting
        | body total => exact not_overruns hseen (stuck_body hpoint hwaiting (h.room c hc total hpoint))
        | dispatch =>
            have hroomy := (enclosed_iff hpoint).mp (hin i c hc)
            have hall : ∀ r ∈ seen ++ [c.message.request], Roomy r.message := by
              intro r hr
              rcases List.mem_append.mp hr with hold | hnew
              · exact hseen r hold
              · rw [List.mem_singleton.mp hnew]
                exact hroomy
            have hclear := not_overruns hall stuck_nil
            rw [PrefixCode.stream_append, PrefixCode.stream_cons, PrefixCode.stream_nil,
              List.append_nil, List.append_nil] at hclear
            rw [held_dispatch hpoint]
            exact hclear
        | _ =>
            refine not_overruns hseen (stuck_of_short ?_)
            rw [CellMemory.load_length, Conn.held, hpoint]
            exact (Nat.succ_pos 4 : 0 < sizeofMessage)
      · exact not_overruns hseen hstuck

end Feeding

/-! ## Runs -/

section Runs

variable {files : List (Option File)} {es : List Event} {s : State}

theorem InBounds.before {pre post : List Event} (h : InBounds files (pre ++ post)) :
    InBounds files pre where
  stores pre' e post' u hsplit hu :=
    h.stores pre' e (post' ++ post) u (by rw [hsplit, List.append_assoc, List.cons_append]) hu
  cells pre' e post' u u' hsplit hu :=
    h.cells pre' e (post' ++ post) u u' (by rw [hsplit, List.append_assoc, List.cons_append]) hu
  strings pre' u hpre hu := h.strings pre' u (hpre.trans (List.prefix_append _ _)) hu

theorem feeding_of_inBounds (hrun : run next (State.start files) es = some s)
    (hin : InBounds files es) (i : Nat) :
    Feeding i (outputs next (fed i) (State.start files) es) s := by
  refine run_history (fun _ _ => False)
    (fun pre t => InBounds files pre → Feeding i (outputs next (fed i) (State.start files) pre) t)
    (fun pre t e t' ht h _ hstep hpre => ?_) (fun _ => feeding_start i files) hrun
    (fun _ _ _ _ _ _ => not_false) hin
  rw [outputs_snoc (fed i) e ht]
  exact feeding_next (h hpre.before) hstep (hpre.stores pre e [] t rfl ht)
    (hpre.strings pre t (List.prefix_append _ _) ht)

theorem outputs_prefix {α : Type} (out : State → Event → List α) {pre : List Event}
    (hpre : pre <+: es) (hrun : run next (State.start files) es = some s) :
    outputs next out (State.start files) pre <+: outputs next out (State.start files) es := by
  obtain ⟨post, rfl⟩ := hpre
  obtain ⟨u, hu, _⟩ := run_append_iff.mp hrun
  rw [outputs_append out post hu]
  exact List.prefix_append _ _

/-- What does not overrun has not overrun before. -/
theorem not_overruns_before {pre : List Event} (hpre : pre <+: es)
    (hrun : run next (State.start files) es = some s) {i : Nat}
    (hclear : ¬ Overruns (outputs next (fed i) (State.start files) es)) :
    ¬ Overruns (outputs next (fed i) (State.start files) pre) := by
  obtain ⟨more, hmore⟩ := outputs_prefix (fed i) hpre hrun
  intro hover
  exact hclear (hmore ▸ hover.append more)

/-- The next step of a run in which nothing has overrun. -/
theorem contained_of_clear {e : Event} {s' : State} (hrun : run next (State.start files) es = some s)
    (hstep : next s e = some s')
    (hfeeding : ∀ i, Feeding i (outputs next (fed i) (State.start files) es) s)
    (hclear : ∀ i, ¬ Overruns (outputs next (fed i) (State.start files) (es ++ [e]))) :
    Contained s e := by
  cases e with
  | read i a =>
      intro c hc
      have hall := hclear i
      rw [outputs_snoc (fed i) _ hrun] at hall
      exact (hfeeding i).contained ((mailed_of_run hrun).conns i c hc) hc hstep hall
  | _ => trivial

theorem feeding_of_clear (hrun : run next (State.start files) es = some s)
    (hclear : ∀ i, ¬ Overruns (outputs next (fed i) (State.start files) es)) :
    ∀ i, Feeding i (outputs next (fed i) (State.start files) es) s := by
  refine run_history (fun _ _ => False)
    (fun pre t => (∀ i, ¬ Overruns (outputs next (fed i) (State.start files) pre)) →
      ∀ i, Feeding i (outputs next (fed i) (State.start files) pre) t)
    (fun pre t e t' ht h _ hstep hpre i => ?_) (fun _ i => feeding_start i files) hrun
    (fun _ _ _ _ _ _ => not_false) hclear
  have hafter : run next (State.start files) (pre ++ [e]) = some t' :=
    run_snoc_iff.mpr ⟨t, ht, hstep⟩
  have hbefore := fun j => not_overruns_before (List.prefix_append pre [e]) hafter (hpre j)
  have hfeeding := h hbefore
  rw [outputs_snoc (fed i) e ht]
  exact feeding_next (hfeeding i) hstep (contained_of_clear ht hstep hfeeding hpre)
    fun j c hc => (hfeeding j).enclosed (hbefore j) hc

end Runs

/-- As long as no read has failed, what has come in for a connection is what it has read. -/
theorem fed_eq_received {files : List (Option File)} {es : List Event} {s : State}
    (hrun : run next (State.start files) es = some s) {i : Nat} (hfine : ¬ Refused i s.log) :
    outputs next (fed i) (State.start files) es = received i s.log := by
  refine run_history (fun _ _ => False)
    (fun pre t => ¬ Refused i t.log →
      outputs next (fed i) (State.start files) pre = received i t.log)
    (fun pre t e t' ht h _ hstep hpre => ?_) (fun _ => rfl) hrun (fun _ _ _ _ _ _ => not_false) hfine
  have hbefore := h fun hrefused => hpre (refused_next hstep hrefused)
  rw [outputs_snoc (fed i) e ht, hbefore]
  cases next_reader hstep i with
  | takes hevent hc _ htakes =>
      subst hevent
      rw [fed_of_read hc, htakes.input hpre]
  | serves hevent hc hbusy hserves =>
      subst hevent
      rw [fed_of_read hc, fed_of_busy hbusy, List.append_nil, received_of_alien hserves.log.alien]
  | elsewhere hother haway =>
      rw [fed_of_other hother, List.append_nil, received_of_alien haway.log]

/-- Nothing comes in for a connection that is not there yet. -/
theorem fed_early {files : List (Option File)} {es : List Event} {s : State}
    (hrun : run next (State.start files) es = some s) {i : Nat} (hnone : s.conns[i]? = none) :
    outputs next (fed i) (State.start files) es = [] := by
  refine run_history (fun _ _ => False)
    (fun pre t => t.conns[i]? = none → outputs next (fed i) (State.start files) pre = [])
    (fun pre t e t' ht h _ hstep hnone => ?_) (fun _ => rfl) hrun (fun _ _ _ _ _ _ => not_false) hnone
  rw [outputs_snoc (fed i) e ht]
  cases next_reader hstep i with
  | takes _ _ hafter _ =>
      rw [hafter] at hnone
      cases hnone
  | serves _ _ _ hserves =>
      rw [hserves.after] at hnone
      cases hnone
  | elsewhere hother haway =>
      rw [fed_of_other hother, List.append_nil]
      refine h ?_
      cases hc : t.conns[i]? with
      | none => rfl
      | some c =>
          obtain ⟨c', hc', _⟩ := haway.kept c hc
          rw [hc'] at hnone
          cases hnone

/-- Whatever the clients send, and however it comes in pieces: no store of a `readThread` into its
message and no string it hands to the tun goes out of `message.data`, exactly if no connection gets a
type-102 header with a length below 0 or above 4096 and behind it all the data it announces or more
than 4096 bytes of them. -/
theorem message_bounds_iff (files : List (Option File)) (es : List Event) (s : State)
    (hrun : run next (State.start files) es = some s) :
    InBounds files es ↔ ∀ i, ¬ Overruns (outputs next (fed i) (State.start files) es) := by
  constructor
  · intro hin i
    exact (feeding_of_inBounds hrun hin i).clear (hin.strings es s List.prefix_rfl hrun)
  · intro hclear
    have hpart : ∀ pre u, pre <+: es → run next (State.start files) pre = some u →
        (∀ i, ¬ Overruns (outputs next (fed i) (State.start files) pre)) ∧
          ∀ i, Feeding i (outputs next (fed i) (State.start files) pre) u := by
      intro pre u hpre hu
      have hbefore := fun i => not_overruns_before hpre hrun (hclear i)
      exact ⟨hbefore, feeding_of_clear hu hbefore⟩
    have hstores : ∀ pre e post u, es = pre ++ e :: post →
        run next (State.start files) pre = some u → Contained u e := by
      rintro pre e post u rfl hu
      obtain ⟨v, hv, hrest⟩ := run_append_iff.mp hrun
      obtain rfl := Option.some.inj (hu.symm.trans hv)
      obtain ⟨u', hstep, _⟩ := run_cons_iff.mp hrest
      have hafter : pre ++ [e] <+: pre ++ e :: post := ⟨post, by simp⟩
      have hbefore := (hpart pre u (List.prefix_append _ _) hu).2
      exact contained_of_clear hu hstep hbefore
        (hpart _ u' hafter (run_snoc_iff.mpr ⟨u, hu, hstep⟩)).1
    refine ⟨hstores, fun pre e post u u' hsplit hu hstep i c c' hc hc' k hk => ?_,
      fun pre u hpre hu i c hc => ?_⟩
    · exact behind_same hstep (hstores pre e post u hsplit hu) hc hc' hk
    · obtain ⟨hclear, hfeeding⟩ := hpart pre u hpre hu
      exact (hfeeding i).enclosed (hclear i) hc

def longestPacket : Request :=
  ⟨[0, 16, 0, 0, 102], List.replicate 4091 7, rfl, by rw [List.length_replicate]; decide⟩

/-- The packet comes in, and the longest one behind it, of which the end is missing. -/
def packetsInPieces : List Event :=
  requestsInPieces ++
  [.read 0 .again, .read 0 (.bytes (packetToTwo.drop 7)), .read 0 .again, .read 0 .again,
    .read 0 (.bytes longestPacket.header), .read 0 (.bytes (List.replicate 4000 7)), .read 0 .again]

theorem message_bounds_packetsInPieces :
    ∃ s, run next (State.start opened) packetsInPieces = some s ∧
      s.conns.map Conn.reading = [.body 4000] ∧ InBounds opened packetsInPieces := by
  have hview : (run next (State.start opened) packetsInPieces).map
      (fun s => (received 0 s.log, decide (Refused 0 s.log), s.conns.map Conn.reading)) =
        some (requestCode.stream [keepalive, addressRequest, keepalive, shortPacket] ++
          (longestPacket.header ++ List.replicate 4000 7), false, [.body 4000]) := by decide +kernel
  obtain ⟨s, hs, hpair⟩ := Option.map_eq_some_iff.mp hview
  simp only [Prod.mk.injEq, decide_eq_false_iff_not] at hpair
  obtain ⟨hreceived, hfine, hpoints⟩ := hpair
  refine ⟨s, hs, hpoints, (message_bounds_iff opened packetsInPieces s hs).mpr fun i => ?_⟩
  by_cases hi : i = 0
  · subst hi
    rw [fed_eq_received hs hfine, hreceived]
    refine not_overruns (by decide +kernel) (stuck_of_data rfl ?_ ?_)
    · rw [List.length_replicate]
      decide
    · rw [List.length_replicate]
      decide
  · have hnone : s.conns[i]? = none := by
      have hone := congrArg List.length hpoints
      rw [List.length_map, List.length_singleton] at hone
      exact List.getElem?_eq_none (by omega)
    rw [fed_early hs hnone]
    exact not_overruns_nil

/-- A header of type 102 with the length -1, up to the `switch`. -/
def negativeLength : List Event :=
  [.accept blank, .read 0 .again, .read 0 (.bytes [255, 255, 255, 255, 102])]

theorem negative_length_out :
    ∃ s, run next (State.start opened) (negativeLength ++ [.read 0 .again]) = some s ∧
      s.crash = some .badString ∧ ¬ InBounds opened (negativeLength ++ [.read 0 .again]) := by
  have hview : (run next (State.start opened) (negativeLength ++ [.read 0 .again])).map State.crash =
      some (some .badString) := by decide +kernel
  obtain ⟨s, hs, hcrash⟩ := Option.map_eq_some_iff.mp hview
  refine ⟨s, hs, hcrash, fun hin => ?_⟩
  obtain ⟨u, hu, _⟩ := run_append_iff.mp hs
  have hhanded : (run next (State.start opened) negativeLength).map
      (fun u => u.conns.map Conn.handed) = some [some (-1)] := by decide +kernel
  rw [hu, Option.map_some, Option.some.injEq] at hhanded
  obtain ⟨c, hconns, hlength⟩ := List.map_eq_singleton_iff.mp hhanded
  have hinside := hin.strings negativeLength u (List.prefix_append _ _) hu 0 c (by rw [hconns]; rfl)
  exact absurd (hinside (-1) hlength).1 (by decide)

end Over6.Threaded
