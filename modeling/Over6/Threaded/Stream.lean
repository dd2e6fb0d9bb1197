import Mathlib.Data.List.Forall2
import Over6.Client.Feed
import Over6.Threaded.Sending
import Over6.Threaded.Sockets

/-! # What the clients are sent

Replies and packets make frames. A heartbeat is sent with the length zero, and its
five bytes are no frame.
-/

namespace Over6.Threaded

open MachineInt BoundedLoop EventRun Journal
open Client (Clear Consumes)

/-! ## Messages that are frames -/

theorem front_fill (m : Msg) (h : Message) (data : List UInt8) :
    (m.fill h data).load 0 sizeofMessage = h.bytes := by
  have hload : (m.fill h data).load 0 sizeofMessage = (m.store 0 h.bytes).load 0 sizeofMessage := by
    apply CellMemory.load_congr
    intro i hi
    exact CellMemory.store_of_lt _ data (by omega)
  rw [hload, ← Message.bytes_length h, CellMemory.load_store]

theorem header_fill (m : Msg) {h : Message} (hlo : 0 ≤ h.length) (hhi : h.length < 2 ^ 31)
    (data : List UInt8) : (m.fill h data).header = h := by
  have hback := Message.ofBytes_bytes h [] hlo hhi
  rwa [List.append_nil, ← front_fill m h data] at hback

theorem data_fill (m : Msg) (h : Message) {data : List UInt8} {n : Nat} (hn : n ≤ data.length) :
    (m.fill h data).load sizeofMessage n = data.take n := by
  rw [← CellMemory.load_take _ hn, Msg.fill, CellMemory.load_store]

/-- A message of one of the two types, with the length of its data in the header. -/
theorem emitted_fill (m : Msg) {f : Frame} {data : List UInt8}
    (htype : f.type = msgIpRsb ∨ f.type = msgDataRsb) (hf : f.Valid)
    (hdata : f.payload <+: data) :
    (m.fill f.message data).header = f.message ∧ emitted (m.fill f.message data) = f.bytes := by
  have hsize : f.message.length = f.payload.length + 5 := Int.natCast_add _ _
  have hvalid : f.payload.length + 5 < 2 ^ 31 := hf
  have hheader := header_fill m (h := f.message) (by omega) (by omega) data
  have hbody : (m.fill f.message data).bodySize = f.payload.length := by
    rw [Msg.bodySize, hheader, int32_of_range] <;> omega
  have hload := data_fill m f.message hdata.length_le
  obtain ⟨rest, hrest⟩ := hdata
  rw [← hrest, List.take_left, hrest] at hload
  refine ⟨hheader, ?_⟩
  rw [emitted, front_fill, hbody, Int.toNat_natCast, hload, Frame.bytes]
  by_cases hcarries : (m.fill f.message data).CarriesData
  · rw [if_pos hcarries]
  · have hnil : f.payload = [] := by
      unfold Msg.CarriesData at hcarries
      rw [hheader, hbody] at hcarries
      have hzero : f.payload.length = 0 := by
        by_contra hne
        exact hcarries ⟨htype, by omega⟩
      exact List.length_eq_zero_iff.mp hzero
    rw [if_neg hcarries, hnil]

/-! ## The three senders -/

/-- What the three threads pass to `sendMessage`. -/
inductive Sendable : Thread → Msg → Prop
  | reply (m : Msg) {n : Nat} (hn : n < 1024) (behind : List UInt8) :
      Sendable .read (replyMsg m (ipText n) behind)
  | data {buf : List UInt8} (size : buf.length ≤ 1600) : Sendable .write (dataMsg buf)
  | heartBeat : Sendable .keep heartBeatMsg

/-- The header of a frame, with the length put the way the senders do. -/
theorem message_eq (type : UInt8) (payload : List UInt8) :
    Message.mk (payload.length + 5) type = (Frame.mk type payload).message := by
  rw [Frame.message, Frame.size, Nat.cast_add]
  rfl

theorem ipText_length {n : Nat} (hn : n < 1024) : (ipText n).length ≤ 13 := by
  have hfront : (Server.ascii "10.128.0.").length = 9 := by decide
  have hnumber : (Decimal.text n).length ≤ 3 + 1 := Decimal.text_length (by omega)
  rw [ipText, List.length_append, hfront]
  omega

theorem ipInfoStr_length {n : Nat} (hn : n < 1024) : (ipInfoStr (ipText n)).length ≤ 57 := by
  have htext := ipText_length hn
  have hrest : (Server.ascii " 0.0.0.0 202.38.120.242 8.8.8.8 202.106.0.20").length = 44 := by
    decide
  rw [ipInfoStr, List.length_append, hrest]
  omega

theorem reply_frame (m : Msg) {n : Nat} (hn : n < 1024) (behind : List UInt8) :
    ∃ f : Frame, Clear f ∧ (replyMsg m (ipText n) behind).header = f.message ∧
      emitted (replyMsg m (ipText n) behind) = f.bytes := by
  have hlen := ipInfoStr_length hn
  refine ⟨⟨msgIpRsb, ipInfoStr (ipText n)⟩, ⟨⟨rfl, fun hempty => ?_⟩, ?_⟩, ?_⟩
  · exact ipText_ne_nil n (List.append_eq_nil_iff.mp hempty.2).1
  · change (ipInfoStr (ipText n)).length + 5 ≤ 4194304
    omega
  · have hprefix : ipInfoStr (ipText n) <+:
        (ipInfoStr (ipText n) ++ 0 :: behind).take ((ipInfoStr (ipText n)).length + 5) ++ [0] := by
      rw [List.take_length_add_append, List.append_assoc]
      exact List.prefix_append _ _
    rw [replyMsg, message_eq]
    refine emitted_fill m.clearData (.inl rfl) ?_ hprefix
    change (ipInfoStr (ipText n)).length + 5 < 2 ^ 31
    omega

theorem data_frame {buf : List UInt8} (size : buf.length ≤ 1600) :
    ∃ f : Frame, Clear f ∧ (dataMsg buf).header = f.message ∧ emitted (dataMsg buf) = f.bytes := by
  refine ⟨⟨msgDataRsb, buf⟩, ⟨⟨rfl, fun hempty => ?_⟩, ?_⟩, ?_⟩
  · have htype : msgDataRsb = msgIpRsb := hempty.1
    exact absurd htype (by decide)
  · change buf.length + 5 ≤ 4194304
    omega
  · have hall : buf.take ((buf.length : Int) + 5 - 5).toNat = buf := by
      rw [Int.add_sub_cancel, Int.toNat_natCast, List.take_length]
    rw [dataMsg, queuedMsg, hall, message_eq]
    refine emitted_fill _ (.inr rfl) ?_ (List.prefix_refl buf)
    change buf.length + 5 < 2 ^ 31
    omega

theorem heartBeat_length : heartBeatMsg.header.length = 0 := by
  rw [heartBeatMsg, header_fill] <;> decide

/-- All that the threads but `keepLiveThread` send are frames. -/
theorem Sendable.frame {who : Thread} {m : Msg} (h : Sendable who m) (hwho : who ≠ .keep) :
    ∃ f : Frame, Clear f ∧ m.header = f.message ∧ emitted m = f.bytes := by
  cases h with
  | reply m hn behind => exact reply_frame m hn behind
  | data size => exact data_frame size
  | heartBeat => exact absurd rfl hwho

/-- The address and the messages on their way are those of the senders. -/
structure Conn.Mailed (c : Conn) : Prop where
  address : c.ipv4Address = [] ∨ ∃ n, n < 1024 ∧ c.ipv4Address = ipText n
  reply : ∀ p, c.reading = .reply p → Sendable .read c.message
  queue : ∀ m ∈ c.wtSktQue, Sendable .write m
  outgoing : ∀ p, c.writing = .send p → Sendable .write c.outgoing

structure Mailed (s : State) : Prop where
  conns : ∀ (i : Nat) c, s.conns[i]? = some c → c.Mailed
  packet : ∀ buf, (s.tunReader = .lookup buf ∨ ∃ i, s.tunReader = .push i buf) → buf.length ≤ 1600
  sent : ∀ i who m, .locked i who m ∈ s.log → Sendable who m

section Steps

variable {s s' : State} {i : Nat} {c c' : Conn}

/-- A thread offers what is on its way. -/
theorem Conn.Mailed.offers (h : c.Mailed) {who : Thread} {m : Msg} (hoffer : c.Offers m who) :
    Sendable who m := by
  cases who with
  | read =>
      obtain ⟨hpoint, rfl⟩ := hoffer
      exact h.reply _ hpoint
  | write =>
      obtain ⟨hpoint, rfl⟩ := hoffer
      exact h.outgoing _ hpoint
  | keep =>
      obtain rfl := hoffer
      exact .heartBeat

theorem Touches.mailed (h : Touches s i c c' s') (hmailed : Mailed s) (hself : c'.Mailed)
    (hpacket : ∀ buf, (s'.tunReader = .lookup buf ∨ ∃ i, s'.tunReader = .push i buf) →
      buf.length ≤ 1600) : Mailed s' := by
  refine ⟨fun j d hd => ?_, hpacket, fun j who m hmem => ?_⟩
  · rcases h.conns hd with ⟨_, rfl⟩ | ⟨_, hd⟩
    · exact hself
    · exact hmailed.conns j d hd
  · rcases h.log with hlog | ⟨act, hlog, hof⟩
    · rw [hlog] at hmem
      exact hmailed.sent j who m hmem
    · rw [hlog, List.mem_cons] at hmem
      rcases hmem with rfl | hmem
      · exact (hmailed.conns i c h.before).offers hof.2
      · exact hmailed.sent j who m hmem

/-- The reply of `readThread` carries one of the addresses. -/
theorem ReadStep.mailed {a : Answer} {t : State} (h : ReadStep s i c a c' t) (hc : c.Mailed) :
    (c'.ipv4Address = [] ∨ ∃ n, n < 1024 ∧ c'.ipv4Address = ipText n) ∧
      ∀ p, c'.reading = .reply p → Sendable .read c'.message := by
  have hsame : c'.ipv4Address = c.ipv4Address → (∀ p, c'.reading ≠ .reply p) →
      (c'.ipv4Address = [] ∨ ∃ n, n < 1024 ∧ c'.ipv4Address = ipText n) ∧
        ∀ p, c'.reading = .reply p → Sendable .read c'.message :=
    fun haddress hno => ⟨haddress ▸ hc.address, fun p hp => absurd hp (hno p)⟩
  cases h with
  | goes _ htarget haddress =>
      refine hsame haddress fun p hp => ?_
      rw [hp] at htarget
      exact htarget
  | asks _ _ htarget haddress => exact hsame haddress (by simp [htarget])
  | passes _ htarget haddress => exact hsame haddress (by simp [htarget])
  | stops _ htarget haddress => exact hsame haddress (by simp [htarget])
  | takes n _ _ hfree _ haddress hmessage =>
      obtain ⟨_, hn, _⟩ := getFreeIP_spec hfree
      obtain ⟨behind, hreply⟩ := hmessage
      refine ⟨.inr ⟨n, hn, haddress⟩, fun _ _ => ?_⟩
      rw [hreply, haddress]
      exact .reply _ hn behind
  | retakes _ hheld _ haddress hmessage =>
      obtain ⟨behind, hreply⟩ := hmessage
      refine ⟨haddress ▸ hc.address, fun _ _ => ?_⟩
      rcases hc.address with hnil | ⟨n, hn, htext⟩
      · exact absurd hnil hheld
      · rw [hreply, haddress, htext]
        exact .reply _ hn behind
  | sends p hpoint _ _ haddress hmessage =>
      exact ⟨haddress ▸ hc.address, fun _ _ => hmessage ▸ hc.reply p hpoint⟩
  | loses _ _ _ htarget haddress => exact hsame haddress (by simp [htarget])
  | marks _ _ _ _ htarget haddress => exact hsame haddress (by simp [htarget])
  | registers _ _ _ _ htarget haddress => exact hsame haddress (by simp [htarget])
  | leaves _ _ _ _ htarget haddress => exact hsame haddress (by simp [htarget])
  | hangs _ _ _ _ hc' => exact hc' ▸ ⟨hc.address, hc.reply⟩
  | dies _ _ _ hc' => exact hc' ▸ ⟨hc.address, hc.reply⟩
  | asserts _ _ _ hc' => exact hc' ▸ ⟨hc.address, hc.reply⟩

theorem Aside.mailed (h : Aside s i c c' s') (hc : c.Mailed) :
    (c'.ipv4Address = [] ∨ ∃ n, n < 1024 ∧ c'.ipv4Address = ipText n) ∧
      ∀ p, c'.reading = .reply p → Sendable .read c'.message := by
  rw [h.address, h.reading, h.message]
  exact ⟨hc.address, hc.reply⟩

theorem mailed_next {e : Event} (hmailed : Mailed s) (h : next s e = some s') : Mailed s' := by
  obtain ⟨_, hnext⟩ := next_spec h
  cases hnext with
  | accepts stale =>
      refine ⟨fun i c hc => ?_, hmailed.packet, hmailed.sent⟩
      rcases conns_accept hc with hold | ⟨_, rfl⟩
      · exact hmailed.conns i c hold
      · exact ⟨.inl rfl, by simp [Conn.start], by simp [Conn.start], by simp [Conn.start]⟩
  | @reads i a c c' _ hreads =>
      have hc := hmailed.conns i c hreads.touches.before
      obtain ⟨t, hstep, _⟩ := hreads.step
      obtain ⟨haddress, hreply⟩ := hstep.mailed hc
      obtain ⟨hqueue, hout⟩ := hreads.mail
      refine hreads.touches.mailed hmailed ⟨haddress, hreply, ?_, ?_⟩ ?_
      · rw [hqueue]
        exact hc.queue
      · rw [hreads.writing, hout]
        exact hc.outgoing
      · rw [hreads.tunReader]
        exact hmailed.packet
  | @writes i a c c' _ hwrites =>
      have hc := hmailed.conns i c hwrites.touches.before
      obtain ⟨haddress, hreply⟩ := hwrites.toAside.mailed hc
      refine hwrites.touches.mailed hmailed ⟨haddress, hreply, ?_, fun p hp => ?_⟩ ?_
      · exact fun m hm => hc.queue m (hwrites.queue m hm)
      · rcases hwrites.outgoing p hp with ⟨⟨p', hp'⟩, hsame⟩ | hmem
        · rw [hsame]
          exact hc.outgoing p' hp'
        · exact hc.queue _ hmem
      · rw [hwrites.tunReader]
        exact hmailed.packet
  | @keeps i a c c' _ hkeeps =>
      have hc := hmailed.conns i c hkeeps.touches.before
      obtain ⟨haddress, hreply⟩ := hkeeps.toAside.mailed hc
      obtain ⟨hqueue, hout⟩ := hkeeps.mail
      refine hkeeps.touches.mailed hmailed ⟨haddress, hreply, ?_, ?_⟩ ?_
      · rw [hqueue]
        exact hc.queue
      · rw [hkeeps.writing, hout]
        exact hc.outgoing
      · rw [hkeeps.tunReader]
        exact hmailed.packet
  | @arrives buf hsize =>
      refine ⟨hmailed.conns, fun buf' hbuf => ?_, hmailed.sent⟩
      rcases hbuf with hbuf | ⟨i, hbuf⟩
      · rw [← TunPoint.lookup.inj hbuf]
        exact hsize.2
      · cases hbuf
  | @finds buf found hpoint =>
      refine ⟨hmailed.conns, fun buf' hbuf => ?_, hmailed.sent⟩
      have hsize := hmailed.packet buf (.inl hpoint)
      cases found with
      | none => rcases hbuf with hbuf | ⟨i, hbuf⟩ <;> cases hbuf
      | some j =>
          rcases hbuf with hbuf | ⟨i, hbuf⟩
          · cases hbuf
          · rw [← (TunPoint.push.inj hbuf).2]
            exact hsize
  | throws => exact ⟨hmailed.conns, hmailed.packet, hmailed.sent⟩
  | @queues i buf c c' _ hpoint haside _ hqueue hout hwriting _ _ hread =>
      have hc := hmailed.conns i c haside.touches.before
      obtain ⟨haddress, hreply⟩ := haside.mailed hc
      have hsize := hmailed.packet buf (.inr ⟨i, hpoint⟩)
      refine haside.touches.mailed hmailed ⟨haddress, hreply, fun m hm => ?_, ?_⟩ ?_
      · rw [hqueue, List.mem_append, List.mem_singleton] at hm
        rcases hm with hm | rfl
        · exact hc.queue m hm
        · exact .data hsize
      · rw [hwriting, hout]
        exact hc.outgoing
      · rw [hread]
        rintro buf' (hbuf | ⟨_, hbuf⟩) <;> cases hbuf

end Steps

/-! ## What one client is sent -/

/-- The bytes are one frame, with the header of the message. -/
def Framed (sent : Thread × Msg) (bs : List UInt8) : Prop :=
  ∃ f : Frame, f.Valid ∧ sent.2.header = f.message ∧ bs = f.bytes

/-- Each message makes one frame, and the client takes in as many, one for each message. -/
structure Parsed (sent : List (Thread × Msg)) (bss : List (List UInt8)) : Prop where
  framed : List.Forall₂ Framed sent bss
  consumed : Consumes bss.flatten (sent.map fun p => p.2.header)

theorem header_of_framed {sent : List (Thread × Msg)} {bss : List (List UInt8)}
    (h : List.Forall₂ Framed sent bss) {p : Thread × Msg} (hp : p ∈ sent) :
    ∃ f : Frame, p.2.header = f.message := by
  induction h with
  | nil => cases hp
  | cons hfirst _ ih =>
      rcases List.mem_cons.mp hp with rfl | hp
      · obtain ⟨f, _, hheader, _⟩ := hfirst
        exact ⟨f, hheader⟩
      · exact ih hp

/-- Without heartbeats the bytes are a stream of frames. -/
theorem frames_of_emits {sent : List (Thread × Msg)} {bss : List (List UInt8)}
    (h : List.Forall₂ Emits sent bss) (hsendable : ∀ p ∈ sent, Sendable p.1 p.2)
    (hkeep : ∀ p ∈ sent, p.1 ≠ .keep) :
    ∃ frames : List Frame, (∀ f ∈ frames, Clear f) ∧ bss = frames.map Frame.bytes ∧
      (sent.map fun p => p.2.header) = frames.map Frame.message ∧ List.Forall₂ Framed sent bss := by
  induction h with
  | nil => exact ⟨[], by simp, rfl, rfl, .nil⟩
  | @cons p bs sent bss hemits _ ih =>
      obtain ⟨frames, hclear, rfl, hheaders, hframed⟩ :=
        ih (fun q hq => hsendable q (List.mem_cons_of_mem p hq))
          (fun q hq => hkeep q (List.mem_cons_of_mem p hq))
      obtain ⟨f, hf, hheader, hbytes⟩ :=
        (hsendable p List.mem_cons_self).frame (hkeep p List.mem_cons_self)
      obtain ⟨answers, hwritten⟩ := hemits
      have hbs : bs = f.bytes := (written_emitted hwritten).trans hbytes
      refine ⟨f :: frames, ?_, by rw [hbs, List.map_cons], ?_, ?_⟩
      · exact fun g hg => (List.mem_cons.mp hg).elim (fun he => he ▸ hf) (hclear g)
      · rw [List.map_cons, List.map_cons, hheader, hheaders]
      · exact .cons ⟨f, hf.valid, hheader, hbs⟩ hframed

theorem mailed_of_run {files : List (Option File)} {es : List Event} {s : State}
    (hrun : run next (State.start files) es = some s) : Mailed s := by
  refine run_invariant Mailed (fun _ _ _ => mailed_next) ⟨fun i c hc => ?_, ?_, ?_⟩ hrun
  · simp [State.start] at hc
  · rintro buf (hbuf | ⟨j, hbuf⟩) <;> cases hbuf
  · simp [State.start]

/-! ## What is on the socket -/

/-- The header, and for two types `length-5` bytes of data. -/
def Msg.wire (m : Msg) : List UInt8 :=
  m.load 0 sizeofMessage ++
    if m.header.type = msgIpRsb ∨ m.header.type = msgDataRsb then
      m.load sizeofMessage (m.header.length - 5).toNat
    else []

/-- A length that is not negative makes `message.length-5` what it says. -/
theorem emitted_eq_wire {m : Msg} (h : 0 ≤ m.header.length) : emitted m = m.wire := by
  have hrange := (Message.length_range (m.load 0 sizeofMessage)).2
  have hbody : m.bodySize = m.header.length - 5 := by
    rw [Msg.bodySize, int32_of_range]
    · omega
    · rw [Msg.header]
      omega
  rw [emitted, Msg.wire]
  refine congrArg (m.load 0 sizeofMessage ++ ·) ?_
  by_cases htype : m.header.type = msgIpRsb ∨ m.header.type = msgDataRsb
  · rw [if_pos htype, ← hbody]
    by_cases hpos : 0 < m.bodySize
    · exact if_pos ⟨htype, hpos⟩
    · have hzero : m.bodySize.toNat = 0 := by omega
      rw [hzero, CellMemory.load_zero]
      exact if_neg fun hcarries => hpos hcarries.2
  · rw [if_neg htype]
    exact if_neg fun hcarries => htype hcarries.1

theorem Sendable.length_nonneg {who : Thread} {m : Msg} (h : Sendable who m) :
    0 ≤ m.header.length := by
  by_cases hwho : who = .keep
  · subst hwho
    cases h
    rw [heartBeat_length]
  · obtain ⟨f, _, hheader, _⟩ := h.frame hwho
    rw [hheader]
    exact Int.natCast_nonneg f.size

def Act.output (i : Nat) : Act → List UInt8
  | wrote j _ _ bs => if j = i then bs else []
  | _ => []

def output (i : Nat) (log : List Act) : List UInt8 := gather (Act.output i) log

theorem flatten_transmitted (i : Nat) (log : List Act) :
    (transmitted i log).flatten = output i log := by
  induction log with
  | nil => rfl
  | cons act log ih =>
      rw [output, gather_cons, ← output, ← ih]
      cases act with
      | read _ _ _ => exact (List.append_nil _).symm
      | pushed _ _ => exact (List.append_nil _).symm
      | locked j who m =>
          have hnone : Act.output i (.locked j who m) = [] := rfl
          rw [hnone, List.append_nil, transmitted, pieces]
          split
          · rw [List.reverse_cons, List.flatten_append, List.flatten_singleton, List.append_nil]
            rfl
          · rfl
      | wrote j who on bs =>
          rw [Act.output, transmitted, pieces, transmitted]
          split
          · cases pieces i log with
            | nil => simp
            | cons piece older => simp
          · rw [List.append_nil]

/-- The bytes of a write of connection `i` have gone to its own socket. -/
def Act.OnOwn (i : Nat) : Act → Prop
  | wrote j _ on _ => j = i → on = some i
  | _ => True

/-- A connection whose socket is not closed has written nowhere else. -/
structure Faithful (i : Nat) (s : State) : Prop where
  filed : Filed s
  own : (∀ c, s.conns[i]? = some c → c.keeping ≠ .ended) → ∀ act ∈ s.log, act.OnOwn i

section Steps

variable {s s' : State} {i j : Nat} {c c' : Conn}

/-- Until the socket of a connection is closed its number denotes that socket. -/
theorem onOwn_of {act : Act} (hfiled : Filed s) (hc : s.conns[j]? = some c)
    (hopen : j = i → c.keeping ≠ .ended) (hof : act.Of j c (s.socket c.socketFd)) : act.OnOwn i := by
  cases act with
  | wrote k who on bs =>
      obtain ⟨rfl, rfl⟩ := hof
      rintro rfl
      exact hfiled k c hc (hopen rfl)
  | _ => trivial

theorem Touches.faithful (h : Touches s j c c' s') (hfaithful : Faithful i s) (hfiled : Filed s')
    (hkeep : c'.keeping ≠ .ended → c.keeping ≠ .ended) : Faithful i s' := by
  refine ⟨hfiled, fun hopen act hact => ?_⟩
  have hbefore : ∀ d, s.conns[i]? = some d → d.keeping ≠ .ended := by
    intro d hd
    by_cases hj : j = i
    · subst hj
      obtain rfl := h.eq_before hd
      exact hkeep (hopen c' h.after)
    · exact hopen d ((h.others i (Ne.symm hj)).trans hd)
  rcases h.log with hlog | ⟨new, hlog, hof⟩
  · rw [hlog] at hact
    exact hfaithful.own hbefore act hact
  · rw [hlog, List.mem_cons] at hact
    rcases hact with rfl | hact
    · exact onOwn_of hfaithful.filed h.before (fun hj => hbefore c (hj ▸ h.before)) hof
    · exact hfaithful.own hbefore act hact

theorem faithful_next {e : Event} (h : Faithful i s) (hstep : next s e = some s') :
    Faithful i s' := by
  have hfiled := filed_next h.filed hstep
  obtain ⟨_, hnext⟩ := next_spec hstep
  cases hnext with
  | accepts stale =>
      refine ⟨hfiled, fun hopen => h.own fun c hc => ?_⟩
      exact hopen c ((List.getElem?_append_left (List.getElem?_eq_some_iff.mp hc).1).trans hc)
  | reads hreads => exact hreads.touches.faithful h hfiled (by rw [hreads.keeping]; exact id)
  | writes hwrites => exact hwrites.touches.faithful h hfiled (by rw [hwrites.keeping]; exact id)
  | keeps hkeeps => exact hkeeps.touches.faithful h hfiled fun _ => hkeeps.running
  | arrives => exact ⟨hfiled, h.own⟩
  | finds => exact ⟨hfiled, h.own⟩
  | throws => exact ⟨hfiled, h.own⟩
  | queues _ haside _ _ _ _ hkeeping =>
      exact haside.touches.faithful h hfiled (by rw [hkeeping]; exact id)

end Steps

/-- However the three threads of a connection interleave, and however their writes are taken: while
none of them holds `sendMutex` the connection has written its messages whole, one after the other in
the order in which they got the mutex, and until it is closed all on its own socket. -/
theorem messages_unmixed (files : List (Option File)) (es : List Event) (s : State)
    (hrun : run next (State.start files) es = some s) (i : Nat)
    (hfine : ∀ pre e post u, es = pre ++ e :: post → run next (State.start files) pre = some u →
      ¬ Fails i u e)
    (c : Conn) (hc : s.conns[i]? = some c) (hfree : c.sendMutex = none) :
    output i s.log = ((messages i s.log).map fun sent => sent.2.wire).flatten ∧
      (c.keeping ≠ .ended → ∀ act ∈ s.log, act.OnOwn i) := by
  have horderly : Orderly (fun sent bs => emitted sent.2 = bs) i s :=
    run_avoiding (Fails i) (Orderly (fun sent bs => emitted sent.2 = bs) i)
      (fun _ _ _ h hok hstep =>
        h.moves (moves_of_next hstep) (fun _ => rfl) fun hfails => absurd hfails hok)
      (Orderly.start i files) hrun hfine
  have hfaithful : Faithful i s := by
    refine run_invariant (Faithful i) (fun _ _ _ => faithful_next) ⟨fun j d hd => ?_, ?_⟩ hrun
    · simp [State.start] at hd
    · simp [State.start]
  constructor
  · have hwhole := List.forall₂_map_left_iff.mpr ((horderly.apart c hc).finished hfree)
    rw [List.forall₂_eq_eq_eq] at hwhole
    rw [← flatten_transmitted, ← hwhole]
    refine congrArg List.flatten (List.map_congr_left fun sent hsent => ?_)
    exact emitted_eq_wire ((mailed_of_run hrun).sent i sent.1 sent.2 (mem_messages hsent)).length_nonneg
  · intro hopen
    refine hfaithful.own fun d hd => ?_
    obtain rfl := Option.some.inj (hc.symm.trans hd)
    exact hopen

/-- A reply, and a packet for the address in it that is taken in three writes. -/
def packetInPieces : List Event :=
  .accept blank :: grant 0 54 ++
    [.packet packetToTwo, .route, .route, .write 0 .again, .write 0 .again, .write 0 (.count 3),
      .write 0 .again, .write 0 (.count 2), .keep 0 .again, .write 0 (.count 20)]

theorem messages_unmixed_packetInPieces :
    ∃ s, run next (State.start opened) packetInPieces = some s ∧
      (messages 0 s.log).map Prod.fst = [.read, .write] ∧
      output 0 s.log = ((messages 0 s.log).map fun sent => sent.2.wire).flatten := by
  have hview : (run next (State.start opened) packetInPieces).map
      (fun s => ((messages 0 s.log).map Prod.fst, s.conns.map Conn.sendMutex)) =
        some ([.read, .write], [none]) := by decide +kernel
  obtain ⟨s, hs, hpair⟩ := Option.map_eq_some_iff.mp hview
  obtain ⟨hthreads, hmutex⟩ := Prod.mk.inj hpair
  obtain ⟨c, hconns, hfree⟩ := List.map_eq_singleton_iff.mp hmutex
  have hc : s.conns[0]? = some c := by rw [hconns]; rfl
  have hfine : ∀ pre e post u, packetInPieces = pre ++ e :: post →
      run next (State.start opened) pre = some u → ¬ Fails 0 u e :=
    not_bad_of_clean (by decide +kernel)
  exact ⟨s, hs, hthreads, (messages_unmixed opened packetInPieces s hs 0 hfine c hc hfree).1⟩

/-- In every run, what is put on a client's socket, when every write goes through, is one frame for
each message, and the client takes it in frame by frame however it comes in pieces, exactly if no
heartbeat is among the messages. -/
theorem stream_parsed_iff (files : List (Option File)) (es : List Event) (s : State)
    (hrun : run next (State.start files) es = some s) (i : Nat) (bss : List (List UInt8))
    (hsent : List.Forall₂ Emits (messages i s.log) bss) :
    Parsed (messages i s.log) bss ↔ ∀ p ∈ messages i s.log, p.1 ≠ .keep := by
  have hsendable : ∀ p ∈ messages i s.log, Sendable p.1 p.2 :=
    fun p hp => (mailed_of_run hrun).sent i p.1 p.2 (mem_messages hp)
  constructor
  · rintro ⟨hframed, _⟩ ⟨who, m⟩ hp hkeep
    obtain rfl : who = .keep := hkeep
    obtain ⟨f, hheader⟩ := header_of_framed hframed hp
    have hlength : m.header.length = f.size := congrArg Message.length hheader
    have hzero : m.header.length = 0 := by
      cases hsendable _ hp
      exact heartBeat_length
    have hge := f.size_ge
    have hfive : sizeofMessage = 5 := rfl
    omega
  · intro hkeep
    obtain ⟨frames, hclear, rfl, hheaders, hframed⟩ := frames_of_emits hsent hsendable hkeep
    refine ⟨hframed, ?_⟩
    have hstream : (frames.map Frame.bytes).flatten = frameCode.stream frames :=
      (List.flatMap_def ..).symm
    rw [hstream, hheaders]
    exact Client.consumes_stream hclear

def replyAndPacket : List Event :=
  .accept blank :: grant 0 54 ++
    [.packet packetToTwo, .route, .route, .write 0 .again, .write 0 .again]

theorem stream_parsed_replyAndPacket :
    ∃ s bss, run next (State.start opened) replyAndPacket = some s ∧
      (messages 0 s.log).map Prod.fst = [.read, .write] ∧
      List.Forall₂ Emits (messages 0 s.log) bss ∧ Parsed (messages 0 s.log) bss := by
  have hwho : (run next (State.start opened) replyAndPacket).map
      (fun s => (messages 0 s.log).map Prod.fst) = some [.read, .write] := by decide +kernel
  obtain ⟨s, hs, hthreads⟩ := Option.map_eq_some_iff.mp hwho
  have hemits : List.Forall₂ Emits (messages 0 s.log)
      ((messages 0 s.log).map fun p => emitted p.2) := by
    rw [List.forall₂_map_right_iff]
    exact List.forall₂_same.mpr fun p _ => written_whole p.2
  refine ⟨s, _, hs, hthreads, hemits, ?_⟩
  refine (stream_parsed_iff opened replyAndPacket s hs 0 _ hemits).mpr fun p hp => ?_
  have hmem : p.1 ∈ [Thread.read, Thread.write] := hthreads ▸ List.mem_map_of_mem hp
  intro hkeep
  rw [hkeep] at hmem
  exact absurd hmem (by decide)

def firstHeartBeat : List Event :=
  .accept blank ::
    (List.replicate 20 [Event.keep 0 .again, .keep 0 .again, .keep 0 .again]).flatten ++
      [.keep 0 .again, .keep 0 (.count 5)]

theorem heartbeat_stalls_client :
    ∃ s m, run next (State.start opened) firstHeartBeat = some s ∧
      messages 0 s.log = [(.keep, m)] ∧ written m (.header 0) [.count 5] = some [0, 0, 0, 0, 104] ∧
      ¬ Parsed (messages 0 s.log) [[0, 0, 0, 0, 104]] ∧
      ∀ fuel t, Client.handleSocket (.bytes [0, 0, 0, 0, 104]) (.prompt 0) fuel
        (Client.protocolInit .usual 0 0 fun _ => 0) ≠ .stopped t := by
  have hwho : (run next (State.start opened) firstHeartBeat).map
      (fun s => (messages 0 s.log).map Prod.fst) = some [.keep] := by decide +kernel
  obtain ⟨s, hs, hthreads⟩ := Option.map_eq_some_iff.mp hwho
  obtain ⟨⟨who, m⟩, hmessages, hkeep⟩ := List.map_eq_singleton_iff.mp hthreads
  obtain rfl : who = .keep := hkeep
  have hmem : .locked 0 .keep m ∈ s.log := mem_messages (p := (.keep, m)) (by simp [hmessages])
  have hstalls : ∀ fuel t, Client.handleSocket (.bytes [0, 0, 0, 0, 104]) (.prompt 0) fuel
      (Client.protocolInit .usual 0 0 fun _ => 0) ≠ .stopped t :=
    Client.never_returns (Client.State.Bounded.protocolInit .usual 0 0 fun _ => 0)
      (by decide +kernel) (by decide +kernel) 0
  refine ⟨s, m, hs, hmessages, ?_, fun hparsed => ?_, hstalls⟩
  · cases (mailed_of_run hs).sent 0 .keep m hmem
    decide +kernel
  · obtain ⟨hreturns, _⟩ := hparsed.consumed .usual 0 0 (fun _ => 0) [] _ rfl rfl
      [[0, 0, 0, 0, 104]] rfl
    obtain ⟨fuel, t, hstop⟩ := hreturns [] _ [] _ rfl (.done _) (by decide +kernel) (.prompt 0)
    exact hstalls fuel t hstop

end Over6.Threaded
