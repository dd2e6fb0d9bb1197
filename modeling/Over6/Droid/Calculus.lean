import Over6.Droid.State

/-! # Single steps

What a step can be, what the writes get across, and the fill of `ipBuffer`, which
`ipBufferRemain` never exceeds.
-/

namespace Over6.Droid

open EventRun

/-! ## Writes -/

namespace Write

theorem taken_of_takes {w : Write} {bs : List UInt8} (h : w.Takes bs.length) : w.taken bs = bs := by
  rw [taken, h, Int.toNat_natCast, List.take_length]

theorem ret_ge (w : Write) (size : Nat) : -1 ≤ w.ret size := by
  cases w with
  | error => exact Int.le_refl (-1)
  | took n =>
      change -1 ≤ ((min n size : Nat) : Int)
      omega

/-- A write that does not fail takes a part. -/
theorem ret_of_ne_error {w : Write} (h : w ≠ .error) (size : Nat) :
    ∃ k, k ≤ size ∧ w.ret size = k := by
  cases w with
  | error => exact absurd rfl h
  | took n => exact ⟨min n size, Nat.min_le_right n size, rfl⟩

theorem taken_of_ret {w : Write} {bs : List UInt8} {k : Nat} (h : w.ret bs.length = k) :
    w.taken bs = bs.take k := by
  rw [taken, h, Int.toNat_natCast]

end Write

section Put

variable {s : State} {f : Frame} {header payload : Write}

theorem putFrame_sent (hheader : header.Takes sizeofMessage) :
    (s.putFrame f header payload).sent =
      s.sent ++ (f.message.bytes ++ payload.taken f.payload) := by
  have htaken : header.taken f.message.bytes = f.message.bytes :=
    Write.taken_of_takes (by rwa [Message.bytes_length])
  rw [← List.append_assoc, ← htaken]
  rfl

theorem putFrame_whole (hheader : header.Takes sizeofMessage)
    (hpayload : payload.Takes f.payload.length) :
    (s.putFrame f header payload).sent = s.sent ++ f.bytes := by
  rw [putFrame_sent hheader, Write.taken_of_takes hpayload, Frame.bytes]

end Put

/-! ## Buffers -/

namespace Buffer

theorem content_length (b : Buffer) : b.content.length = b.used := CellMemory.load_length _ _ _

theorem append_content (b : Buffer) (bs : List UInt8) :
    (b.append bs).content = b.content ++ bs := by
  have h := b.buf.load_store_append 0 b.used bs
  rwa [Nat.zero_add] at h

theorem dropFront_content (b : Buffer) {n : Nat} (hn : n ≤ b.used) :
    (b.dropFront n).content = b.content.drop n := by
  rw [content, content, dropFront, CellMemory.load_move, CellMemory.load_drop _ hn, Nat.zero_add,
    Int.toNat_natCast]
  congr 1
  omega

theorem load_front (b : Buffer) {n : Nat} (hn : n ≤ b.used) :
    b.buf.load 0 n = b.content.take n := (CellMemory.load_take b.buf hn).symm

end Buffer

/-- A read only adds to what a buffer holds. -/
theorem readToBuf_content (answers : List ReadResult) (b : Buffer) (total : Int) :
    b.content <+: (readToBuf answers b total).1.content := by
  fun_induction readToBuf answers b total with
  | case1 x xs answers b total _ ih =>
      refine List.IsPrefix.trans ?_ ih
      rw [b.append_content]
      exact List.prefix_append _ _
  | _ => exact List.prefix_rfl

theorem readToBuf_used {answers : List ReadResult} {b : Buffer} {total : Int}
    (hfits : ∀ a ∈ answers, a.Fits ipPacketMaxSize) (h : b.used < pipeBufLen) :
    (readToBuf answers b total).1.used < pipeBufLen := by
  fun_induction readToBuf answers b total with
  | case1 x xs answers b total hroom ih =>
      have hchunk : (x :: xs).length ≤ ipPacketMaxSize := hfits _ List.mem_cons_self
      refine ih (fun a ha => hfits a (List.mem_cons_of_mem _ ha)) ?_
      have hcap : pipeBufLen = 6553600 := rfl
      have hsize : ipPacketMaxSize = 65536 := rfl
      change b.used + (x :: xs).length < pipeBufLen
      omega
  | _ => exact h

/-! ## Reads -/

def delivered : ReadResult → List UInt8
  | .bytes bs => bs
  | .error => []

/-- What the calls of `read()` in `readToBuf` return, for a buffer with `used` bytes. -/
def readResults : List ReadResult → Nat → List ReadResult
  | .bytes (x :: xs) :: answers, used =>
      if used < pipeBufLen - ipPacketMaxSize then
        .bytes (x :: xs) :: readResults answers (used + (x :: xs).length)
      else []
  | .bytes [] :: _, used => if used < pipeBufLen - ipPacketMaxSize then [.bytes []] else []
  | .error :: _, used => if used < pipeBufLen - ipPacketMaxSize then [.error] else []
  | [], used => if used < pipeBufLen - ipPacketMaxSize then [.error] else []

theorem readResults_fits {answers : List ReadResult} {used room : Nat}
    (hfits : ∀ a ∈ answers, a.Fits room) : ∀ a ∈ readResults answers used, a.Fits room := by
  fun_induction readResults answers used with
  | case1 x xs answers used hroom ih =>
      intro a ha
      rcases List.mem_cons.mp ha with rfl | ha
      · exact hfits _ List.mem_cons_self
      · exact ih (fun b hb => hfits b (List.mem_cons_of_mem _ hb)) a ha
  | case3 =>
      intro a ha
      rw [List.mem_singleton.mp ha]
      exact Nat.zero_le _
  | case5 =>
      intro a ha
      rw [List.mem_singleton.mp ha]
      trivial
  | case7 =>
      intro a ha
      rw [List.mem_singleton.mp ha]
      trivial
  | _ => exact nofun

/-- The results are those of the calls: what they delivered is in the buffer. -/
theorem readToBuf_delivered (answers : List ReadResult) (b : Buffer) (total : Int) :
    (readToBuf answers b total).1.content =
      b.content ++ (readResults answers b.used).flatMap delivered := by
  fun_induction readToBuf answers b total with
  | case1 x xs answers b total hroom ih =>
      have hused : (b.append (x :: xs)).used = b.used + (x :: xs).length := rfl
      rw [ih, b.append_content, readResults, if_pos hroom, hused, List.flatMap_cons,
        List.append_assoc]
      rfl
  | case2 x xs answers b total hfull =>
      rw [readResults, if_neg hfull, List.flatMap_nil, List.append_nil]
  | _ =>
      rw [readResults]
      split <;> exact (List.append_nil _).symm

/-- The next entry of `events` is that there is something to read. -/
def State.InputFrom (s : State) (side : Side) : Prop :=
  match s.point with
  | .reports (r :: _) => r.failed = false ∧ r.input = true ∧ r.side = side
  | _ => False

instance (s : State) (side : Side) : Decidable (s.InputFrom side) :=
  decidable_of_bool
    (match s.point with
      | .reports (r :: _) => decide (r.failed = false ∧ r.input = true ∧ r.side = side)
      | _ => false)
    (by unfold State.InputFrom; split <;> simp)

/-! ## The fill -/

/-- What is left of a data frame is in the buffer, and the buffer is large enough; as long as no write
has failed there is a cell to spare. -/
structure Filled (s : State) : Prop where
  fill : s.ipBufferRemain ≤ s.ipBuffer.used
  room : s.ipBuffer.used ≤ pipeBufLen
  spare : s.point ≠ .faulted → s.ipBuffer.used < pipeBufLen

namespace Filled

variable {s s' : State}

theorem initState (time : Int) (ipMem over6Mem : CellMemory UInt8) :
    Filled (initState time ipMem over6Mem) :=
  ⟨Nat.le_refl 0, Nat.zero_le pipeBufLen, fun _ => show 0 < pipeBufLen by decide⟩

theorem of_eq (h : Filled s) (hrun : s.point ≠ .faulted) (hbuffer : s'.ipBuffer = s.ipBuffer)
    (hremain : s'.ipBufferRemain = s.ipBufferRemain) : Filled s' := by
  refine ⟨?_, ?_, fun _ => ?_⟩
  · rw [hbuffer, hremain]
    exact h.fill
  · rw [hbuffer]
    exact h.room
  · rw [hbuffer]
    exact h.spare hrun

theorem transferred (h : Filled s) (hrun : s.point ≠ .faulted) {temp : Int} (htemp : -1 ≤ temp)
    {size : Nat} (hsize : size ≤ s.ipBuffer.used) (rs : List Report) :
    Filled (s.transferred temp size rs) := by
  have hspare := h.spare hrun
  refine ⟨?_, ?_, fun hpoint => ?_⟩
  · change (size - temp).toNat ≤ (s.ipBuffer.used - temp).toNat
    omega
  · change (s.ipBuffer.used - temp).toNat ≤ pipeBufLen
    omega
  · have hdone : ¬ temp < 0 := fun hneg => hpoint (if_pos hneg)
    change (s.ipBuffer.used - temp).toNat < pipeBufLen
    omega

theorem rawToOver6 (h : Filled s) (hrun : s.point ≠ .faulted) (header payload : Write)
    (rs : List Report) : Filled (rawToOver6 header payload rs s) := by
  unfold Droid.rawToOver6
  split
  · exact h.of_eq hrun rfl rfl
  · split
    · have hput : Filled (s.putFrame ⟨typeReply, s.ipBuffer.content⟩ header payload) :=
        h.of_eq hrun rfl rfl
      exact hput.transferred hrun (payload.ret_ge _) (Nat.le_refl _) rs
    · have hput : Filled (s.put payload (s.ipBuffer.buf.load 0 s.ipBufferRemain)) :=
        h.of_eq hrun rfl rfl
      exact hput.transferred hrun (payload.ret_ge _) h.fill rs

end Filled

/-- The handlers that leave `ipBuffer` alone. -/
theorem over6Handle_buffer (tun header reply : Write) (rs : List Report) (s : State) :
    (over6Handle tun header reply rs s).ipBuffer = s.ipBuffer ∧
      (over6Handle tun header reply rs s).ipBufferRemain = s.ipBufferRemain := by
  unfold over6Handle handlePacket State.putTun
  split_ifs <;> exact ⟨rfl, rfl⟩

theorem round_buffer (now later : Int) (beat : Write) (s : State) :
    (setupEvents (keepAlive now later beat s)).ipBuffer = s.ipBuffer ∧
      (setupEvents (keepAlive now later beat s)).ipBufferRemain = s.ipBufferRemain := by
  unfold keepAlive
  split <;> exact ⟨rfl, rfl⟩

structure Reads (s s' : State) : Prop where
  begun : s'.begun = s.begun
  sent : s'.sent = s.sent
  remain : s'.ipBufferRemain = s.ipBufferRemain
  grows : s.ipBuffer.content <+: s'.ipBuffer.content

theorem handleOutput_cases (r : Report) (rs : List Report) (s : State) :
    ∃ p, handleOutput r rs s = { s with point := p } := by
  unfold handleOutput
  split
  · exact ⟨s.point, rfl⟩
  · split
    · cases r.side with
      | over6 => exact ⟨_, rfl⟩
      | tun => exact ⟨_, rfl⟩
    · exact ⟨_, rfl⟩

theorem handleInput_reads (side : Side) (answers : List ReadResult) (s : State) :
    Reads s (handleInput side answers s) := by
  cases side with
  | over6 =>
      simp only [handleInput]
      split <;> exact ⟨rfl, rfl, rfl, List.prefix_rfl⟩
  | tun => exact ⟨rfl, rfl, rfl, readToBuf_content answers s.ipBuffer 0⟩

theorem handleReport_reads (r : Report) (rs : List Report) (answers : List ReadResult) (s : State) :
    Reads s (handleReport r rs answers s) := by
  unfold handleReport
  split
  · exact ⟨rfl, rfl, rfl, List.prefix_rfl⟩
  · split
    · obtain ⟨p, hp⟩ := handleOutput_cases r rs (handleInput r.side answers s)
      obtain ⟨hbegun, hsent, hremain, hgrows⟩ := handleInput_reads r.side answers s
      rw [hp]
      exact ⟨hbegun, hsent, hremain, hgrows⟩
    · obtain ⟨p, hp⟩ := handleOutput_cases r rs s
      rw [hp]
      exact ⟨rfl, rfl, rfl, List.prefix_rfl⟩

theorem handleInput_used {side : Side} {answers : List ReadResult} {s : State}
    (hfits : ∀ a ∈ answers, a.Fits ipPacketMaxSize) (h : s.ipBuffer.used < pipeBufLen) :
    (handleInput side answers s).ipBuffer.used < pipeBufLen := by
  cases side with
  | over6 =>
      simp only [handleInput]
      split <;> exact h
  | tun => exact readToBuf_used hfits h

theorem handleReport_used {r : Report} {rs : List Report} {answers : List ReadResult} {s : State}
    (hfits : ∀ a ∈ answers, a.Fits ipPacketMaxSize) (h : s.ipBuffer.used < pipeBufLen) :
    (handleReport r rs answers s).ipBuffer.used < pipeBufLen := by
  unfold handleReport
  split
  · exact h
  · split
    · obtain ⟨p, hp⟩ := handleOutput_cases r rs (handleInput r.side answers s)
      rw [hp]
      exact handleInput_used hfits h
    · obtain ⟨p, hp⟩ := handleOutput_cases r rs s
      rw [hp]
      exact h

/-! ## One step -/

inductive Steps (s : State) : Input → State → Prop
  | wait {rs : List Report} (point : s.point = .waiting) (reported : s.Reported rs) :
      Steps s (.wait rs) { s with point := .reports rs }
  | report {answers : List ReadResult} {r : Report} {rs : List Report}
      (point : s.point = .reports (r :: rs)) (fits : ∀ a ∈ answers, a.Fits ipPacketMaxSize) :
      Steps s (.report answers) (handleReport r rs answers s)
  | packet (tun header reply : Write) {rs : List Report} (point : s.point = .packets rs) :
      Steps s (.packet tun header reply) (over6Handle tun header reply rs s)
  | data (header payload : Write) {rs : List Report} (point : s.point = .data rs) :
      Steps s (.data header payload) (rawToOver6 header payload rs s)
  | round (now later : Int) (beat : Write) (point : s.point = .reports []) :
      Steps s (.round now later beat) (setupEvents (keepAlive now later beat s))

theorem step_steps {s s' : State} {e : Input} (h : step s e = some s') : Steps s e s' := by
  cases e with
  | wait rs =>
      simp only [step] at h
      split at h
      · rename_i hpoint
        split at h
        · rename_i hreported
          exact Option.some.inj h ▸ .wait hpoint hreported
        · cases h
      · cases h
  | report answers =>
      simp only [step] at h
      split at h
      · rename_i r rs hpoint
        split at h
        · rename_i hfits
          exact Option.some.inj h ▸ .report hpoint hfits
        · cases h
      · cases h
  | packet tun header reply =>
      simp only [step] at h
      split at h
      · rename_i rs hpoint
        exact Option.some.inj h ▸ .packet tun header reply hpoint
      · cases h
  | data header payload =>
      simp only [step] at h
      split at h
      · rename_i rs hpoint
        exact Option.some.inj h ▸ .data header payload hpoint
      · cases h
  | round now later beat =>
      simp only [step] at h
      split at h
      · rename_i hpoint
        exact Option.some.inj h ▸ .round now later beat hpoint
      · cases h

/-- There is no step behind a fault. -/
theorem Steps.running {s s' : State} {e : Input} (h : Steps s e s') : s.point ≠ .faulted := by
  cases h with
  | wait hpoint => exact hpoint ▸ nofun
  | report hpoint => exact hpoint ▸ nofun
  | packet _ _ _ hpoint => exact hpoint ▸ nofun
  | data _ _ hpoint => exact hpoint ▸ nofun
  | round _ _ _ hpoint => exact hpoint ▸ nofun

theorem Filled.step {s s' : State} {e : Input} (h : Filled s) (hstep : step s e = some s') :
    Filled s' := by
  have hsteps := step_steps hstep
  have hrun := hsteps.running
  cases hsteps with
  | wait => exact h.of_eq hrun rfl rfl
  | @report answers r rs _ hfits =>
      have hreads := handleReport_reads r rs answers s
      have hgrows := hreads.grows.length_le
      have hfill := h.fill
      have hused := @handleReport_used r rs answers s hfits (h.spare hrun)
      rw [Buffer.content_length, Buffer.content_length] at hgrows
      refine ⟨?_, Nat.le_of_lt hused, fun _ => hused⟩
      rw [hreads.remain]
      omega
  | @packet tun header reply rs _ =>
      obtain ⟨hbuffer, hremain⟩ := over6Handle_buffer tun header reply rs s
      exact h.of_eq hrun hbuffer hremain
  | data header payload => exact h.rawToOver6 hrun header payload _
  | round now later beat =>
      obtain ⟨hbuffer, hremain⟩ := round_buffer now later beat s
      exact h.of_eq hrun hbuffer hremain

/-- The two counters stay in range, whatever the writes return. -/
theorem filled_runFrom {time : Int} {ipMem over6Mem : CellMemory UInt8} {es : List Input}
    {s : State} (hrun : runFrom time ipMem over6Mem es = some s) : Filled s :=
  run_invariant Filled (fun _ _ _ h hstep => h.step hstep)
    (Filled.initState time ipMem over6Mem) hrun

end Over6.Droid
