import Over6.Downstream
import Over6.Droid.Blocking

/-! # The packets in the frames

`ipBuffer` holds bytes. A frame is all that it holds when the client is ready, so a
packet has a frame of its own only if no other one has come since the last frame.
-/

namespace Over6.Droid

open EventRun

/-! ## What is recorded of a run -/

def packetsRead (results : List ReadResult) : List (List UInt8) :=
  (results.map delivered).filter fun bs => bs ≠ []

def Input.fromTun (s : State) : Input → List (List UInt8)
  | .report answers =>
      if s.InputFrom .tun then packetsRead (readResults answers s.ipBuffer.used) else []
  | _ => []

structure Record where
  /-- All packets read so far. -/
  reads : List (List UInt8)
  /-- Those since the last call of `rawToOver6`. -/
  pending : List (List UInt8)

def note (s : State) (e : Input) (r : Record) : Record where
  reads := r.reads ++ e.fromTun s
  pending :=
    match e with
    | .data _ _ => []
    | _ => r.pending ++ e.fromTun s

section Note

variable (s : State) (r : Record)

@[simp] theorem note_wait (rs : List Report) : note s (.wait rs) r = r := by
  simp [note, Input.fromTun]

@[simp] theorem note_packet (tun header reply : Write) :
    note s (.packet tun header reply) r = r := by
  simp [note, Input.fromTun]

@[simp] theorem note_data (header payload : Write) :
    note s (.data header payload) r = ⟨r.reads, []⟩ := by
  simp [note, Input.fromTun]

@[simp] theorem note_round (now later : Int) (beat : Write) :
    note s (.round now later beat) r = r := by
  simp [note, Input.fromTun]

end Note

def watch : State × Record → Input → Option (State × Record) := recorded step note

def watchFrom (time : Int) (ipMem over6Mem : CellMemory UInt8) (es : List Input) :
    Option (State × Record) :=
  run watch (initState time ipMem over6Mem, ⟨[], []⟩) es

def Full (s : State) (e : Input) : Prop :=
  e.Whole ∧
    match e with
    | .data _ payload => payload.Takes s.asked.length
    | _ => True

instance (s : State) (e : Input) : Decidable (Full s e) :=
  match e with
  | .data _ payload => inferInstanceAs (Decidable (_ ∧ payload.Takes s.asked.length))
  | .wait _ | .report _ | .packet .. | .round .. => inferInstanceAs (Decidable (_ ∧ True))

/-- The client has been sent whole frames, and the data frames are the packets read, one each. -/
structure OneEach (w : State × Record) : Prop where
  sent : w.1.sent = frameCode.stream w.1.begun
  carried : Client.packets w.1.begun <+: w.2.reads

/-- `rawToOver6` is called behind more than one packet. -/
def Merges (w : State × Record) : Input → Prop
  | .data _ _ => 2 ≤ w.2.pending.length
  | _ => False

instance (w : State × Record) (e : Input) : Decidable (Merges w e) :=
  match e with
  | .data .. => inferInstanceAs (Decidable (2 ≤ w.2.pending.length))
  | .wait _ | .report _ | .packet .. | .round .. => inferInstanceAs (Decidable False)

/-! ## What a step brings and takes -/

theorem packetsRead_flatten (results : List ReadResult) :
    (packetsRead results).flatten = results.flatMap delivered := by
  rw [packetsRead, List.flatten_filter_ne_nil, List.flatMap_def]

/-- Each of them is as large as one read at most, and not empty. -/
theorem packetsRead_size {answers : List ReadResult} (used : Nat)
    (hfits : ∀ a ∈ answers, a.Fits ipPacketMaxSize) :
    ∀ p ∈ packetsRead (readResults answers used), p ≠ [] ∧ p.length ≤ ipPacketMaxSize := by
  intro p hp
  obtain ⟨hp, hne⟩ := List.mem_filter.mp hp
  obtain ⟨a, ha, rfl⟩ := List.mem_map.mp hp
  refine ⟨of_decide_eq_true hne, ?_⟩
  have hfit : a.Fits ipPacketMaxSize := readResults_fits hfits a ha
  cases a with
  | error => exact Nat.zero_le _
  | bytes bs => exact hfit

section Content

variable {s : State} {r : Report} {rs : List Report} {answers : List ReadResult}

/-- The bytes of the packets that are read go behind what the buffer holds. -/
theorem handleReport_content (hpoint : s.point = .reports (r :: rs)) :
    (handleReport r rs answers s).ipBuffer.content =
      s.ipBuffer.content ++ (Input.fromTun s (.report answers)).flatten := by
  obtain ⟨side, input, output, failed⟩ := r
  have houtput : ∀ t, (handleOutput ⟨side, input, output, failed⟩ rs t).ipBuffer = t.ipBuffer := by
    intro t
    obtain ⟨p, hp⟩ := handleOutput_cases ⟨side, input, output, failed⟩ rs t
    rw [hp]
  have hfrom : s.InputFrom .tun ↔ failed = false ∧ input = true ∧ side = .tun := by
    rw [State.InputFrom, hpoint]
  rw [Input.fromTun]
  by_cases hinput : s.InputFrom .tun
  · obtain ⟨rfl, rfl, rfl⟩ := hfrom.mp hinput
    rw [if_pos hinput, packetsRead_flatten, ← readToBuf_delivered answers s.ipBuffer 0]
    simp only [handleReport, Bool.false_eq_true, if_false, if_true, houtput]
    rfl
  · have hsame : (handleReport ⟨side, input, output, failed⟩ rs answers s).ipBuffer =
        s.ipBuffer := by
      unfold handleReport
      split
      · rfl
      · split
        · cases side with
          | over6 =>
              rw [houtput]
              simp only [handleInput]
              split <;> rfl
          | tun =>
              exact absurd (hfrom.mpr ⟨by simpa using ‹¬ _ = true›, ‹_›, rfl⟩) hinput
        · rw [houtput]
    rw [if_neg hinput, hsame, List.flatten_nil, List.append_nil]

/-- A call with whole writes takes all, and in one frame. -/
theorem rawToOver6_full {header payload : Write} (rs : List Report) (hidle : s.ipBufferRemain = 0)
    (hused : s.ipBuffer.used ≠ 0) (hheader : header.Takes sizeofMessage)
    (hpayload : payload.Takes s.ipBuffer.used) :
    (rawToOver6 header payload rs s).begun = s.begun ++ [⟨typeReply, s.ipBuffer.content⟩] ∧
      (rawToOver6 header payload rs s).sent =
        s.sent ++ (Frame.mk typeReply s.ipBuffer.content).bytes ∧
      (rawToOver6 header payload rs s).ipBuffer.content = [] ∧
      (rawToOver6 header payload rs s).ipBufferRemain = 0 := by
  have hlen := s.ipBuffer.content_length
  have hret : payload.ret s.ipBuffer.used = s.ipBuffer.used := hpayload
  have hwhole : payload.Takes (Frame.mk typeReply s.ipBuffer.content).payload.length := by
    rwa [hlen]
  rw [rawToOver6, if_neg hused, if_pos hidle, hret]
  refine ⟨rfl, putFrame_whole hheader hwhole, ?_, Int.toNat_sub _ _ |>.trans (Nat.sub_self _)⟩
  refine (s.ipBuffer.dropFront_content (Nat.le_refl _)).trans ?_
  rw [← hlen, List.drop_length]

end Content

structure Emits (s : State) (frames : List Frame) (s' : State) : Prop where
  ours : ∀ f ∈ frames, f = ipReply ∨ f = heartbeat
  begun : s'.begun = s.begun ++ frames
  sent : s'.sent = s.sent ++ frameCode.stream frames

section Emits

variable {s s' : State} {frames : List Frame}

theorem Emits.none (hbegun : s'.begun = s.begun) (hsent : s'.sent = s.sent) : Emits s [] s' := by
  refine ⟨nofun, ?_, ?_⟩
  · rw [hbegun, List.append_nil]
  · rw [hsent, PrefixCode.stream_nil, List.append_nil]

theorem Emits.one {f : Frame} (hf : f = ipReply ∨ f = heartbeat)
    (hbegun : s'.begun = s.begun ++ [f]) (hsent : s'.sent = s.sent ++ f.bytes) :
    Emits s [f] s' := by
  refine ⟨fun g hg => List.mem_singleton.mp hg ▸ hf, hbegun, ?_⟩
  rw [hsent, PrefixCode.stream_cons, PrefixCode.stream_nil, List.append_nil, frameCode_encode]

theorem Emits.packets (h : Emits s frames s') :
    Client.packets s'.begun = Client.packets s.begun := by
  have hnone : frames.filter (fun f => f.type == msgDataRsb) = [] := by
    refine List.filter_eq_nil_iff.mpr fun f hf => ?_
    rcases h.ours f hf with rfl | rfl <;> decide
  rw [h.begun, Client.packets, List.filter_append, hnone, List.append_nil]
  rfl

theorem over6Handle_emits (tun : Write) {header reply : Write} (rs : List Report) (s : State)
    (hheader : header.Takes sizeofMessage) (hreply : reply.Takes ipReply.payload.length) :
    ∃ frames, Emits s frames (over6Handle tun header reply rs s) := by
  unfold over6Handle handlePacket State.putTun
  split_ifs
  · exact ⟨[], .none rfl rfl⟩
  · exact ⟨[], .none rfl rfl⟩
  · exact ⟨[ipReply], .one (.inl rfl) rfl (putFrame_whole hheader hreply)⟩
  · exact ⟨[], .none rfl rfl⟩
  · exact ⟨[], .none rfl rfl⟩

theorem round_emits (now later : Int) {beat : Write} (s : State)
    (hbeat : beat.Takes sizeofMessage) :
    ∃ frames, Emits s frames (setupEvents (keepAlive now later beat s)) := by
  unfold keepAlive
  split
  · have htaken : beat.taken heartbeat.message.bytes = heartbeat.bytes := by
      rw [Write.taken_of_takes (by rwa [Message.bytes_length])]
      exact (List.append_nil _).symm
    refine ⟨[heartbeat], .one (.inr rfl) rfl ?_⟩
    rw [← htaken]
    rfl
  · exact ⟨[], .none rfl rfl⟩

end Emits

/-! ## Frames in step with reads -/

def Sendable (f : Frame) : Prop :=
  f = ipReply ∨ f = heartbeat ∨ f.type = typeReply ∧ f.payload.length ≤ ipPacketMaxSize

theorem sendable_valid {f : Frame} (h : Sendable f) : f.Valid := by
  refine ours_valid (h.imp_right (.imp_right ?_))
  rintro ⟨htype, hlen⟩
  exact ⟨htype, hlen.trans (by decide)⟩

/-- What is pending is in the buffer, and what is not has had its frame. -/
structure InStep (w : State × Record) : Prop where
  filled : Filled w.1
  idle : w.1.ipBufferRemain = 0
  pending : ∀ p ∈ w.2.pending, p ≠ [] ∧ p.length ≤ ipPacketMaxSize
  content : w.1.ipBuffer.content = w.2.pending.flatten
  reads : Client.packets w.1.begun ++ w.2.pending = w.2.reads
  begun : ∀ f ∈ w.1.begun, Sendable f
  sent : w.1.sent = frameCode.stream w.1.begun

namespace InStep

variable {w w' : State × Record}

theorem start (time : Int) (ipMem over6Mem : CellMemory UInt8) :
    InStep (initState time ipMem over6Mem, ⟨[], []⟩) where
  filled := .initState time ipMem over6Mem
  idle := rfl
  pending := nofun
  content := rfl
  reads := rfl
  begun := nofun
  sent := rfl

theorem oneEach (h : InStep w) : OneEach w := ⟨h.sent, h.reads ▸ List.prefix_append _ _⟩

/-- Nothing is taken from the buffer, and `new` comes behind it. -/
theorem grows (h : InStep w) {s' : State} (hfilled : Filled s') {new : List (List UInt8)}
    (hnew : ∀ p ∈ new, p ≠ [] ∧ p.length ≤ ipPacketMaxSize) {frames : List Frame}
    (hemits : Emits w.1 frames s') (hremain : s'.ipBufferRemain = w.1.ipBufferRemain)
    (hcontent : s'.ipBuffer.content = w.1.ipBuffer.content ++ new.flatten) :
    InStep (s', ⟨w.2.reads ++ new, w.2.pending ++ new⟩) where
  filled := hfilled
  idle := hremain.trans h.idle
  pending p hp := (List.mem_append.mp hp).elim (h.pending p) (hnew p)
  content := by rw [hcontent, h.content, List.flatten_append]
  reads := by rw [hemits.packets, ← List.append_assoc, h.reads]
  begun f hf := by
    rw [hemits.begun] at hf
    rcases List.mem_append.mp hf with hold | hmem
    · exact h.begun f hold
    · exact (hemits.ours f hmem).imp_right .inl
  sent := by rw [hemits.sent, hemits.begun, h.sent, PrefixCode.stream_append]

theorem grows_none (h : InStep w) {s' : State} (hfilled : Filled s') {frames : List Frame}
    (hemits : Emits w.1 frames s') (hbuffer : s'.ipBuffer = w.1.ipBuffer)
    (hremain : s'.ipBufferRemain = w.1.ipBufferRemain) : InStep (s', w.2) := by
  have hcontent : s'.ipBuffer.content =
      w.1.ipBuffer.content ++ ([] : List (List UInt8)).flatten := by
    rw [hbuffer, List.flatten_nil, List.append_nil]
  have hnew : ∀ p ∈ ([] : List (List UInt8)), p ≠ [] ∧ p.length ≤ ipPacketMaxSize := nofun
  have hsame := h.grows hfilled hnew hemits hremain hcontent
  rwa [List.append_nil, List.append_nil] at hsame

theorem used_eq_zero_iff (h : InStep w) : w.1.ipBuffer.used = 0 ↔ w.2.pending = [] := by
  rw [← Buffer.content_length, h.content, List.length_eq_zero_iff]
  constructor
  · intro hnil
    refine List.eq_nil_iff_forall_not_mem.mpr fun p hp => ?_
    exact (h.pending p hp).1 (List.flatten_eq_nil_iff.mp hnil p hp)
  · intro hnil
    rw [hnil, List.flatten_nil]

section Data

variable {header payload : Write}

theorem asked (h : InStep w) (hfull : Full w.1 (.data header payload)) :
    header.Takes sizeofMessage ∧ payload.Takes w.1.ipBuffer.used := by
  obtain ⟨⟨hheader, _⟩, hpayload⟩ := hfull
  refine ⟨hheader, ?_⟩
  rwa [asked_length, if_pos h.idle] at hpayload

/-- A single packet is the payload of its frame. -/
theorem ships (h : InStep w) (rs : List Report) (hrun : w.1.point ≠ .faulted)
    (hfull : Full w.1 (.data header payload)) (hfew : w.2.pending.length < 2) :
    InStep (rawToOver6 header payload rs w.1, ⟨w.2.reads, []⟩) := by
  have hfilled := h.filled.rawToOver6 hrun header payload rs
  obtain ⟨hheader, hpayload⟩ := h.asked hfull
  have hreads := h.reads
  match hpending : w.2.pending with
  | [] =>
      have hused := h.used_eq_zero_iff.mpr hpending
      have hsame : rawToOver6 header payload rs w.1 = { w.1 with point := .reports rs } :=
        if_pos hused
      rw [hsame] at hfilled ⊢
      have hkept := h.grows_none hfilled (.none rfl rfl) rfl rfl
      rwa [← hpending]
  | [p] =>
      have hused : w.1.ipBuffer.used ≠ 0 := by
        rw [ne_eq, h.used_eq_zero_iff, hpending]
        exact List.cons_ne_nil p []
      have hcontent : w.1.ipBuffer.content = p := by
        rw [h.content, hpending, List.flatten_singleton]
      have hsize := h.pending p (by rw [hpending]; exact List.mem_cons_self)
      obtain ⟨hbegun, hsent, hempty, hidle⟩ := rawToOver6_full rs h.idle hused hheader hpayload
      rw [hcontent] at hbegun hsent
      refine ⟨hfilled, hidle, nofun, hempty, ?_, fun f hf => ?_, ?_⟩
      · change Client.packets (rawToOver6 header payload rs w.1).begun ++ [] = w.2.reads
        rw [hbegun, Client.packets_snoc_data _ rfl, List.append_nil, ← hreads, hpending]
      · rw [hbegun] at hf
        rcases List.mem_append.mp hf with hold | hnew
        · exact h.begun f hold
        · rw [List.mem_singleton.mp hnew]
          exact .inr (.inr ⟨rfl, hsize.2⟩)
      · rw [hsent, hbegun, h.sent, PrefixCode.stream_append, PrefixCode.stream_cons,
          PrefixCode.stream_nil, List.append_nil, frameCode_encode]
  | p :: q :: _ =>
      rw [hpending] at hfew
      exact absurd hfew (by simp)

/-- The frame of several packets is longer than the first of them. -/
theorem merged (h : InStep w) (rs : List Report) (hfull : Full w.1 (.data header payload))
    (hmany : 2 ≤ w.2.pending.length) :
    ¬ OneEach (rawToOver6 header payload rs w.1, ⟨w.2.reads, []⟩) := by
  obtain ⟨hheader, hpayload⟩ := h.asked hfull
  match hpending : w.2.pending with
  | [] | [_] =>
      rw [hpending] at hmany
      exact absurd hmany (by simp)
  | p :: q :: rest =>
      have hused : w.1.ipBuffer.used ≠ 0 := by
        rw [ne_eq, h.used_eq_zero_iff, hpending]
        exact List.cons_ne_nil p _
      obtain ⟨hbegun, _⟩ := rawToOver6_full rs h.idle hused hheader hpayload
      rintro ⟨_, hcarried⟩
      change Client.packets (rawToOver6 header payload rs w.1).begun <+: w.2.reads at hcarried
      rw [hbegun, Client.packets_snoc_data _ rfl, ← h.reads, List.prefix_append_right_inj, hpending,
        List.cons_prefix_cons, h.content, hpending] at hcarried
      have hlen := congrArg List.length hcarried.1
      have hq := List.length_pos_iff.mpr (h.pending q (by rw [hpending]; simp)).1
      rw [List.flatten_cons, List.flatten_cons, List.length_append, List.length_append] at hlen
      omega

end Data

theorem step (h : InStep w) {e : Input} (hfull : Full w.1 e) (hgood : ¬ Merges w e)
    (hstep : watch w e = some w') : InStep w' := by
  obtain ⟨hserver, hnote⟩ := recorded_eq_some.mp hstep
  obtain ⟨s', r'⟩ := w'
  have hfilled := h.filled.step hserver
  have hsteps := step_steps hserver
  have hrunning := hsteps.running
  obtain rfl : r' = note w.1 e w.2 := hnote
  cases hsteps with
  | wait =>
      rw [note_wait]
      exact h.grows_none hfilled (.none rfl rfl) rfl rfl
  | @report answers r rs hpoint hfits =>
      have hreads := handleReport_reads r rs answers w.1
      refine h.grows hfilled ?_ (.none hreads.begun hreads.sent) hreads.remain
        (handleReport_content hpoint)
      rw [Input.fromTun]
      split
      · exact packetsRead_size _ hfits
      · exact nofun
  | @packet tun header reply rs =>
      obtain ⟨hbuffer, hremain⟩ := over6Handle_buffer tun header reply rs w.1
      obtain ⟨frames, hemits⟩ := over6Handle_emits tun rs w.1 hfull.1.1 hfull.1.2
      rw [note_packet]
      exact h.grows_none hfilled hemits hbuffer hremain
  | @data header payload rs =>
      rw [note_data]
      exact h.ships rs hrunning hfull (Nat.not_le.mp hgood)
  | round now later beat =>
      obtain ⟨hbuffer, hremain⟩ := round_buffer now later beat w.1
      obtain ⟨frames, hemits⟩ := round_emits now later w.1 hfull.1
      rw [note_round]
      exact h.grows_none hfilled hemits hbuffer hremain

theorem step_merges (h : InStep w) {e : Input} (hfull : Full w.1 e) (hbad : Merges w e)
    (hstep : watch w e = some w') : ¬ OneEach w' := by
  obtain ⟨hserver, hnote⟩ := recorded_eq_some.mp hstep
  obtain ⟨s', r'⟩ := w'
  obtain rfl : r' = note w.1 e w.2 := hnote
  have hsteps := step_steps hserver
  cases hsteps with
  | @data header payload rs =>
      rw [note_data]
      exact h.merged rs hfull hbad
  | _ => exact hbad.elim

end InStep

/-! ## Runs -/

section Runs

variable {time : Int} {ipMem over6Mem : CellMemory UInt8} {es : List Input} {w : State × Record}

/-- Each packet has a frame of its own exactly if `rawToOver6` is never called behind two of
them. -/
theorem oneEach_iff (hrun : watchFrom time ipMem over6Mem es = some w)
    (hfull : ∀ pre e post u, es = pre ++ e :: post → watchFrom time ipMem over6Mem pre = some u →
      Full u.1 e) :
    (∀ pre u, pre <+: es → watchFrom time ipMem over6Mem pre = some u → OneEach u) ↔
      ∀ pre e post u, es = pre ++ e :: post → watchFrom time ipMem over6Mem pre = some u →
        ¬ Merges u e := by
  have hinit := InStep.start time ipMem over6Mem
  refine run_guarded_iff_of (fun (w : State × Record) e => Full w.1 e) Merges InStep OneEach
    ?_ ?_ hfull hinit hinit.oneEach hrun
  · intro w e w' he h hstep hsafe
    exact h.step he (fun hbad => h.step_merges he hbad hstep hsafe) hstep
  · intro w e w' he h hstep
    exact ⟨fun hsafe hbad => h.step_merges he hbad hstep hsafe,
      fun hgood => (h.step he hgood hstep).oneEach⟩

theorem inStep_watchFrom (hrun : watchFrom time ipMem over6Mem es = some w)
    (hfull : ∀ pre e post u, es = pre ++ e :: post → watchFrom time ipMem over6Mem pre = some u →
      Full u.1 e)
    (hgood : ∀ pre e post u, es = pre ++ e :: post → watchFrom time ipMem over6Mem pre = some u →
      ¬ Merges u e) : InStep w :=
  run_meeting (fun (w : State × Record) e => Full w.1 e ∧ ¬ Merges w e) InStep
    (fun _ _ _ h he hstep => h.step he.1 he.2 hstep) (.start time ipMem over6Mem) hrun
    fun pre e post u hsplit hu => ⟨hfull pre e post u hsplit hu, hgood pre e post u hsplit hu⟩

end Runs

end Over6.Droid
