import Over6.Droid.Calculus

/-! # What the client is sent

Data frames leave in pieces and `ipBufferRemain` says what is still owed of the last
one. The heartbeat waits until nothing is owed; the reply to an IP request does not.
-/

namespace Over6.Droid

open EventRun

/-! ## Frames in progress -/

def Ours (f : Frame) : Prop :=
  f = ipReply ∨ f = heartbeat ∨ f.type = typeReply ∧ f.payload.length ≤ pipeBufLen

def Data (f : Frame) : Prop := f.type = typeReply

/-- The bytes written to `over6_fd` are frames one after the other, the last one possibly a data
frame in progress. -/
structure Framed (s : State) : Prop where
  ours : ∀ f ∈ s.begun, Ours f
  cut : frameCode.Cut Data s.begun s.sent

/-- `over6Handle` is at an IP request while a data frame is in progress. -/
def Interrupts (s : State) : Prop :=
  (∃ rs, s.point = .packets rs) ∧ s.over6PacketBuffer.Complete ∧
    s.over6PacketBuffer.type = typeIpRequest ∧ s.ipBufferRemain ≠ 0

instance (s : State) : Decidable (Interrupts s) := by
  have h : Decidable (∃ rs, s.point = .packets rs) := by
    cases s.point with
    | packets rs => exact isTrue ⟨rs, rfl⟩
    | _ => exact isFalse nofun
  unfold Interrupts
  infer_instance

/-- The writes of headers, IP replies and heartbeats take all, and none of the others fails. -/
def Input.Whole : Input → Prop
  | .packet _ header reply => header.Takes sizeofMessage ∧ reply.Takes ipReply.payload.length
  | .data header payload => header.Takes sizeofMessage ∧ payload ≠ .error
  | .round _ _ beat => beat.Takes sizeofMessage
  | _ => True

instance : DecidablePred Input.Whole := fun e =>
  match e with
  | .packet .. | .data .. => inferInstanceAs (Decidable (_ ∧ _))
  | .round _ _ beat => inferInstanceAs (Decidable (beat.Takes sizeofMessage))
  | .wait _ | .report _ => inferInstanceAs (Decidable True)

theorem ours_valid {f : Frame} (h : Ours f) : f.Valid := by
  have hfive : sizeofMessage = 5 := rfl
  have hcap : pipeBufLen = 6553600 := rfl
  rcases h with rfl | rfl | ⟨_, hlen⟩
  · decide +kernel
  · decide +kernel
  · change f.payload.length + sizeofMessage < 2 ^ 31
    omega

/-! ## What a step sends -/

/-- What `rawToOver6` puts on the socket and takes from `ipBuffer`. -/
inductive Transfers (s s' : State) : Prop
  | idle (begun : s'.begun = s.begun) (sent : s'.sent = s.sent)
      (buffer : s'.ipBuffer = s.ipBuffer) (remain : s'.ipBufferRemain = s.ipBufferRemain)
  | starts {k : Nat} (done : s.ipBufferRemain = 0) (taken : k ≤ s.ipBuffer.used)
      (begun : s'.begun = s.begun ++ [⟨typeReply, s.ipBuffer.content⟩])
      (sent : s'.sent = s.sent ++ ((Frame.mk typeReply s.ipBuffer.content).message.bytes ++
        s.ipBuffer.content.take k))
      (content : s'.ipBuffer.content = s.ipBuffer.content.drop k)
      (remain : s'.ipBufferRemain = s.ipBuffer.used - k)
  | goesOn {k : Nat} (taken : k ≤ s.ipBufferRemain) (begun : s'.begun = s.begun)
      (sent : s'.sent = s.sent ++ s.ipBuffer.content.take k)
      (content : s'.ipBuffer.content = s.ipBuffer.content.drop k)
      (remain : s'.ipBufferRemain = s.ipBufferRemain - k)

theorem rawToOver6_transfers {s : State} (h : Filled s) {header payload : Write}
    (rs : List Report) (hheader : header.Takes sizeofMessage) (hpayload : payload ≠ .error) :
    Transfers s (rawToOver6 header payload rs s) := by
  unfold rawToOver6
  split
  · exact .idle rfl rfl rfl rfl
  · split
    · rename_i hdone
      obtain ⟨k, hk, hret⟩ := Write.ret_of_ne_error hpayload s.ipBuffer.used
      have hlen := s.ipBuffer.content_length
      have hsent : (s.putFrame ⟨typeReply, s.ipBuffer.content⟩ header payload).sent = s.sent ++
          ((Frame.mk typeReply s.ipBuffer.content).message.bytes ++ s.ipBuffer.content.take k) := by
        have htaken : payload.taken s.ipBuffer.content = s.ipBuffer.content.take k :=
          Write.taken_of_ret (by rw [hlen, hret])
        rw [putFrame_sent hheader, htaken]
      rw [hret]
      exact .starts hdone hk rfl hsent (s.ipBuffer.dropFront_content hk) (Int.toNat_sub _ _)
    · obtain ⟨k, hk, hret⟩ := Write.ret_of_ne_error hpayload s.ipBufferRemain
      have hsent : (s.put payload (s.ipBuffer.buf.load 0 s.ipBufferRemain)).sent =
          s.sent ++ s.ipBuffer.content.take k := by
        have htaken : payload.taken (s.ipBuffer.buf.load 0 s.ipBufferRemain) =
            s.ipBuffer.content.take k := by
          rw [Write.taken_of_ret (by rw [CellMemory.load_length, hret]), s.ipBuffer.load_front h.fill,
            List.take_take, Nat.min_eq_left hk]
        rw [← htaken]
        rfl
      have hused : k ≤ s.ipBuffer.used := hk.trans h.fill
      rw [hret]
      exact .goesOn hk rfl hsent (s.ipBuffer.dropFront_content hused) (Int.toNat_sub _ _)

inductive Sends (s s' : State) : Prop
  | quiet (calm : ¬ Interrupts s) (reads : Reads s s')
  | reply (interrupts : Interrupts s ↔ s.ipBufferRemain ≠ 0) (begun : s'.begun = s.begun ++ [ipReply])
      (sent : s'.sent = s.sent ++ ipReply.bytes) (buffer : s'.ipBuffer = s.ipBuffer)
      (remain : s'.ipBufferRemain = s.ipBufferRemain)
  | beat (calm : ¬ Interrupts s) (done : s.ipBufferRemain = 0)
      (begun : s'.begun = s.begun ++ [heartbeat]) (sent : s'.sent = s.sent ++ heartbeat.bytes)
      (buffer : s'.ipBuffer = s.ipBuffer) (remain : s'.ipBufferRemain = s.ipBufferRemain)
  | starts {k : Nat} (calm : ¬ Interrupts s) (done : s.ipBufferRemain = 0)
      (taken : k ≤ s.ipBuffer.used)
      (begun : s'.begun = s.begun ++ [⟨typeReply, s.ipBuffer.content⟩])
      (sent : s'.sent = s.sent ++ ((Frame.mk typeReply s.ipBuffer.content).message.bytes ++
        s.ipBuffer.content.take k))
      (content : s'.ipBuffer.content = s.ipBuffer.content.drop k)
      (remain : s'.ipBufferRemain = s.ipBuffer.used - k)
  | goesOn {k : Nat} (calm : ¬ Interrupts s) (taken : k ≤ s.ipBufferRemain)
      (begun : s'.begun = s.begun) (sent : s'.sent = s.sent ++ s.ipBuffer.content.take k)
      (content : s'.ipBuffer.content = s.ipBuffer.content.drop k)
      (remain : s'.ipBufferRemain = s.ipBufferRemain - k)

section Sends

variable {s : State}

theorem calm_of_point {p : Point} (hpoint : s.point = p) (h : ∀ rs, p ≠ .packets rs) :
    ¬ Interrupts s := by
  rintro ⟨⟨rs, hrs⟩, _⟩
  exact h rs (hpoint.symm.trans hrs)

theorem over6Handle_sends (tun : Write) {header reply : Write} {rs : List Report}
    (hpoint : s.point = .packets rs) (hheader : header.Takes sizeofMessage)
    (hreply : reply.Takes ipReply.payload.length) :
    Sends s (over6Handle tun header reply rs s) := by
  unfold over6Handle
  split
  · rename_i hcomplete
    by_cases htype : s.over6PacketBuffer.type = typeIpRequest
    · have hnot : s.over6PacketBuffer.type ≠ typeHeart ∧ s.over6PacketBuffer.type ≠ typeRequest := by
        rw [htype]
        decide
      have hput : handlePacket tun header reply s = s.putFrame ipReply header reply := by
        rw [handlePacket, if_neg hnot.1, if_neg hnot.2, if_pos htype]
      rw [hput]
      refine .reply ⟨fun h => h.2.2.2, fun h => ⟨⟨rs, hpoint⟩, hcomplete, htype, h⟩⟩ rfl ?_ rfl rfl
      exact putFrame_whole hheader hreply
    · have hcalm : ¬ Interrupts s := fun h => htype h.2.2.1
      unfold handlePacket State.putTun
      split_ifs <;> exact .quiet hcalm ⟨rfl, rfl, rfl, List.prefix_rfl⟩
  · rename_i hcomplete
    exact .quiet (fun h => hcomplete h.2.1) ⟨rfl, rfl, rfl, List.prefix_rfl⟩

theorem rawToOver6_sends (h : Filled s) {header payload : Write} {rs : List Report}
    (hpoint : s.point = .data rs) (hheader : header.Takes sizeofMessage)
    (hpayload : payload ≠ .error) : Sends s (rawToOver6 header payload rs s) := by
  have hcalm : ¬ Interrupts s := calm_of_point hpoint fun _ => nofun
  cases rawToOver6_transfers h rs hheader hpayload with
  | idle hbegun hsent hbuffer hremain =>
      refine .quiet hcalm ⟨hbegun, hsent, hremain, ?_⟩
      rw [hbuffer]
  | starts hdone hk hbegun hsent hcontent hremain =>
      exact .starts hcalm hdone hk hbegun hsent hcontent hremain
  | goesOn hk hbegun hsent hcontent hremain =>
      exact .goesOn hcalm hk hbegun hsent hcontent hremain

theorem round_sends (now later : Int) {beat : Write} (hpoint : s.point = .reports [])
    (hbeat : beat.Takes sizeofMessage) :
    Sends s (setupEvents (keepAlive now later beat s)) := by
  have hcalm : ¬ Interrupts s := calm_of_point hpoint fun _ => nofun
  unfold keepAlive
  split
  · rename_i hdue
    have htaken : beat.taken heartbeat.message.bytes = heartbeat.bytes := by
      rw [Write.taken_of_takes (by rwa [Message.bytes_length])]
      exact (List.append_nil _).symm
    refine .beat hcalm hdue.2 rfl ?_ rfl rfl
    rw [← htaken]
    rfl
  · exact .quiet hcalm ⟨rfl, rfl, rfl, List.prefix_rfl⟩

theorem Steps.sends {s' : State} {e : Input} (h : Filled s) (hstep : Steps s e s')
    (hwhole : e.Whole) : Sends s s' := by
  cases hstep with
  | wait hpoint =>
      exact .quiet (calm_of_point hpoint fun _ => nofun) ⟨rfl, rfl, rfl, List.prefix_rfl⟩
  | @report answers r rs hpoint =>
      exact .quiet (calm_of_point hpoint fun _ => nofun) (handleReport_reads r rs answers s)
  | packet tun _ _ hpoint => exact over6Handle_sends tun hpoint hwhole.1 hwhole.2
  | data _ _ hpoint => exact rawToOver6_sends h hpoint hwhole.1 hwhole.2
  | round now later _ hpoint => exact round_sends now later hpoint hwhole

end Sends

/-! ## What is owed -/

/-- The bytes of the last data frame that are still in the buffer. -/
def State.owed (s : State) : List UInt8 := s.ipBuffer.content.take s.ipBufferRemain

/-- The stream, together with what is owed, consists of frames. -/
structure Tracked (s : State) : Prop where
  filled : Filled s
  ours : ∀ f ∈ s.begun, Ours f
  owes : frameCode.Owes Data s.begun s.sent s.owed

namespace Tracked

variable {s s' : State}

theorem initState (time : Int) (ipMem over6Mem : CellMemory UInt8) :
    Tracked (initState time ipMem over6Mem) :=
  ⟨Filled.initState time ipMem over6Mem, nofun, PrefixCode.Owes.start⟩

theorem framed (h : Tracked s) : Framed s := ⟨h.ours, h.owes.cut⟩

theorem owed_ne_nil (h : Filled s) (hremain : s.ipBufferRemain ≠ 0) : s.owed ≠ [] := by
  have hfill := h.fill
  have hlen := s.ipBuffer.content_length
  rw [State.owed, ne_eq, List.take_eq_nil_iff, ← List.length_eq_zero_iff]
  omega

theorem ours_snoc {frames : List Frame} (h : ∀ f ∈ frames, Ours f) {f : Frame} (hf : Ours f) :
    ∀ f' ∈ frames ++ [f], Ours f' := by
  intro f' hf'
  rcases List.mem_append.mp hf' with hold | hnew
  · exact h f' hold
  · exact List.mem_singleton.mp hnew ▸ hf

theorem owed_nil (hzero : s.ipBufferRemain = 0) : s.owed = [] := by
  rw [State.owed, hzero, List.take_zero]

/-- A frame that leaves in one piece, while nothing is owed. -/
theorem whole (h : Tracked s) (hfilled : Filled s') (hzero : s.ipBufferRemain = 0) {f : Frame}
    (hf : Ours f) (hbegun : s'.begun = s.begun ++ [f]) (hsent : s'.sent = s.sent ++ f.bytes)
    (hremain : s'.ipBufferRemain = s.ipBufferRemain) : Tracked s' := by
  have howes := h.owes
  rw [owed_nil hzero] at howes
  refine ⟨hfilled, ?_, ?_⟩
  · rw [hbegun]
    exact ours_snoc h.ours hf
  · rw [hbegun, hsent, owed_nil (hremain.trans hzero)]
    exact howes.word (List.append_nil _) fun hne => absurd rfl hne

theorem sends (h : Tracked s) (hfilled : Filled s') (hcalm : ¬ Interrupts s) (hs : Sends s s') :
    Tracked s' := by
  have howes := h.owes
  cases hs with
  | quiet _ hreads =>
      obtain ⟨hbegun, hsent, hremain, tail, hgrows⟩ := hreads
      have hfill := h.filled.fill
      have howed : s'.owed = s.owed := by
        rw [State.owed, State.owed, ← hgrows, hremain, List.take_append_of_le_length]
        rwa [Buffer.content_length]
      refine ⟨hfilled, ?_, ?_⟩
      · rw [hbegun]
        exact h.ours
      · rw [hbegun, hsent, howed]
        exact howes
  | reply hinterrupts hbegun hsent _ hremain =>
      have hzero : s.ipBufferRemain = 0 := by
        by_contra hne
        exact hcalm (hinterrupts.mpr hne)
      exact h.whole hfilled hzero (.inl rfl) hbegun hsent hremain
  | beat _ hzero hbegun hsent _ hremain =>
      exact h.whole hfilled hzero (.inr (.inl rfl)) hbegun hsent hremain
  | @starts k _ hzero htaken hbegun hsent hcontent hremain =>
      have hlen := s.ipBuffer.content_length
      have howed : s'.owed = s.ipBuffer.content.drop k := by
        rw [State.owed, hremain, hcontent, List.take_of_length_le]
        rw [List.length_drop, hlen]
      refine ⟨hfilled, ?_, ?_⟩
      · rw [hbegun]
        refine ours_snoc h.ours (.inr (.inr ⟨rfl, ?_⟩))
        change s.ipBuffer.content.length ≤ pipeBufLen
        rw [hlen]
        exact h.filled.room
      · rw [owed_nil hzero] at howes
        rw [hbegun, hsent, howed]
        refine howes.word ?_ fun _ => rfl
        rw [List.append_assoc, List.take_append_drop]
        rfl
  | @goesOn k _ htaken hbegun hsent hcontent hremain =>
      have hsplit : s.ipBuffer.content.take k ++ s'.owed = s.owed := by
        have hboth := List.take_append_drop k s.owed
        rw [State.owed, List.take_take, Nat.min_eq_left htaken, List.drop_take] at hboth
        rw [State.owed, hremain, hcontent, hboth, State.owed]
      refine ⟨hfilled, ?_, ?_⟩
      · rw [hbegun]
        exact h.ours
      · rw [← hsplit] at howes
        rw [hbegun, hsent]
        exact howes.more

/-- A reply in the middle of a data frame is no frame of its own. -/
theorem interrupted (h : Tracked s) (hs : Sends s s') (hbad : Interrupts s) : ¬ Framed s' := by
  cases hs with
  | quiet hcalm => exact absurd hbad hcalm
  | beat hcalm => exact absurd hbad hcalm
  | starts hcalm => exact absurd hbad hcalm
  | goesOn hcalm => exact absurd hbad hcalm
  | reply hinterrupts hbegun hsent =>
      intro hframed
      have hcut := hframed.cut
      have hother : ¬ Data ipReply := by
        change ¬ typeIpReply = typeReply
        decide
      rw [hbegun, hsent] at hcut
      exact h.owes.not_cut (owed_ne_nil h.filled (hinterrupts.mp hbad)) hother hcut

theorem step_iff (h : Tracked s) {e : Input} (hwhole : e.Whole) (hstep : step s e = some s') :
    Framed s' ↔ ¬ Interrupts s := by
  have hsends := (step_steps hstep).sends h.filled hwhole
  constructor
  · intro hframed hbad
    exact h.interrupted hsends hbad hframed
  · intro hcalm
    exact (h.sends (h.filled.step hstep) hcalm hsends).framed

end Tracked

/-! ## Runs -/

/-- No frame is spliced into another exactly if no IP request is handled while a data frame is in
progress. -/
theorem unspliced_iff {time : Int} {ipMem over6Mem : CellMemory UInt8} {es : List Input}
    {s : State} (hwhole : ∀ e ∈ es, e.Whole) (hrun : runFrom time ipMem over6Mem es = some s) :
    (∀ pre u, pre <+: es → runFrom time ipMem over6Mem pre = some u → Framed u) ↔
      ∀ pre e post u, es = pre ++ e :: post → runFrom time ipMem over6Mem pre = some u →
        ¬ Interrupts u := by
  have hinit := Tracked.initState time ipMem over6Mem
  refine run_guarded_iff_of (fun _ e => e.Whole) (fun s _ => Interrupts s) Tracked Framed ?_ ?_
    (fun pre e post u hsplit _ => hwhole e (by simp [hsplit])) hinit hinit.framed hrun
  · intro s e s' he h hstep hframed
    have hcalm := (h.step_iff he hstep).mp hframed
    exact h.sends (h.filled.step hstep) hcalm ((step_steps hstep).sends h.filled he)
  · exact fun s e s' he h hstep => h.step_iff he hstep

def packet : List UInt8 := [69, 0, 0, 20, 0, 0, 0, 0, 64, 17, 0, 0, 8, 8, 8, 8, 10, 10, 10, 2]

/-- The packet comes, and an IP request behind it; three bytes of the packet are taken. -/
def halfwayRun : List Input :=
  [.wait [⟨.tun, true, true, false⟩, ⟨.over6, true, true, false⟩], .report [.bytes packet],
    .packet (.took 0) (.took 5) (.took 59), .report [.bytes [5, 0, 0, 0, 100]],
    .data (.took 5) (.took 3), .round 0 0 (.took 5)]

/-- The client's socket takes the rest before the request is handled. -/
def orderlyRun : List Input :=
  halfwayRun ++ [.wait [⟨.over6, false, true, false⟩, ⟨.tun, false, true, false⟩], .report [],
    .data (.took 5) (.took 17), .report [], .packet (.took 0) (.took 5) (.took 59)]

/-- The tun device is ready first. -/
def splicedRun : List Input :=
  halfwayRun ++ [.wait [⟨.tun, false, true, false⟩, ⟨.over6, false, true, false⟩], .report [],
    .packet (.took 0) (.took 5) (.took 59)]

abbrev runZero : List Input → Option State := runFrom 0 (fun _ => 0) fun _ => 0

theorem unspliced_iff_orderlyRun :
    ∃ s, runZero orderlyRun = some s ∧
      ∀ pre u, pre <+: orderlyRun → runZero pre = some u → Framed u := by
  obtain ⟨s, hrun⟩ : ∃ s, runZero orderlyRun = some s :=
    Option.isSome_iff_exists.mp (by decide +kernel)
  have hwhole : ∀ e ∈ orderlyRun, e.Whole := by decide +kernel
  have hclean : clean step (fun s _ => Interrupts s) (initState 0 (fun _ => 0) fun _ => 0)
      orderlyRun = true := by
    decide +kernel
  exact ⟨s, hrun, (unspliced_iff hwhole hrun).mpr (not_bad_of_clean hclean)⟩

/-! ## A reply inside a packet -/

/-- Where a stream of frames goes on behind the first of them. -/
theorem front_frame {bytes : List UInt8} {frames : List Frame} (hours : ∀ f ∈ frames, Ours f)
    (hpre : bytes <+: frameCode.stream frames) (hlen : sizeofMessage ≤ bytes.length) :
    ∃ f tail, frames = f :: tail ∧ Message.ofBytes (bytes.take sizeofMessage) = f.message ∧
      bytes.drop f.size <+: frameCode.stream tail := by
  cases frames with
  | nil =>
      rw [List.prefix_nil.mp hpre] at hlen
      exact absurd hlen (by decide)
  | cons f tail =>
      have hfront := ofBytes_of_prefix (ours_valid (hours f List.mem_cons_self)) hpre hlen
      have hdrop := hpre.drop f.size
      rw [PrefixCode.stream_cons, frameCode_encode, List.drop_left' f.bytes_length] at hdrop
      exact ⟨f, tail, rfl, hfront, hdrop⟩

theorem ours_type {f : Frame} (h : Ours f) :
    f.type = typeIpReply ∨ f.type = typeHeart ∨ f.type = typeReply := by
  rcases h with rfl | rfl | ⟨htype, _⟩
  · exact .inl rfl
  · exact .inr (.inl rfl)
  · exact .inr (.inr htype)

/-- The bytes written: the client finds the text of the reply where it expects a header. -/
def splicedBytes : List UInt8 := [25, 0, 0, 0, 103, 69, 0, 0] ++ ipReply.bytes

theorem splicedBytes_not_cut {frames : List Frame} (hours : ∀ f ∈ frames, Ours f) :
    ¬ frameCode.Cut Data frames splicedBytes := by
  intro hcut
  obtain ⟨f, tail, rfl, hfront, hrest⟩ := front_frame hours hcut.isPrefix (by decide +kernel)
  have hsize : f.size = 25 := by
    have hlength : (f.size : Int) = 25 := by
      rw [← show (Message.ofBytes (splicedBytes.take sizeofMessage)).length = 25 by decide +kernel,
        hfront]
      rfl
    exact Int.ofNat_inj.mp hlength
  rw [hsize] at hrest
  have htail : ∀ g ∈ tail, Ours g := fun g hg => hours g (List.mem_cons_of_mem f hg)
  obtain ⟨g, _, rfl, hnext, _⟩ := front_frame htail hrest (by decide +kernel)
  have htype : g.type = 53 := by
    rw [← show (Message.ofBytes ((splicedBytes.drop 25).take sizeofMessage)).type = 53 by
      decide +kernel, hnext]
    rfl
  have hkind := ours_type (htail g List.mem_cons_self)
  rw [htype] at hkind
  exact absurd hkind (by decide)

/-- No sequence of frames of the server makes the bytes that the client gets. -/
theorem request_splices :
    (∀ e ∈ splicedRun, e.Whole) ∧ ∃ s, runZero splicedRun = some s ∧ ¬ Framed s ∧
      ∀ frames, (∀ f ∈ frames, Ours f) → ¬ frameCode.Cut Data frames s.sent := by
  obtain ⟨s, hrun⟩ : ∃ s, runZero splicedRun = some s :=
    Option.isSome_iff_exists.mp (by decide +kernel)
  have hsent : s.sent = splicedBytes := by
    have hbytes : (runZero splicedRun).map State.sent = some splicedBytes := by decide +kernel
    rw [hrun] at hbytes
    exact Option.some.inj hbytes
  have hnone : ∀ frames, (∀ f ∈ frames, Ours f) → ¬ frameCode.Cut Data frames s.sent := by
    intro frames hours
    rw [hsent]
    exact splicedBytes_not_cut hours
  exact ⟨by decide +kernel, s, hrun, fun hframed => hnone s.begun hframed.ours hframed.cut, hnone⟩

end Over6.Droid
