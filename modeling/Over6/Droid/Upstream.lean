import Over6.Client.Uplink
import Over6.Droid.Disconnect
import Over6.Droid.Parser

/-! # From the client to the tun device

`over6PacketBuffer` on its way through the frames of a client: whatever pieces they come
in, each packet is one write to the tun device, and each request is answered once.
-/

namespace Over6.Droid

open MachineInt BoundedLoop EventRun

/-- One write for the packet, of its size; what the device has taken of it. -/
def Forwards (packet : List UInt8) (w : Nat × List UInt8) : Prop :=
  w.1 = packet.length ∧ w.2 <+: packet

def replies (frames : List Frame) : Nat := frames.countP fun f => f.type == typeIpReply

/-- The server is through with the frames `words`, and holds what has come of the others. -/
structure Heard (sent : List Frame) (got : List UInt8) (words : List Frame) (s : State) : Prop where
  held : frameCode.Partway sent got words s.over6PacketBuffer.content
  written : List.Forall₂ Forwards (uploads words) s.toTun
  answered : replies s.begun = Client.asks words

/-! ## The frame in front -/

section Front

variable {held : List UInt8} {tail : List Frame} {b : Buffer} {f : Frame} {more : List UInt8}

/-- The first four bytes of a frame say its size. -/
theorem length_field (hf : f.Valid) (more : List UInt8) :
    leNat ((f.bytes ++ more).take 4) = f.size := by
  have hsize : f.size < 2 ^ 31 := hf
  have hlength : f.message.length = f.size := rfl
  have hfield : sizeT 32 f.message.length = f.size := by
    rw [hlength, sizeT_of_range (by omega) (by omega), Int.toNat_natCast]
  have htake : (f.bytes ++ more).take 4 = leBytes 4 f.size := by
    rw [Frame.bytes, Message.bytes, List.append_assoc, List.append_assoc, hfield,
      List.take_left' (leBytes_length 4 _)]
  rw [htake, leNat_leBytes_of_lt (by omega)]

/-- With its length field there, a frame that fits is there in full. -/
theorem front_of_stream (hvalid : ∀ f ∈ tail, f.Valid) (hpre : held <+: frameCode.stream tail)
    (hfour : 4 ≤ held.length) (hlen : leNat (held.take 4) ≤ held.length) :
    ∃ f tail' more, tail = f :: tail' ∧ held = f.bytes ++ more ∧
      more <+: frameCode.stream tail' := by
  cases tail with
  | nil =>
      have hnil : held = [] := List.prefix_nil.mp hpre
      rw [hnil] at hfour
      exact absurd hfour (by decide)
  | cons f tail' =>
      have hsize : leNat (held.take 4) = f.size := by
        obtain ⟨more, hmore⟩ := hpre
        have hfront : held.take 4 = (held ++ more).take 4 :=
          (List.take_append_of_le_length hfour).symm
        rw [hfront, hmore, PrefixCode.stream_cons,
          frameCode_encode, length_field (hvalid f List.mem_cons_self)]
      have hwhole : (frameCode.encode f).length ≤ held.length := by
        rw [frameCode_encode, Frame.bytes_length]
        omega
      obtain ⟨more, hheld, hrest⟩ := frameCode.first_of_long hpre hwhole
      exact ⟨f, tail', more, rfl, hheld, hrest⟩

theorem Buffer.length_eq (h : 4 ≤ b.used) : b.length = leNat (b.content.take 4) := by
  rw [Buffer.length, b.load_front h]

/-- What a pass makes of the frame at the front. -/
theorem Buffer.front_frame (hf : f.Valid) (h : b.content = f.bytes ++ more) :
    b.type = f.type ∧ b.length = f.size ∧ b.actualSize = f.payload.length ∧
      b.buf.load sizeofMessage b.actualSize = f.payload := by
  have hused := b.content_length
  have hfive : sizeofMessage = 5 := rfl
  have hge := f.size_ge
  have hsmall : f.size < 2 ^ 31 := hf
  have hsize : f.size = f.payload.length + sizeofMessage := rfl
  rw [h, List.length_append, Frame.bytes_length] at hused
  have htype : b.type = f.type := by
    have hmessage := congrArg Message.type (Frame.ofBytes_bytes hf more)
    have hcell : b.content.getD 4 0 = b.buf 4 := by
      rw [List.getD_eq_getElem?_getD, Buffer.content, CellMemory.load_getElem?, if_pos (by omega),
        Nat.zero_add, Option.getD_some]
    rw [← h] at hmessage
    exact hcell.symm.trans hmessage
  have hlength : b.length = f.size := by
    rw [Buffer.length_eq (by omega), h, length_field hf]
  have hactual : b.actualSize = f.payload.length := by
    rw [Buffer.actualSize, hlength, sizeT_of_range (by omega) (by omega)]
    omega
  refine ⟨htype, hlength, hactual, ?_⟩
  have hpayload := f.payload_of_bytes more
  rw [← h, Buffer.content, CellMemory.load_drop _ (by omega), hsize, Nat.add_sub_cancel,
    CellMemory.load_take _ (by omega), Nat.zero_add] at hpayload
  rw [hactual]
  exact hpayload

/-- A complete packet at the beginning of a frame is this frame. -/
theorem Buffer.frame_at {p : Nat} (hvalid : ∀ f ∈ tail, f.Valid)
    (hpre : b.content.drop p <+: frameCode.stream tail) (hcomplete : b.CompleteAt p) :
    sizeofMessage ≤ b.lengthAt p ∧ ∃ tail' : List Frame, (∀ f ∈ tail', f.Valid) ∧
      b.content.drop (p + b.lengthAt p) <+: frameCode.stream tail' := by
  obtain ⟨hfour, hlen⟩ := hcomplete
  have hused : (b.content.drop p).length = b.used - p := by
    rw [List.length_drop, b.content_length]
  have hfield : leNat ((b.content.drop p).take 4) = b.lengthAt p := by
    rw [Buffer.lengthAt, Buffer.content, CellMemory.load_drop _ (by omega),
      CellMemory.load_take _ (by omega), Nat.zero_add]
  obtain ⟨f, tail', more, rfl, hheld, hmore⟩ :=
    front_of_stream hvalid hpre (by omega) (by rw [hfield]; omega)
  have hsize : b.lengthAt p = f.size := by
    rw [← hfield, hheld, length_field (hvalid f List.mem_cons_self)]
  refine ⟨hsize ▸ f.size_ge, tail', fun f' hf' => hvalid f' (List.mem_cons_of_mem _ hf'), ?_⟩
  rw [← List.drop_drop, hheld, hsize, List.drop_left' f.bytes_length]
  exact hmore

end Front

/-! ## Steps -/

/-- Nothing changes that has to do with the client's frames. -/
structure Deaf (s s' : State) : Prop where
  buffer : s'.over6PacketBuffer = s.over6PacketBuffer
  toTun : s'.toTun = s.toTun
  replies : replies s'.begun = replies s.begun

section Steps

variable {s s' : State} {r : Report} {rs : List Report} {answers : List ReadResult}
  {sent words : List Frame} {got : List UInt8}

theorem handleOutput_deaf (r : Report) (rs : List Report) (s : State) :
    Deaf s (handleOutput r rs s) := by
  obtain ⟨p, hp⟩ := handleOutput_cases r rs s
  rw [hp]
  exact ⟨rfl, rfl, rfl⟩

theorem Deaf.trans {t : State} (h : Deaf s t) (h' : Deaf t s') : Deaf s s' :=
  ⟨h'.buffer.trans h.buffer, h'.toTun.trans h.toTun, h'.replies.trans h.replies⟩

/-- What is read from the client goes behind what the buffer holds. -/
theorem handleReport_hears (answers : List ReadResult) (hpoint : s.point = .reports (r :: rs)) :
    (handleReport r rs answers s).over6PacketBuffer.content =
        s.over6PacketBuffer.content ++ Input.fromClient s (.report answers) ∧
      (handleReport r rs answers s).toTun = s.toTun ∧
      (handleReport r rs answers s).begun = s.begun := by
  have hfrom : s.InputFrom .over6 ↔ r.failed = false ∧ r.input = true ∧ r.side = .over6 := by
    rw [State.InputFrom, hpoint]
  have hbegun := (handleReport_reads r rs answers s).begun
  rw [Input.fromClient]
  by_cases hinput : s.InputFrom .over6
  · obtain ⟨hfailed, hin, hside⟩ := hfrom.mp hinput
    have hread := handleOutput_deaf r rs (handleInput r.side answers s)
    have hflow : handleReport r rs answers s = handleOutput r rs (handleInput r.side answers s) := by
      rw [handleReport, hfailed, hin]
      rfl
    have hinputs : (handleInput .over6 answers s).over6PacketBuffer =
        (readToBuf answers s.over6PacketBuffer 0).1 ∧
          (handleInput .over6 answers s).toTun = s.toTun := by
      simp only [handleInput]
      split <;> exact ⟨rfl, rfl⟩
    rw [if_pos hinput, hflow, hread.buffer, hread.toTun, hside, hinputs.1, hinputs.2,
      readToBuf_delivered]
    rw [hflow, hside] at hbegun
    exact ⟨rfl, rfl, hbegun⟩
  · have hdeaf : Deaf s (handleReport r rs answers s) := by
      rw [handleReport]
      cases hfailed : r.failed with
      | true => exact ⟨rfl, rfl, rfl⟩
      | false =>
          cases hin : r.input with
          | false => exact handleOutput_deaf r rs s
          | true =>
              cases hside : r.side with
              | over6 => exact absurd (hfrom.mpr ⟨hfailed, hin, hside⟩) hinput
              | tun =>
                  have hfirst : Deaf s (handleInput .tun answers s) := ⟨rfl, rfl, rfl⟩
                  exact hfirst.trans (handleOutput_deaf r rs _)
    rw [if_neg hinput, List.append_nil, hdeaf.buffer, hdeaf.toTun]
    exact ⟨rfl, rfl, hbegun⟩

theorem rawToOver6_deaf (header payload : Write) (rs : List Report) (s : State) :
    Deaf s (rawToOver6 header payload rs s) := by
  rw [rawToOver6]
  split
  · exact ⟨rfl, rfl, rfl⟩
  · split
    · refine ⟨rfl, rfl, ?_⟩
      change replies (s.begun ++ [⟨typeReply, s.ipBuffer.content⟩]) = replies s.begun
      rw [replies, List.countP_append]
      rfl
    · exact ⟨rfl, rfl, rfl⟩

theorem round_deaf (now later : Int) (beat : Write) (s : State) :
    Deaf s (setupEvents (keepAlive now later beat s)) := by
  rw [keepAlive]
  split
  · refine ⟨rfl, rfl, ?_⟩
    change replies (s.begun ++ [heartbeat]) = replies s.begun
    rw [replies, List.countP_append]
    rfl
  · exact ⟨rfl, rfl, rfl⟩

/-- A packet is written to the tun device, and a request is answered. -/
theorem handlePacket_spec {f : Frame} (tun header reply : Write)
    (htype : s.over6PacketBuffer.type = f.type)
    (hactual : s.over6PacketBuffer.actualSize = f.payload.length)
    (hpayload : s.over6PacketBuffer.buf.load sizeofMessage s.over6PacketBuffer.actualSize =
      f.payload) :
    (∃ new, (handlePacket tun header reply s).toTun = s.toTun ++ new ∧
      List.Forall₂ Forwards (uploads [f]) new) ∧
      replies (handlePacket tun header reply s).begun = replies s.begun + Client.asks [f] := by
  have hnone : f.type ≠ typeRequest → uploads [f] = [] := fun hne => by simp [uploads, hne]
  have hquiet : f.type ≠ typeIpRequest → Client.asks [f] = 0 := fun hne => by
    simp [Client.asks, hne]
  rw [handlePacket, htype]
  by_cases hheart : f.type = typeHeart
  · rw [if_pos hheart, hnone (by rw [hheart]; decide), hquiet (by rw [hheart]; decide)]
    exact ⟨⟨[], (List.append_nil _).symm, .nil⟩, rfl⟩
  · by_cases hdata : f.type = typeRequest
    · have hone : uploads [f] = [f.payload] := by simp [uploads, hdata]
      rw [if_neg hheart, if_pos hdata, hone, hquiet (by rw [hdata]; decide)]
      refine ⟨⟨_, rfl, .cons ⟨hactual, ?_⟩ .nil⟩, rfl⟩
      dsimp only
      split
      · rw [hpayload]
        exact List.take_prefix _ _
      · exact List.nil_prefix
    · by_cases hrequest : f.type = typeIpRequest
      · have hone : Client.asks [f] = 1 := by simp [Client.asks, hrequest]
        rw [if_neg hheart, if_neg hdata, if_pos hrequest, hnone hdata, hone]
        refine ⟨⟨[], (List.append_nil _).symm, .nil⟩, ?_⟩
        change replies (s.begun ++ [ipReply]) = replies s.begun + 1
        rw [replies, List.countP_append]
        rfl
      · rw [if_neg hheart, if_neg hdata, if_neg hrequest, hnone hdata, hquiet hrequest]
        exact ⟨⟨[], (List.append_nil _).symm, .nil⟩, rfl⟩

namespace Heard

theorem start (sent : List Frame) (time : Int) (ipMem over6Mem : CellMemory UInt8) :
    Heard sent [] [] (initState time ipMem over6Mem) :=
  ⟨PrefixCode.Partway.start sent, .nil, rfl⟩

theorem deaf (h : Heard sent got words s) (hs : Deaf s s') : Heard sent got words s' := by
  refine ⟨?_, ?_, hs.replies.trans h.answered⟩
  · rw [hs.buffer]
    exact h.held
  · rw [hs.toTun]
    exact h.written

/-- The frame at the front is handled, and gone. -/
theorem packet (h : Heard sent got words s) (hvalid : ∀ f ∈ sent, f.Valid)
    (hgot : got <+: frameCode.stream sent) (tun header reply : Write) (rs : List Report)
    (hcomplete : s.over6PacketBuffer.Complete) :
    ∃ f, Heard sent got (words ++ [f]) (over6Handle tun header reply rs s) := by
  have hlen := s.over6PacketBuffer.content_length
  have hfour := hcomplete.1
  obtain ⟨tail, hsent, hpre⟩ := h.held.front hvalid hgot
  have hlater : ∀ f ∈ tail, f.Valid := fun f hf => hvalid f (hsent ▸ List.mem_append_right _ hf)
  obtain ⟨f, tail', more, rfl, hfront, _⟩ := front_of_stream hlater hpre (by omega) (by
    rw [← Buffer.length_eq hfour, hlen]
    exact hcomplete.2)
  obtain ⟨htype, hlength, hactual, hpayload⟩ :=
    Buffer.front_frame (hlater f List.mem_cons_self) hfront
  refine ⟨f, ?_⟩
  have hbehind : (s.over6PacketBuffer.dropFront s.over6PacketBuffer.length).content = more := by
    rw [s.over6PacketBuffer.dropFront_content hcomplete.2, hlength, hfront,
      List.drop_left' f.bytes_length]
  obtain ⟨⟨new, hnew, hforwards⟩, hreplies⟩ :=
    handlePacket_spec tun header reply htype hactual hpayload
  rw [over6Handle, if_pos hcomplete]
  refine ⟨?_, ?_, ?_⟩
  · change frameCode.Partway sent got (words ++ [f])
      (s.over6PacketBuffer.dropFront s.over6PacketBuffer.length).content
    rw [hbehind]
    exact h.held.word hsent hfront
  · change List.Forall₂ Forwards (uploads (words ++ [f])) (handlePacket tun header reply s).toTun
    rw [hnew, uploads_append]
    exact List.rel_append h.written hforwards
  · change replies (handlePacket tun header reply s).begun = Client.asks (words ++ [f])
    rw [hreplies, h.answered, Client.asks, Client.asks, Client.asks, List.countP_append]

/-- A step reads, handles a frame, or has nothing to do with the client's frames. -/
theorem step {e : Input} (h : Heard sent got words s) (hvalid : ∀ f ∈ sent, f.Valid)
    (hgot : got <+: frameCode.stream sent) (hstep : Droid.step s e = some s') :
    ∃ words', Heard sent (got ++ e.fromClient s) words' s' := by
  have hsteps := step_steps hstep
  cases hsteps with
  | wait =>
      change ∃ words', Heard sent (got ++ []) words' _
      rw [List.append_nil]
      exact ⟨words, h.deaf ⟨rfl, rfl, rfl⟩⟩
  | @report answers r rs hpoint _ =>
      obtain ⟨hcontent, htoTun, hbegun⟩ := handleReport_hears answers hpoint
      refine ⟨words, ?_, ?_, ?_⟩
      · rw [hcontent]
        exact h.held.more _
      · rw [htoTun]
        exact h.written
      · rw [hbegun]
        exact h.answered
  | @packet tun header reply rs _ =>
      change ∃ words', Heard sent (got ++ []) words' _
      rw [List.append_nil]
      by_cases hcomplete : s.over6PacketBuffer.Complete
      · obtain ⟨f, hf⟩ := h.packet hvalid hgot tun header reply rs hcomplete
        exact ⟨words ++ [f], hf⟩
      · have hdeaf : Deaf s (over6Handle tun header reply rs s) := by
          rw [over6Handle, if_neg hcomplete]
          exact ⟨rfl, rfl, rfl⟩
        exact ⟨words, h.deaf hdeaf⟩
  | @data header payload rs _ =>
      change ∃ words', Heard sent (got ++ []) words' _
      rw [List.append_nil]
      exact ⟨words, h.deaf (rawToOver6_deaf header payload rs s)⟩
  | round now later beat _ =>
      change ∃ words', Heard sent (got ++ []) words' _
      rw [List.append_nil]
      exact ⟨words, h.deaf (round_deaf now later beat s)⟩

/-- Without a complete packet in front the server is through with all that has come. -/
theorem settled (h : Heard sent got words s) (hvalid : ∀ f ∈ sent, f.Valid)
    (hgot : got <+: frameCode.stream sent) (hdone : ¬ s.over6PacketBuffer.Complete) :
    frameCode.Settled sent got words := by
  apply PrefixCode.Partway.settled _ h.held hvalid hgot
  intro f tail hsplit
  by_contra hlong
  have hlen := s.over6PacketBuffer.content_length
  have hfive : sizeofMessage = 5 := rfl
  have hge := f.size_ge
  rw [frameCode_encode, Frame.bytes_length] at hlong
  obtain ⟨tail', hsplit', hpre⟩ := h.held.front hvalid hgot
  have htail : tail' = f :: tail := List.append_cancel_left (hsplit'.symm.trans hsplit)
  rw [htail] at hpre
  obtain ⟨more, hfront, _⟩ := frameCode.first_of_long hpre (by
    rw [frameCode_encode, Frame.bytes_length]
    omega)
  have hlength : s.over6PacketBuffer.length = f.size :=
    (Buffer.front_frame (hvalid f (by simp [hsplit])) hfront).2.1
  exact hdone ⟨by omega, by omega⟩

/-- Every pass over the client's frames takes one of them away. -/
theorem advances (h : Heard sent got words s) (hvalid : ∀ f ∈ sent, f.Valid)
    (hgot : got <+: frameCode.stream sent) : s.over6PacketBuffer.Advances := by
  obtain ⟨tail, hsent, hpre⟩ := h.held.front hvalid hgot
  have hlater : ∀ f ∈ tail, f.Valid := fun f hf => hvalid f (hsent ▸ List.mem_append_right _ hf)
  generalize s.over6PacketBuffer = b at hpre
  -- Each pass begins where a frame does.
  have hplace : ∀ p t, b.Front p t → ∃ later : List Frame, (∀ f ∈ later, f.Valid) ∧
      b.content.drop p <+: frameCode.stream later := by
    intro p t hfront
    induction hfront with
    | first => exact ⟨tail, hlater, hpre⟩
    | next _ hcomplete ih =>
        obtain ⟨later, hlater, hthere⟩ := ih
        exact (Buffer.frame_at hlater hthere hcomplete).2
  intro p t hfront hcomplete
  obtain ⟨later, hlater, hthere⟩ := hplace p t hfront
  have hlong := (Buffer.frame_at hlater hthere hcomplete).1
  exact ⟨(Nat.lt_of_lt_of_le (by decide) hlong).ne', fun _ => hlong⟩

end Heard

/-- A run over the client's frames. -/
theorem runFrom_heard {time : Int} {ipMem over6Mem : CellMemory UInt8} {es : List Input}
    (hvalid : ∀ f ∈ sent, f.Valid) (hrun : runFrom time ipMem over6Mem es = some s)
    (hgot : clientBytes (initState time ipMem over6Mem) es <+: frameCode.stream sent) :
    ∃ words, Heard sent (clientBytes (initState time ipMem over6Mem) es) words s := by
  induction es using List.reverseRecOn generalizing s with
  | nil =>
      obtain rfl := Option.some.inj hrun
      exact ⟨[], .start sent time ipMem over6Mem⟩
  | append_singleton es e ih =>
      obtain ⟨t, ht, hstep⟩ := run_snoc_iff.mp hrun
      have hbytes : clientBytes (initState time ipMem over6Mem) (es ++ [e]) =
          clientBytes (initState time ipMem over6Mem) es ++ e.fromClient t :=
        outputs_snoc Input.fromClient e ht
      rw [hbytes] at hgot ⊢
      have hearlier := (List.prefix_append _ _).trans hgot
      obtain ⟨words, hwords⟩ := ih ht hearlier
      exact hwords.step hvalid hearlier hstep

end Steps

/-! ## The client and the server -/

/-- However the bytes of a client come in pieces, and whatever the tun device takes: the packets
that the client has taken from its tun are written to the device one by one, each in one write of
its size, in order and none left out; with no whole packet in the buffer, up to the last whose frame
has arrived. No more IP replies are begun than the client has asked for, and `over6Handle` always
returns and leads to what was reported next. -/
theorem device_gets_packets (fds : Client.Descriptors) (time₁ time₂ : Int)
    (stale : CellMemory UInt8) (calls : List Client.Event) (client : Client.State)
    (hclient : Client.runFrom fds time₁ time₂ stale calls = some client)
    (time : Int) (ipMem over6Mem : CellMemory UInt8) (es : List Input) (s : State)
    (hrun : runFrom time ipMem over6Mem es = some s)
    (hread : clientBytes (initState time ipMem over6Mem) es <+: Client.written client.log) :
    (∃ packets, packets <+: calls.flatMap Client.Event.packets ∧
      List.Forall₂ Forwards packets s.toTun ∧
      (∃ sent, Client.written client.log <+: frameCode.stream sent ∧
        uploads sent = calls.flatMap Client.Event.packets ∧
        (¬ s.over6PacketBuffer.Complete → packets = uploads (frameCode.whole sent
          (clientBytes (initState time ipMem over6Mem) es).length))) ∧
      (client.ret = 0 → clientBytes (initState time ipMem over6Mem) es = Client.written client.log →
        ¬ s.over6PacketBuffer.Complete → packets = calls.flatMap Client.Event.packets)) ∧
      replies s.begun ≤ Client.fetches client.log ∧
      (∀ rs env, Terminates (over6Pass rs env) 0 s) ∧
      ∀ rs env, s.point = .packets rs → ∃ n u,
        run step s ((List.range' 0 n).map (passInput env)) = some u ∧ u.point = .reports rs := by
  obtain ⟨sent, hspoken, hpackets⟩ := Client.runFrom_says hclient
  have hgot := hread.trans hspoken.begun
  obtain ⟨words, hheard⟩ := runFrom_heard hspoken.valid hrun hgot
  obtain ⟨later, hsent⟩ := hheard.held.1
  have hreturns : ∀ rs env, Terminates (over6Pass rs env) 0 s := fun rs env =>
    terminates_of_advances rs env (hheard.advances hspoken.valid hgot)
  refine ⟨⟨uploads words, ?_, hheard.written, ⟨sent, hspoken.begun, hpackets, fun hdone => ?_⟩,
    fun hret hall hdone => ?_⟩, ?_, hreturns, fun rs env hpoint => ?_⟩
  · rw [← hpackets, ← hsent, uploads_append]
    exact List.prefix_append _ _
  · exact congrArg uploads (hheard.settled hspoken.valid hgot hdone).eq_whole
  · have hsettled := hheard.settled hspoken.valid hgot hdone
    rw [hall, hspoken.whole hret] at hsettled
    rw [hsettled.complete, hpackets]
  · have hasked := hspoken.asked
    rw [← hsent, Client.asks, List.countP_append] at hasked
    rw [hheard.answered]
    exact (Nat.le_add_right _ _).trans hasked
  · obtain ⟨fuel, u, hloop⟩ := hreturns rs env
    obtain ⟨n, hpasses⟩ : ∃ n, run step s ((List.range' 0 n).map (passInput env)) =
        some (iterate (over6Pass rs env) fuel 0 s).state := iterate_run fuel hpoint
    rw [hloop] at hpasses
    obtain ⟨_, _, _, hlast⟩ := iterate_stopped_last hloop
    exact ⟨n, u, hpasses, congrArg State.point (over6Pass_stop hlast).2⟩

/-- The client takes two packets and asks for its address in between. -/
def talk : List Client.Event :=
  [.command (.setTun 6) 9, .tunnel (.bytes [69, 1]) Client.writesAll Client.writesAll,
    .command ⟨.bytes [Client.ipcCommandFetchConfig], fun _ => .error, fun _ => Client.writesAll⟩ 9,
    .tunnel (.bytes [69, 2, 2]) Client.writesAll Client.writesAll]

/-- What it writes arrives in two pieces, the second of which begins inside the IP request, and the
device takes one byte of the first packet. -/
def talkHeard : List Input :=
  [.wait [⟨.over6, true, false, false⟩, ⟨.tun, false, true, false⟩],
    .report [.bytes [7, 0, 0, 0, 102, 69, 1, 5, 0]], .report [],
    .packet (.took 1) (.took 5) (.took 59), .packet .error .error .error, .round 0 0 (.took 5),
    .wait [⟨.over6, true, false, false⟩, ⟨.tun, false, true, false⟩],
    .report [.bytes [0, 0, 100], .bytes [8, 0, 0, 0, 102, 69, 2, 2]], .report [],
    .packet (.took 0) (.took 5) (.took 59), .packet (.took 3) (.took 5) (.took 59)]

theorem device_gets_packets_talkHeard :
    ∃ s, runZero talkHeard = some s ∧ s.toTun = [(2, [69]), (3, [69, 2, 2])] ∧
      List.Forall₂ Forwards [[69, 1], [69, 2, 2]] s.toTun ∧ replies s.begun ≤ 1 := by
  have hclient : (Client.runFrom .usual 0 0 (fun _ => 0) talk).map (fun client =>
      decide (client.ret = 0 ∧ Client.fetches client.log = 1 ∧ Client.written client.log =
        clientBytes (initState 0 (fun _ => 0) fun _ => 0) talkHeard)) = some true := by
    decide +kernel
  have hserver : (runZero talkHeard).map (fun s => decide (s.toTun = [(2, [69]), (3, [69, 2, 2])] ∧
      ¬ s.over6PacketBuffer.Complete)) = some true := by
    decide +kernel
  obtain ⟨client, hcalls, hview⟩ := Option.map_eq_some_iff.mp hclient
  obtain ⟨s, hrun, hs⟩ := Option.map_eq_some_iff.mp hserver
  obtain ⟨hret, hfetches, hall⟩ := of_decide_eq_true hview
  obtain ⟨htoTun, hdone⟩ := of_decide_eq_true hs
  obtain ⟨⟨packets, _, hforwards, _, hwhole⟩, hreplies, _⟩ :=
    device_gets_packets .usual 0 0 (fun _ => 0) talk client hcalls 0 (fun _ => 0) (fun _ => 0)
      talkHeard s hrun (by rw [hall])
  have hpackets : packets = [[69, 1], [69, 2, 2]] := hwhole hret hall.symm hdone
  rw [hpackets] at hforwards
  rw [hfetches] at hreplies
  exact ⟨s, hrun, htoTun, hforwards, hreplies⟩

end Over6.Droid
