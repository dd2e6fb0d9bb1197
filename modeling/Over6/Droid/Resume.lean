import Over6.Droid.Frames

/-! # Partial sends

The two calls that use `ipBuffer`: reads from the tun device append to it, and
`rawToOver6` sends it. The length of a frame is fixed when its header leaves, and the
buffer goes on growing behind what is still owed of the frame.
-/

namespace Over6.Droid

open EventRun

inductive Call where
  /-- `readToBuf` for the tun device. -/
  | read (answers : List ReadResult)
  | send (header payload : Write)
deriving DecidableEq, Repr

def call (s : State) : Call → Option State
  | .read answers =>
      if ∀ a ∈ answers, a.Fits ipPacketMaxSize then some (handleInput .tun answers s) else none
  | .send header payload => some (rawToOver6 header payload [] s)

/-- The header is taken at once, and no write fails. -/
def Call.Whole : Call → Prop
  | .read _ => True
  | .send header payload => header.Takes sizeofMessage ∧ payload ≠ .error

instance : DecidablePred Call.Whole := fun e =>
  match e with
  | .read _ => inferInstanceAs (Decidable True)
  | .send .. => inferInstanceAs (Decidable (_ ∧ _))

def Call.appended (s : State) : Call → List UInt8
  | .read answers => (readResults answers s.ipBuffer.used).flatMap delivered
  | .send _ _ => []

def appended (s : State) (es : List Call) : List UInt8 := outputs call Call.appended s es

/-- The frame in progress, of whose payload `part` is written. -/
def State.unfinished (s : State) (part : List UInt8) : Frame := ⟨typeReply, part ++ s.owed⟩

/-- The bytes written are complete frames, and behind them possibly one that lacks what is owed; the
payloads and the buffer are the bytes of the tun device. -/
inductive Wire (tun : List UInt8) (s : State) : Prop
  | whole (frames : List Frame) (data : ∀ f ∈ frames, Data f ∧ f.Valid)
      (done : s.ipBufferRemain = 0) (sent : s.sent = frameCode.stream frames)
      (bytes : frames.flatMap Frame.payload ++ s.ipBuffer.content = tun)
  | underway (frames : List Frame) (part : List UInt8) (data : ∀ f ∈ frames, Data f ∧ f.Valid)
      (last : (s.unfinished part).Valid) (left : s.ipBufferRemain ≠ 0)
      (sent : s.sent = frameCode.stream frames ++ ((s.unfinished part).message.bytes ++ part))
      (bytes : frames.flatMap Frame.payload ++ part ++ s.ipBuffer.content = tun)

/-- `remain` is in range, and says what the client still has to get of the last frame. -/
structure Resumable (tun : List UInt8) (s : State) : Prop where
  bounds : s.ipBufferRemain ≤ s.ipBuffer.used
  wire : Wire tun s

/-! ## One call -/

structure Unfailed (s : State) : Prop where
  filled : Filled s
  running : s.point ≠ .faulted

inductive Calls (s : State) : Call → State → Prop
  | read {answers : List ReadResult} {s' : State} (begun : s'.begun = s.begun)
      (sent : s'.sent = s.sent) (remain : s'.ipBufferRemain = s.ipBufferRemain)
      (content : s'.ipBuffer.content =
        s.ipBuffer.content ++ (readResults answers s.ipBuffer.used).flatMap delivered) :
      Calls s (.read answers) s'
  | send {header payload : Write} {s' : State} (step : Transfers s s') :
      Calls s (.send header payload) s'

section Calls

variable {s s' : State} {e : Call}

theorem call_calls (h : Unfailed s) (hwhole : e.Whole) (hcall : call s e = some s') :
    Calls s e s' ∧ Unfailed s' := by
  have hspare := h.filled.spare h.running
  cases e with
  | read answers =>
      simp only [call] at hcall
      split at hcall
      · rename_i hfits
        obtain rfl := Option.some.inj hcall
        have hgrows := (readToBuf_content answers s.ipBuffer 0).length_le
        have hused : (readToBuf answers s.ipBuffer 0).1.used < pipeBufLen :=
          readToBuf_used hfits hspare
        have hfill := h.filled.fill
        rw [Buffer.content_length, Buffer.content_length] at hgrows
        refine ⟨.read rfl rfl rfl (readToBuf_delivered answers s.ipBuffer 0), ?_, h.running⟩
        exact ⟨hfill.trans hgrows, Nat.le_of_lt hused, fun _ => hused⟩
      · cases hcall
  | send header payload =>
      obtain rfl := Option.some.inj hcall
      refine ⟨.send (rawToOver6_transfers h.filled [] hwhole.1 hwhole.2),
        h.filled.rawToOver6 h.running header payload [], ?_⟩
      obtain ⟨k, _, hret⟩ := Write.ret_of_ne_error hwhole.2 s.ipBuffer.used
      obtain ⟨l, _, hret'⟩ := Write.ret_of_ne_error hwhole.2 s.ipBufferRemain
      unfold rawToOver6
      split
      · exact nofun
      · split
        · simp [State.transferred, hret]
        · simp [State.transferred, hret']

/-- A frame of what the buffer holds. -/
theorem content_valid (h : Filled s) : (Frame.mk typeReply s.ipBuffer.content).Valid := by
  have hroom := h.room
  have hlen := s.ipBuffer.content_length
  have hcap : pipeBufLen = 6553600 := rfl
  have hfive : sizeofMessage = 5 := rfl
  change s.ipBuffer.content.length + sizeofMessage < 2 ^ 31
  omega

end Calls

namespace Wire

variable {tun : List UInt8} {s s' : State}

theorem data_snoc {frames : List Frame} (h : ∀ f ∈ frames, Data f ∧ f.Valid) {f : Frame}
    (hf : Data f ∧ f.Valid) : ∀ f' ∈ frames ++ [f], Data f' ∧ f'.Valid := by
  intro f' hf'
  rcases List.mem_append.mp hf' with hold | hnew
  · exact h f' hold
  · exact List.mem_singleton.mp hnew ▸ hf

/-- The bytes behind what is owed have nothing to do with it. -/
theorem read (h : Wire tun s) (hfill : s.ipBufferRemain ≤ s.ipBuffer.used) {new : List UInt8}
    (hsent : s'.sent = s.sent) (hremain : s'.ipBufferRemain = s.ipBufferRemain)
    (hcontent : s'.ipBuffer.content = s.ipBuffer.content ++ new) : Wire (tun ++ new) s' := by
  have howed : s'.owed = s.owed := by
    rw [State.owed, State.owed, hcontent, hremain, List.take_append_of_le_length]
    rwa [Buffer.content_length]
  cases h with
  | whole frames hdata hdone hwire hbytes =>
      refine .whole frames hdata (hremain.trans hdone) (hsent.trans hwire) ?_
      rw [hcontent, ← List.append_assoc, hbytes]
  | underway frames part hdata hlast hleft hwire hbytes =>
      have hunfinished : s'.unfinished part = s.unfinished part := by
        rw [State.unfinished, State.unfinished, howed]
      refine .underway frames part hdata (hunfinished ▸ hlast) (hremain ▸ hleft) ?_ ?_
      · rw [hunfinished, hsent, hwire]
      · rw [hcontent, ← List.append_assoc, hbytes]

/-- A frame of all that the buffer holds, of which `k` bytes are taken at once. -/
theorem starts (h : Wire tun s) (hfilled : Filled s) (hzero : s.ipBufferRemain = 0) {k : Nat}
    (hk : k ≤ s.ipBuffer.used)
    (hsent : s'.sent = s.sent ++ ((Frame.mk typeReply s.ipBuffer.content).message.bytes ++
      s.ipBuffer.content.take k))
    (hcontent : s'.ipBuffer.content = s.ipBuffer.content.drop k)
    (hremain : s'.ipBufferRemain = s.ipBuffer.used - k) : Wire tun s' := by
  have hlen := s.ipBuffer.content_length
  have hvalid := content_valid hfilled
  cases h with
  | underway _ _ _ _ hleft => exact absurd hzero hleft
  | whole frames hdata _ hwire hbytes =>
      by_cases hall : k = s.ipBuffer.used
      · have htake : s.ipBuffer.content.take k = s.ipBuffer.content :=
          List.take_of_length_le (by omega)
        have hdrop : s.ipBuffer.content.drop k = [] := List.drop_of_length_le (by omega)
        have hframes : ∀ f ∈ frames ++ [⟨typeReply, s.ipBuffer.content⟩], Data f ∧ f.Valid :=
          data_snoc hdata ⟨rfl, hvalid⟩
        refine .whole _ hframes (by omega) ?_ ?_
        · rw [hsent, hwire, htake, PrefixCode.stream_append, PrefixCode.stream_cons,
            PrefixCode.stream_nil, List.append_nil, frameCode_encode, Frame.bytes]
        · rw [hcontent, hdrop, List.append_nil, List.flatMap_append, List.flatMap_singleton, hbytes]
      · have howed : s'.owed = s.ipBuffer.content.drop k := by
          rw [State.owed, hremain, hcontent, List.take_of_length_le]
          rw [List.length_drop, hlen]
        have hlast : s'.unfinished (s.ipBuffer.content.take k) = ⟨typeReply, s.ipBuffer.content⟩ := by
          rw [State.unfinished, howed, List.take_append_drop]
        refine .underway frames (s.ipBuffer.content.take k) hdata (hlast ▸ hvalid) (by omega) ?_ ?_
        · rw [hlast, hsent, hwire]
        · rw [hcontent, List.append_assoc, List.take_append_drop, hbytes]

/-- `k` more bytes of what is owed. -/
theorem goesOn (h : Wire tun s) {k : Nat} (hk : k ≤ s.ipBufferRemain)
    (hsent : s'.sent = s.sent ++ s.ipBuffer.content.take k)
    (hcontent : s'.ipBuffer.content = s.ipBuffer.content.drop k)
    (hremain : s'.ipBufferRemain = s.ipBufferRemain - k) : Wire tun s' := by
  cases h with
  | whole frames hdata hdone hwire hbytes =>
      obtain rfl : k = 0 := by omega
      refine .whole frames hdata (by omega) ?_ ?_
      · rw [hsent, hwire, List.take_zero, List.append_nil]
      · rw [hcontent, List.drop_zero, hbytes]
  | underway frames part hdata hlast hleft hwire hbytes =>
      have hsplit : s.owed = s.ipBuffer.content.take k ++ s'.owed := by
        have hboth := List.take_append_drop k s.owed
        rw [State.owed, List.take_take, Nat.min_eq_left hk, List.drop_take] at hboth
        rw [State.owed, State.owed, hremain, hcontent, hboth]
      have hgrown : s'.unfinished (part ++ s.ipBuffer.content.take k) = s.unfinished part := by
        rw [State.unfinished, State.unfinished, hsplit, List.append_assoc]
      have hwritten : s'.sent = frameCode.stream frames ++ ((s.unfinished part).message.bytes ++
          (part ++ s.ipBuffer.content.take k)) := by
        rw [hsent, hwire]
        simp only [List.append_assoc]
      have hkept : frames.flatMap Frame.payload ++ (part ++ s.ipBuffer.content.take k) ++
          s'.ipBuffer.content = tun := by
        rw [hcontent, List.append_assoc, List.append_assoc, List.take_append_drop,
          ← List.append_assoc, hbytes]
      by_cases hall : k = s.ipBufferRemain
      · have hnil : s'.owed = [] := Tracked.owed_nil (by omega)
        have hpart : part ++ s.ipBuffer.content.take k = (s.unfinished part).payload := by
          rw [State.unfinished, hsplit, hnil, List.append_nil]
        have hframes : ∀ f ∈ frames ++ [s.unfinished part], Data f ∧ f.Valid :=
          data_snoc hdata ⟨rfl, hlast⟩
        refine .whole _ hframes (by omega) ?_ ?_
        · rw [hwritten, hpart, PrefixCode.stream_append, PrefixCode.stream_cons,
            PrefixCode.stream_nil, List.append_nil, frameCode_encode, Frame.bytes]
        · rw [← hkept, hpart, List.flatMap_append, List.flatMap_singleton]
      · refine .underway frames _ hdata (hgrown ▸ hlast) (by omega) ?_ hkept
        rw [hgrown, hwritten]

theorem calls (h : Wire tun s) {e : Call} (hfilled : Filled s) (hcalls : Calls s e s') :
    Wire (tun ++ e.appended s) s' := by
  cases hcalls with
  | read _ hsent hremain hcontent => exact h.read hfilled.fill hsent hremain hcontent
  | send htransfers =>
      rw [Call.appended, List.append_nil]
      cases htransfers with
      | idle _ hsent hbuffer hremain =>
          have hkept : s'.ipBuffer.content = s.ipBuffer.content ++ [] := by
            rw [hbuffer, List.append_nil]
          have hwire := h.read hfilled.fill hsent hremain hkept
          rwa [List.append_nil] at hwire
      | starts hzero hk _ hsent hcontent hremain =>
          exact h.starts hfilled hzero hk hsent hcontent hremain
      | goesOn hk _ hsent hcontent hremain =>
          exact h.goesOn hk hsent hcontent hremain

end Wire

/-! ## Runs -/

theorem not_bad_of_whole {es : List Call} (hwhole : ∀ e ∈ es, e.Whole) (s : State) :
    ∀ pre e post u, es = pre ++ e :: post → run call s pre = some u → ¬ ¬ e.Whole := by
  rintro pre e post _ rfl _
  exact not_not_intro (hwhole e (by simp))

/-- However reads and partial sends follow each other, nothing of what came from the tun device is
lost or sent twice. -/
theorem partial_sends_resume (time : Int) (ipMem over6Mem : CellMemory UInt8) (es : List Call)
    (hwhole : ∀ e ∈ es, e.Whole) (s : State)
    (hrun : run call (initState time ipMem over6Mem) es = some s) :
    Resumable (appended (initState time ipMem over6Mem) es) s := by
  have hinit : Unfailed (initState time ipMem over6Mem) ∧
      Wire [] (initState time ipMem over6Mem) :=
    ⟨⟨.initState time ipMem over6Mem, nofun⟩, .whole [] nofun rfl rfl rfl⟩
  have hend := run_outputs Call.appended (fun _ e => ¬ e.Whole)
    (fun tun s => Unfailed s ∧ Wire tun s) ?_ hinit hrun (not_bad_of_whole hwhole _)
  · exact ⟨hend.1.filled.fill, hend.2⟩
  · rintro tun s e s' ⟨hunfailed, hwire⟩ hfine hcall
    obtain ⟨hcalls, hafter⟩ := call_calls hunfailed (not_not.mp hfine) hcall
    exact ⟨hafter, hwire.calls hunfailed.filled hcalls⟩

/-- A packet that leaves in three pieces, while another one comes. -/
def inPieces : List Call :=
  [.read [.bytes packet], .send (.took 5) (.took 3), .read [.bytes packet], .send (.took 5) (.took 0),
    .send (.took 5) (.took 10)]

theorem partial_sends_resume_inPieces :
    ∃ s, run call (initState 0 (fun _ => 0) fun _ => 0) inPieces = some s ∧
      s.ipBufferRemain = 7 ∧ Resumable (packet ++ packet) s := by
  have hview : (run call (initState 0 (fun _ => 0) fun _ => 0) inPieces).map State.ipBufferRemain =
      some 7 := by decide +kernel
  obtain ⟨s, hs, hremain⟩ := Option.map_eq_some_iff.mp hview
  have hbytes : appended (initState 0 (fun _ => 0) fun _ => 0) inPieces = packet ++ packet := by
    decide +kernel
  have hresumes := partial_sends_resume 0 (fun _ => 0) (fun _ => 0) inPieces (by decide +kernel) s hs
  rw [hbytes] at hresumes
  exact ⟨s, hs, hremain, hresumes⟩

end Over6.Droid
