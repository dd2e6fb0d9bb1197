import Over6.Droid.Frames

/-! # The end of the client's stream

`readToBuf` returns 0 at the end of the stream, and also when it does not read at all:
its loop is not entered while the last `IP_PACKET_MAX_SIZE` bytes of the buffer are
reached. `main` shuts the server down for either.
-/

namespace Over6.Droid

open EventRun

def Input.fromClient (s : State) : Input → List UInt8
  | .report answers =>
      if s.InputFrom .over6 then
        (readResults answers s.over6PacketBuffer.used).flatMap delivered
      else []
  | _ => []

def clientBytes (s : State) (es : List Input) : List UInt8 := outputs step Input.fromClient s es

/-- If `readToBuf` returns 0 then so has one of its reads. -/
def Truthful (answers : List ReadResult) (s : State) : Prop :=
  (readToBuf answers s.over6PacketBuffer 0).2 = 0 →
    .bytes [] ∈ readResults answers s.over6PacketBuffer.used

/-- The client has sent something, and `over6PacketBuffer` has no room for another packet. -/
def Overfull (s : State) (e : Input) : Prop :=
  (∃ answers, e = .report answers) ∧ s.InputFrom .over6 ∧
    pipeBufLen - ipPacketMaxSize ≤ s.over6PacketBuffer.used

instance (s : State) (e : Input) : Decidable (Overfull s e) := by
  have h : Decidable (∃ answers, e = .report answers) := by
    cases e with
    | report answers => exact isTrue ⟨answers, rfl⟩
    | _ => exact isFalse nofun
  unfold Overfull
  infer_instance

/-! ## One call -/

theorem readToBuf_pos (answers : List ReadResult) (b : Buffer) {total : Int} (h : 0 < total) :
    0 < (readToBuf answers b total).2 := by
  fun_induction readToBuf answers b total with
  | case1 x xs answers b total _ ih =>
      apply ih
      omega
  | case4 answers b total hnone => exact absurd hnone.2 (by omega)
  | case6 b total hnone => exact absurd hnone.2 (by omega)
  | _ => exact h

/-- The loop is not entered. -/
theorem readResults_full (answers : List ReadResult) {used : Nat}
    (h : pipeBufLen - ipPacketMaxSize ≤ used) : readResults answers used = [] := by
  have hfull : ¬ used < pipeBufLen - ipPacketMaxSize := Nat.not_lt.mpr h
  unfold readResults
  split <;> exact if_neg hfull

theorem readToBuf_full (answers : List ReadResult) {b : Buffer}
    (h : pipeBufLen - ipPacketMaxSize ≤ b.used) : readToBuf answers b 0 = (b, 0) := by
  have hfull : ¬ b.used < pipeBufLen - ipPacketMaxSize := Nat.not_lt.mpr h
  have hnone : ¬ (b.used < pipeBufLen - ipPacketMaxSize ∧ (0 : Int) = 0) :=
    fun hboth => hfull hboth.1
  unfold readToBuf
  split
  · exact if_neg hfull
  · rfl
  · exact if_neg hnone
  · exact if_neg hnone

/-- Where the loop is entered, 0 is what the first call returned. -/
theorem readToBuf_zero {answers : List ReadResult} {b : Buffer}
    (hroom : b.used < pipeBufLen - ipPacketMaxSize) (h : (readToBuf answers b 0).2 = 0) :
    .bytes [] ∈ readResults answers b.used := by
  cases answers with
  | nil =>
      rw [readToBuf, if_pos ⟨hroom, rfl⟩] at h
      cases h
  | cons r answers =>
      cases r with
      | error =>
          rw [readToBuf, if_pos ⟨hroom, rfl⟩] at h
          cases h
      | bytes bs =>
          cases bs with
          | nil =>
              rw [readResults, if_pos hroom]
              exact List.mem_cons_self
          | cons x xs =>
              rw [readToBuf, if_pos hroom] at h
              have hpos := readToBuf_pos answers (b.append (x :: xs))
                (show 0 < (0 : Int) + (x :: xs).length by rw [List.length_cons]; omega)
              exact absurd h hpos.ne'

theorem truthful_iff (answers : List ReadResult) (s : State) :
    Truthful answers s ↔ s.over6PacketBuffer.used < pipeBufLen - ipPacketMaxSize := by
  constructor
  · intro htrue
    by_contra hnot
    have hfull := Nat.not_lt.mp hnot
    have hmem := htrue (by rw [readToBuf_full answers hfull])
    rw [readResults_full answers hfull] at hmem
    cases hmem
  · exact fun hroom hzero => readToBuf_zero hroom hzero

/-- 0 is the end of `main`. -/
theorem handleReport_stops {answers : List ReadResult} {output : Bool} {rs : List Report}
    {s : State} (hzero : (readToBuf answers s.over6PacketBuffer 0).2 = 0) :
    (handleReport ⟨.over6, true, output, false⟩ rs answers s).point = .stopped := by
  simp [handleReport, handleInput, handleOutput, hzero]

/-! ## Runs -/

/-- The end of the client's stream is told right all along a run exactly if there is room for
another packet whenever the client has sent something. -/
theorem disconnects_iff (time : Int) (ipMem over6Mem : CellMemory UInt8) (es : List Input)
    (s : State) (hrun : runFrom time ipMem over6Mem es = some s) :
    (∀ pre answers post u, es = pre ++ .report answers :: post →
        runFrom time ipMem over6Mem pre = some u → u.InputFrom .over6 → Truthful answers u) ↔
      ∀ pre e post u, es = pre ++ e :: post → runFrom time ipMem over6Mem pre = some u →
        ¬ Overfull u e := by
  constructor
  · rintro hall pre e post u rfl hu ⟨⟨answers, rfl⟩, hinput, hfull⟩
    have hroom := (truthful_iff answers u).mp (hall pre answers post u rfl hu hinput)
    omega
  · intro hnone pre answers post u hsplit hu hinput
    refine (truthful_iff answers u).mpr (Nat.not_le.mp fun hfull => ?_)
    exact hnone pre _ post u hsplit hu ⟨⟨answers, rfl⟩, hinput, hfull⟩

def sends : Report := ⟨.over6, true, false, false⟩

/-- A heartbeat of the client, and then something else. -/
def leavingRun : List Input :=
  [.wait [sends], .report [.bytes heartbeat.bytes], .round 0 0 (.took 5), .wait [sends]]

theorem disconnects_iff_leavingRun :
    ∃ u, runZero leavingRun = some u ∧ u.InputFrom .over6 ∧ Truthful [.bytes []] u := by
  obtain ⟨s, hrun⟩ : ∃ s, runZero (leavingRun ++ [.report [.bytes []]]) = some s :=
    Option.isSome_iff_exists.mp (by decide +kernel)
  obtain ⟨u, hu, _⟩ := run_snoc_iff.mp hrun
  have hinput : u.InputFrom .over6 := by
    have hview : (runZero leavingRun).map (fun u => decide (u.InputFrom .over6)) = some true := by
      decide +kernel
    rw [show runZero leavingRun = some u from hu] at hview
    exact of_decide_eq_true (Option.some.inj hview)
  have hclean : clean step Overfull (initState 0 (fun _ => 0) fun _ => 0)
      (leavingRun ++ [.report [.bytes []]]) = true := by
    decide +kernel
  exact ⟨u, hu, hinput, (disconnects_iff 0 _ _ _ s hrun).mpr (not_bad_of_clean hclean)
    leavingRun _ [] u rfl hu hinput⟩

/-! ## A client that sends fast -/

theorem readResults_all {f : Frame} {n used : Nat}
    (h : used + n * f.size = pipeBufLen - ipPacketMaxSize) :
    readResults (List.replicate n (.bytes f.bytes)) used = List.replicate n (.bytes f.bytes) := by
  induction n generalizing used with
  | zero => exact readResults_full [] (by omega)
  | succ n ih =>
      have hsize := f.size_ge
      have hlen := f.bytes_length
      have hnext : used + f.size + n * f.size = pipeBufLen - ipPacketMaxSize := by
        rw [← h, Nat.succ_mul]
        omega
      obtain ⟨x, xs, hbytes⟩ : ∃ x xs, f.bytes = x :: xs :=
        List.exists_cons_of_length_pos (by rw [hlen]; exact Nat.lt_of_lt_of_le (by decide) hsize)
      have hroom : used < pipeBufLen - ipPacketMaxSize := by
        have hfive : sizeofMessage = 5 := rfl
        omega
      rw [List.replicate_succ, hbytes, readResults, if_pos hroom, ← hbytes, hlen, ih hnext]

def largest : Frame := ⟨typeRequest, List.replicate (ipPacketMaxSize - sizeofMessage) 0⟩

theorem largest_payload : largest.payload.length = ipPacketMaxSize - sizeofMessage :=
  List.length_replicate

theorem largest_size : largest.size = ipPacketMaxSize := by
  rw [Frame.size, largest_payload, Nat.sub_add_cancel (by decide)]

theorem largest_fits : ∀ a ∈ [ReadResult.bytes largest.bytes], a.Fits ipPacketMaxSize := by
  intro a ha
  rw [List.mem_singleton.mp ha, ReadResult.Fits, Frame.bytes_length, largest_size]

def flood : List ReadResult := List.replicate 99 (.bytes largest.bytes)

theorem flood_fits : ∀ a ∈ flood, a.Fits ipPacketMaxSize := by
  intro a ha
  rw [List.eq_of_mem_replicate ha]
  exact largest_fits _ List.mem_cons_self

theorem flood_results : readResults flood 0 = flood :=
  readResults_all (by rw [largest_size]; decide)

theorem flood_bytes : flood.flatMap delivered = frameCode.stream (List.replicate 99 largest) := by
  rw [flood, ← List.map_replicate, List.flatMap_map]
  rfl

/-- The client sends less than the largest frame, and no EPOLLOUT is set behind it. -/
def quietRun : List Input :=
  [.wait [⟨.over6, false, true, false⟩, ⟨.tun, false, true, false⟩], .report [],
    .data (.took 5) (.took 0), .report [], .packet (.took 0) (.took 5) (.took 59),
    .round 0 0 (.took 5)]

/-- The client's bytes come, and it is ahead of the tun device in the next round. -/
def roundsOf (answers : List ReadResult) : List Input :=
  [.wait [sends], .report answers, .round 0 0 (.took 5), .wait [sends, ⟨.tun, false, true, false⟩]]

def floodRun : List Input := quietRun ++ roundsOf flood

theorem quietRun_state : ∃ s, runZero quietRun = some s ∧ s.point = .waiting ∧
    s.over6PacketBuffer.used = 0 := by
  have hview : (runZero quietRun).map (fun s => decide (s.point = .waiting ∧
      s.over6PacketBuffer.used = 0)) = some true := by decide +kernel
  obtain ⟨s, hrun, hs⟩ := Option.map_eq_some_iff.mp hview
  exact ⟨s, hrun, of_decide_eq_true hs⟩

theorem stream_replicate_length (n : Nat) (f : Frame) :
    (frameCode.stream (List.replicate n f)).length = n * f.size := by
  induction n with
  | zero => rw [List.replicate_zero, PrefixCode.stream_nil, List.length_nil, Nat.zero_mul]
  | succ n ih =>
      rw [List.replicate_succ, PrefixCode.stream_cons, List.length_append, ih, frameCode_encode,
        f.bytes_length, Nat.succ_mul, Nat.add_comm]

theorem quietRun_bytes : clientBytes (initState 0 (fun _ => 0) fun _ => 0) quietRun = [] := by
  decide +kernel

theorem flood_used {b : Buffer} (h : b.used = 0) :
    (readToBuf flood b 0).1.used = pipeBufLen - ipPacketMaxSize := by
  have hcontent := congrArg List.length (readToBuf_delivered flood b 0)
  rw [List.length_append, Buffer.content_length, Buffer.content_length, h, flood_results,
    flood_bytes, stream_replicate_length, largest_size] at hcontent
  exact hcontent

theorem flood_ret {b : Buffer} (h : b.used = 0) : (readToBuf flood b 0).2 ≠ 0 := by
  intro hzero
  have hmem := readToBuf_zero (by rw [h]; decide) hzero
  rw [h, flood_results] at hmem
  have hbytes := congrArg List.length (ReadResult.bytes.inj (List.eq_of_mem_replicate hmem))
  rw [Frame.bytes_length, largest_size, List.length_nil] at hbytes
  cases hbytes

theorem step_sends {s : State} {rs : List Report} {answers : List ReadResult}
    (hpoint : s.point = .reports (sends :: rs)) (hfits : ∀ a ∈ answers, a.Fits ipPacketMaxSize)
    (hret : (readToBuf answers s.over6PacketBuffer 0).2 ≠ 0) :
    step s (.report answers) =
      some { s with
        over6PacketBuffer := (readToBuf answers s.over6PacketBuffer 0).1
        point := .reports rs } := by
  have hrunning : s.point ≠ .stopped := hpoint ▸ nofun
  simp only [step, hpoint]
  rw [if_pos hfits]
  simp [handleReport, handleInput, handleOutput, sends, hret, hrunning]

/-- The two rounds, from any state in which the client has been waited for. -/
theorem roundsOf_steps {s : State} {answers : List ReadResult} (hpoint : s.point = .waiting)
    (hfits : ∀ a ∈ answers, a.Fits ipPacketMaxSize)
    (hret : (readToBuf answers s.over6PacketBuffer 0).2 ≠ 0)
    (hused : 0 < (readToBuf answers s.over6PacketBuffer 0).1.used) :
    ∃ t, run step s (roundsOf answers) = some t ∧
      t.point = .reports [sends, ⟨.tun, false, true, false⟩] ∧
      t.over6PacketBuffer = (readToBuf answers s.over6PacketBuffer 0).1 ∧
      clientBytes s (roundsOf answers) =
        (readResults answers s.over6PacketBuffer.used).flatMap delivered := by
  let s₁ : State := { s with point := .reports [sends] }
  let s₂ : State :=
    { s with
      over6PacketBuffer := (readToBuf answers s.over6PacketBuffer 0).1
      point := .reports [] }
  let s₃ : State := setupEvents (keepAlive 0 0 (.took 5) s₂)
  let s₄ : State := { s₃ with point := .reports [sends, ⟨.tun, false, true, false⟩] }
  have hwait : step s (.wait [sends]) = some s₁ := by
    simp [step, hpoint, State.Reported, s₁, sends]
  have hreport : step s₁ (.report answers) = some s₂ := step_sends rfl hfits hret
  have hround : step s₂ (.round 0 0 (.took 5)) = some s₃ := rfl
  have hbuffer : s₃.over6PacketBuffer = s₂.over6PacketBuffer := by
    simp only [s₃, keepAlive]
    split <;> rfl
  have htun : s₃.tunOut = true := by
    change decide (0 < s₃.over6PacketBuffer.used) = true
    rw [hbuffer]
    exact decide_eq_true hused
  have hwait' : step s₃ (.wait [sends, ⟨.tun, false, true, false⟩]) = some s₄ := by
    have hpoint₃ : s₃.point = .waiting := rfl
    simp [step, hpoint₃, State.Reported, sends, htun, s₄]
  have hread : Input.fromClient s₁ (.report answers) =
      (readResults answers s.over6PacketBuffer.used).flatMap delivered := by
    have hinput : s₁.InputFrom .over6 := ⟨rfl, rfl, rfl⟩
    rw [Input.fromClient, if_pos hinput]
  have hrun : run step s (roundsOf answers) = some s₄ :=
    run_cons_iff.mpr ⟨s₁, hwait, run_cons_iff.mpr ⟨s₂, hreport,
      run_cons_iff.mpr ⟨s₃, hround, run_cons_iff.mpr ⟨s₄, hwait', rfl⟩⟩⟩⟩
  refine ⟨s₄, hrun, rfl, hbuffer, ?_⟩
  simp only [clientBytes, roundsOf, outputs, hwait, hreport, hround, hwait', hread]
  simp [Input.fromClient]

/-- Without room `main` ends, whatever there is to be read. -/
theorem step_full {s : State} {rs : List Report} {answers : List ReadResult}
    (hpoint : s.point = .reports (sends :: rs)) (hfits : ∀ a ∈ answers, a.Fits ipPacketMaxSize)
    (hfull : pipeBufLen - ipPacketMaxSize ≤ s.over6PacketBuffer.used) :
    ∃ s', step s (.report answers) = some s' ∧ s'.point = .stopped := by
  have hzero : (readToBuf answers s.over6PacketBuffer 0).2 = 0 := by rw [readToBuf_full _ hfull]
  simp only [step, hpoint]
  rw [if_pos hfits]
  exact ⟨_, rfl, handleReport_stops hzero⟩

/-- The client has sent 99 packets of the largest size, and more is to be read. Before the tun
device takes anything the client counts as gone. -/
theorem full_buffer_disconnects :
    ∃ frames u u', (∀ f ∈ frames, 5 ≤ f.size ∧ f.size ≤ 65536) ∧ runZero floodRun = some u ∧
      clientBytes (initState 0 (fun _ => 0) fun _ => 0) floodRun = frameCode.stream frames ∧
      u.InputFrom .over6 ∧ step u (.report [.bytes largest.bytes]) = some u' ∧ u'.point = .stopped ∧
      ¬ Truthful [.bytes largest.bytes] u := by
  obtain ⟨s, hquiet, hwaiting, hused⟩ := quietRun_state
  have hfull := flood_used hused
  obtain ⟨u, hflood, hpoint, hbuffer, hread⟩ := roundsOf_steps hwaiting flood_fits (flood_ret hused)
    (by rw [hfull]; decide)
  rw [hused, flood_results, flood_bytes] at hread
  rw [← hbuffer] at hfull
  have hrun : runZero floodRun = some u := run_append_iff.mpr ⟨s, hquiet, hflood⟩
  have hbytes : clientBytes (initState 0 (fun _ => 0) fun _ => 0) floodRun =
      frameCode.stream (List.replicate 99 largest) := by
    have hsplit := outputs_append Input.fromClient (roundsOf flood) hquiet
    rw [← hread]
    exact hsplit.trans (congrArg (· ++ clientBytes s (roundsOf flood)) quietRun_bytes)
  have hinput : u.InputFrom .over6 := by
    rw [State.InputFrom, hpoint]
    exact ⟨rfl, rfl, rfl⟩
  obtain ⟨u', hstep, hstopped⟩ := step_full hpoint largest_fits (Nat.le_of_eq hfull.symm)
  refine ⟨_, u, u', fun f hf => ?_, hrun, hbytes, hinput, hstep, hstopped, fun htrue => ?_⟩
  · rw [List.eq_of_mem_replicate hf, largest_size]
    decide
  · have hroom := (truthful_iff _ u).mp htrue
    omega

end Over6.Droid
