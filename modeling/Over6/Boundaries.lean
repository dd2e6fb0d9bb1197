import Over6.Droid.Packets

/-! # Packets from DroidOver6Server to the client

The frames of the server, cut up in any way, go through `handle_socket`. A frame is one
write to the tun, whatever packets the server has put into it.
-/

namespace Over6

open EventRun BoundedLoop Droid Client

/-- No frame of the server makes the client give up. -/
theorem handleFrame_stays {f : Frame} (hf : Sendable f) {env : SocketEnv}
    (henv : env.Obliging) (s s' : Client.State) :
    handleFrame env f.message s ≠ .stop s' := by
  have hcap : (bufferSize : Int) = 4194304 := rfl
  have hmax : ipPacketMaxSize = 65536 := rfl
  have hfive : sizeofMessage = 5 := rfl
  have hsize : f.message.length = f.payload.length + sizeofMessage := rfl
  have hlen : f.payload.length ≤ ipPacketMaxSize ∧
      (f.type = msgIpRsb ∧ 0 < f.payload.length ∨ f.type = msgHeartbeat ∨ f.type = msgDataRsb) := by
    rcases hf with rfl | rfl | ⟨htype, hlen⟩
    · exact ⟨by decide +kernel, .inl ⟨rfl, by decide +kernel⟩⟩
    · exact ⟨by decide, .inr (.inl rfl)⟩
    · exact ⟨hlen, .inr (.inr htype)⟩
  have hrefused : ¬ Refused s.hasTun f.message := by
    rintro (⟨h₁, h₂, h₃⟩ | ⟨_, _, hneg⟩)
    · rcases hlen.2 with ⟨htype, _⟩ | htype | htype
      · exact h₁ htype
      · exact h₂ htype
      · exact h₃ htype
    · omega
  intro hstop
  rcases handleFrame_of_obliging henv (by omega) (by omega) hrefused with
    ⟨t, hnext⟩ | ⟨htype, hshort⟩
  · exact absurd (hnext.symm.trans hstop) nofun
  · rcases hlen.2 with ⟨_, hpos⟩ | hother | hother
    · omega
    · exact absurd (htype.symm.trans hother) (by decide)
    · exact absurd (htype.symm.trans hother) (by decide)

/-- With whole writes every packet has a frame of its own exactly if `rawToOver6` is never called
behind two of them. Then the client makes one write for each packet, which begins with the packet;
but it is too long, and so what the tun is given is exactly the packets only if there are none. -/
theorem packet_boundaries_iff (time : Int) (ipMem over6Mem : CellMemory UInt8) (es : List Input)
    (w : Droid.State × Record) (hrun : watchFrom time ipMem over6Mem es = some w)
    (hfull : ∀ pre e post u, es = pre ++ e :: post → watchFrom time ipMem over6Mem pre = some u →
      Full u.1 e) :
    ((∀ pre u, pre <+: es → watchFrom time ipMem over6Mem pre = some u → OneEach u) ↔
      ∀ pre e post u, es = pre ++ e :: post → watchFrom time ipMem over6Mem pre = some u →
        ¬ Merges u e) ∧
    ((∀ pre e post u, es = pre ++ e :: post → watchFrom time ipMem over6Mem pre = some u →
        ¬ Merges u e) →
      ∀ fds time₁ time₂ stale cs c, Client.runFrom fds time₁ time₂ stale cs = some c →
        c.content = [] → 0 ≤ c.tunFd → ∀ chunks c', chunks.flatten = w.1.sent →
          ReceivesWith SocketEnv.Obliging c chunks c' →
            (∃ bss, injected c'.log = injected c.log ++ bss ∧
              List.Forall₂ Overlong (packets w.1.begun) bss) ∧
            (injected c'.log = injected c.log ++ packets w.1.begun ↔ packets w.1.begun = [])) := by
  refine ⟨oneEach_iff hrun hfull, fun hgood => ?_⟩
  have hin := inStep_watchFrom hrun hfull hgood
  intro fds time₁ time₂ stale cs c hclient hempty htun chunks c' hchunks hreceives
  have hvalid : ∀ f ∈ w.1.begun, f.Valid := fun f hf => sendable_valid (hin.begun f hf)
  have hforwarded : Forwarded c w.1.begun c' :=
    hreceives.complete hvalid htun
      (fun _ henv f hf s s' _ => handleFrame_stays (hin.begun f hf) henv s s')
      (runFrom_bounded hclient) hempty (hchunks.trans hin.sent)
  exact ⟨hforwarded.writes, hforwarded.exact_iff⟩

/-- Two packets, each sent before the other comes. -/
def oneByOne : List Input :=
  [.wait [⟨.tun, true, false, false⟩, ⟨.over6, false, true, false⟩], .report [.bytes packet],
    .report [], .data (.took 5) (.took 20), .round 0 0 (.took 5),
    .wait [⟨.tun, true, false, false⟩], .report [.bytes packet], .round 0 0 (.took 5),
    .wait [⟨.over6, false, true, false⟩], .report [], .data (.took 5) (.took 20)]

/-- Two packets wait at the tun device when it is read. -/
def twoAtOnce : List Input :=
  [.wait [⟨.tun, true, false, false⟩, ⟨.over6, false, true, false⟩],
    .report [.bytes packet, .bytes packet], .report [], .data (.took 5) (.took 40)]

abbrev watchZero : List Input → Option (Droid.State × Record) := watchFrom 0 (fun _ => 0) fun _ => 0

theorem packet_boundaries_iff_oneByOne :
    ∃ w, watchZero oneByOne = some w ∧ w.2.reads = [packet, packet] ∧ OneEach w ∧
      ∃ c c', Client.runFrom .usual 0 0 (fun _ => 0) tunnelUp = some c ∧
        ReceivesWith SocketEnv.Obliging c [w.1.sent] c' ∧
        ∃ bss, injected c'.log = injected c.log ++ bss ∧
          List.Forall₂ Overlong (packets w.1.begun) bss := by
  have hview : (watchZero oneByOne).map (fun w => decide (w.2.reads = [packet, packet] ∧
      w.1.sent = frameCode.stream [⟨typeReply, packet⟩, ⟨typeReply, packet⟩])) = some true := by
    decide +kernel
  obtain ⟨w, hrun, hw⟩ := Option.map_eq_some_iff.mp hview
  obtain ⟨hreads, hsent⟩ := of_decide_eq_true hw
  have hfull : clean watch (fun w e => ¬ Full w.1 e)
      (initState 0 (fun _ => 0) fun _ => 0, ⟨[], []⟩) oneByOne = true := by decide +kernel
  have hfew : clean watch Merges (initState 0 (fun _ => 0) fun _ => 0, ⟨[], []⟩) oneByOne =
      true := by
    decide +kernel
  obtain ⟨hframes, hclient⟩ := packet_boundaries_iff 0 (fun _ => 0) (fun _ => 0) oneByOne w hrun
    (good_of_clean hfull)
  have hany : ((Client.runFrom .usual 0 0 (fun _ => 0) tunnelUp).any fun c =>
      decide (c.content = [] ∧ 0 ≤ c.tunFd ∧ 50 ≤ c.room) &&
        (handleSocket (.bytes (frameCode.stream [⟨typeReply, packet⟩, ⟨typeReply, packet⟩]))
          (.prompt 0) 3 c).returned.isSome) = true := by decide +kernel
  obtain ⟨c, hc, hready⟩ := (Option.any_eq_true _ _).mp hany
  obtain ⟨hstate, hreturns⟩ := Bool.and_eq_true_iff.mp hready
  obtain ⟨hempty, htun, hroom⟩ := of_decide_eq_true hstate
  obtain ⟨c', hreturned⟩ := Option.isSome_iff_exists.mp hreturns
  have hreceives : ReceivesWith SocketEnv.Obliging c [w.1.sent] c' := by
    rw [hsent]
    exact .call hroom (SocketEnv.Obliging.prompt 0) (Outcome.returned_eq_some.mp hreturned)
      (.done c')
  have hgood := not_bad_of_clean hfew
  exact ⟨w, hrun, hreads, hframes.mpr hgood oneByOne w List.prefix_rfl hrun, c, c', hc, hreceives,
    (hclient hgood .usual 0 0 (fun _ => 0) tunnelUp c hc hempty htun [w.1.sent] c'
      (List.append_nil _) hreceives).1⟩

/-- Both packets leave in one frame, though every write is whole. -/
theorem two_packets_merge :
    ∃ w, watchZero twoAtOnce = some w ∧
      (∀ pre e post u, twoAtOnce = pre ++ e :: post → watchZero pre = some u → Full u.1 e) ∧
      w.2.reads = [packet, packet] ∧ w.1.begun = [⟨typeReply, packet ++ packet⟩] ∧ ¬ OneEach w := by
  have hview : (watchZero twoAtOnce).map (fun w => decide (w.2.reads = [packet, packet] ∧
      w.1.begun = [⟨typeReply, packet ++ packet⟩])) = some true := by decide +kernel
  obtain ⟨w, hrun, hw⟩ := Option.map_eq_some_iff.mp hview
  obtain ⟨hreads, hbegun⟩ := of_decide_eq_true hw
  have hfull : clean watch (fun w e => ¬ Full w.1 e)
      (initState 0 (fun _ => 0) fun _ => 0, ⟨[], []⟩) twoAtOnce = true := by decide +kernel
  refine ⟨w, hrun, good_of_clean hfull, hreads, hbegun, fun hone => ?_⟩
  have hcarried := hone.carried
  rw [hreads, hbegun] at hcarried
  exact absurd hcarried (by decide +kernel)

end Over6
