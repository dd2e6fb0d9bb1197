import Over6.Client.Clocks
import Over6.Client.Frames
import Over6.Client.Responses

/-! # What the client says

Whatever its writes take, a client puts the beginning of a stream of frames on its
connection: requests, heartbeats and a frame for each packet that `handle_tunnel`
reads. The stream breaks off inside a frame only where the client ends.
-/

namespace Over6.Client

open MachineInt BoundedLoop EventRun Journal

/-! ## Packets and commands -/

def ReadResult.packets : ReadResult → List (List UInt8)
  | .error => []
  | .bytes bs => if bs = [] then [] else [bs]

def Event.packets : Event → List (List UInt8)
  | .heartbeat _ _ => []
  | .command _ _ => []
  | .socket _ _ _ => []
  | .tunnel r _ _ => ReadResult.packets r

def Act.commands : Act → List UInt8
  | command c => [c]
  | _ => []

def commands (log : List Act) : List UInt8 := gather Act.commands log

/-- How often the client was told to ask for an address. -/
def fetches (log : List Act) : Nat := (commands log).count ipcCommandFetchConfig

def asks (frames : List Frame) : Nat := frames.countP fun f => f.type == msgIpReq

/-! ## The log grows -/

section Log

variable {s s' : State}

theorem handleSocket_log_suffix {r : ReadResult} {env : Nat → SocketEnv} {fuel : Nat}
    (hs : s.Bounded) (hfits : r.Fits s.room) (h : handleSocket r env fuel s = .stopped s') :
    s.log <:+ s'.log := by
  cases r with
  | error =>
      obtain rfl := Outcome.stopped.inj h
      exact List.suffix_cons _ _
  | bytes bs =>
      rw [handleSocket_of_bounded hs hfits] at h
      have hrun := iterate_invariant (fun t : State => (receive bs s).log <:+ t.log)
        (fun k t ht => ht.trans (socketOnce_log_suffix (env k) t)) fuel 0 _ (List.suffix_refl _)
      rw [h] at hrun
      exact (List.suffix_cons _ _).trans hrun

theorem step_log_suffix {e : Event} (hs : s.Bounded) (h : step s e = some s') :
    s.log <:+ s'.log := by
  have hcall := step_call h
  rcases hcall.aside with ⟨r, env, fuel, rfl⟩ | ⟨haside, _⟩
  · cases hcall with
    | socket _ _ _ hfits hcall => exact handleSocket_log_suffix hs hfits hcall
  · obtain ⟨new, hlog, _⟩ := haside.log
    exact ⟨new, hlog.symm⟩

theorem fetches_mono {log log' : List Act} (h : log <:+ log') : fetches log ≤ fetches log' := by
  obtain ⟨new, rfl⟩ := h
  rw [fetches, fetches, commands, commands, gather_append, List.count_append]
  exact Nat.le_add_right _ _

end Log

/-! ## One call -/

/-- The call puts the frames `new` on the connection, unless the client ends with it. -/
structure Adds (s s' : State) (new : List Frame) : Prop where
  valid : ∀ f ∈ new, f.Valid
  bytes : ∃ bs, written s'.log = written s.log ++ bs ∧ bs <+: frameCode.stream new ∧
    (s'.ret = 0 → bs = frameCode.stream new)
  asked : fetches s.log + asks new ≤ fetches s'.log

theorem fetches_note (s : State) (act : Act) :
    fetches (s.note act).log = fetches s.log + act.commands.count ipcCommandFetchConfig := by
  rw [fetches, fetches, commands, ← List.count_append]
  rfl

namespace Adds

variable {s s' : State} {f : Frame}

/-- A call that puts nothing on the connection. -/
theorem nothing (hlog : s.log <:+ s'.log) (hwritten : written s'.log = written s.log) :
    Adds s s' [] := by
  refine ⟨by simp, ⟨[], ?_, List.nil_prefix, fun _ => rfl⟩, fetches_mono hlog⟩
  rw [hwritten, List.append_nil]

theorem of_puts (h : Puts s s' []) : Adds s s' [] := by
  obtain ⟨new, hlog, _⟩ := h.log
  exact nothing ⟨new, hlog.symm⟩ (h.written.trans (List.append_nil _))

/-- One write of a frame, the result of which is checked. -/
theorem frame {write : WriteResult} (hf : f.Valid)
    (hwritten : written s'.log = written s.log ++ write.taken f.bytes)
    (hret : s'.ret = 0 → write.ret f.bytes.length = f.bytes.length)
    (hasked : fetches s.log + asks [f] ≤ fetches s'.log) : Adds s s' [f] := by
  refine ⟨by simpa using hf, ⟨_, hwritten, ?_, fun h => ?_⟩, hasked⟩
  · rw [PrefixCode.stream_cons, PrefixCode.stream_nil, List.append_nil]
    exact taken_begins write _
  · rw [taken_of_ret (hret h), PrefixCode.stream_cons, PrefixCode.stream_nil, List.append_nil]
    rfl

end Adds

theorem handleHeartbeat_adds (now : Int) (write : WriteResult) (s : State) :
    ∃ new, Adds s (handleHeartbeat now write s) new ∧ uploads new = [] := by
  have hbytes : Message.bytes ⟨sizeofMessage, msgHeartbeat⟩ = heartbeat.bytes :=
    (List.append_nil _).symm
  have hvalid : heartbeat.Valid := by decide
  have hone : ∀ act, s.log <:+ (s.note act).log := fun _ => List.suffix_cons _ _
  unfold handleHeartbeat
  rw [hbytes]
  split
  · exact ⟨[], .nothing (List.suffix_cons _ _) (List.append_nil _), rfl⟩
  · split
    · simp only
      split
      · rename_i hret
        exact ⟨[heartbeat], .frame hvalid rfl (fun _ => hret) (fetches_mono (hone _)), rfl⟩
      · refine ⟨[heartbeat], .frame hvalid (List.append_nil _) (fun h => ?_) ?_, rfl⟩
        · cases h
        · exact fetches_mono ((hone _).trans (List.suffix_cons _ _))
    · exact ⟨[], .nothing (List.suffix_refl _) rfl, rfl⟩

theorem handleCommand_adds {env : CommandEnv} {fuel : Nat} {s s' : State}
    (h : handleCommand env fuel s = .stopped s') : ∃ new, Adds s s' new ∧ uploads new = [] := by
  have hquiet : Puts s s' [] → ∃ new, Adds s s' new ∧ uploads new = [] := fun hputs =>
    ⟨[], .of_puts hputs, rfl⟩
  unfold handleCommand at h
  cases hbyte : env.byte with
  | error =>
      rw [hbyte] at h
      cases h
      exact hquiet ((Puts.refl s).fail _)
  | bytes bs =>
      cases bs with
      | nil =>
          rw [hbyte] at h
          cases h
          exact hquiet ((Puts.refl s).fail _)
      | cons c bs =>
          have hnoted : Puts s (s.note (.command c)) [] := (Puts.refl s).note
          have hstart : Puts s { s.note (.command c) with ret := 0 } [] :=
            hnoted.congr rfl rfl rfl rfl rfl
          rw [hbyte] at h
          simp only at h
          split at h
          · cases h
            exact hquiet (hstart.congr rfl rfl rfl rfl rfl)
          · split at h
            · rename_i hfetch
              have hbytes : Message.bytes ⟨sizeofMessage, msgIpReq⟩ = ipRequest.bytes :=
                (List.append_nil _).symm
              have hsent := hstart.sent ((env.write 0).taken ipRequest.bytes)
              have hasked : fetches s.log + 1 = fetches (s.note (.command c)).log := by
                rw [fetches_note, hfetch]
                rfl
              have hvalid : ipRequest.Valid := by decide
              rw [hbytes] at h
              split at h
              · rename_i hret
                cases h
                refine ⟨[ipRequest], .frame hvalid hsent.written (fun _ => hret) ?_, rfl⟩
                exact hasked.le.trans (fetches_mono (List.suffix_cons _ _))
              · cases h
                refine ⟨[ipRequest], .frame hvalid (hsent.fail _).written (fun h => ?_) ?_, rfl⟩
                · cases h
                · refine hasked.le.trans (fetches_mono ?_)
                  exact (List.suffix_cons _ _).trans (List.suffix_cons _ _)
            · split at h
              · exact hquiet (hstart.trans (setTun_puts h))
              · split at h
                · cases h
                  exact hquiet (puts_of_responded hstart (respond_responded _ _ _ _))
                · cases h
                  exact hquiet hstart

/-- A packet is put on the connection as one frame, or the client ends with a part of it. -/
theorem handleTunnel_adds {r : ReadResult} (write₁ write₂ : WriteResult) (s : State)
    (hfits : r.Fits bufferSize) :
    ∃ new, Adds s (handleTunnel r write₁ write₂ s) new ∧ uploads new = ReadResult.packets r := by
  have hone : ∀ {t : State} act, t.log <:+ (t.note act).log := fun _ => List.suffix_cons _ _
  cases r with
  | error => exact ⟨[], .nothing (List.suffix_cons _ _) (List.append_nil _), rfl⟩
  | bytes packet =>
      cases hpacket : packet with
      | nil => exact ⟨[], .nothing (List.suffix_refl _) rfl, rfl⟩
      | cons b bs =>
          rw [← hpacket]
          have hlen : packet.length ≤ bufferSize := hfits
          have hcap : bufferSize = 4194304 := rfl
          have hvalid : Frame.Valid ⟨msgDataReq, packet⟩ := by
            change packet.length + 5 < 2 ^ 31
            omega
          have hbytes : Frame.bytes ⟨msgDataReq, packet⟩ = dataHeader packet ++ packet := by
            rw [dataHeader_eq hlen, Frame.bytes]
          have hstream : frameCode.stream [⟨msgDataReq, packet⟩] = dataHeader packet ++ packet := by
            rw [PrefixCode.stream_cons, PrefixCode.stream_nil, List.append_nil, frameCode_encode,
              hbytes]
          have hpackets : uploads [⟨msgDataReq, packet⟩] = ReadResult.packets (.bytes packet) := by
            simp [uploads, ReadResult.packets, hpacket]
          refine ⟨[⟨msgDataReq, packet⟩], ?_, hpackets⟩
          unfold handleTunnel
          rw [hpacket]
          simp only
          rw [← hpacket, ← dataHeader]
          split
          · rename_i hret₁
            rw [taken_of_ret hret₁]
            split
            · rename_i hret₂
              rw [taken_of_ret hret₂]
              refine ⟨by simpa using hvalid, ⟨_, ?_, ?_, fun _ => hstream.symm⟩, ?_⟩
              · exact List.append_assoc _ _ _
              · exact hstream ▸ List.prefix_refl _
              · exact fetches_mono ((hone _).trans (hone _))
            · refine ⟨by simpa using hvalid, ⟨dataHeader packet ++ write₂.taken packet, ?_, ?_, ?_⟩,
                ?_⟩
              · exact (List.append_nil _).trans (List.append_assoc _ _ _)
              · rw [hstream]
                exact (List.prefix_append_right_inj _).mpr (taken_begins write₂ packet)
              · intro h
                cases h
              · exact fetches_mono ((hone _).trans ((hone _).trans (List.suffix_cons _ _)))
          · refine ⟨by simpa using hvalid, ⟨write₁.taken (dataHeader packet), ?_, ?_, ?_⟩, ?_⟩
            · exact List.append_nil _
            · rw [hstream]
              exact (taken_begins write₁ _).trans (List.prefix_append _ _)
            · intro h
              cases h
            · exact fetches_mono ((hone _).trans (List.suffix_cons _ _))

theorem step_adds {s s' : State} {e : Event} (hs : s.Bounded) (h : step s e = some s') :
    ∃ new, Adds s s' new ∧ uploads new = e.packets := by
  have hlog := step_log_suffix hs h
  cases step_call h with
  | heartbeat now write => exact handleHeartbeat_adds now write s
  | command env fuel hcall => exact handleCommand_adds hcall
  | socket r env fuel hfits hcall =>
      exact ⟨[], .nothing hlog (handleSocket_written hs hfits hcall), rfl⟩
  | tunnel r write₁ write₂ _ hfits => exact handleTunnel_adds write₁ write₂ s hfits

/-! ## Whole runs -/

/-- The connection has been given the frames `fs`, the last of them in part if the client has ended. -/
structure Says (s : State) (fs : List Frame) : Prop where
  valid : ∀ f ∈ fs, f.Valid
  begun : written s.log <+: frameCode.stream fs
  whole : s.ret = 0 → written s.log = frameCode.stream fs
  asked : asks fs ≤ fetches s.log

namespace Says

variable {s s' : State} {fs new : List Frame}

theorem protocolInit (fds : Descriptors) (time₁ time₂ : Int) (stale : CellMemory UInt8) :
    Says (protocolInit fds time₁ time₂ stale) [] :=
  ⟨by simp, List.nil_prefix, fun _ => rfl, Nat.le_refl _⟩

theorem adds (h : Says s fs) (hret : s.ret = 0) (hadds : Adds s s' new) : Says s' (fs ++ new) := by
  obtain ⟨bs, hbs, hbegun, hwhole⟩ := hadds.bytes
  refine ⟨?_, ?_, fun hret' => ?_, ?_⟩
  · intro f hf
    exact (List.mem_append.mp hf).elim (h.valid f) (hadds.valid f)
  · rw [hbs, h.whole hret, PrefixCode.stream_append]
    exact (List.prefix_append_right_inj _).mpr hbegun
  · rw [hbs, h.whole hret, hwhole hret', PrefixCode.stream_append]
  · rw [asks, List.countP_append]
    exact (Nat.add_le_add_right h.asked _).trans hadds.asked

theorem step {e : Event} (h : Says s fs) (hs : s.Bounded) (hstep : step s e = some s') :
    ∃ new, Says s' (fs ++ new) ∧ uploads new = e.packets := by
  obtain ⟨new, hadds, hnew⟩ := step_adds hs hstep
  exact ⟨new, h.adds (step_ret hstep) hadds, hnew⟩

end Says

/-- After any run the client has put its packets on the connection, in the order in which it took them
from the tun. -/
theorem runFrom_says {fds : Descriptors} {time₁ time₂ : Int} {stale : CellMemory UInt8}
    {es : List Event} {s : State} (hrun : runFrom fds time₁ time₂ stale es = some s) :
    ∃ fs, Says s fs ∧ uploads fs = es.flatMap Event.packets := by
  induction es using List.reverseRecOn generalizing s with
  | nil =>
      obtain rfl := Option.some.inj hrun
      exact ⟨[], .protocolInit fds time₁ time₂ stale, rfl⟩
  | append_singleton es e ih =>
      obtain ⟨t, ht, hstep⟩ := run_snoc_iff.mp hrun
      obtain ⟨fs, hspoken, hup⟩ := ih ht
      obtain ⟨new, hnew, hpackets⟩ := hspoken.step (runFrom_bounded ht) hstep
      refine ⟨fs ++ new, hnew, ?_⟩
      rw [uploads_append, hup, hpackets, List.flatMap_append, List.flatMap_singleton]

end Over6.Client
