import Over6.Client.Decoder

/-! # The clocks of the client

What each call puts on the connection, and which of the two heartbeat clocks it
moves: `handle_heartbeat` the one, the heartbeats in the stream the other.
-/

namespace Over6.Client

open MachineInt BoundedLoop EventRun Journal

def Event.At (now : Int) : Event → Prop
  | .heartbeat time _ => time = now
  | .socket _ env _ => ∀ k, (env k).time = now
  | .command _ _ | .tunnel _ _ _ => True

def Event.WritesSucceed : Event → Prop
  | .heartbeat _ write => TakesAll write
  | .command env _ => ∀ k, TakesAll (env.write k)
  | .socket _ _ _ => True
  | .tunnel _ write₁ write₂ => TakesAll write₁ ∧ TakesAll write₂

/-! ## What is put on the connection -/

section Puts

variable {s s' : State}

theorem dataHeader_eq {packet : List UInt8} (hlen : packet.length ≤ bufferSize) :
    dataHeader packet = (Frame.message ⟨msgDataReq, packet⟩).bytes := by
  have hcap : bufferSize = 4194304 := rfl
  have hfive : sizeofMessage = 5 := rfl
  have hsize : int32 ((sizeofMessage : Int) + packet.length) =
      ((packet.length + sizeofMessage : Nat) : Int) := by
    rw [int32_of_range (by omega) (by omega)]
    omega
  rw [dataHeader, hsize]
  rfl

theorem handleCommand_frames {env : CommandEnv} {fuel : Nat} (hwrite : ∀ k, TakesAll (env.write k))
    (h : handleCommand env fuel s = .stopped s') :
    ∃ fs, Puts s s' (frameCode.stream fs) ∧ ∀ f ∈ fs, f.Valid ∧ f.type ≠ msgHeartbeat := by
  obtain ⟨bs, hputs, hbs⟩ := handleCommand_puts h
  rcases hbs with rfl | hret | rfl
  · exact ⟨[], hputs, by simp⟩
  · exact absurd (hwrite 0 5 (by decide)) hret
  · refine ⟨[ipRequest], by simpa using hputs, ?_⟩
    intro f hf
    rw [List.mem_singleton.mp hf]
    decide

theorem handleTunnel_frames {r : ReadResult} {write₁ write₂ : WriteResult}
    (hwrite₁ : TakesAll write₁) (hwrite₂ : TakesAll write₂) (hfits : r.Fits bufferSize) :
    ∃ fs, Puts s (handleTunnel r write₁ write₂ s) (frameCode.stream fs) ∧
      ∀ f ∈ fs, f.Valid ∧ f.type ≠ msgHeartbeat := by
  obtain ⟨bs, hputs, hbs⟩ := handleTunnel_puts r write₁ write₂ s
  rcases hbs with rfl | hret | ⟨packet, rfl, hret | rfl⟩
  · exact ⟨[], hputs, by simp⟩
  · exact absurd (hwrite₁ 5 (by decide)) hret
  · exact absurd (hwrite₂ packet.length hfits) hret
  · have hlen : packet.length ≤ bufferSize := hfits
    have hcap : bufferSize = 4194304 := rfl
    refine ⟨[⟨msgDataReq, packet⟩], ?_, ?_⟩
    · rw [dataHeader_eq hlen] at hputs
      simpa [Frame.bytes] using hputs
    · intro f hf
      rw [List.mem_singleton.mp hf]
      refine ⟨?_, show msgDataReq ≠ msgHeartbeat by decide⟩
      change packet.length + 5 < 2 ^ 31
      omega

theorem Act.OfReply.not_sent {act : Act} (h : act.OfReply) : act.sends = [] := by
  cases act <;> first | rfl | exact h.elim

theorem Dispatch.written {env : SocketEnv} {msg : Message} {flow : Flow State}
    (h : Dispatch env msg s flow) : written flow.state.log = written s.log := by
  have hreply : ∀ {t : State}, Logged Act.OfReply ((s.note (.dispatched msg)).note
      (.resized (replySize msg.length) s.socketNreads)) t → Client.written t.log =
        Client.written s.log := by
    rintro t ⟨new, rfl, hnew⟩
    have hnone : Client.written (new ++ .resized (replySize msg.length) s.socketNreads ::
        .dispatched msg :: s.log) = _ := gather_of_nil fun act hact => (hnew act hact).not_sent
    refine hnone.trans ?_
    simp [Client.written, Act.sends]
  cases h with
  | crashed => simp [State.note, Client.written, Act.sends]
  | answered _ _ hlog => exact hreply hlog
  | unanswered _ _ hlog => exact (List.append_nil _).trans (hreply hlog)
  | heartbeat => exact List.append_nil _
  | early => exact List.append_nil _
  | injected => simp [State.handed, State.countIn, State.note, Client.written, Act.sends]
  | refused => simp [State.handed, State.fail, State.note, Client.written, Act.sends]
  | unknown => exact List.append_nil _

theorem Pass.written {env : SocketEnv} {flow : Flow State} (h : Pass env s flow) :
    ∀ s', flow = .next s' ∨ flow = .stop s' → written s'.log = written s.log := by
  intro s' hs'
  cases h with
  | waits =>
      obtain rfl := Flow.stop.inj (hs'.resolve_left (by simp))
      rfl
  | left _ hframe =>
      obtain rfl := Flow.stop.inj (hs'.resolve_left (by simp))
      exact hframe.written
  | passed _ hframe _ =>
      obtain rfl := Flow.next.inj (hs'.resolve_right (by simp))
      exact (List.append_nil _).trans hframe.written
  | crashed => simp at hs'
  | overran => simp at hs'

/-- `handle_socket` puts nothing on the connection. -/
theorem handleSocket_written {r : ReadResult} {env : Nat → SocketEnv} {fuel : Nat} (hs : s.Bounded)
    (hfits : r.Fits s.room) (h : handleSocket r env fuel s = .stopped s') :
    written s'.log = written s.log := by
  cases r with
  | error =>
      obtain rfl := Outcome.stopped.inj h
      exact List.append_nil _
  | bytes bs =>
      rw [handleSocket_of_bounded hs hfits] at h
      have hchain := iterate_reaches (fun t t' : State => Client.written t'.log = Client.written t.log)
        State.Bounded ?_ ?_ (hs.receive hfits) h
      · have hread : Client.written (receive bs s).log = Client.written s.log := List.append_nil _
        rw [← hread]
        clear h
        induction hchain with
        | refl => rfl
        | tail _ hlast ih => exact hlast.trans ih
      · intro k t t' ht hb
        have hpass := socketOnce_pass ht (env k)
        have hnext := ht.socketOnce (env k)
        rw [hb] at hpass hnext
        exact ⟨hpass.written t' (.inl rfl), hnext⟩
      · intro k t t' ht hb
        have hpass := socketOnce_pass ht (env k)
        rw [hb] at hpass
        exact hpass.written t' (.inr rfl)

end Puts

/-! ## What moves the clocks -/

section Clocks

variable {s s' : State} {now : Int}

def heartbeat : Frame := ⟨msgHeartbeat, []⟩

/-- A client that has heard of the server lately goes on. -/
theorem handleHeartbeat_of_recent {write : WriteResult} (hwrite : TakesAll write)
    (hrecent : now - s.lastHeartbeatFromServer ≤ heartbeatTimeoutSecs) :
    handleHeartbeat now write s =
      if heartbeatIntervalSecs < now - s.lastHeartbeatToServer then
        { s.note (.sent heartbeat.bytes) with lastHeartbeatToServer := now, ret := 0 }
      else { s with ret := 0 } := by
  have hret := hwrite 5 (by decide)
  have hbytes : Message.bytes ⟨sizeofMessage, msgHeartbeat⟩ = heartbeat.bytes :=
    (List.append_nil _).symm
  have htaken : write.taken heartbeat.bytes = heartbeat.bytes := taken_of_ret hret
  have hlen : heartbeat.bytes.length = 5 := rfl
  unfold handleHeartbeat
  simp only
  rw [if_neg (Int.not_lt.mpr hrecent), hbytes, htaken, hlen, if_pos hret]

/-- Whatever becomes of its write, it does not time out. -/
theorem handleHeartbeat_in_time (hrecent : now - s.lastHeartbeatFromServer ≤ heartbeatTimeoutSecs)
    (write : WriteResult) : (handleHeartbeat now write s).log ≠ .failed .timeout :: s.log := by
  have hbeat := handleHeartbeat_beat now write s
  generalize handleHeartbeat now write s = t at hbeat
  cases hbeat with
  | timeout hlate => omega
  | sent => simp [State.note]
  | lost => simp [State.fail, State.note]
  | early => simp

/-- The clock of the last heartbeat behind the frames. -/
def sees (now seen : Int) (frames : List Frame) : Int :=
  frames.foldl (fun seen f => if f.type = msgHeartbeat then now else seen) seen

theorem sees_snoc (now seen : Int) (frames : List Frame) (f : Frame) :
    sees now seen (frames ++ [f]) = if f.type = msgHeartbeat then now else sees now seen frames := by
  rw [sees, List.foldl_append]
  rfl

theorem Dispatch.sees {env : SocketEnv} {f : Frame} {t : State}
    (h : Dispatch env f.message s (.next t)) :
    t.lastHeartbeatFromServer =
      if f.type = msgHeartbeat then env.time else s.lastHeartbeatFromServer := by
  have hother : ∀ {ty : UInt8}, f.message.type = ty → ty ≠ msgHeartbeat → f.type ≠ msgHeartbeat := by
    intro ty htype hne
    exact fun he => hne (htype.symm.trans he)
  cases h with
  | answered htype _ hlog =>
      obtain ⟨new, rfl, _⟩ := hlog
      exact (if_neg (hother htype (by decide))).symm
  | heartbeat htype => exact (if_pos htype).symm
  | early htype => exact (if_neg (hother htype (by decide))).symm
  | injected htype => exact (if_neg (hother htype (by decide))).symm

/-- The frames met between `words` and `words'` have moved the clocks of `s` to those of `t`. -/
def MovedBy (now : Int) (s : State) (words words' : List Frame) (t : State) : Prop :=
  ∃ new, words' = words ++ new ∧
    t.lastHeartbeatFromServer = sees now s.lastHeartbeatFromServer new ∧
    t.lastHeartbeatToServer = s.lastHeartbeatToServer

variable {start : State} {sent words : List Frame} {got : List UInt8}

/-- A call of `handle_socket` that goes well moves one clock, by the heartbeats it meets. -/
theorem handleSocket_sees (hvalid : ∀ f ∈ sent, f.Valid) {env : Nat → SocketEnv}
    (hnow : ∀ k, (env k).time = now) {fuel : Nat} {bs : List UInt8}
    (h : Decoded start sent got words s) (hfits : bs.length ≤ s.room)
    (hgot : got ++ bs <+: frameCode.stream sent)
    (hcall : handleSocket (.bytes bs) env fuel s = .stopped s') (hret : s'.ret = 0) :
    ∃ words', Decoded start sent (got ++ bs) words' s' ∧ MovedBy now s words words' s' := by
  have hstart : MovedBy now s words words (receive bs s) :=
    ⟨[], (List.append_nil _).symm, rfl, rfl⟩
  have hends : ∃ words', Decoded start sent (got ++ bs) words' s' ∧
      MovedBy now s words words' s' ∧ s'.ret = 0 ∧ ¬ s'.Complete := by
    refine handleSocket_decoded hvalid (MovedBy now s words) ?_ ?_ ?_ h hfits hgot hstart hcall
    · rintro k words' f more u t ⟨new, rfl, hfrom, hto⟩ _ _ _ hframe
      have hkept : Kept u t := hframe.kept
      refine ⟨new ++ [f], List.append_assoc .., ?_, hkept.lastHeartbeatToServer.trans hto⟩
      rw [sees_snoc, ← hfrom, ← hnow k]
      exact hframe.sees
    · intro k words' f u _ _ hframe
      rw [(Dispatch.of_eq hframe).ret_of_stop] at hret
      exact absurd hret (by decide)
    · intro words' u hmoved
      exact hmoved
  obtain ⟨words', hdec, hmoved, _⟩ := hends
  exact ⟨words', hdec, hmoved⟩

end Clocks

end Over6.Client
