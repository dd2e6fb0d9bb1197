import Mathlib.Data.List.Forall2
import Over6.Client.Decoder
import Over6.Server.Output

/-! # From the tun of the server to the tun of the client

`process_tun` puts the size of a packet and of its header into the header, and
`handle_socket` takes that sum for the size of the packet. Each packet comes out
with the five bytes that happen to lie behind it.
-/

namespace Over6.Client

open MachineInt BoundedLoop EventRun Journal

/-! ## What the tun is given -/

def Act.injections : Act → List (List UInt8)
  | injected bs => [bs]
  | _ => []

theorem Act.OfReply.not_injected {act : Act} (h : act.OfReply) : act.injections = [] := by
  cases act <;> first | rfl | exact h.elim

/-- The writes to the tun, each with the bytes it took. -/
def injected (log : List Act) : List (List UInt8) := gather Act.injections log

def packets (frames : List Frame) : List (List UInt8) :=
  (frames.filter fun f => f.type == msgDataRsb).map Frame.payload

/-- The tun was given the packets `ps`, each in one write of its size, and the counters say so. -/
structure Delivered (ps : List (List UInt8)) (s s' : State) : Prop where
  writes : injected s'.log = injected s.log ++ ps
  inPackets : s'.inPackets = s.inPackets + UInt64.ofNat ps.length
  inBytes : s'.inBytes = s.inBytes + UInt64.ofNat (ps.map List.length).sum

/-- A write that goes on for the size of a header behind the packet. -/
def Overlong (packet bs : List UInt8) : Prop :=
  packet <+: bs ∧ bs.length = packet.length + sizeofMessage

/-- What becomes of the frames `words` between the states `s` and `s'`. -/
structure Forwarded (s : State) (words : List Frame) (s' : State) : Prop where
  tunFd : s'.tunFd = s.tunFd
  writes : ∃ bss, injected s'.log = injected s.log ++ bss ∧
    List.Forall₂ Overlong (packets words) bss
  inPackets : s'.inPackets = s.inPackets + UInt64.ofNat (packets words).length
  inBytes : s'.inBytes = s.inBytes +
    UInt64.ofNat ((packets words).map fun p => p.length + sizeofMessage).sum

/-- A frame `process_tun` or `process_heartbeat` writes to one client. -/
def Downstream (f : Frame) : Prop :=
  f.type = msgDataRsb ∧ 20 ≤ f.payload.length ∧ f.payload.length ≤ 65535 ∨ f = Server.keepalive

theorem Downstream.valid {f : Frame} (h : Downstream f) : f.Valid := by
  have hfive : sizeofMessage = 5 := rfl
  rcases h with ⟨_, _, hmax⟩ | rfl
  · change f.payload.length + sizeofMessage < 2 ^ 31
    omega
  · decide

theorem Downstream.longEnough {f : Frame} (h : Downstream f) : LongEnough f.message := by
  have hpos : 0 < f.message.length := Int.ofNat_lt.mpr (Nat.lt_of_lt_of_le (by decide) f.size_ge)
  rcases h with ⟨htype, _⟩ | rfl
  · exact .inr ⟨.inr htype, hpos⟩
  · exact .inr ⟨.inl rfl, hpos⟩

theorem packets_snoc_data (words : List Frame) {f : Frame} (h : f.type = msgDataRsb) :
    packets (words ++ [f]) = packets words ++ [f.payload] := by
  simp [packets, h]

theorem packets_snoc_other (words : List Frame) {f : Frame} (h : f.type ≠ msgDataRsb) :
    packets (words ++ [f]) = packets words := by
  simp [packets, h]

namespace Forwarded

variable {s₀ s t : State} {words : List Frame} {f : Frame} {env : SocketEnv}

theorem refl (s : State) : Forwarded s [] s :=
  ⟨rfl, ⟨[], (List.append_nil _).symm, .nil⟩, (UInt64.add_zero _).symm, (UInt64.add_zero _).symm⟩

/-- Only these fields count. -/
theorem congr {s' : State} (h : Forwarded s₀ words s) (htun : s'.tunFd = s.tunFd)
    (hlog : injected s'.log = injected s.log) (hpackets : s'.inPackets = s.inPackets)
    (hbytes : s'.inBytes = s.inBytes) : Forwarded s₀ words s' := by
  refine ⟨htun.trans h.tunFd, ?_, hpackets.trans h.inPackets, hbytes.trans h.inBytes⟩
  rw [hlog]
  exact h.writes

/-- The bytes handed to the tun for a packet. -/
theorem slice_overlong {more : List UInt8} (hs : s.Bounded) (hbytes : s.content = f.bytes ++ more) :
    Overlong f.payload (s.socketBuffer.load sizeofMessage f.message.length.toNat) := by
  have hsize : f.message.length.toNat = f.payload.length + sizeofMessage := rfl
  have hlen := hs.length
  rw [hbytes, List.length_append, Frame.bytes_length, Frame.size] at hlen
  have hpay := f.payload_of_bytes more
  rw [← hbytes, State.content, CellMemory.load_drop _ (by omega), Nat.zero_add, Frame.size,
    Nat.add_sub_cancel, CellMemory.load_take _ (by omega)] at hpay
  refine ⟨?_, by rw [CellMemory.load_length, hsize]⟩
  rw [hsize, CellMemory.load_add, hpay]
  exact List.prefix_append _ _

theorem injected_consumed (s : State) (msg : Message) :
    injected (s.consumed msg).log = injected s.log := List.append_nil _

/-- A packet is handed to the tun and counted. -/
theorem packet (h : Forwarded s₀ words s) {more : List UInt8} (hs : s.Bounded)
    (hbytes : s.content = f.bytes ++ more) (hvalid : f.Valid) (htype : f.type = msgDataRsb) :
    Forwarded s₀ (words ++ [f])
      ((s.handed f.message f.message.length).countIn f.message.length) := by
  obtain ⟨bss, hlog, hoverlong⟩ := h.writes
  have hpackets := packets_snoc_data words htype
  refine ⟨h.tunFd, ?_, ?_, ?_⟩
  · refine ⟨bss ++ [s.socketBuffer.load sizeofMessage f.message.length.toNat], ?_, ?_⟩
    · have hnew : injected ((s.handed f.message f.message.length).countIn f.message.length).log =
          injected s.log ++ [s.socketBuffer.load sizeofMessage f.message.length.toNat] := by
        simp [State.countIn, State.handed, State.note, injected, Act.injections]
      rw [hnew, hlog, List.append_assoc]
    · rw [hpackets]
      exact List.rel_append hoverlong (.cons (slice_overlong hs hbytes) .nil)
  · change s.inPackets + 1 = _
    rw [h.inPackets, hpackets, List.length_append, UInt64.ofNat_add, ← UInt64.add_assoc]
    rfl
  · change s.inBytes + UInt64.ofNat (sizeT 64 f.message.length) = _
    have hsize : sizeT 64 f.message.length = f.payload.length + sizeofMessage :=
      sizeT_of_range (Int.natCast_nonneg f.size) (Int.lt_trans (Int.ofNat_lt.mpr hvalid) (by decide))
    rw [h.inBytes, hpackets, hsize, List.map_append, List.sum_append, List.map_singleton,
      List.sum_singleton, UInt64.add_assoc]
    exact congrArg (s₀.inBytes + ·) (UInt64.ofNat_add _ _).symm

/-- A frame of another type leaves the tun alone. -/
theorem other (h : Forwarded s₀ words s) (htype : f.type ≠ msgDataRsb) (htun : t.tunFd = s.tunFd)
    (hlog : injected t.log = injected s.log) (hpackets : t.inPackets = s.inPackets)
    (hbytes : t.inBytes = s.inBytes) : Forwarded s₀ (words ++ [f]) t := by
  obtain ⟨htun, hwrites, hpackets, hbytes⟩ := h.congr htun hlog hpackets hbytes
  rw [← packets_snoc_other words htype] at hwrites hpackets hbytes
  exact ⟨htun, hwrites, hpackets, hbytes⟩

theorem pass (h : Forwarded s₀ words s) (htun : 0 ≤ s₀.tunFd) {more : List UInt8} (hs : s.Bounded)
    (hbytes : s.content = f.bytes ++ more) (hvalid : f.Valid)
    (hframe : Dispatch env f.message s (.next t)) :
    Forwarded s₀ (words ++ [f]) (t.consumed f.message) := by
  have ht : Forwarded s₀ (words ++ [f]) t := by
    cases hframe with
    | answered htype _ hlog =>
        have hother : f.type ≠ msgDataRsb := fun hdata => absurd (htype.symm.trans hdata) (by decide)
        obtain ⟨new, rfl, hnew⟩ := hlog
        refine h.other hother rfl ?_ rfl rfl
        have hnone : ∀ log, gather Act.injections (new ++ log) = gather Act.injections log := fun log =>
          gather_of_nil fun act hact => (hnew act hact).not_injected
        exact (hnone _).trans (by simp [State.note, injected, Act.injections])
    | heartbeat htype =>
        have hother : f.type ≠ msgDataRsb := fun hdata => absurd (htype.symm.trans hdata) (by decide)
        exact h.other hother rfl (List.append_nil _) rfl rfl
    | early _ hnone =>
        rw [h.tunFd] at hnone
        exact absurd htun (Int.not_le.mpr hnone)
    | injected htype => exact h.packet hs hbytes hvalid htype
  exact ht.congr rfl (injected_consumed t _) rfl rfl

end Forwarded

/-! ## A stream in pieces -/

/-- The calls of `handle_socket` that take in the pieces one after the other, with a tun that takes
every write in full. -/
inductive Receives : State → List (List UInt8) → State → Prop
  | done (s : State) : Receives s [] s
  | call {s t s' : State} {bs : List UInt8} {chunks : List (List UInt8)} {env : Nat → SocketEnv}
      {fuel : Nat} (hfits : bs.length ≤ s.room) (htun : ∀ k, TakesAll (env k).tun)
      (hcall : handleSocket (.bytes bs) env fuel s = .stopped t) (hrest : Receives t chunks s') :
      Receives s (bs :: chunks) s'

section Stream

variable {s₀ s s' : State} {frames words : List Frame} {got : List UInt8}

/-- No frame for a client with a tun ends the loop. -/
theorem Downstream.not_left {f : Frame} (hf : Downstream f) {env : SocketEnv}
    (hwrite : TakesAll env.tun) : ¬ Dispatch env f.message s (.stop s') := by
  intro hframe
  have hlen : f.message.length = f.size := rfl
  have htype : f.message.type = f.type := rfl
  rcases hf with ⟨hdata, _, hmax⟩ | rfl
  · rw [hdata] at htype
    cases hframe with
    | unanswered h₁ => exact absurd (htype.symm.trans h₁) (by decide)
    | refused _ _ hret =>
        have hfive : sizeofMessage = 5 := rfl
        have hcap : bufferSize = 4194304 := rfl
        have hsmall : f.size ≤ bufferSize := by
          rw [Frame.size]
          omega
        have hsize : sizeT 32 f.message.length = f.size :=
          sizeT_of_range (Int.natCast_nonneg f.size)
            (Int.lt_of_le_of_lt (Int.ofNat_le.mpr hsmall) (by decide))
        rw [hsize, writeTun, if_pos (by omega), hwrite f.size hsmall] at hret
        exact hret rfl
    | unknown _ _ h₃ => exact h₃ htype
  · cases hframe with
    | unanswered h₁ => exact absurd h₁ (by decide)
    | refused h₃ => exact absurd h₃ (by decide)
    | unknown _ h₂ => exact h₂ rfl

/-- The same under any assumption about what the calls meet outside. -/
inductive ReceivesWith (P : SocketEnv → Prop) : State → List (List UInt8) → State → Prop
  | done (s : State) : ReceivesWith P s [] s
  | call {s t s' : State} {bs : List UInt8} {chunks : List (List UInt8)} {env : Nat → SocketEnv}
      {fuel : Nat} (hfits : bs.length ≤ s.room) (henv : ∀ k, P (env k))
      (hcall : handleSocket (.bytes bs) env fuel s = .stopped t)
      (hrest : ReceivesWith P t chunks s') : ReceivesWith P s (bs :: chunks) s'

theorem Receives.receivesWith {chunks : List (List UInt8)} (h : Receives s chunks s') :
    ReceivesWith (fun env => TakesAll env.tun) s chunks s' := by
  induction h with
  | done s => exact .done s
  | call hfits htun hcall _ ih => exact .call hfits htun hcall ih

section With

variable {P : SocketEnv → Prop} (hvalid : ∀ f ∈ frames, f.Valid) (htun : 0 ≤ s₀.tunFd)
  (hleft : ∀ env, P env → ∀ f ∈ frames, ∀ s s', s.tunFd = s₀.tunFd →
    handleFrame env f.message s ≠ .stop s')

include hvalid htun hleft

/-- A call in the middle of the stream: the frames that are complete now are forwarded. -/
theorem handleSocket_forwards {env : Nat → SocketEnv} (henv : ∀ k, P (env k)) {fuel : Nat}
    {bs : List UInt8} (h : Decoded s₀ frames got words s) (hi : Forwarded s₀ words s)
    (hfits : bs.length ≤ s.room) (hgot : got ++ bs <+: frameCode.stream frames)
    (hcall : handleSocket (.bytes bs) env fuel s = .stopped s') :
    ∃ words', Decoded s₀ frames (got ++ bs) words' s' ∧ Forwarded s₀ words' s' ∧ s'.ret = 0 ∧
      ¬ s'.Complete := by
  refine handleSocket_decoded hvalid (Forwarded s₀) ?_ ?_ ?_ h hfits hgot
    (hi.congr rfl (List.append_nil _) rfl rfl) hcall
  · intro k words f more s t hi hs hbytes hf hframe
    exact hi.pass htun hs hbytes (hvalid f hf) hframe
  · intro k words f s hi hf
    exact hleft (env k) (henv k) f hf s s' hi.tunFd
  · intro words s hi
    exact hi.congr rfl rfl rfl rfl

theorem ReceivesWith.forwards {chunks : List (List UInt8)} (hreceives : ReceivesWith P s chunks s')
    (h : Decoded s₀ frames got words s) (hi : Forwarded s₀ words s) (hwait : ¬ s.Complete)
    (hgot : got ++ chunks.flatten <+: frameCode.stream frames) :
    ∃ words', Decoded s₀ frames (got ++ chunks.flatten) words' s' ∧ Forwarded s₀ words' s' ∧
      ¬ s'.Complete := by
  induction hreceives generalizing got words with
  | done s =>
      rw [List.flatten_nil, List.append_nil]
      exact ⟨words, h, hi, hwait⟩
  | @call s t s' bs chunks env fuel hfits henv hcall _ ih =>
      rw [List.flatten_cons, ← List.append_assoc] at hgot ⊢
      have hfirst := (List.prefix_append _ _).trans hgot
      obtain ⟨words₁, h₁, hi₁, _, hwait₁⟩ :=
        handleSocket_forwards hvalid htun hleft henv h hi hfits hfirst hcall
      exact ih h₁ hi₁ hwait₁ hgot

/-- All the frames are forwarded at the end of their stream. -/
theorem ReceivesWith.complete {chunks : List (List UInt8)} (hs : s₀.Bounded)
    (hempty : s₀.content = []) (hchunks : chunks.flatten = frameCode.stream frames)
    (hreceives : ReceivesWith P s₀ chunks s') : Forwarded s₀ frames s' := by
  have hwait : ¬ s₀.Complete := by
    rw [State.front_iff hs, hempty]
    decide
  obtain ⟨words, hdec, hforwarded, hwait'⟩ := hreceives.forwards hvalid htun hleft
    (.refl frames hs hempty) (.refl s₀) hwait (by rw [hchunks]; exact List.prefix_refl _)
  rw [List.nil_append, hchunks] at hdec
  have hsettled := hdec.settled hvalid (List.prefix_refl _) hwait'
  rwa [hsettled.complete] at hforwarded

end With

theorem Downstream.stays {f : Frame} (hf : Downstream f) {env : SocketEnv}
    (hwrite : TakesAll env.tun)
    (s s' : State) : handleFrame env f.message s ≠ .stop s' :=
  fun hframe => hf.not_left hwrite (.of_eq hframe)

theorem Receives.forwards (hframes : ∀ f ∈ frames, Downstream f) (htun : 0 ≤ s₀.tunFd)
    {chunks : List (List UInt8)} (hreceives : Receives s chunks s')
    (h : Decoded s₀ frames got words s) (hi : Forwarded s₀ words s) (hwait : ¬ s.Complete)
    (hgot : got ++ chunks.flatten <+: frameCode.stream frames) :
    ∃ words', Decoded s₀ frames (got ++ chunks.flatten) words' s' ∧ Forwarded s₀ words' s' ∧
      ¬ s'.Complete :=
  hreceives.receivesWith.forwards (fun f hf => (hframes f hf).valid) htun
    (fun _ hwrite f hf s s' _ => (hframes f hf).stays hwrite s s') h hi hwait hgot

/-- Writes that are too long give the tun exactly the packets only if there are none. -/
theorem Forwarded.exact_iff (h : Forwarded s₀ frames s) :
    injected s.log = injected s₀.log ++ packets frames ↔ packets frames = [] := by
  obtain ⟨bss, hlog, hoverlong⟩ := h.writes
  rw [hlog, List.append_cancel_left_eq]
  constructor
  · intro hsame
    subst hsame
    cases hlist : packets frames with
    | nil => rfl
    | cons p ps =>
        rw [hlist] at hoverlong
        cases hoverlong with
        | cons hfirst _ =>
            have hlen := hfirst.2
            have hfive : sizeofMessage = 5 := rfl
            omega
  · intro hnone
    rw [hnone] at hoverlong ⊢
    cases hoverlong with
    | nil => rfl

/-- Exactly nothing is delivered as it should be by writes that are too long. -/
theorem delivered_iff (h : Forwarded s₀ frames s) :
    Delivered (packets frames) s₀ s ↔ packets frames = [] := by
  constructor
  · exact fun hdelivered => h.exact_iff.mp hdelivered.writes
  · intro hnone
    refine ⟨h.exact_iff.mpr hnone, ?_, ?_⟩
    · exact h.inPackets
    · rw [h.inBytes, hnone]
      rfl

end Stream

end Over6.Client

namespace Over6

open BoundedLoop Server Client

/-- `process_tun` puts a packet on the connection as one frame, and `handle_socket` gets through any
pieces of a stream of such frames and keepalives; the tun is given exactly the packets, each in one
write of its size, with counters to match, if and only if there are none. -/
theorem downstream_round_trip_iff (fds : Client.Descriptors) (time₁ time₂ : Int)
    (stale : CellMemory UInt8) (es : List Client.Event) (s : Client.State)
    (hrun : Client.runFrom fds time₁ time₂ stale es = some s) (hempty : s.content = [])
    (htun : 0 ≤ s.tunFd) (frames : List Frame) (hframes : ∀ f ∈ frames, Downstream f)
    (chunks : List (List UInt8)) (hchunks : chunks.flatten = frameCode.stream frames) :
    (∀ fds es (s : Server.State), Server.runFrom fds es = some s → (s.bufs s.tunFd).used = 0 →
      ∀ packet, 20 ≤ packet.length → packet.length ≤ 65535 → ∀ i c,
        searchUserInfoByAddr s.users (destination packet) = some i →
        s.conn (s.users i).fd = some c → FramesPacket s c packet) ∧
    (∀ before bs after t, chunks = before ++ bs :: after → Receives s before t →
      bs.length ≤ t.room → ∀ env, ∃ fuel t', handleSocket (.bytes bs) env fuel t = .stopped t') ∧
    ∀ s', Receives s chunks s' → (Delivered (packets frames) s s' ↔ packets frames = []) := by
  have hs := runFrom_bounded hrun
  have hstart := Decoded.refl frames hs hempty
  have hwait : ¬ s.Complete := by
    rw [State.front_iff hs, hempty]
    decide
  refine ⟨?_, ?_, ?_⟩
  · intro fds es s hrun hempty packet hmin hmax i c hdest hc
    exact processTun_frames (.runFrom hrun) hempty hmin (Nat.le_trans hmax (by decide)) hdest hc
  · intro before bs after t hsplit hbefore hfits env
    have hpre : before.flatten ++ bs <+: frameCode.stream frames := by
      rw [← hchunks, hsplit, List.flatten_append, List.flatten_cons, ← List.append_assoc]
      exact List.prefix_append _ _
    obtain ⟨words, hdec, _, _⟩ := hbefore.forwards hframes htun hstart (.refl s) hwait
      ((List.prefix_append _ _).trans hpre)
    exact hdec.returns (fun f hf => (hframes f hf).valid) (fun f hf => (hframes f hf).longEnough)
      hfits hpre env
  · intro s' hreceives
    exact delivered_iff (hreceives.receivesWith.complete (fun f hf => (hframes f hf).valid) htun
      (fun _ hwrite f hf s s' _ => (hframes f hf).stays hwrite s s') hs hempty hchunks)

def packetAndKeepalive : List Frame := [⟨msgDataRsb, packetToTwo⟩, keepalive]

theorem downstream_round_trip_iff_packetAndKeepalive :
    (∃ s, Server.runFrom .usual [.server (some (7, true)),
      .client 7 (.bytes [5, 0, 0, 0, 100]) (.prompt 0) true 9] = some s ∧
        FramesPacket s 0 packetToTwo) ∧
    ∃ s s', Client.runFrom .usual 0 0 (fun _ => 0) tunnelUp = some s ∧
      Receives s [frameCode.stream packetAndKeepalive] s' ∧
      (Delivered (packets packetAndKeepalive) s s' ↔ packets packetAndKeepalive = []) := by
  have hany : ((Client.runFrom .usual 0 0 (fun _ => 0) tunnelUp).any fun s =>
      decide (s.content = [] ∧ 0 ≤ s.tunFd ∧
        (frameCode.stream packetAndKeepalive).length ≤ s.room)) = true := by decide +kernel
  obtain ⟨s, hrun, hs⟩ := (Option.any_eq_true _ _).mp hany
  obtain ⟨hempty, htun, hfits⟩ := of_decide_eq_true hs
  have hframes : ∀ f ∈ packetAndKeepalive, Downstream f := by
    intro f hf
    rcases List.mem_cons.mp hf with rfl | hf
    · exact .inl ⟨rfl, by decide, by decide⟩
    · exact .inr (List.mem_singleton.mp hf)
  obtain ⟨hserver, hreturns, hdelivers⟩ := downstream_round_trip_iff .usual 0 0 (fun _ => 0) tunnelUp
    s hrun hempty htun packetAndKeepalive hframes [frameCode.stream packetAndKeepalive] (by simp)
  constructor
  · have hany : ((Server.runFrom .usual [.server (some (7, true)),
        .client 7 (.bytes [5, 0, 0, 0, 100]) (.prompt 0) true 9]).any fun s =>
          decide ((s.bufs s.tunFd).used = 0 ∧
            searchUserInfoByAddr s.users (destination packetToTwo) = some 2 ∧
            s.conn (s.users 2).fd = some 0)) = true := by decide +kernel
    obtain ⟨s, hrun, hs⟩ := (Option.any_eq_true _ _).mp hany
    obtain ⟨hempty, hdest, hc⟩ := of_decide_eq_true hs
    exact ⟨s, hrun, hserver .usual _ s hrun hempty packetToTwo (by decide) (by decide) 2 0 hdest hc⟩
  · obtain ⟨fuel, s', hcall⟩ := hreturns [] _ [] s rfl (.done s) hfits (.prompt 0)
    have hreceives : Receives s [frameCode.stream packetAndKeepalive] s' :=
      .call hfits (fun _ => writesAll_takesAll) hcall (.done s')
    exact ⟨s, s', hrun, hreceives, hdelivers s' hreceives⟩

/-- A packet of 20 bytes comes out as one of 25. -/
theorem packet_comes_out_long :
    ∃ s s', Client.runFrom .usual 0 0 (fun _ => 0) tunnelUp = some s ∧
      Receives s [frameCode.stream [⟨msgDataRsb, packetToTwo⟩]] s' ∧
      ¬ Delivered [packetToTwo] s s' := by
  have hany : ((Client.runFrom .usual 0 0 (fun _ => 0) tunnelUp).any fun s =>
      decide ((frameCode.stream [⟨msgDataRsb, packetToTwo⟩]).length ≤ s.room) &&
        (handleSocket (.bytes (frameCode.stream [⟨msgDataRsb, packetToTwo⟩])) (.prompt 0) 2
          s).returned.any fun s' =>
            decide (injected s'.log ≠ injected s.log ++ [packetToTwo])) = true := by
    decide +kernel
  obtain ⟨s, hrun, hs⟩ := (Option.any_eq_true _ _).mp hany
  obtain ⟨hfits, hcall⟩ := Bool.and_eq_true_iff.mp hs
  obtain ⟨s', hreturned, hlong⟩ := (Option.any_eq_true _ _).mp hcall
  refine ⟨s, s', hrun, .call (of_decide_eq_true hfits) (fun _ => writesAll_takesAll)
    (Outcome.returned_eq_some.mp hreturned) (.done s'), fun h => ?_⟩
  exact of_decide_eq_true hlong h.writes

end Over6
