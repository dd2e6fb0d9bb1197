import Mathlib.Data.List.TakeWhile
import Over6.Client.Decoder

/-! # The frames a client takes in

Which frames `handle_socket` comes to does not depend on how `recv` cuts their
stream up: those that have come in whole, up to the first of an unknown type.
-/

namespace Over6.Client

open MachineInt BoundedLoop EventRun Journal

def known (f : Frame) : Bool := f.type = msgIpRsb ∨ f.type = msgHeartbeat ∨ f.type = msgDataRsb

/-- The frames of `sent` that lie whole in its first `n` bytes, up to the first of an unknown type. -/
def accepted (sent : List Frame) (n : Nat) : List Frame := (frameCode.whole sent n).takeWhile known

def EmptyReply (f : Frame) : Prop := f.type = msgIpRsb ∧ f.payload = []

instance (f : Frame) : Decidable (EmptyReply f) := inferInstanceAs (Decidable (_ ∧ _))

/-- The packets among the frames that a call has met, if it had a tun for them. -/
def tunPackets (s s' : State) : Nat :=
  if 0 ≤ s.tunFd then
    ((dispatched s'.log).drop (dispatched s.log).length).countP fun msg => msg.type = msgDataRsb
  else 0

/-- What a call of `handle_socket` leaves behind that has cut the stream of `sent` at its frames:
`packets` of them were handed to the tun. -/
structure CutAtFrames (sent : List Frame) (packets : Nat) (s : State) : Prop where
  met : dispatched s.log = (accepted sent (received s.log).length).map Frame.message
  rest : received s.log =
    frameCode.stream (accepted sent (received s.log).length) ++ s.content
  refused : s.ret = -1 ↔
    ∃ f more, sent.find? (fun f => !known f) = some f ∧ s.content = f.bytes ++ more
  waiting : s.ret ≠ -1 → s.ret = 0 ∧ s.inPackets = UInt64.ofNat packets ∧
    ∀ f tail, sent = accepted sent (received s.log).length ++ f :: tail → s.content.length < f.size

/-! ## The frames in a beginning of the stream -/

theorem known_iff {f : Frame} :
    known f = true ↔ f.type = msgIpRsb ∨ f.type = msgHeartbeat ∨ f.type = msgDataRsb :=
  decide_eq_true_iff

theorem longEnough_iff {f : Frame} (h : known f = true) : LongEnough f.message ↔ ¬ EmptyReply f := by
  have hsize : f.message.length = f.payload.length + sizeofMessage := Int.natCast_add _ _
  have hfive : (sizeofMessage : Int) = 5 := rfl
  have htype : f.message.type = f.type := rfl
  have hempty : f.payload = [] ↔ f.payload.length = 0 := List.length_eq_zero_iff.symm
  rw [known_iff] at h
  unfold LongEnough EmptyReply
  rw [htype, hempty]
  constructor
  · rintro (⟨_, hlong⟩ | ⟨hother, _⟩) ⟨hreply, hnil⟩
    · omega
    · rw [hreply] at hother
      exact absurd hother (by decide)
  · intro hgood
    rcases h with h | h
    · have hsome : f.payload.length ≠ 0 := fun hnil => hgood ⟨h, hnil⟩
      exact .inl ⟨h, by omega⟩
    · exact .inr ⟨h, by omega⟩

theorem refused_iff {tun : Bool} {f : Frame} : Refused tun f.message ↔ ¬ known f = true := by
  have hsize : f.message.length = f.payload.length + sizeofMessage := Int.natCast_add _ _
  have htype : f.message.type = f.type := rfl
  rw [known_iff, not_or, not_or]
  unfold Refused
  rw [htype]
  constructor
  · rintro (h | ⟨_, _, hneg⟩)
    · exact h
    · omega
  · exact .inl

/-- By its header, the first frame of a stream is incomplete while some of it is still to come. -/
theorem front_short_iff {f : Frame} {frames : List Frame} (hf : f.Valid) {bytes : List UInt8}
    (h : bytes <+: frameCode.stream (f :: frames)) :
    (bytes.length < sizeofMessage ∨ (bytes.length : Int) < (Message.ofBytes bytes).length) ↔
      bytes.length < f.size := by
  have hge := f.size_ge
  by_cases hhead : bytes.length < sizeofMessage
  · simp only [hhead, true_or, true_iff]
    omega
  · have hmsg := ofBytes_of_prefix hf h (Nat.le_of_not_lt hhead)
    have hsize : f.message.length = f.size := rfl
    rw [Message.ofBytes_take] at hmsg
    rw [hmsg, hsize]
    omega

/-- The loop gets through a beginning of a stream that has no empty IP reply. -/
theorem drains_iff (tun : Bool) {frames : List Frame} (hvalid : ∀ f ∈ frames, f.Valid)
    {bytes : List UInt8} (h : bytes <+: frameCode.stream frames) :
    drains tun bytes = true ↔ ∀ f ∈ accepted frames bytes.length, ¬ EmptyReply f := by
  induction frames generalizing bytes with
  | nil =>
      rw [List.prefix_nil.mp h]
      unfold drains
      rw [dif_pos (.inl (by decide))]
      simp [accepted, PrefixCode.whole]
  | cons f frames ih =>
      have hlen : (frameCode.encode f).length = f.size := Frame.bytes_length f
      have hf := hvalid f List.mem_cons_self
      have hfront := front_short_iff hf h
      unfold drains
      by_cases hshort : bytes.length < f.size
      · rw [dif_pos (hfront.mpr hshort), accepted, PrefixCode.whole, hlen,
          if_neg (Nat.not_le.mpr hshort)]
        simp
      · have hge := f.size_ge
        have hmsg := ofBytes_of_prefix hf h (by omega)
        rw [Message.ofBytes_take] at hmsg
        rw [dif_neg (hfront.not.mpr hshort), hmsg, accepted, PrefixCode.whole, hlen]
        rw [if_pos (show f.size ≤ bytes.length from Nat.le_of_not_lt hshort)]
        by_cases hknown : known f = true
        · have hgoes : ¬ Refused tun f.message := by
            rw [refused_iff]
            exact not_not.mpr hknown
          rw [if_neg hgoes, List.takeWhile_cons_of_pos hknown, List.forall_mem_cons]
          by_cases hreply : EmptyReply f
          · rw [dif_neg (by rw [longEnough_iff hknown]; exact not_not.mpr hreply)]
            simp [hreply]
          · obtain ⟨more, hmore, hrest⟩ := frameCode.first_of_long h (by omega)
            have hdrop : bytes.drop f.message.length.toNat = more := by
              rw [hmore]
              exact List.drop_left' hlen
            have hless : bytes.length - f.size = more.length := by
              rw [hmore, List.length_append, hlen, Nat.add_sub_cancel_left]
            have htail := ih (fun g hg => hvalid g (List.mem_cons_of_mem f hg)) hrest
            rw [dif_pos ((longEnough_iff hknown).mpr hreply), hdrop, hless, htail, accepted]
            simp [hreply]
        · rw [if_pos (refused_iff.mpr hknown), List.takeWhile_cons_of_neg hknown]
          simp

/-- Frames that were all taken out begin the accepted ones. -/
theorem accepted_append {words : List Frame} (hknown : ∀ f ∈ words, known f = true)
    (tail : List Frame) (n : Nat) :
    accepted (words ++ tail) ((frameCode.stream words).length + n) = words ++ accepted tail n := by
  rw [accepted, PrefixCode.whole_append, List.takeWhile_append_of_pos hknown, accepted]

/-! ## What a call counts -/

def Fine (f : Frame) : Prop := known f = true ∧ ¬ EmptyReply f

theorem Dispatch.fine {env : SocketEnv} {f : Frame} {s t : State} (hsize : f.size ≤ bufferSize)
    (h : Dispatch env f.message s (.next t)) : Fine f := by
  have hcap : bufferSize = 4194304 := rfl
  have hlen : f.message.length = f.size := rfl
  rw [Fine, known_iff]
  cases h with
  | answered htype hgood =>
      refine ⟨.inl htype, fun hempty => hgood ?_⟩
      have hnil : f.size = sizeofMessage := by rw [Frame.size, hempty.2]; rfl
      rw [badReply_iff (by omega) (by omega)]
      omega
  | heartbeat htype =>
      refine ⟨.inr (.inl htype), fun hempty => ?_⟩
      exact absurd (htype.symm.trans hempty.1) (by decide)
  | early htype =>
      refine ⟨.inr (.inr htype), fun hempty => ?_⟩
      exact absurd (htype.symm.trans hempty.1) (by decide)
  | injected htype =>
      refine ⟨.inr (.inr htype), fun hempty => ?_⟩
      exact absurd (htype.symm.trans hempty.1) (by decide)

/-- The packets among `frames` for a tun that may be missing. -/
def packetsFor (tun : Bool) (frames : List Frame) : Nat :=
  if tun then frames.countP fun f => f.type = msgDataRsb else 0

theorem Dispatch.counted {env : SocketEnv} {f : Frame} {s t : State}
    (h : Dispatch env f.message s (.next t)) :
    t.inPackets = s.inPackets + UInt64.ofNat (packetsFor s.hasTun [f]) := by
  have hnone : f.type ≠ msgDataRsb → s.inPackets =
      s.inPackets + UInt64.ofNat (packetsFor s.hasTun [f]) := by
    intro hother
    simp [packetsFor, hother]
  cases h with
  | answered htype _ hlog =>
      obtain ⟨new, rfl, _⟩ := hlog
      exact hnone fun hdata => absurd (htype.symm.trans hdata) (by decide)
  | heartbeat htype => exact hnone fun hdata => absurd (htype.symm.trans hdata) (by decide)
  | early _ htun =>
      have hno : s.hasTun = false := decide_eq_false (Int.not_le.mpr htun)
      simp [State.note, packetsFor, hno]
  | injected htype htun =>
      have hyes : s.hasTun = true := decide_eq_true htun
      have hdata : f.type = msgDataRsb := htype
      simp [State.countIn, State.handed, State.note, packetsFor, hyes, hdata]

/-- From `s` with the frames `words` to `t` with the frames `words'`. -/
structure TakenIn (s : State) (words words' : List Frame) (t : State) : Prop where
  fine : ∀ f ∈ words', Fine f
  hasTun : t.hasTun = s.hasTun
  counted : ∃ new, words' = words ++ new ∧
    t.inPackets = s.inPackets + UInt64.ofNat (packetsFor s.hasTun new)

namespace TakenIn

variable {s t u : State} {words words' : List Frame}

theorem passed {env : SocketEnv} {f : Frame} (h : TakenIn s words words' u)
    (hsize : f.size ≤ bufferSize) (hframe : Dispatch env f.message u (.next t)) :
    TakenIn s words (words' ++ [f]) (t.consumed f.message) := by
  obtain ⟨new, rfl, hcount⟩ := h.counted
  have hkept : Kept u t := hframe.kept
  refine ⟨?_, ?_, new ++ [f], List.append_assoc .., ?_⟩
  · intro g hg
    rcases List.mem_append.mp hg with hg | hg
    · exact h.fine g hg
    · rw [List.mem_singleton.mp hg]
      exact hframe.fine hsize
  · rw [← h.hasTun]
    change decide (0 ≤ t.tunFd) = decide (0 ≤ u.tunFd)
    rw [hkept.tunFd]
  · have hsum : packetsFor s.hasTun (new ++ [f]) =
        packetsFor s.hasTun new + packetsFor s.hasTun [f] := by
      unfold packetsFor
      split
      · exact List.countP_append
      · rfl
    have hlast := hframe.counted
    rw [hcount, h.hasTun, UInt64.add_assoc, ← UInt64.ofNat_add, ← hsum] at hlast
    exact hlast

end TakenIn

/-! ## A call of `handle_socket` -/

theorem valid_of_size {f : Frame} (hsize : f.size ≤ bufferSize) : f.Valid := by
  have hcap : bufferSize = 4194304 := rfl
  show f.size < 2 ^ 31
  omega

theorem valid_of_sizes {sent : List Frame} (hsizes : ∀ f ∈ sent, f.size ≤ bufferSize) :
    ∀ f ∈ sent, f.Valid :=
  fun f hf => valid_of_size (hsizes f hf)

section Calls

variable {start s s' t : State} {sent words words' : List Frame} {got : List UInt8}
  {sent' : List Frame} {got' : List UInt8}

theorem find?_unknown {f : Frame} {tail : List Frame} (hfine : ∀ g ∈ words, Fine g)
    (hunknown : ¬ known f = true) :
    (words ++ f :: tail).find? (fun f => !known f) = some f := by
  have hskip : words.find? (fun f => !known f) = none := by
    simp only [List.find?_eq_none, Bool.not_eq_true', Bool.not_eq_false]
    exact fun g hg => (hfine g hg).1
  rw [List.find?_append, hskip, Option.none_or, List.find?_cons_of_pos (by simpa using hunknown)]

/-- The accepted frames of a decoder that waits. -/
theorem accepted_of_settled (hfine : ∀ g ∈ words, Fine g)
    (h : frameCode.Settled sent got words) : accepted sent got.length = words := by
  rw [accepted, ← h.eq_whole, List.takeWhile_eq_self_iff]
  exact fun g hg => (hfine g hg).1

/-- The accepted frames of a decoder that has come to a frame of an unknown type. -/
theorem accepted_of_unknown {f : Frame} {tail : List Frame} {more : List UInt8}
    (hfine : ∀ g ∈ words, Fine g) (hunknown : ¬ known f = true) :
    accepted (words ++ f :: tail) (frameCode.stream words ++ (f.bytes ++ more)).length = words := by
  have hnone : accepted (f :: tail) (f.bytes ++ more).length = [] := by
    rw [accepted, PrefixCode.whole]
    split
    · exact List.takeWhile_cons_of_neg hunknown
    · rfl
  rw [List.length_append, accepted_append (fun g hg => (hfine g hg).1), hnone, List.append_nil]

/-- No frame lies whole in what a settled decoder holds. -/
theorem not_front_of_settled (hvalid : ∀ f ∈ sent, f.Valid) {held : List UInt8}
    (hgot : got = frameCode.stream words ++ held)
    (h : frameCode.Settled sent got words) {f : Frame} {more : List UInt8}
    (hfind : sent.find? (fun f => !known f) = some f) : held ≠ f.bytes ++ more := by
  obtain ⟨tail, rest, rfl, hsplit, hpending⟩ := h
  obtain rfl := List.append_cancel_left (hgot.symm.trans hsplit)
  rintro rfl
  cases tail with
  | nil =>
      have hnil : f.bytes = [] := (List.append_eq_nil_iff.mp hpending).1
      exact frameCode.nonempty f hnil
  | cons g tail =>
      obtain ⟨y, hy⟩ := hpending.1
      have hg : g.Valid := hvalid g (by simp)
      have hf : f.Valid := hvalid f (List.mem_of_find?_eq_some hfind)
      have heq : f = g := by
        refine Frame.bytes_separated f g (more ++ y) [] hf hg ?_
        rw [← List.append_assoc, List.append_nil]
        exact hy
      have hlt := hpending.length_lt
      rw [heq, frameCode_encode, List.length_append] at hlt
      omega

/-- A frame that ends a call in which every write goes through has no branch. -/
theorem unknown_of_stop {f : Frame} {env : SocketEnv} (henv : env.Obliging)
    (hsize : f.size ≤ bufferSize) (h : handleFrame env f.message s = .stop s') :
    ¬ known f = true := by
  have hlen : f.message.length = f.size := rfl
  have hcap : bufferSize = 4194304 := rfl
  intro hknown
  have hgoes : ¬ Refused s.hasTun f.message := by
    rw [refused_iff]
    exact not_not.mpr hknown
  rcases handleFrame_of_obliging henv (by omega) (by omega) hgoes with ⟨u, hu⟩ | ⟨htype, hshort⟩
  · rw [hu] at h
    cases h
  · rw [handleFrame_of_crash env s htype ((badReply_iff (by omega) (by omega)).mpr hshort)] at h
    cases h

theorem tunPackets_eq {new : List Frame} (h : Decoded start sent got words s)
    (h' : Decoded start sent' got' (words ++ new) s') :
    tunPackets s s' = packetsFor s.hasTun new := by
  have hdrop : (dispatched s'.log).drop (dispatched s.log).length = new.map Frame.message := by
    rw [h.met, h'.met, List.map_append, ← List.append_assoc, List.drop_left]
  rw [tunPackets, hdrop, List.countP_map]
  by_cases htun : 0 ≤ s.tunFd
  · rw [if_pos htun, packetsFor, if_pos (show s.hasTun = true from decide_eq_true htun)]
    rfl
  · rw [if_neg htun, packetsFor, if_neg (by simpa [State.hasTun] using htun)]

/-- The loop was left for want of a complete frame. -/
theorem cutAtFrames_of_wait (hvalid : ∀ f ∈ sent, f.Valid) {packets : Nat}
    (h : Decoded start sent got words t) (hgot : got <+: frameCode.stream sent)
    (hstart : received start.log = [] ∧ dispatched start.log = []) (hfine : ∀ f ∈ words, Fine f)
    (hcount : t.inPackets = UInt64.ofNat packets) (hwait : ¬ t.Complete) :
    CutAtFrames sent packets { t with ret := 0 } := by
  have hread : received t.log = got := by rw [h.read, hstart.1, List.nil_append]
  have hsettled := h.settled hvalid hgot hwait
  have haccepted := accepted_of_settled hfine hsettled
  refine ⟨?_, ?_, ?_, ?_⟩
  · change dispatched t.log = (accepted sent (received t.log).length).map _
    rw [hread, haccepted, h.met, hstart.2, List.nil_append]
  · change received t.log = frameCode.stream (accepted sent (received t.log).length) ++ t.content
    rw [hread, haccepted]
    exact h.held.2
  · constructor
    · intro hret
      exact absurd hret (show (0 : Int) ≠ -1 by decide)
    · rintro ⟨f, more, hfind, hcontent⟩
      exact absurd hcontent (not_front_of_settled hvalid h.held.2 hsettled hfind)
  · refine fun _ => ⟨rfl, hcount, fun f tail hsplit => ?_⟩
    change sent = accepted sent (received t.log).length ++ f :: tail at hsplit
    rw [hread, haccepted] at hsplit
    obtain ⟨tail', rest, hsent, hrest, hpending⟩ := hsettled
    obtain rfl := List.append_cancel_left (hsplit.symm.trans hsent)
    obtain rfl := List.append_cancel_left (hrest.symm.trans h.held.2)
    have hlt := hpending.length_lt
    rwa [frameCode_encode, Frame.bytes_length] at hlt

/-- The loop was left on a frame without a branch. -/
theorem cutAtFrames_of_unknown (packets : Nat) {f : Frame} {tail : List Frame} {more : List UInt8}
    (h : Decoded start sent got words t)
    (hstart : received start.log = [] ∧ dispatched start.log = []) (hfine : ∀ f ∈ words, Fine f)
    (hsplit : sent = words ++ f :: tail) (hbytes : t.content = f.bytes ++ more)
    (hunknown : ¬ known f = true) :
    CutAtFrames sent packets (t.fail .unknownType) ∧ accepted sent got.length = words := by
  have hread : received (t.fail .unknownType).log = got := by
    have hlog : received (t.fail .unknownType).log = received t.log := List.append_nil _
    rw [hlog, h.read, hstart.1, List.nil_append]
  have hmet : dispatched (t.fail .unknownType).log = dispatched t.log := List.append_nil _
  have haccepted : accepted sent got.length = words := by
    rw [hsplit, h.held.2, hbytes]
    exact accepted_of_unknown hfine hunknown
  refine ⟨⟨?_, ?_, ?_, ?_⟩, haccepted⟩
  · rw [hmet, hread, haccepted, h.met, hstart.2, List.nil_append]
  · rw [hread, haccepted]
    exact h.held.2
  · refine ⟨fun _ => ⟨f, more, ?_, hbytes⟩, fun _ => rfl⟩
    rw [hsplit]
    exact find?_unknown hfine hunknown
  · exact fun hret => absurd rfl hret

/-- A call in which every write goes through, if it returns, has cut the stream at its frames. -/
theorem handleSocket_cuts (hsizes : ∀ f ∈ sent, f.size ≤ bufferSize) {env : Nat → SocketEnv}
    (henv : ∀ k, (env k).Obliging) {fuel : Nat} {bs : List UInt8} {packets : Nat}
    (h : Decoded start sent got words s)
    (hstart : received start.log = [] ∧ dispatched start.log = []) (hfine : ∀ f ∈ words, Fine f)
    (hcount : s.inPackets = UInt64.ofNat packets) (hfits : bs.length ≤ s.room)
    (hgot : got ++ bs <+: frameCode.stream sent)
    (hcall : handleSocket (.bytes bs) env fuel s = .stopped s') :
    CutAtFrames sent (packets + tunPackets s s') s' ∧
      ∀ f ∈ accepted sent (got ++ bs).length, ¬ EmptyReply f := by
  have hvalid := valid_of_sizes hsizes
  rw [handleSocket_of_bounded h.bounded hfits] at hcall
  have hstate : TakenIn s words words (receive bs s) :=
    ⟨hfine, rfl, [], (List.append_nil _).symm, by simp [packetsFor, receive]⟩
  obtain ⟨words', t, hdec, htaken, hend⟩ := parseLoop_last hvalid (TakenIn s words)
    (fun _ _ f _ _ _ hu _ _ hf hframe => hu.passed (hsizes f hf) (.of_eq hframe))
    (h.receive hfits) hgot hstate hcall
  rcases hend with ⟨hwait, rfl⟩ | ⟨j, f, tail, more, hsplit, hbytes, hframe⟩
  · have haccepted := accepted_of_settled htaken.fine (hdec.settled hvalid hgot hwait)
    have hnumber : t.inPackets = UInt64.ofNat (packets + tunPackets s { t with ret := 0 }) := by
      obtain ⟨new, rfl, hnew⟩ := htaken.counted
      have hdec' : Decoded start sent (got ++ bs) (words ++ new) { t with ret := 0 } :=
        ⟨hdec.bounded, hdec.read, hdec.held, hdec.met⟩
      rw [UInt64.ofNat_add, ← hcount, tunPackets_eq h hdec']
      exact hnew
    refine ⟨cutAtFrames_of_wait hvalid hdec hgot hstart htaken.fine hnumber hwait, ?_⟩
    rw [haccepted]
    exact fun f hf => (htaken.fine f hf).2
  · have hunknown := unknown_of_stop (henv j) (hsizes f (by simp [hsplit])) hframe
    have hlast : s' = t.fail .unknownType := by
      have hdispatch := Dispatch.of_eq hframe
      rw [known_iff, not_or, not_or] at hunknown
      cases hdispatch with
      | unanswered htype => exact absurd htype hunknown.1
      | refused htype => exact absurd htype hunknown.2.2
      | unknown => rfl
    obtain ⟨hcut, haccepted⟩ :=
      cutAtFrames_of_unknown (packets + tunPackets s s') hdec hstart htaken.fine
        hsplit hbytes hunknown
    rw [hlast] at hcut ⊢
    refine ⟨hcut, ?_⟩
    rw [haccepted]
    exact fun f hf => (htaken.fine f hf).2

/-- A call that returns zero keeps the account, whatever the writes answer. -/
theorem handleSocket_counts (hsizes : ∀ f ∈ sent, f.size ≤ bufferSize) {env : Nat → SocketEnv}
    {fuel : Nat} {bs : List UInt8} {packets : Nat} (h : Decoded start sent got words s)
    (hfine : ∀ f ∈ words, Fine f) (hcount : s.inPackets = UInt64.ofNat packets)
    (hfits : bs.length ≤ s.room) (hgot : got ++ bs <+: frameCode.stream sent)
    (hcall : handleSocket (.bytes bs) env fuel s = .stopped s') (hret : s'.ret = 0) :
    ∃ words', Decoded start sent (got ++ bs) words' s' ∧ (∀ f ∈ words', Fine f) ∧
      s'.inPackets = UInt64.ofNat (packets + tunPackets s s') := by
  have hstate : TakenIn s words words (receive bs s) :=
    ⟨hfine, rfl, [], (List.append_nil _).symm, by simp [packetsFor, receive]⟩
  have hends : ∃ words', Decoded start sent (got ++ bs) words' s' ∧ TakenIn s words words' s' ∧
      s'.ret = 0 ∧ ¬ s'.Complete := by
    refine handleSocket_decoded (valid_of_sizes hsizes) (TakenIn s words) ?_ ?_ ?_ h hfits hgot
      hstate hcall
    · exact fun _ _ f _ _ _ hu _ _ hf hframe => hu.passed (hsizes f hf) hframe
    · intro k words' f u _ _ hframe
      rw [(Dispatch.of_eq hframe).ret_of_stop] at hret
      exact absurd hret (by decide)
    · exact fun words' u hu => ⟨hu.fine, hu.hasTun, hu.counted⟩
  obtain ⟨words', hdec, htaken, _⟩ := hends
  obtain ⟨new, rfl, hnew⟩ := htaken.counted
  refine ⟨words ++ new, hdec, htaken.fine, ?_⟩
  rw [UInt64.ofNat_add, ← hcount, tunPackets_eq h hdec]
  exact hnew

end Calls

/-! ## The other handlers -/

section Others

variable {s s' : State}

theorem Commanded.inPackets (h : Commanded s s') : s'.inPackets = s.inPackets := by
  obtain ⟨_, _, _, rfl⟩ := h
  rfl

theorem handleTunnel_inPackets (r : ReadResult) (write₁ write₂ : WriteResult) (s : State) :
    (handleTunnel r write₁ write₂ s).inPackets = s.inPackets := by
  have huplink := handleTunnel_uplink r write₁ write₂ s
  generalize handleTunnel r write₁ write₂ s = t at huplink ⊢
  cases huplink <;> rfl

theorem Beat.inPackets {now : Int} (h : Beat now s s') : s'.inPackets = s.inPackets := by
  cases h <;> rfl

/-- Only `handle_socket` counts packets in or meets a frame. -/
theorem Call.aside {e : Event} (h : Call s e s') :
    (∃ r env fuel, e = .socket r env fuel) ∨ Aside s s' ∧ s'.inPackets = s.inPackets := by
  cases h with
  | heartbeat now write =>
      exact .inr ⟨handleHeartbeat_aside now write s, (handleHeartbeat_beat now write s).inPackets⟩
  | command env fuel h => exact .inr ⟨handleCommand_aside h, (handleCommand_commanded h).inPackets⟩
  | socket r env fuel => exact .inl ⟨r, env, fuel, rfl⟩
  | tunnel r write₁ write₂ =>
      exact .inr ⟨handleTunnel_aside r write₁ write₂ s, handleTunnel_inPackets r write₁ write₂ s⟩

theorem tunPackets_of_same (h : dispatched s'.log = dispatched s.log) : tunPackets s s' = 0 := by
  rw [tunPackets, h, List.drop_length]
  simp

end Others

/-! ## Runs -/

def packetsIn (s : State) (es : List Event) : Nat := tally step tunPackets s es

/-- The client is at work on `sent` and has counted `packets` of its frames. -/
def AtWork (start : State) (sent : List Frame) (packets : Nat) (s : State) : Prop :=
  ∃ words, Decoded start sent (received s.log) words s ∧ (∀ f ∈ words, Fine f) ∧
    s.inPackets = UInt64.ofNat packets

section Runs

variable {start s s' : State} {sent : List Frame} {packets : Nat} {e : Event}

theorem step_received (hs : s.Bounded) (h : step s e = some s') :
    received s.log <+: received s'.log := by
  have hcall := step_call h
  rcases hcall.aside with ⟨r, env, fuel, rfl⟩ | ⟨haside, _⟩
  · cases hcall with
    | socket _ _ _ hfits hcall =>
        cases r with
        | error =>
            obtain rfl := Outcome.stopped.inj hcall
            exact List.prefix_append _ _
        | bytes bs => exact (List.prefix_append _ _).trans (handleSocket_received hs hfits hcall)
  · rw [haside.received_eq.1]

theorem AtWork.step (hsizes : ∀ f ∈ sent, f.size ≤ bufferSize) (hstart : received start.log = [])
    (h : AtWork start sent packets s) (hstep : step s e = some s') (hret : s'.ret = 0)
    (hgot : received s'.log <+: frameCode.stream sent) :
    AtWork start sent (packets + tunPackets s s') s' := by
  obtain ⟨words, hdec, hfine, hcount⟩ := h
  have hcall := step_call hstep
  rcases hcall.aside with ⟨r, env, fuel, rfl⟩ | ⟨haside, hsame⟩
  · cases hcall with
    | socket _ _ _ hfits hcall =>
        cases r with
        | error =>
            obtain rfl := Outcome.stopped.inj hcall
            exact absurd hret (show (-1 : Int) ≠ 0 by decide)
        | bytes bs =>
            have hlater := handleSocket_received hdec.bounded hfits hcall
            obtain ⟨words', hdec', hfine', hcount'⟩ := handleSocket_counts hsizes hdec hfine hcount
              hfits (hlater.trans hgot) hcall hret
            have hread : received s'.log = received s.log ++ bs := by
              rw [hdec'.read, hstart, List.nil_append]
            exact ⟨words', hread ▸ hdec', hfine', hcount'⟩
  · obtain ⟨hreceived, hmet⟩ := haside.received_eq
    refine ⟨words, hreceived ▸ hdec.of_aside haside, hfine, ?_⟩
    rw [hsame, hcount, tunPackets_of_same hmet, Nat.add_zero]

theorem runFrom_atWork {fds : Descriptors} {time₁ time₂ : Int} {stale : CellMemory UInt8}
    {es : List Event} (hsizes : ∀ f ∈ sent, f.size ≤ bufferSize)
    (hrun : runFrom fds time₁ time₂ stale es = some s) (hret : s.ret = 0)
    (hgot : received s.log <+: frameCode.stream sent) :
    AtWork (protocolInit fds time₁ time₂ stale) sent
      (packetsIn (protocolInit fds time₁ time₂ stale) es) s := by
  induction es using List.reverseRecOn generalizing s with
  | nil =>
      obtain rfl := Option.some.inj hrun
      have hbounded := State.Bounded.protocolInit fds time₁ time₂ stale
      exact ⟨[], Decoded.refl sent hbounded rfl, by simp, rfl⟩
  | append_singleton es e ih =>
      obtain ⟨t, ht, hstep⟩ := run_snoc_iff.mp hrun
      have hbefore := step_received (runFrom_bounded ht) hstep
      have hwork := ih ht (step_ret hstep) (hbefore.trans hgot)
      rw [packetsIn, tally_snoc tunPackets ht hstep]
      exact hwork.step hsizes rfl hstep hret hgot

end Runs

/-- Whatever the calls before it and however `recv` cut up the stream: a call in which every write
goes through returns with the stream cut at its frames exactly if no IP reply without a payload has
come in before a frame of an unknown type. -/
theorem frames_cut_iff (fds : Descriptors) (time₁ time₂ : Int) (stale : CellMemory UInt8)
    (sent : List Frame) (hsizes : ∀ f ∈ sent, f.size ≤ bufferSize) (es : List Event) (s : State)
    (hrun : runFrom fds time₁ time₂ stale es = some s) (hret : s.ret = 0) (bs : List UInt8)
    (hfits : bs.length ≤ s.room) (hgot : received s.log ++ bs <+: frameCode.stream sent)
    (env : Nat → SocketEnv) (henv : ∀ k, (env k).Obliging) :
    (∃ fuel s', runFrom fds time₁ time₂ stale (es ++ [.socket (.bytes bs) env fuel]) = some s' ∧
      CutAtFrames sent (packetsIn (protocolInit fds time₁ time₂ stale)
        (es ++ [.socket (.bytes bs) env fuel])) s') ↔
      ∀ f ∈ accepted sent (received s.log ++ bs).length, ¬ EmptyReply f := by
  have hvalid := valid_of_sizes hsizes
  obtain ⟨words, hdec, hfine, hcount⟩ :=
    runFrom_atWork hsizes hrun hret ((List.prefix_append _ _).trans hgot)
  have hs := hdec.bounded
  have hread := hs.receive hfits
  have hcontent := receive_content hs bs
  constructor
  · rintro ⟨fuel, s', hrun', -⟩
    obtain ⟨t, ht, hstep⟩ := run_snoc_iff.mp hrun'
    obtain rfl := Option.some.inj (hrun.symm.trans ht)
    cases step_call hstep with
    | socket _ _ _ _ hcall =>
        exact (handleSocket_cuts hsizes henv hdec ⟨rfl, rfl⟩ hfine hcount hfits hgot hcall).2
  · intro hgood
    obtain ⟨tail, hsplit, hpre⟩ := (hdec.held.more bs).front hvalid hgot
    have hdrains : drains s.hasTun (s.content ++ bs) = true := by
      rw [drains_iff s.hasTun (fun f hf => hvalid f (by simp [hsplit, hf])) hpre]
      rw [hsplit, (hdec.held.more bs).2, List.length_append,
        accepted_append (fun f hf => (hfine f hf).1)] at hgood
      exact fun f hf => hgood f (List.mem_append_right _ hf)
    obtain ⟨fuel, s', hstop⟩ := terminates_of_drains env _ _ hdrains 0 _ hread rfl hcontent
    have hcall : handleSocket (.bytes bs) env fuel s = .stopped s' := by
      rw [handleSocket_of_bounded hs hfits]
      exact hstop
    have hstep : step s (.socket (.bytes bs) env fuel) = some s' := by
      unfold step
      rw [if_pos hret]
      simp only
      rw [if_pos (show (ReadResult.bytes bs).Fits s.room from hfits), hcall]
      rfl
    refine ⟨fuel, s', run_snoc_iff.mpr ⟨s, hrun, hstep⟩, ?_⟩
    rw [packetsIn, tally_snoc tunPackets hrun hstep]
    exact (handleSocket_cuts hsizes henv hdec ⟨rfl, rfl⟩ hfine hcount hfits hgot hcall).1

def oddFrames : List Frame := [⟨msgDataRsb, [69]⟩, ⟨50, []⟩, ⟨msgDataRsb, [70]⟩]

theorem frames_cut_oddFrames :
    ∃ s, runFrom .usual 0 0 (fun _ => 0) tunnelUp = some s ∧
      ∃ fuel s', runFrom .usual 0 0 (fun _ => 0) (tunnelUp ++
          [.socket (.bytes (frameCode.stream oddFrames)) (.prompt 0) fuel]) = some s' ∧
        CutAtFrames oddFrames (packetsIn (protocolInit .usual 0 0 fun _ => 0) (tunnelUp ++
          [.socket (.bytes (frameCode.stream oddFrames)) (.prompt 0) fuel])) s' := by
  have hany : ((runFrom .usual 0 0 (fun _ => 0) tunnelUp).any fun s =>
      decide (s.ret = 0 ∧ (frameCode.stream oddFrames).length ≤ s.room ∧
        received s.log = [] ∧ ∀ f ∈ accepted oddFrames (frameCode.stream oddFrames).length,
          ¬ EmptyReply f)) = true := by decide +kernel
  obtain ⟨s, hrun, hs⟩ := (Option.any_eq_true _ _).mp hany
  obtain ⟨hret, hfits, hnone, hgood⟩ := of_decide_eq_true hs
  refine ⟨s, hrun, (frames_cut_iff .usual 0 0 (fun _ => 0) oddFrames (by decide) tunnelUp s hrun hret
    (frameCode.stream oddFrames) hfits ?_ _ (SocketEnv.Obliging.prompt 0)).mpr ?_⟩
  · rw [hnone]
    exact List.prefix_refl _
  · rw [hnone]
    exact hgood

/-- An IP reply without a payload is read at the null pointer of an empty vector. -/
theorem empty_reply_never_returns :
    ∃ s, runFrom .usual 0 0 (fun _ => 0) [] = some s ∧
      (Frame.bytes ⟨msgIpRsb, []⟩).length ≤ s.room ∧
      ∀ fuel s', handleSocket (.bytes (Frame.bytes ⟨msgIpRsb, []⟩)) (.prompt 0) fuel s ≠
        .stopped s' := by
  have hfits : (Frame.bytes ⟨msgIpRsb, []⟩).length ≤
      (protocolInit .usual 0 0 (fun _ => 0)).room := by decide +kernel
  refine ⟨_, rfl, hfits, fun fuel s' hstop => ?_⟩
  have hs := State.Bounded.protocolInit .usual 0 0 (fun _ => 0)
  rw [handleSocket_of_bounded hs hfits] at hstop
  exact not_terminates_of_not_drains (fun k => SocketEnv.Obliging.prompt 0 k) _ _
    (by decide +kernel) 0 _ (hs.receive hfits) rfl (receive_content hs _) ⟨fuel, s', hstop⟩

end Over6.Client
