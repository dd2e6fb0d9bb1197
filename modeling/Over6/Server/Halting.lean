import Mathlib.Data.Fintype.Card
import Over6.Server.Connections
import Over6.Server.Hostile

/-! # Which bytes hold the parser up

Whether the parse loop is left depends on the length fields in front of it and on
the number of addresses left to give away, and on nothing else.
-/

namespace Over6.Server

open MachineInt BoundedLoop EventRun

/-! ## The bytes as the loop goes through them -/

/-- Going by the length fields, with `free` addresses to give away: the loop comes to an incomplete
frame, or to an IP request with nothing left for it. -/
def drains (free : Nat) (bytes : List UInt8) : Bool :=
  if _hshort : bytes.length < sizeofMessage ∨
      (bytes.length : Int) < (Message.ofBytes bytes).length then true
  else if (Message.ofBytes bytes).type = msgIpReq then
    match free with
    | 0 => true
    | free + 1 =>
        decide (0 ≤ (Message.ofBytes bytes).length) &&
          drains free (bytes.drop (Message.ofBytes bytes).length.toNat)
  else if 0 < (Message.ofBytes bytes).length then
    drains free (bytes.drop (Message.ofBytes bytes).length.toNat)
  else false
termination_by free + bytes.length
decreasing_by
  · rw [List.length_drop]
    omega
  · rw [List.length_drop]
    omega

def freeEntries (users : Users) : Nat := (Finset.univ.filter fun i => (users i).status = true).card

theorem freeEntries_of_full {users : Users} (h : firstFree users = none) :
    freeEntries users = 0 := by
  rw [freeEntries, Finset.card_eq_zero, Finset.filter_eq_empty_iff]
  intro i _
  rw [firstFree_eq_none.mp h i]
  decide

/-- Giving an address away leaves one less. -/
theorem freeEntries_update {users : Users} {i : Slot} {u : UserInfo}
    (hi : (users i).status = true) (hu : u.status = false) :
    freeEntries (Function.update users i u) + 1 = freeEntries users := by
  have herase : (Finset.univ.filter fun j => (Function.update users i u j).status = true) =
      (Finset.univ.filter fun j => (users j).status = true).erase i := by
    ext j
    by_cases hj : j = i
    · subst hj
      simp [hu]
    · simp [hj]
  have hmem : i ∈ Finset.univ.filter fun j => (users j).status = true :=
    Finset.mem_filter.mpr ⟨Finset.mem_univ i, hi⟩
  rw [freeEntries, herase, freeEntries]
  exact Finset.card_erase_add_one hmem

theorem freeEntries_congr {users users' : Users}
    (h : ∀ i, (users' i).status = (users i).status) : freeEntries users' = freeEntries users := by
  simp only [freeEntries, h]

/-! ## One pass -/

/-- The frame handlers on a frame other than an IP request give no address away. -/
theorem Dispatch.freeEntries_eq {env : FrameEnv} {fd : Fd} {msg : Message} {s : State}
    {flow : Flow State} (h : Dispatch env fd msg s flow) (hother : msg.type ≠ msgIpReq) :
    freeEntries flow.state.users = freeEntries s.users := by
  have hsteady := h.steady fun htype => absurd htype hother
  exact freeEntries_congr fun i => (hsteady.owner i).2.1

/-- An IP request that is answered leaves one address less. -/
theorem Dispatch.freeEntries_add_one {env : FrameEnv} {fd : Fd} {msg : Message} {s t : State}
    (h : Dispatch env fd msg s (.next t)) (htype : msg.type = msgIpReq) :
    freeEntries t.users + 1 = freeEntries s.users := by
  cases h with
  | replied _ i hfree =>
      have hstatus := (firstFree_eq_some.mp hfree).1
      exact freeEntries_update hstatus rfl
  | forwarded h₂ => exact absurd (htype.symm.trans h₂) (by decide)
  | stray h₃ => exact absurd (htype.symm.trans h₃) (by decide)
  | kept h₃ => exact absurd (htype.symm.trans h₃) (by decide)
  | unknown h₁ => exact absurd htype h₁

/-- The bytes held begin with a header, and the length it announces is there. -/
theorem BufferEntry.front_iff {e : BufferEntry} (h : e.Bounded) :
    e.Complete ∧ e.header = Message.ofBytes e.content ↔ ¬ (e.content.length < sizeofMessage ∨
      (e.content.length : Int) < (Message.ofBytes e.content).length) := by
  rw [BufferEntry.complete_iff h]
  constructor
  · omega
  · intro hlong
    exact ⟨by omega, header_eq (by omega)⟩

/-- What is left in the state behind a frame that was passed. -/
theorem State.consumed_content {s t : State} (hs : s.Bounded) {fd : Fd} (hbufs : t.bufs = s.bufs)
    (hcomplete : (s.bufs fd).Complete) (hlen : 0 ≤ (s.bufs fd).header.length) :
    ((t.consumed fd (s.bufs fd).header).bufs fd).content =
      (s.bufs fd).content.drop (s.bufs fd).header.length.toNat := by
  rw [State.consumed_bufs, hbufs, Function.update_self]
  exact BufferEntry.behind_content (hs fd) hlen hcomplete.2

/-- A complete frame whose length is not negative ends the call or is gone from the front. -/
theorem parseOnce_advances {s : State} (hs : s.Bounded) (env : FrameEnv) {fd : Fd}
    (hcomplete : (s.bufs fd).Complete) (hlen : 0 ≤ (s.bufs fd).header.length) :
    (∃ s', parseOnce env fd s = .stop s') ∨
      ∃ s', parseOnce env fd s = .next s' ∧ s'.Bounded ∧
        (s'.bufs fd).content = (s.bufs fd).content.drop (s.bufs fd).header.length.toNat ∧
        ((s.bufs fd).header.type = msgIpReq → freeEntries s'.users + 1 = freeEntries s.users) ∧
        ((s.bufs fd).header.type ≠ msgIpReq → freeEntries s'.users = freeEntries s.users) := by
  have hframe := handleFrame_dispatch env fd (s.bufs fd).header s
  rw [parseOnce_of_complete env hcomplete]
  cases hflow : handleFrame env fd (s.bufs fd).header s with
  | next t =>
      rw [hflow] at hframe
      have hbufs : t.bufs = s.bufs := hframe.bufs
      have hle : (s.bufs fd).header.length ≤ (t.bufs fd).used := by
        rw [hbufs]
        exact hcomplete.2
      have hcap : (t.bufs fd).used ≤ bufSize := ((hs.of_bufs hbufs) fd).2
      rw [Flow.bind_next, consume_of_range fd hlen hle hcap]
      exact .inr ⟨_, rfl, hs.passed hcomplete hframe hlen,
        State.consumed_content hs hbufs hcomplete hlen, hframe.freeEntries_add_one,
        hframe.freeEntries_eq⟩
  | stop s' => exact .inl ⟨s', rfl⟩
  | fault s' =>
      rw [hflow] at hframe
      cases hframe

/-! ## Bytes that are gone through -/

/-- With nothing to give away an IP request ends the call. -/
theorem parseOnce_of_full {s : State} (env : FrameEnv) {fd : Fd} (hcomplete : (s.bufs fd).Complete)
    (htype : (s.bufs fd).header.type = msgIpReq) (hfull : freeEntries s.users = 0) :
    ∃ s', parseOnce env fd s = .stop s' := by
  have hframe := handleFrame_dispatch env fd (s.bufs fd).header s
  rw [parseOnce_of_complete env hcomplete]
  cases hflow : handleFrame env fd (s.bufs fd).header s with
  | next t =>
      rw [hflow] at hframe
      have hless := hframe.freeEntries_add_one htype
      omega
  | stop s' => exact ⟨s', rfl⟩
  | fault s' =>
      rw [hflow] at hframe
      cases hframe

/-- Whatever the kernel answers, the loop is left. -/
theorem terminates_of_drains (env : Nat → FrameEnv) (fd : Fd) (free : Nat) (bytes : List UInt8)
    (h : drains free bytes = true) :
    ∀ (k : Nat) (s : State), s.Bounded → freeEntries s.users = free →
      (s.bufs fd).content = bytes → Terminates (fun k => parseOnce (env k) fd) k s := by
  fun_induction drains free bytes with
  | case1 free bytes hshort =>
      intro k s hs _ hcontent
      have hwait : ¬ (s.bufs fd).Complete := by
        intro hcomplete
        have hlong := (BufferEntry.complete_iff (hs fd)).mp hcomplete
        rw [hcontent] at hlong
        omega
      exact .of_stop (parseOnce_of_not_complete (env k) hwait)
  | case2 bytes hlong htype =>
      intro k s hs hfree hcontent
      rw [← hcontent] at hlong htype
      obtain ⟨hcomplete, hheader⟩ := (BufferEntry.front_iff (hs fd)).mpr hlong
      rw [← hheader] at htype
      obtain ⟨s', hstop⟩ := parseOnce_of_full (env k) hcomplete htype hfree
      exact .of_stop hstop
  | case3 bytes hlong htype free ih =>
      intro k s hs hfree hcontent
      rw [Bool.and_eq_true, decide_eq_true_eq] at h
      obtain ⟨hlen, hrest⟩ := h
      rw [← hcontent] at hlong htype hlen
      obtain ⟨hcomplete, hheader⟩ := (BufferEntry.front_iff (hs fd)).mpr hlong
      rw [← hheader] at htype hlen
      rcases parseOnce_advances hs (env k) hcomplete hlen with
        ⟨s', hstop⟩ | ⟨s', hnext, hs', hcontent', hless, _⟩
      · exact .of_stop hstop
      · refine .of_next hnext (ih hrest (k + 1) s' hs' ?_ ?_)
        · have hone := hless htype
          omega
        · rw [hcontent', hheader, hcontent]
  | case4 free bytes hlong htype hpos ih =>
      intro k s hs hfree hcontent
      rw [← hcontent] at hlong htype hpos
      obtain ⟨hcomplete, hheader⟩ := (BufferEntry.front_iff (hs fd)).mpr hlong
      rw [← hheader] at htype hpos
      rcases parseOnce_advances hs (env k) hcomplete (Int.le_of_lt hpos) with
        ⟨s', hstop⟩ | ⟨s', hnext, hs', hcontent', _, hsame⟩
      · exact .of_stop hstop
      · refine .of_next hnext (ih h (k + 1) s' hs' ?_ ?_)
        · rw [hsame htype, hfree]
        · rw [hcontent', hheader, hcontent]
  | case5 => cases h

/-! ## Bytes that are not -/

/-- While every write goes through, only a full pool stops the handler of a frame. -/
theorem handleFrame_of_wrote {env : FrameEnv} {fd : Fd} {msg : Message} {s : State}
    (hopen : s.isOpen fd = true) (h₁ : ∀ k, ∃ n, env.write₁ k = .wrote n)
    (h₂ : ∀ k, ∃ n, env.write₂ k = .wrote n)
    (hfree : msg.type = msgIpReq → freeEntries s.users ≠ 0) :
    ∃ t, handleFrame env fd msg s = .next t := by
  have hreplies : ∀ addr, s.Replies env fd addr := by
    intro addr
    rw [State.Replies, s.writeAll_of_wrote hopen h₁, s.writeAll_of_wrote hopen h₂,
      ipReplyHeader_length]
    exact ⟨rfl, rfl⟩
  have hframe := handleFrame_dispatch env fd msg s
  cases hflow : handleFrame env fd msg s with
  | next t => exact ⟨t, rfl⟩
  | stop s' =>
      rw [hflow] at hframe
      cases hframe with
      | poolFull htype hfull => exact absurd (freeEntries_of_full hfull) (hfree htype)
      | replyHeader _ _ _ _ hfails => exact absurd (hreplies _) hfails
      | replyData _ _ _ _ hfails => exact absurd (hreplies _) hfails
      | tunData _ _ _ hret =>
          have htun : s.isOpen s.tunFd = true := by simp [State.isOpen]
          rw [s.writeAll_of_wrote htun h₁] at hret
          simp only at hret
          omega
  | fault s' =>
      rw [hflow] at hframe
      cases hframe

section AllWritesSucceed

variable {env : FrameEnv} {fd : Fd} {s : State}

/-- While every write goes through, a negative length takes the move out of the buffer. -/
theorem parseOnce_faults (hopen : s.isOpen fd = true) (h₁ : ∀ k, ∃ n, env.write₁ k = .wrote n)
    (h₂ : ∀ k, ∃ n, env.write₂ k = .wrote n) (hcomplete : (s.bufs fd).Complete)
    (hfree : (s.bufs fd).header.type = msgIpReq → freeEntries s.users ≠ 0)
    (hneg : (s.bufs fd).header.length < 0) : ∃ s', parseOnce env fd s = .fault s' := by
  obtain ⟨t, ht⟩ := handleFrame_of_wrote hopen h₁ h₂ hfree
  rw [parseOnce_of_complete env hcomplete, ht, Flow.bind_next]
  rcases consume_cases fd (s.bufs fd).header t with ⟨hpos, _⟩ | hfault
  · exact absurd hneg (Int.not_lt.mpr hpos)
  · exact hfault

/-- While every write goes through, any other frame with an address left for it is gone from the
front. -/
theorem parseOnce_moves (hs : s.Bounded) (hopen : s.isOpen fd = true)
    (h₁ : ∀ k, ∃ n, env.write₁ k = .wrote n) (h₂ : ∀ k, ∃ n, env.write₂ k = .wrote n)
    (hcomplete : (s.bufs fd).Complete)
    (hfree : (s.bufs fd).header.type = msgIpReq → freeEntries s.users ≠ 0)
    (hlen : 0 ≤ (s.bufs fd).header.length) :
    ∃ s', parseOnce env fd s = .next s' ∧ s'.Bounded ∧ s'.isOpen fd = true ∧
      (s'.bufs fd).content = (s.bufs fd).content.drop (s.bufs fd).header.length.toNat ∧
      ((s.bufs fd).header.type = msgIpReq → freeEntries s'.users + 1 = freeEntries s.users) ∧
      ((s.bufs fd).header.type ≠ msgIpReq → freeEntries s'.users = freeEntries s.users) := by
  rcases parseOnce_advances hs env hcomplete hlen with ⟨s', hstop⟩ | ⟨s', hnext, hs', hrest⟩
  · obtain ⟨t, ht⟩ := handleFrame_of_wrote hopen h₁ h₂ hfree
    rw [parseOnce_of_complete env hcomplete, ht, Flow.bind_next] at hstop
    rcases consume_cases fd (s.bufs fd).header t with ⟨_, hnext⟩ | ⟨_, hfault⟩
    · rw [hnext] at hstop
      cases hstop
    · rw [hfault] at hstop
      cases hstop
  · have hparse : Parse env fd s (.next s') := hnext ▸ parseOnce_parse env fd s
    have hopen' : s'.isOpen fd = true := by rw [(hparse.quiet (.inl rfl)).isOpen, hopen]
    exact ⟨s', hnext, hs', hopen', hrest⟩

end AllWritesSucceed

/-- While every write goes through, the loop is not left on bytes it does not get through. -/
theorem not_terminates_of_not_drains {env : Nat → FrameEnv}
    (h₁ : ∀ k j, ∃ n, (env k).write₁ j = .wrote n) (h₂ : ∀ k j, ∃ n, (env k).write₂ j = .wrote n)
    (fd : Fd) (free : Nat) (bytes : List UInt8) (h : drains free bytes = false) :
    ∀ (k : Nat) (s : State), s.Bounded → s.isOpen fd = true → freeEntries s.users = free →
      (s.bufs fd).content = bytes → ¬ Terminates (fun k => parseOnce (env k) fd) k s := by
  fun_induction drains free bytes with
  | case1 => cases h
  | case2 => cases h
  | case3 bytes hlong htype free ih =>
      intro k s hs hopen hfree hcontent
      rw [Bool.and_eq_false_iff, decide_eq_false_iff_not] at h
      rw [← hcontent] at hlong htype h
      obtain ⟨hcomplete, hheader⟩ := (BufferEntry.front_iff (hs fd)).mpr hlong
      rw [← hheader] at htype h
      have hsome : (s.bufs fd).header.type = msgIpReq → freeEntries s.users ≠ 0 := by
        intro _
        omega
      by_cases hlen : 0 ≤ (s.bufs fd).header.length
      · obtain ⟨s', hnext, hs', hopen', hcontent', hless, _⟩ :=
          parseOnce_moves hs hopen (h₁ k) (h₂ k) hcomplete hsome hlen
        have hone := hless htype
        have hrest := h.resolve_left (not_not_intro hlen)
        rw [hheader, hcontent] at hrest hcontent'
        rw [terminates_of_next_iff hnext]
        exact ih hrest (k + 1) s' hs' hopen' (by omega) hcontent'
      · obtain ⟨s', hfault⟩ :=
          parseOnce_faults hopen (h₁ k) (h₂ k) hcomplete hsome (Int.not_le.mp hlen)
        exact not_terminates_of_fault hfault
  | case4 free bytes hlong htype hpos ih =>
      intro k s hs hopen hfree hcontent
      rw [← hcontent] at hlong htype hpos
      obtain ⟨hcomplete, hheader⟩ := (BufferEntry.front_iff (hs fd)).mpr hlong
      rw [← hheader] at htype hpos
      obtain ⟨s', hnext, hs', hopen', hcontent', _, hsame⟩ :=
        parseOnce_moves hs hopen (h₁ k) (h₂ k) hcomplete (absurd · htype) (Int.le_of_lt hpos)
      rw [hheader, hcontent] at hcontent'
      rw [terminates_of_next_iff hnext]
      exact ih h (k + 1) s' hs' hopen' ((hsame htype).trans hfree) hcontent'
  | case5 free bytes hlong htype hnonpos =>
      intro k s hs hopen _ hcontent
      by_cases hneg : (Message.ofBytes bytes).length < 0
      · rw [← hcontent] at hlong htype hneg
        obtain ⟨hcomplete, hheader⟩ := (BufferEntry.front_iff (hs fd)).mpr hlong
        rw [← hheader] at htype hneg
        obtain ⟨s', hfault⟩ :=
          parseOnce_faults hopen (h₁ k) (h₂ k) hcomplete (absurd · htype) hneg
        exact not_terminates_of_fault hfault
      · -- A length of zero leads back to the same bytes.
        have hzero : (Message.ofBytes bytes).length = 0 := by omega
        refine not_terminates_of_recurrent
          (fun t => t.Bounded ∧ t.isOpen fd = true ∧ (t.bufs fd).content = bytes) ?_ k s
          ⟨hs, hopen, hcontent⟩
        intro j t ⟨ht, hopen, hcontent⟩
        rw [← hcontent] at hlong htype hzero
        obtain ⟨hcomplete, hheader⟩ := (BufferEntry.front_iff (ht fd)).mpr hlong
        rw [← hheader] at htype hzero
        obtain ⟨t', hnext, ht', hopen', hcontent', _⟩ :=
          parseOnce_moves ht hopen (h₁ j) (h₂ j) hcomplete (absurd · htype) (Int.le_of_eq hzero.symm)
        rw [hzero, hcontent] at hcontent'
        exact ⟨t', hnext, ht', hopen', hcontent'⟩

/-! ## Every reachable state -/

/-- The call of `process_client` on what `read` returned comes to an end by the bytes alone. -/
def Drains (r : ReadResult) (free : Nat) (held : List UInt8) : Prop :=
  match r with
  | .error => True
  | .bytes bs => bs = [] ∨ drains free (held ++ bs) = true

instance (r : ReadResult) (free : Nat) (held : List UInt8) : Decidable (Drains r free held) :=
  match r with
  | .error => inferInstanceAs (Decidable True)
  | .bytes _ => inferInstanceAs (Decidable (_ ∨ _))

theorem writesAll_wrote (k : Nat) : ∃ n, writesAll k = .wrote n := ⟨_, rfl⟩

theorem readClient_isOpen {s : State} {fd : Fd} {c : Conn} (hc : s.conn fd = some c)
    {bs : List UInt8} : (readClient fd bs s).isOpen fd = true := by
  change ((s.conn fd).isSome || fd == s.tunFd) = true
  rw [hc]
  rfl

/-- In every reachable state a call of `process_client` returns, whatever the clock and the writes
answer, exactly if it comes to the end of the bytes by their length fields. -/
theorem process_client_returns_iff (fds : Descriptors) (es : List Event) (s : State)
    (hrun : runFrom fds es = some s) (fd : Fd) (hw : s.watched fd = true) (r : ReadResult)
    (hfits : r.Fits (s.bufs fd).room) :
    (∀ env removed, ∃ fuel s', processClient r env removed fuel fd s = .stopped s') ↔
      Drains r (freeEntries s.users) (s.bufs fd).content := by
  have hs := State.Bounded.runFrom hrun
  obtain ⟨c, hc⟩ := (Connections.runFrom hrun).watchedOpen fd hw
  cases r with
  | error => exact ⟨fun _ => trivial, fun _ _ _ => ⟨0, _, rfl⟩⟩
  | bytes bs =>
      by_cases hne : bs = []
      · rw [hne]
        exact ⟨fun _ => .inl rfl, fun _ _ _ => ⟨0, _, rfl⟩⟩
      · have hread : (readClient fd bs s).Bounded := hs.readClient hfits
        have hcontent : ((readClient fd bs s).bufs fd).content = (s.bufs fd).content ++ bs := by
          rw [readClient_bufs, Function.update_self, BufferEntry.append_content (hs fd)]
        simp only [processClient_of_ne_nil hne, Drains, hne, false_or]
        constructor
        · intro h
          have hopen : (readClient fd bs s).isOpen fd = true := readClient_isOpen hc
          have hprompt := h (.prompt 0) true
          cases hdrains : drains (freeEntries s.users) ((s.bufs fd).content ++ bs) with
          | true => rfl
          | false =>
              exact absurd hprompt (not_terminates_of_not_drains (fun _ => writesAll_wrote)
                (fun _ => writesAll_wrote) fd _ _ hdrains 0 _ hread hopen rfl hcontent)
        · intro h env _
          exact terminates_of_drains env fd _ _ h 0 _ hread rfl hcontent

theorem process_client_returns_twoClients :
    ∃ s, runFrom .usual twoClients = some s ∧ s.watched 7 = true ∧
      (ReadResult.bytes [0, 0, 104]).Fits (s.bufs 7).room ∧
      ∀ env removed, ∃ fuel s',
        processClient (.bytes [0, 0, 104]) env removed fuel 7 s = .stopped s' := by
  have hany : ((runFrom .usual twoClients).any fun s =>
      decide (s.watched 7 = true ∧ (ReadResult.bytes [0, 0, 104]).Fits (s.bufs 7).room ∧
        Drains (.bytes [0, 0, 104]) (freeEntries s.users) (s.bufs 7).content)) = true := by
    decide +kernel
  obtain ⟨s, hrun, hs⟩ := (Option.any_eq_true _ _).mp hany
  obtain ⟨hw, hfits, hdrains⟩ := of_decide_eq_true hs
  exact ⟨s, hrun, hw, hfits,
    (process_client_returns_iff .usual twoClients s hrun 7 hw _ hfits).mpr hdrains⟩

/-- A keepalive that announces the length zero is handled for ever. -/
theorem zero_length_hangs :
    ∃ s, runFrom .usual [.server (some (7, true))] = some s ∧ s.watched 7 = true ∧
      (ReadResult.bytes [0, 0, 0, 0, 104]).Fits (s.bufs 7).room ∧
      ∀ fuel s', processClient (.bytes [0, 0, 0, 0, 104]) (.prompt 0) true fuel 7 s ≠
        .stopped s' := by
  have hany : ((runFrom .usual [.server (some (7, true))]).any fun s =>
      decide (s.watched 7 = true ∧ (ReadResult.bytes [0, 0, 0, 0, 104]).Fits (s.bufs 7).room ∧
        drains (freeEntries s.users)
          ((readClient 7 [0, 0, 0, 0, 104] s).bufs 7).content = false)) = true := by
    decide +kernel
  obtain ⟨s, hrun, hs⟩ := (Option.any_eq_true _ _).mp hany
  obtain ⟨hw, hfits, hdrains⟩ := of_decide_eq_true hs
  refine ⟨s, hrun, hw, hfits, fun fuel s' hstop => ?_⟩
  have hread := (State.Bounded.runFrom hrun).readClient hfits
  obtain ⟨c, hc⟩ := (Connections.runFrom hrun).watchedOpen 7 hw
  exact not_terminates_of_not_drains (fun _ => writesAll_wrote) (fun _ => writesAll_wrote) 7 _ _
    hdrains 0 _ hread (readClient_isOpen hc) rfl rfl ⟨fuel, s', hstop⟩

end Over6.Server
