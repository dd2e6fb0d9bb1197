import Over6.Server.Tunnel

/-! # What a closed peer leaves behind

`server/Server/main.cpp` frees the descriptor only when `read` fails; a size of zero
goes on to the parse loop, over the bytes that were there before. Apart from that its
`process_client` is the one of `server/main.cpp`, and so is all it calls.
-/

namespace Over6.Server

open MachineInt BoundedLoop Journal

namespace Built

def processClient (r : ReadResult) (env : Nat → FrameEnv) (removed : Bool) (fuel : Nat)
    (clientFd : Fd) (s : State) : Outcome State :=
  match r with
  | .error => .stopped (freeClientFd removed clientFd s)
  | .bytes bs => iterate (fun k => parseOnce (env k) clientFd) fuel 0 (readClient clientFd bs s)

theorem processClient_of_ne {r : ReadResult} (h : r ≠ .bytes []) (env : Nat → FrameEnv)
    (removed : Bool) (fuel : Nat) (fd : Fd) (s : State) :
    Built.processClient r env removed fuel fd s = Server.processClient r env removed fuel fd s := by
  cases r with
  | error => rfl
  | bytes bs => exact (processClient_of_ne_nil (fun hnil => h (hnil ▸ rfl)) env removed fuel fd s).symm

end Built

/-! ## Agreeing -/

/-- The calls of `write_all`, with what got across and what it returned. -/
def Record.writeCalls (r : Record) : List (Fd × List UInt8 × Int) :=
  match r.act with
  | .wrote bs ret => [(r.fd, bs, ret)]
  | _ => []

def writeCalls (log : List Record) : List (Fd × List UInt8 × Int) := gather Record.writeCalls log

/-- The same writes, the same table and buffers, the same descriptors open and registered. -/
structure SameEffect (t t' : State) : Prop where
  writes : writeCalls t.log = writeCalls t'.log
  users : t.users = t'.users
  bufs : t.bufs = t'.bufs
  conn : t.conn = t'.conn
  watched : t.watched = t'.watched

abbrev ProcessClient :=
  ReadResult → (Nat → FrameEnv) → Bool → Nat → Fd → State → Outcome State

def Returns (process : ProcessClient) (r : ReadResult) (env : Nat → FrameEnv) (removed : Bool)
    (fd : Fd) (s t : State) : Prop := ∃ fuel, process r env removed fuel fd s = .stopped t

/-- Either both calls return, with the same effect, or neither does. -/
structure Agree (process process' : ProcessClient) (r : ReadResult) (env : Nat → FrameEnv)
    (removed : Bool) (fd : Fd) (s : State) : Prop where
  there : ∀ t, Returns process r env removed fd s t →
    ∃ t', Returns process' r env removed fd s t' ∧ SameEffect t t'
  back : ∀ t', Returns process' r env removed fd s t' →
    ∃ t, Returns process r env removed fd s t ∧ SameEffect t t'

theorem SameEffect.refl (t : State) : SameEffect t t := ⟨rfl, rfl, rfl, rfl, rfl⟩

theorem SameEffect.symm {t u : State} (h : SameEffect t u) : SameEffect u t :=
  ⟨h.writes.symm, h.users.symm, h.bufs.symm, h.conn.symm, h.watched.symm⟩

theorem SameEffect.trans {t u v : State} (h : SameEffect t u) (h' : SameEffect u v) :
    SameEffect t v :=
  ⟨h.writes.trans h'.writes, h.users.trans h'.users, h.bufs.trans h'.bufs, h.conn.trans h'.conn,
    h.watched.trans h'.watched⟩

/-- A record of anything but a write. -/
theorem SameEffect.note {t u : State} (h : SameEffect t u) (fd : Fd) {act : Act}
    (hact : Record.writeCalls ⟨u.conn fd, fd, act⟩ = [] := by rfl) : SameEffect t (u.note fd act) := by
  have hlog : writeCalls (u.note fd act).log = writeCalls u.log := by
    rw [writeCalls, State.note_log, gather_cons, hact, List.append_nil, ← writeCalls]
  exact ⟨h.writes.trans hlog.symm, h.users, h.bufs, h.conn, h.watched⟩

/-- Nothing is read: the state is as it was. -/
theorem readClient_nil (fd : Fd) (s : State) : SameEffect s (readClient fd [] s) := by
  have hbuf : ({ buf := (s.bufs fd).buf.store (s.bufs fd).used.toNat []
                 used := (s.bufs fd).used + ([] : List UInt8).length } : BufferEntry) = s.bufs fd := by
    have hstore : (s.bufs fd).buf.store (s.bufs fd).used.toNat [] = (s.bufs fd).buf := by
      funext a
      simp [CellMemory.store]
    rw [hstore]
    simp
  have hset : SameEffect s ((s.note fd (.touched (s.bufs fd).used (s.bufs fd).room)).setBuf fd
      { buf := (s.bufs fd).buf.store (s.bufs fd).used.toNat []
        used := (s.bufs fd).used + ([] : List UInt8).length }) := by
    rw [hbuf]
    have htouched : SameEffect s (s.note fd (.touched (s.bufs fd).used (s.bufs fd).room)) :=
      (SameEffect.refl s).note fd
    exact ⟨htouched.writes, rfl, (Function.update_eq_self fd s.bufs).symm, rfl, rfl⟩
  exact hset.note fd

/-! ## A frame at the front -/

/-- The frame at the front ends the call and stays: it asks for an address and there is none. -/
def State.Refuses (s : State) (fd : Fd) : Prop :=
  (s.bufs fd).header.type = msgIpReq ∧ firstFree s.users = none

/-- Writes are only added, and the bytes in the buffer only get fewer. -/
structure Onward (fd : Fd) (t u : State) : Prop where
  writes : (writeCalls t.log).length ≤ (writeCalls u.log).length
  used : (u.bufs fd).used ≤ (t.bufs fd).used

namespace Onward

variable {fd : Fd} {t u v : State} {env : FrameEnv}

theorem refl (fd : Fd) (t : State) : Onward fd t t := ⟨Nat.le_refl _, Int.le_refl _⟩

theorem trans (h : Onward fd t u) (h' : Onward fd u v) : Onward fd t v :=
  ⟨Nat.le_trans h.writes h'.writes, Int.le_trans h'.used h.used⟩

theorem of_chain (h : Relation.ReflTransGen (Onward fd) t u) : Onward fd t u := by
  induction h with
  | refl => exact refl fd t
  | tail _ hu ih => exact ih.trans hu

theorem writes_of_later (h : t.log <:+ u.log) :
    (writeCalls t.log).length ≤ (writeCalls u.log).length := by
  obtain ⟨new, hlog⟩ := h
  rw [← hlog, writeCalls, writeCalls, gather_append, List.length_append]
  exact Nat.le_add_right _ _

theorem consumed_used (t : State) (fd : Fd) (msg : Message) :
    ((t.consumed fd msg).bufs fd).used = (t.bufs fd).used - msg.length := by
  rw [State.consumed_bufs, Function.update_self]
  rfl

theorem parse {flow : Flow State} (h : Parse env fd t flow)
    (hu : flow = .next u ∨ flow = .stop u) : Onward fd t u := by
  refine ⟨writes_of_later (h.quiet hu).log_suffix, ?_⟩
  cases h with
  | waits =>
      obtain rfl : t = u := by simpa using hu
      exact Int.le_refl _
  | @left _ t' hframe =>
      obtain rfl := Flow.stop.inj (hu.resolve_left (by simp))
      have hbufs : t'.bufs = t.bufs := hframe.bufs
      rw [hbufs]
  | @passed _ t' hframe hlen =>
      obtain rfl := Flow.next.inj (hu.resolve_right (by simp))
      have hbufs : t'.bufs = t.bufs := hframe.bufs
      rw [consumed_used, hbufs]
      omega
  | overran => simp at hu

theorem parseLoop {env : Nat → FrameEnv} {fuel k : Nat}
    (h : iterate (fun k => parseOnce (env k) fd) fuel k t = .stopped u) : Onward fd t u := by
  apply of_chain
  apply iterate_reaches (Onward fd) (fun _ => True) _ _ trivial h
  · intro k t t' _ hb
    have hparse : Parse (env k) fd t (.next t') := hb ▸ parseOnce_parse (env k) fd t
    exact ⟨parse hparse (.inl rfl), trivial⟩
  · intro k t t' _ hb
    have hparse : Parse (env k) fd t (.stop t') := hb ▸ parseOnce_parse (env k) fd t
    exact parse hparse (.inr rfl)

end Onward

def Marked (fd : Fd) (t u : State) : Prop :=
  (writeCalls t.log).length < (writeCalls u.log).length ∨ (u.bufs fd).used < (t.bufs fd).used

theorem Marked.not_same {fd : Fd} {t u : State} (h : Marked fd t u) : ¬ SameEffect t u := by
  intro hsame
  rcases h with h | h
  · rw [hsame.writes] at h
    exact absurd h (Nat.lt_irrefl _)
  · rw [hsame.bufs] at h
    exact absurd h (Int.lt_irrefl _)

/-- A handler of a frame that goes on has written something or has nothing to do with writing. -/
theorem Dispatch.writes_of_next {env : FrameEnv} {fd : Fd} {msg : Message} {s t : State}
    (h : Dispatch env fd msg s (.next t)) :
    (writeCalls s.log).length < (writeCalls t.log).length ∨
      writeCalls t.log = writeCalls s.log ∧ msg.type ≠ msgIpReq := by
  cases h with
  | replied =>
      left
      simp [writeCalls, Record.writeCalls, State.grantTo, State.noteRequest]
  | forwarded =>
      left
      simp [writeCalls, Record.writeCalls]
  | stray htype =>
      right
      exact ⟨by simp [writeCalls, Record.writeCalls], by rw [htype]; decide⟩
  | kept htype =>
      right
      exact ⟨by simp [writeCalls, Record.writeCalls], by rw [htype]; decide⟩
  | unknown h₁ => exact .inr ⟨rfl, h₁⟩

/-- One that ends the call has tried to write, unless it refused an address. -/
theorem Dispatch.writes_of_stop {env : FrameEnv} {fd : Fd} {msg : Message} {s t : State}
    (h : Dispatch env fd msg s (.stop t)) :
    (writeCalls s.log).length < (writeCalls t.log).length ∨
      msg.type = msgIpReq ∧ firstFree s.users = none := by
  cases h with
  | poolFull htype hfull => exact .inr ⟨htype, hfull⟩
  | replyHeader =>
      left
      simp [writeCalls, Record.writeCalls, State.grantTo, State.noteRequest]
  | replyData =>
      left
      simp [writeCalls, Record.writeCalls, State.grantTo, State.noteRequest]
  | tunData =>
      left
      simp [writeCalls, Record.writeCalls]

/-- An IP request while the pool is full. -/
theorem handleFrame_of_full (env : FrameEnv) (fd : Fd) {msg : Message} {s : State}
    (htype : msg.type = msgIpReq) (hfull : firstFree s.users = none) :
    handleFrame env fd msg s = .stop ((s.noteRequest fd).note fd (.failed .poolFull)) := by
  have hframe := handleFrame_dispatch env fd msg s
  generalize handleFrame env fd msg s = flow at hframe
  cases hframe with
  | poolFull => rfl
  | replyHeader _ i hfree => exact absurd (hfull.symm.trans hfree) (by simp)
  | replyData _ i hfree => exact absurd (hfull.symm.trans hfree) (by simp)
  | replied _ i hfree => exact absurd (hfull.symm.trans hfree) (by simp)
  | tunData hother => exact absurd (htype.symm.trans hother) (by decide)
  | forwarded hother => exact absurd (htype.symm.trans hother) (by decide)
  | stray hother => exact absurd (htype.symm.trans hother) (by decide)
  | kept hother => exact absurd (htype.symm.trans hother) (by decide)
  | unknown hother => exact absurd htype hother

theorem consumed_writes (t : State) (fd : Fd) (msg : Message) :
    writeCalls (t.consumed fd msg).log = writeCalls t.log := by
  simp [State.consumed, writeCalls, Record.writeCalls]

/-- A frame of length zero leaves the buffer as it is. -/
theorem consumed_of_zero (t : State) (fd : Fd) {msg : Message} (h : msg.length = 0) :
    (t.consumed fd msg).bufs = t.bufs := by
  have hbehind : (t.bufs fd).behind 0 = t.bufs fd := by
    have hmove : (t.bufs fd).buf.move 0 (0 : Int).toNat (sizeT 64 (int32 ((t.bufs fd).used - 0))) =
        (t.bufs fd).buf := CellMemory.move_self _ _ _
    rw [BufferEntry.behind, hmove, Int.sub_zero]
  rw [State.consumed_bufs, h, hbehind, Function.update_eq_self]

/-- A call that returns has left its mark if a frame was at the front that it does not refuse. By
induction on the fuel: a frame of length zero leads back to where it was. -/
theorem marked_of_complete {env : Nat → FrameEnv} {fd : Fd} {fuel k : Nat} {t u : State}
    (hcomplete : (t.bufs fd).Complete) (hserved : ¬ t.Refuses fd)
    (h : iterate (fun k => parseOnce (env k) fd) fuel k t = .stopped u) : Marked fd t u := by
  induction fuel generalizing k t with
  | zero => cases h
  | succ fuel ih =>
      have hparse := parseOnce_parse (env k) fd t
      cases hflow : parseOnce (env k) fd t with
      | stop v =>
          rw [hflow] at hparse
          rw [iterate_of_stop fuel hflow] at h
          obtain rfl := Outcome.stopped.inj h
          cases hparse with
          | waits hwaits => exact absurd hcomplete hwaits
          | left _ hframe =>
              rcases hframe.writes_of_stop with hmore | hrefuses
              · exact .inl hmore
              · exact absurd hrefuses hserved
      | next v =>
          rw [hflow] at hparse
          rw [iterate_of_next fuel hflow] at h
          cases hparse with
          | @passed _ t' hframe hlen =>
              have honward := Onward.parseLoop h
              have hwrites := honward.writes
              rw [consumed_writes] at hwrites
              rcases hframe.writes_of_next with hmore | ⟨hsame, hother⟩
              · exact .inl (Nat.lt_of_lt_of_le hmore hwrites)
              · have hbufs : t'.bufs = t.bufs := hframe.bufs
                rcases Int.lt_or_eq_of_le hlen with hpos | hzero
                · right
                  have hused := honward.used
                  rw [Onward.consumed_used, hbufs] at hused
                  omega
                · have hback : (t'.consumed fd (t.bufs fd).header).bufs = t.bufs := by
                    rw [consumed_of_zero t' fd hzero.symm, hbufs]
                  have hagain := ih (by rw [hback]; exact hcomplete)
                    (fun hrefuses => hother (by rw [← hback]; exact hrefuses.1)) h
                  rw [Marked, consumed_writes, hsame, hback] at hagain
                  exact hagain
      | fault v =>
          rw [iterate_of_fault fuel hflow] at h
          cases h

/-! ## The two handlers -/

section Handlers

variable {env : Nat → FrameEnv} {removed : Bool} {fd : Fd} {s : State}

/-- With nothing at the front the call ends at once, and leaves everything as it was. -/
theorem parseLoop_of_idle (env : Nat → FrameEnv) (h : ¬ (s.bufs fd).Complete ∨ s.Refuses fd) :
    ∃ t, iterate (fun k => parseOnce (env k) fd) 1 0 s = .stopped t ∧ SameEffect s t := by
  by_cases hcomplete : (s.bufs fd).Complete
  · obtain ⟨htype, hfull⟩ := h.resolve_left (not_not_intro hcomplete)
    have hflow : parseOnce (env 0) fd s =
        .stop ((s.noteRequest fd).note fd (.failed .poolFull)) := by
      rw [parseOnce_of_complete (env 0) hcomplete, handleFrame_of_full (env 0) fd htype hfull,
        Flow.bind_stop]
    exact ⟨_, iterate_of_stop 0 hflow, ((SameEffect.refl s).note fd).note fd⟩
  · refine ⟨s, ?_, SameEffect.refl s⟩
    exact iterate_of_stop 0 (parseOnce_of_not_complete (env 0) hcomplete)

theorem readClient_nil_front (fd : Fd) (s : State) :
    (((readClient fd [] s).bufs fd).Complete ↔ (s.bufs fd).Complete) ∧
      ((readClient fd [] s).Refuses fd ↔ s.Refuses fd) := by
  have hsame := readClient_nil fd s
  rw [State.Refuses, State.Refuses, ← hsame.bufs, ← hsame.users]
  exact ⟨Iff.rfl, Iff.rfl⟩

/-- A descriptor that is not freed is as it was. -/
theorem freeClientFd_kept (h : ¬ (s.watched fd = true ∧ removed = true)) :
    freeClientFd removed fd s = s := by
  unfold freeClientFd
  rw [if_neg]
  rwa [Bool.and_eq_true]

/-- On a peer that has closed the handlers agree when neither of them does anything. -/
theorem agree_closed_iff : Agree Server.processClient Built.processClient (.bytes []) env removed fd s ↔
    ¬ (s.watched fd = true ∧ removed = true) ∧ (¬ (s.bufs fd).Complete ∨ s.Refuses fd) := by
  have hread := readClient_nil fd s
  obtain ⟨hfront, hrefuses⟩ := readClient_nil_front fd s
  constructor
  · intro hagree
    obtain ⟨t, ⟨fuel, ht⟩, hsame⟩ := hagree.there (freeClientFd removed fd s) ⟨0, rfl⟩
    have hkept : ¬ (s.watched fd = true ∧ removed = true) := by
      -- The parse loop leaves the descriptor with epoll.
      intro ⟨hw, hremoved⟩
      have hfreed : freeClientFd removed fd s = s.freed fd := by
        unfold freeClientFd
        rw [hw, hremoved]
        rfl
      have hgone : t.watched fd = false := by
        rw [← hsame.watched, hfreed, (s.freed_spec fd).2.2.2.2.1, Function.update_self]
      have hstill : t.watched fd = true := by
        rw [(parseLoop_quiet ht).watched, ← hread.watched, hw]
      rw [hgone] at hstill
      cases hstill
    refine ⟨hkept, ?_⟩
    by_contra hboth
    have hcomplete : (s.bufs fd).Complete := by
      by_contra hnot
      exact hboth (.inl hnot)
    have hmarked : Marked fd (readClient fd [] s) t :=
      marked_of_complete (hfront.mpr hcomplete) (fun h => hboth (.inr (hrefuses.mp h))) ht
    rw [freeClientFd_kept hkept] at hsame
    exact hmarked.not_same (hread.symm.trans hsame)
  · intro ⟨hkept, hidle⟩
    have hquiet : ¬ ((readClient fd [] s).bufs fd).Complete ∨ (readClient fd [] s).Refuses fd := by
      rwa [hfront, hrefuses]
    obtain ⟨t', ht', hleft⟩ := parseLoop_of_idle env hquiet
    have hsame : SameEffect s t' := hread.trans hleft
    constructor
    · intro t ⟨fuel, ht⟩
      obtain rfl := Outcome.stopped.inj ht
      rw [freeClientFd_kept hkept]
      exact ⟨t', ⟨1, ht'⟩, hsame⟩
    · intro u ⟨fuel, hu⟩
      refine ⟨s, ⟨0, ?_⟩, ?_⟩
      · change Outcome.stopped (freeClientFd removed fd s) = .stopped s
        rw [freeClientFd_kept hkept]
      · rwa [iterate_stopped_unique hu ht']

/-- The handlers agree on whatever `read` returns but a size of zero. On that they agree exactly
when the descriptor would not be freed (epoll does not watch it or does not let go of it) and what
is at the front of the buffer is no complete frame, or an IP request that is refused. -/
theorem process_clients_agree_iff (r : ReadResult) (env : Nat → FrameEnv) (removed : Bool) (fd : Fd)
    (s : State) : Agree Server.processClient Built.processClient r env removed fd s ↔
      (r = .bytes [] → ¬ (s.watched fd = true ∧ removed = true) ∧
        (¬ (s.bufs fd).Complete ∨ s.Refuses fd)) := by
  by_cases hr : r = .bytes []
  · subst hr
    rw [agree_closed_iff]
    exact ⟨fun h _ => h, fun h => h rfl⟩
  · have hsame : ∀ t, Returns Built.processClient r env removed fd s t ↔
        Returns Server.processClient r env removed fd s t := by
      intro t
      rw [Returns, Returns]
      simp only [Built.processClient_of_ne hr]
    refine ⟨fun _ h => absurd h hr, fun _ => ⟨fun t ht => ?_, fun t ht => ?_⟩⟩
    · exact ⟨t, (hsame t).mpr ht, SameEffect.refl t⟩
    · exact ⟨t, (hsame t).mp ht, SameEffect.refl t⟩

end Handlers

/-- A client with an address goes away: one server releases the address, in the other it stays
allocated and the descriptor stays with epoll. -/
theorem closed_peer_kept : ∃ s, runFrom .usual
      [.server (some (7, true)), .client 7 (.bytes [5, 0, 0, 0, 100]) (.prompt 0) true 9] = some s ∧
    ((Server.processClient (.bytes []) (.prompt 0) true 1 7 s).returned.any fun t =>
      (t.users 2).status && !t.watched 7) = true ∧
    ((Built.processClient (.bytes []) (.prompt 0) true 1 7 s).returned.any fun t =>
      !(t.users 2).status && t.watched 7) = true ∧
    ¬ Agree Server.processClient Built.processClient (.bytes []) (.prompt 0) true 7 s := by
  have hany : ((runFrom .usual
      [.server (some (7, true)), .client 7 (.bytes [5, 0, 0, 0, 100]) (.prompt 0) true 9]).any
        fun s => decide (s.watched 7 = true ∧
          ((Server.processClient (.bytes []) (.prompt 0) true 1 7 s).returned.any fun t =>
            (t.users 2).status && !t.watched 7) = true ∧
          ((Built.processClient (.bytes []) (.prompt 0) true 1 7 s).returned.any fun t =>
            !(t.users 2).status && t.watched 7) = true)) = true := by decide +kernel
  obtain ⟨s, hrun, hs⟩ := (Option.any_eq_true _ _).mp hany
  obtain ⟨hw, hserver, hbuilt⟩ := of_decide_eq_true hs
  exact ⟨s, hrun, hserver, hbuilt, fun hagree => (agree_closed_iff.mp hagree).1 ⟨hw, rfl⟩⟩

end Over6.Server
