import Over6.Threaded.Clock
import Over6.Threaded.Stream

/-! # The end of a connection

A client that has gone sends nothing more: `read` returns 0, and -1 once
`keepLiveThread` has counted to 60 and closed the socket. How `readThread` takes the -1
depends on the message it read last.
-/

namespace Over6.Threaded

open MachineInt EventRun

/-! ## The message that is left -/

/-- After an IP request was answered its type is in `message` no more. -/
def Conn.Answered (c : Conn) : Prop :=
  match c.reading with
  | .check | .header _ => c.ipv4Address ≠ [] → c.message.header.type ≠ msgIpReq
  | .reply _ | .setStatus | .setConnection => c.message.header.type ≠ msgIpReq
  | _ => True

theorem header_type (m : Msg) : m.header.type = m 4 := by
  rw [Msg.header, Message.ofBytes, List.getD_eq_getElem?_getD, CellMemory.load_getElem?]
  rfl

/-- The type stays as it is until all of the header is there. -/
theorem type_store (m : Msg) {total : Nat} {bs : List UInt8} (h : total + bs.length < sizeofMessage) :
    Message.type (Msg.header (m.store total bs)) = m.header.type := by
  have hfive : sizeofMessage = 5 := rfl
  rw [header_type, header_type, CellMemory.store]
  split
  · rw [List.getD_eq_getElem?_getD, List.getElem?_eq_none (by omega), Option.getD_none]
  · rfl

theorem type_fill (m : Msg) (h : Message) (data : List UInt8) :
    (m.fill h data).header.type = h.type := by
  rw [Msg.header, front_fill]
  simp [Message.ofBytes, Message.bytes, List.getD_eq_getElem?_getD]

section Steps

variable {s s' : State} {i : Nat} {c c' : Conn} {a : Answer}

theorem headerRead_answered (c : Conn) : c.headerRead.Answered := by
  have hpoint : c.headerRead.reading = .body 0 ∨ c.headerRead.reading = .dispatch := by
    simp only [Conn.headerRead]
    split
    · exact .inl rfl
    · exact .inr rfl
  unfold Conn.Answered
  rcases hpoint with hpoint | hpoint <;> rw [hpoint] <;> trivial

theorem Takes.answered (h : Takes s i c a c' s') (hbefore : c.Answered) : c'.Answered := by
  cases h with
  | begins hpoint =>
      rw [Conn.Answered, hpoint] at hbefore
      exact hbefore
  | waits => exact hbefore
  | reads hpoint _ hshort hresult =>
      rw [Conn.Answered, hpoint] at hbefore
      subst hresult
      intro hheld
      rw [type_store c.message hshort]
      exact hbefore hheld
  | completes _ _ _ hresult => exact hresult ▸ headerRead_answered _
  | breaks => exact headerRead_answered c
  | stores _ _ _ hnext hresult =>
      subst hresult
      rcases hnext with ⟨_, rfl⟩ | ⟨_, rfl⟩ <;> trivial
  | overflows => exact hbefore
  | throws => exact hbefore
  | resets _ htype =>
      intro _ hreq
      exact absurd (htype.symm.trans hreq) (by decide)
  | pushes _ htype =>
      intro _ hreq
      exact absurd (htype.symm.trans hreq) (by decide)
  | skips _ htype => exact fun _ => htype.1
  | _ => trivial

theorem Serves.answered (h : Serves s i c a c' s') (hbusy : ¬ c.reading.Idle) (hbefore : c.Answered) :
    c'.Answered := by
  have htype : c'.message.header.type ≠ msgIpReq → c'.Answered := by
    intro hne
    unfold Conn.Answered
    split
    · exact fun _ => hne
    · exact fun _ => hne
    · exact hne
    · exact hne
    · exact hne
    · trivial
  have hgoes : c'.reading = .request ∨ c'.reading = .choose ∨ c'.reading = .ending ∨
      c'.reading = .ended → c'.Answered := by
    unfold Conn.Answered
    rintro (hpoint | hpoint | hpoint | hpoint) <;> rw [hpoint] <;> trivial
  rcases h.message with ⟨hmessage, hstays⟩ | ⟨addr, behind, hbuilds⟩
  · cases hpoint : c.reading with
    | request => exact hgoes ((hstays (.inl hpoint)).imp_right .inl)
    | choose => exact hgoes ((hstays (.inr hpoint)).imp_right .inl)
    | ending => exact hgoes (.inr (.inr (h.leaving (.inl hpoint))))
    | ended => exact hgoes (.inr (.inr (h.leaving (.inr hpoint))))
    | reply p =>
        rw [Conn.Answered, hpoint] at hbefore
        exact htype (hmessage ▸ hbefore)
    | setStatus =>
        rw [Conn.Answered, hpoint] at hbefore
        exact htype (hmessage ▸ hbefore)
    | setConnection =>
        rw [Conn.Answered, hpoint] at hbefore
        exact htype (hmessage ▸ hbefore)
    | _ =>
        rw [hpoint] at hbusy
        exact absurd trivial hbusy
  · refine htype ?_
    rw [hbuilds.result.2.2, replyMsg, type_fill]
    exact (by decide : msgIpRsb ≠ msgIpReq)

theorem answered_next {e : Event} (h : ∀ c, s.conns[i]? = some c → c.Answered)
    (hstep : next s e = some s') : ∀ c, s'.conns[i]? = some c → c.Answered := by
  intro d hd
  cases next_reader hstep i with
  | takes _ hc hc' htakes =>
      obtain rfl := Option.some.inj (hd.symm.trans hc')
      exact htakes.answered (h _ hc)
  | serves _ hc hbusy hserves =>
      obtain rfl := Option.some.inj (hd.symm.trans hserves.after)
      exact hserves.answered hbusy (h _ hc)
  | elsewhere _ haway =>
      cases hc : s.conns[i]? with
      | none =>
          obtain ⟨fd, stale, rfl⟩ := haway.fresh hc d hd
          exact fun hheld => absurd rfl hheld
      | some c =>
          obtain ⟨c', hc', _, hpoint, hmessage, haddress⟩ := haway.kept c hc
          obtain rfl := Option.some.inj (hd.symm.trans hc')
          have hbefore := h c hc
          rw [Conn.Answered, hpoint, hmessage, haddress]
          exact hbefore

end Steps

theorem answered_of_run {files : List (Option File)} {es : List Event} {s : State}
    (hrun : run next (State.start files) es = some s) {i : Nat} {c : Conn}
    (hc : s.conns[i]? = some c) : c.Answered :=
  run_invariant (fun s => ∀ c, s.conns[i]? = some c → c.Answered)
    (fun _ _ _ h hstep => answered_next h hstep) (fun c hc => by simp [State.start] at hc) hrun c hc

/-! ## A client that has gone -/

def ReadPoint.AtRead : ReadPoint → Prop
  | header _ | body _ => True
  | _ => False

instance : DecidablePred ReadPoint.AtRead := fun p =>
  match p with
  | .header _ | .body _ => inferInstanceAs (Decidable True)
  | .check | .dispatch | .request | .choose | .reply _ | .setStatus | .setConnection | .ending
  | .ended => inferInstanceAs (Decidable False)

def Event.readAnswer (i : Nat) : Event → Option Answer
  | read j a => if j = i then some a else none
  | _ => none

def Event.keepAnswer (i : Nat) : Event → Option Answer
  | keep j a => if j = i then some a else none
  | _ => none

/-- A connection that holds the address `n` and has read all that its client has sent, while
`keepLiveThread` goes on counting. -/
structure Departing (i n : Nat) (s : State) (c : Conn) : Prop where
  conn : s.conns[i]? = some c
  address : c.ipv4Address = ipText n
  waits : c.reading.AtRead
  counting : c.keeping ≠ .close ∧ c.keeping ≠ .ended
  marked : s.status n = true
  up : s.crash = none ∧ s.stuck = false

/-- What the kernel and the other threads do then: `read` returns 0, and -1 once the socket is closed;
heartbeats go out; nobody else frees the address, keeps `ipMutex` for ever or takes the process
down. -/
structure Gone (i n : Nat) (s : State) (e : Event) : Prop where
  reads : ∀ a ∈ e.readAnswer i, ∀ c ∈ s.conns[i]?, c.reading.AtRead →
    a = if c.keeping = .ended then .error else .again
  sends : ∀ a ∈ e.keepAnswer i, a ≠ .error
  others : e.readAnswer i = none → (∀ c ∈ s.conns[i]?, c.reading ≠ .ended) →
    ∀ s' ∈ next s e, s'.crash = none ∧ s'.stuck = false ∧ s'.status n = s.status n

instance (i n : Nat) (s : State) (e : Event) : Decidable (Gone i n s e) :=
  decidable_of_iff (_ ∧ _ ∧ _) ⟨fun h => ⟨h.1, h.2.1, h.2.2⟩, fun h => ⟨h.reads, h.sends, h.others⟩⟩

def Released (i n : Nat) (s : State) : Prop :=
  s.status n = false ∧ ∃ c, s.conns[i]? = some c ∧ c.reading = .ended

/-- The `switch` goes past the message, or pushes it. -/
def Msg.Passed (m : Msg) : Prop :=
  m.header.type ≠ msgHeartbeat ∧ (m.header.type = msgDataReq → 0 ≤ m.header.length)

/-- The client has gone in the middle of its data, or left a message that has data, is passed or is
pushed. -/
def Conn.Leaves (c : Conn) : Prop :=
  match c.reading with
  | .header _ => c.message.Passed ∨ c.message.header.type = msgDataReq ∧ 0 < c.message.bodySize
  | _ => True

instance (m : Msg) : Decidable m.Passed := inferInstanceAs (Decidable (_ ∧ _))

instance (c : Conn) : Decidable c.Leaves := by
  unfold Conn.Leaves
  exact match c.reading with
    | .header _ => inferInstanceAs (Decidable (_ ∨ _))
    | .check | .body _ | .dispatch | .request | .choose | .reply _ | .setStatus
    | .setConnection | .ending | .ended => inferInstanceAs (Decidable True)

/-- How many steps `readThread` takes to its end, once the socket is closed. -/
def ReadPoint.left : ReadPoint → Nat
  | header _ => 4
  | dispatch => 3
  | body _ | check => 2
  | ending => 1
  | _ => 0

/-! ## On the way to the end -/

inductive Stage (c d : Conn) : Prop
  | waits (point : d.reading = c.reading) (message : d.message = c.message)
      (read : d.reading.AtRead)
  | body (closed : d.keeping = .ended) (point : d.reading = .body 0)
  | dispatch (closed : d.keeping = .ended) (point : d.reading = .dispatch)
      (message : d.message = c.message) (passed : c.message.Passed)
  | check (closed : d.keeping = .ended) (point : d.reading = .check)
  | ending (closed : d.keeping = .ended) (point : d.reading = .ending)

structure Closing (i n : Nat) (c : Conn) (s : State) (d : Conn) : Prop where
  conn : s.conns[i]? = some d
  address : d.ipv4Address = ipText n
  stage : Stage c d
  limit : d.keeping = .close ∨ d.keeping = .ended → 60 ≤ d.heartBeatCount
  marked : s.status n = true
  up : s.crash = none ∧ s.stuck = false

section Closing

variable {s s' : State} {i n : Nat} {c d d' : Conn} {a : Answer}

theorem Stage.left_pos (h : Stage c d) : 0 < d.reading.left := by
  cases h with
  | waits _ _ hread =>
      cases hpoint : d.reading with
      | header total => exact (by decide : 0 < 4)
      | body total => exact (by decide : 0 < 2)
      | _ =>
          rw [hpoint] at hread
          exact hread.elim
  | body _ hpoint => exact hpoint ▸ (by decide : 0 < 2)
  | dispatch _ hpoint => exact hpoint ▸ (by decide : 0 < 3)
  | check _ hpoint => exact hpoint ▸ (by decide : 0 < 2)
  | ending _ hpoint => exact hpoint ▸ (by decide : 0 < 1)

theorem Closing.live (h : Closing i n c s d) : d.reading ≠ .ended := fun hended =>
  absurd h.stage.left_pos (by simp [hended, ReadPoint.left])

/-- A step of `keepLiveThread`: it closes the socket after sixty seconds only. -/
theorem Beats.closing (h : Beats d a d') (hfine : a ≠ .error) (hstage : Stage c d)
    (hlimit : d.keeping = .close ∨ d.keeping = .ended → 60 ≤ d.heartBeatCount) :
    Stage c d' ∧ (d'.keeping = .close ∨ d'.keeping = .ended → 60 ≤ d'.heartBeatCount) := by
  obtain ⟨hpoint, hmessage, _⟩ := h.same
  constructor
  · have hopen := h.running
    cases hstage with
    | waits hat hsame hread =>
        exact .waits (hpoint.trans hat) (hmessage.trans hsame) (hpoint ▸ hread)
    | body hclosed => exact absurd hclosed hopen
    | dispatch hclosed => exact absurd hclosed hopen
    | check hclosed => exact absurd hclosed hopen
    | ending hclosed => exact absurd hclosed hopen
  · cases h with
    | stops _ hcount => exact fun _ => hcount
    | closes hat => exact fun _ => hlimit (.inl hat)
    | @sends p sent mutex _ hfailed =>
        cases sent with
        | failed => exact absurd (hfailed rfl) hfine
        | more p' => rintro (hat | hat) <;> cases hat
        | done => rintro (hat | hat) <;> cases hat
    | _ => rintro (hat | hat) <;> cases hat

theorem stepRead_again (hpoint : d.reading.AtRead) (h : stepRead s i d .again = some s') :
    s' = (s.set i d).note (.read i (s.socket d.socketFd) .again) := by
  cases hat : d.reading with
  | header total =>
      simp only [stepRead, hat] at h
      split at h
      · exact (Option.some.inj h).symm
      · cases h
  | body total =>
      simp only [stepRead, hat] at h
      split at h
      · exact (Option.some.inj h).symm
      · cases h
  | _ =>
      rw [hat] at hpoint
      exact hpoint.elim

theorem stepRead_header_error {total : Nat} (hpoint : d.reading = .header total)
    (h : stepRead s i d .error = some s') :
    s' = (s.set i d.headerRead).note (.read i (s.socket d.socketFd) .error) := by
  simp only [stepRead, hpoint] at h
  split at h
  · exact (Option.some.inj h).symm
  · cases h

theorem stepRead_body_error {total : Nat} (hpoint : d.reading = .body total)
    (h : stepRead s i d .error = some s') :
    s' = (s.set i { d with reading := .ending }).note (.read i (s.socket d.socketFd) .error) := by
  simp only [stepRead, hpoint] at h
  split at h
  · exact (Option.some.inj h).symm
  · cases h

/-- A step that leaves the address marked. -/
theorem Closing.stays (h : Closing i n c s d) {t : State} (hconn : t.conns[i]? = some d')
    (hup : t.crash = none ∧ t.stuck = false ∧ t.status n = s.status n)
    (haddress : d'.ipv4Address = d.ipv4Address) (hstage : Stage c d')
    (hlimit : d'.keeping = .close ∨ d'.keeping = .ended → 60 ≤ d'.heartBeatCount) :
    Closing i n c t d' where
  conn := hconn
  address := haddress.trans h.address
  stage := hstage
  limit := hlimit
  marked := hup.2.2.trans h.marked
  up := ⟨hup.1, hup.2.1⟩

def Advances (i n : Nat) (c d : Conn) (t : State) : Prop :=
  Released i n t ∨
    ∃ d', Closing i n c t d' ∧ d'.keeping = d.keeping ∧ d'.reading.left < d.reading.left

/-- `readThread` goes on at another point. -/
theorem Closing.advances (h : Closing i n c s d) (hclosed : d.keeping = .ended) {t : State}
    (hconn : t.conns[i]? = some d') (hpool : SamePool s t)
    (hsame : d'.ipv4Address = d.ipv4Address ∧ d'.keeping = d.keeping ∧
      d'.heartBeatCount = d.heartBeatCount)
    (hstage : Stage c d') (hnear : d'.reading.left < d.reading.left) :
    Advances i n c d t := by
  refine .inr ⟨d', ?_, hsame.2.1, hnear⟩
  have hup : t.crash = none ∧ t.stuck = false ∧ t.status n = s.status n := by
    rw [hpool.crash, hpool.stuck, hpool.status]
    exact ⟨h.up.1, h.up.2, rfl⟩
  refine h.stays hconn hup hsame.1 hstage fun _ => ?_
  rw [hsame.2.2]
  exact h.limit (.inr hclosed)

theorem Closing.header (h : Closing i n c s d) (hclosed : d.keeping = .ended) {total : Nat}
    (hpoint : d.reading = .header total) (hmessage : d.message = c.message)
    (hleaves : c.message.Passed ∨ c.message.header.type = msgDataReq ∧ 0 < c.message.bodySize)
    (hstep : stepRead s i d .error = some s') : Advances i n c d s' := by
  rw [stepRead_header_error hpoint hstep]
  by_cases hbody : d.message.header.type = msgDataReq ∧ 0 < d.message.bodySize
  · have hgoes : d.headerRead.reading = .body 0 := if_pos hbody
    refine h.advances hclosed (at_set h.conn rfl _) ⟨rfl, rfl, rfl, rfl⟩ ⟨rfl, rfl, rfl⟩
      (.body hclosed hgoes) ?_
    rw [hgoes, hpoint]
    exact (by decide : 2 < 4)
  · have hgoes : d.headerRead.reading = .dispatch := if_neg hbody
    rw [hmessage] at hbody
    refine h.advances hclosed (at_set h.conn rfl _) ⟨rfl, rfl, rfl, rfl⟩ ⟨rfl, rfl, rfl⟩
      (.dispatch hclosed hgoes hmessage (hleaves.resolve_right hbody)) ?_
    rw [hgoes, hpoint]
    exact (by decide : 3 < 4)

theorem Closing.body (h : Closing i n c s d) (hclosed : d.keeping = .ended) {total : Nat}
    (hpoint : d.reading = .body total) (hstep : stepRead s i d .error = some s') :
    Advances i n c d s' := by
  rw [stepRead_body_error hpoint hstep]
  refine h.advances hclosed (at_set h.conn rfl _) ⟨rfl, rfl, rfl, rfl⟩ ⟨rfl, rfl, rfl⟩
    (.ending hclosed rfl) ?_
  rw [hpoint]
  exact (by decide : 1 < 2)

theorem Closing.dispatch (h : Closing i n c s d) (hclosed : d.keeping = .ended)
    (hpoint : d.reading = .dispatch) (hpassed : d.message.Passed)
    (hreq : d.message.header.type ≠ msgIpReq) (hstep : stepRead s i d a = some s') :
    Advances i n c d s' := by
  have hnear : ReadPoint.check.left < d.reading.left := by
    rw [hpoint]
    decide
  obtain ⟨d', htakes⟩ := takes_dispatch hpoint hstep
  cases htakes with
  | asks _ htype => exact absurd htype hreq
  | resets _ htype => exact absurd htype hpassed.1
  | throws _ htype hlength => exact absurd (hpassed.2 htype) (Int.not_le.mpr hlength)
  | pushes =>
      exact h.advances hclosed (at_set h.conn rfl _) ⟨rfl, rfl, rfl, rfl⟩ ⟨rfl, rfl, rfl⟩
        (.check hclosed rfl) hnear
  | skips =>
      exact h.advances hclosed (at_set h.conn rfl _) ⟨rfl, rfl, rfl, rfl⟩ ⟨rfl, rfl, rfl⟩
        (.check hclosed rfl) hnear
  | begins hat => exact absurd (hpoint.symm.trans hat) nofun
  | stops hat => exact absurd (hpoint.symm.trans hat) nofun
  | waits hat => rcases hat with ⟨_, hat⟩ | ⟨_, hat⟩ <;> exact absurd (hpoint.symm.trans hat) nofun
  | reads hat => exact absurd (hpoint.symm.trans hat) nofun
  | completes hat => exact absurd (hpoint.symm.trans hat) nofun
  | breaks hat => exact absurd (hpoint.symm.trans hat) nofun
  | stores hat => exact absurd (hpoint.symm.trans hat) nofun
  | overflows hat => exact absurd (hpoint.symm.trans hat) nofun
  | loses hat => exact absurd (hpoint.symm.trans hat) nofun

theorem Closing.check (h : Closing i n c s d) (hclosed : d.keeping = .ended)
    (hpoint : d.reading = .check) (hstep : stepRead s i d a = some s') : Advances i n c d s' := by
  have hlimit : ¬ d.heartBeatCount < 60 := Nat.not_lt.mpr (h.limit (.inr hclosed))
  simp only [stepRead, hpoint, if_neg hlimit, Option.some.injEq] at hstep
  subst hstep
  refine h.advances hclosed (at_set h.conn rfl _) ⟨rfl, rfl, rfl, rfl⟩ ⟨rfl, rfl, rfl⟩
    (.ending hclosed rfl) ?_
  rw [hpoint]
  exact (by decide : 1 < 2)

/-- The last step frees the address. -/
theorem Closing.ending (h : Closing i n c s d) (hn : n < 1024) (hpoint : d.reading = .ending)
    (hstep : stepRead s i d a = some s') : Advances i n c d s' := by
  have hnumber : getIpNum d.ipv4Address = some (n : Int) := by
    rw [h.address, getIpNum_ipText (by omega)]
  have hsection : s.setIpStatus d.ipv4Address false =
      .ok { s with status := Function.update s.status n false } := by
    simp only [State.setIpStatus, hnumber, h.marked, Bool.true_eq_false, if_false]
  simp only [stepRead, hpoint, hsection, State.locked, h.up.2, Bool.false_eq_true, if_false,
    Option.some.injEq] at hstep
  subst hstep
  exact .inl ⟨Function.update_self .., { d with reading := .ended }, at_set h.conn rfl _, rfl⟩

/-- What `readThread` does when the socket is closed. -/
theorem Closing.closed_step (h : Closing i n c s d) (hn : n < 1024) (hleaves : c.Leaves)
    (hreq : c.message.header.type ≠ msgIpReq) (hclosed : d.keeping = .ended)
    (hgone : d.reading.AtRead → a = .error) (hstep : stepRead s i d a = some s') :
    Advances i n c d s' := by
  cases h.stage with
  | waits hpoint hmessage hread =>
      obtain rfl := hgone hread
      cases hreading : d.reading with
      | header total =>
          rw [Conn.Leaves, ← hpoint, hreading] at hleaves
          exact h.header hclosed hreading hmessage hleaves hstep
      | body total => exact h.body hclosed hreading hstep
      | _ =>
          rw [hreading] at hread
          exact hread.elim
  | body _ hpoint =>
      obtain rfl := hgone (by rw [hpoint]; trivial)
      exact h.body hclosed hpoint hstep
  | dispatch _ hpoint hmessage hpassed =>
      exact h.dispatch hclosed hpoint (hmessage ▸ hpassed) (hmessage ▸ hreq) hstep
  | check _ hpoint => exact h.check hclosed hpoint hstep
  | ending _ hpoint => exact h.ending hn hpoint hstep

theorem Stage.open (h : Stage c d) (hopen : d.keeping ≠ .ended) : d.reading.AtRead := by
  cases h with
  | waits _ _ hread => exact hread
  | body hclosed => exact absurd hclosed hopen
  | dispatch hclosed => exact absurd hclosed hopen
  | check hclosed => exact absurd hclosed hopen
  | ending hclosed => exact absurd hclosed hopen

theorem Rests.stage (h : Rests d d') (hstage : Stage c d) : Stage c d' := by
  have hkeeping := h.keeping
  cases hstage with
  | waits hpoint hmessage hread =>
      exact .waits (h.reading.trans hpoint) (h.message.trans hmessage) (h.reading ▸ hread)
  | body hclosed hpoint => exact .body (hkeeping.trans hclosed) (h.reading.trans hpoint)
  | dispatch hclosed hpoint hmessage hpassed =>
      exact .dispatch (hkeeping.trans hclosed) (h.reading.trans hpoint)
        (h.message.trans hmessage) hpassed
  | check hclosed hpoint => exact .check (hkeeping.trans hclosed) (h.reading.trans hpoint)
  | ending hclosed hpoint => exact .ending (hkeeping.trans hclosed) (h.reading.trans hpoint)

/-- `d` goes on, and is no farther from the end; a step of `readThread` on the closed socket brings
it nearer. -/
def Nears (i n : Nat) (c d : Conn) (e : Event) (t : State) : Prop :=
  ∃ d', Closing i n c t d' ∧ (d.keeping = .ended → d'.keeping = .ended ∧
    d'.reading.left + (if (e.readAnswer i).isSome then 1 else 0) ≤ d.reading.left)

theorem Closing.step (h : Closing i n c s d) (hn : n < 1024) (hleaves : c.Leaves)
    (hreq : c.message.header.type ≠ msgIpReq) {e : Event} (hgone : Gone i n s e)
    (hstep : next s e = some s') : Released i n s' ∨ Nears i n c d e s' := by
  have hlive : ∀ c, s.conns[i]? = some c → c.reading ≠ .ended := fun b hb =>
    Option.some.inj (h.conn.symm.trans hb) ▸ h.live
  cases next_course h.conn hstep with
  | @reads a d' hread hconn hkeeping =>
      subst hread
      have hthread := stepRead_of_next h.conn hstep
      have hanswer := hgone.reads a (if_pos rfl) d h.conn
      by_cases hclosed : d.keeping = .ended
      · have hadvances := h.closed_step hn hleaves hreq hclosed
          (fun hat => (hanswer hat).trans (if_pos hclosed)) hthread
        rcases hadvances with hreleased | ⟨d', hclosing, hkeeps, hnear⟩
        · exact .inl hreleased
        · refine .inr ⟨d', hclosing, fun _ => ⟨hkeeps.trans hclosed, ?_⟩⟩
          simpa [Event.readAnswer, Nat.succ_le_iff] using hnear
      · have hat := h.stage.open hclosed
        obtain rfl := (hanswer hat).trans (if_neg hclosed)
        rw [stepRead_again hat hthread]
        exact .inr ⟨d, h.stays (at_set h.conn rfl _) ⟨h.up.1, h.up.2, rfl⟩ rfl h.stage h.limit,
          fun hended => absurd hended hclosed⟩
  | @beats a d' hbeat hconn hbeats =>
      subst hbeat
      have hup := hgone.others rfl hlive s' hstep
      obtain ⟨hstage, hlimit⟩ := hbeats.closing (hgone.sends a (if_pos rfl)) h.stage h.limit
      exact .inr ⟨d', h.stays hconn hup hbeats.same.2.2 hstage hlimit,
        fun hended => absurd hended hbeats.running⟩
  | @rests d' hother hconn hsame =>
      have hread : e.readAnswer i = none := by
        cases e with
        | read j a => exact if_neg fun hj => (hother a).1 (by rw [hj])
        | _ => rfl
      have hup := hgone.others hread hlive s' hstep
      have hlimit : d'.keeping = .close ∨ d'.keeping = .ended → 60 ≤ d'.heartBeatCount := by
        rw [hsame.keeping, hsame.count]
        exact h.limit
      refine .inr ⟨d', h.stays hconn hup hsame.address (hsame.stage h.stage) hlimit, fun hended => ?_⟩
      rw [hread, hsame.reading]
      exact ⟨hsame.keeping.trans hended, Nat.le_refl _⟩

section Run

variable {es : List Event} {t : State} (hn : n < 1024) (hleaves : c.Leaves)
  (hreq : c.message.header.type ≠ msgIpReq) (hrun : run next s es = some t)
  (hgone : ∀ pre e post v, es = pre ++ e :: post → run next s pre = some v → Gone i n v e)

include hn hleaves hreq hrun hgone

/-- Until the address is free `readThread` is on its way to the end. -/
theorem Closing.runs (h : Closing i n c s d) :
    (∃ pre v, pre <+: es ∧ run next s pre = some v ∧ Released i n v) ∨
      ∃ d', Closing i n c t d' := by
  have hranked := run_ranked (fun _ => false) (Gone i n)
    (fun _ s => ∃ d, Closing i n c s d) (Released i n) (k := 0) ?_ ⟨d, h⟩ hrun hgone
  · exact hranked.imp_right fun ⟨_, hclosing, _⟩ => hclosing
  · rintro _ s e s' ⟨d, hd⟩ hstays hstep
    refine (hd.step hn hleaves hreq hstays hstep).imp_right ?_
    exact fun ⟨d', hd', _⟩ => ⟨0, ⟨d', hd'⟩, Nat.zero_le _⟩

/-- On the closed socket every step of `readThread` counts. -/
theorem Closing.runs_closed (h : Closing i n c s d) (hclosed : d.keeping = .ended) :
    (∃ pre v, pre <+: es ∧ run next s pre = some v ∧ Released i n v) ∨
      ∃ d', Closing i n c t d' ∧
        d'.reading.left + es.countP (fun e => (e.readAnswer i).isSome) ≤ d.reading.left := by
  have hranked := run_ranked (fun e => (e.readAnswer i).isSome) (Gone i n)
    (fun k s => ∃ d, Closing i n c s d ∧ d.keeping = .ended ∧ d.reading.left = k) (Released i n)
    ?_ ⟨d, h, hclosed, rfl⟩ hrun hgone
  · refine hranked.imp_right ?_
    rintro ⟨_, ⟨d', hd', _, rfl⟩, hcount⟩
    exact ⟨d', hd', hcount⟩
  · rintro _ s e s' ⟨b, hb, hover, rfl⟩ hstays hstep
    refine (hb.step hn hleaves hreq hstays hstep).imp_right ?_
    intro ⟨b', hb', hnear⟩
    exact ⟨b'.reading.left, ⟨b', hb', (hnear hover).1, rfl⟩, (hnear hover).2⟩

end Run

/-- Nothing keeps `readThread` from going on. -/
theorem Closing.enabled (h : Closing i n c s d) : ∃ a, next s (.read i a) ≠ none := by
  have hnext : ∀ a, next s (.read i a) = stepRead s i d a := by
    intro a
    simp only [next, h.up.1, Option.isSome_none, Bool.false_eq_true, if_false, h.conn,
      Option.bind_some]
  have hanswers : s.Answers d.socketFd .error := .inr rfl
  have hat : d.reading.AtRead → ∃ a, next s (.read i a) ≠ none := by
    intro hread
    refine ⟨.error, ?_⟩
    rw [hnext]
    cases hpoint : d.reading with
    | header total => simp [stepRead, hpoint, hanswers, Conn.readHeader]
    | body total => simp [stepRead, hpoint, hanswers, Conn.readBody]
    | _ =>
        rw [hpoint] at hread
        exact hread.elim
  cases h.stage with
  | waits _ _ hread => exact hat hread
  | body _ hpoint => exact hat (by rw [hpoint]; trivial)
  | dispatch _ hpoint =>
      refine ⟨.again, ?_⟩
      rw [hnext]
      simp [stepRead, hpoint]
  | check _ hpoint =>
      refine ⟨.again, ?_⟩
      rw [hnext]
      simp [stepRead, hpoint]
  | ending _ hpoint =>
      refine ⟨.again, ?_⟩
      rw [hnext]
      simp only [stepRead, hpoint, State.locked, h.up.2, Bool.false_eq_true, if_false]
      split <;> simp

end Closing

/-! ## Never to the end -/

/-- `readThread` goes round with the message it has, or takes the process down with it. -/
structure Lingers (i : Nat) (c : Conn) (s : State) (d : Conn) : Prop where
  conn : s.conns[i]? = some d
  message : d.message = c.message
  point : (∃ total, d.reading = .header total) ∨
    d.keeping = .ended ∧ (d.reading = .dispatch ∨ d.reading = .check ∧ d.heartBeatCount < 60)

section Lingers

variable {s s' : State} {i n : Nat} {c d d' : Conn} {a : Answer}

theorem Lingers.dispatch (h : Lingers i c s d) (hheld : ¬ c.message.Passed)
    (hclosed : d.keeping = .ended) (hpoint : d.reading = .dispatch)
    (hstep : stepRead s i d a = some s') : ∃ d', Lingers i c s' d' := by
  simp only [stepRead, hpoint, Option.some.injEq] at hstep
  subst hstep
  rw [← h.message] at hheld
  by_cases htype : d.message.header.type = msgHeartbeat
  · have hreq : d.message.header.type ≠ msgIpReq :=
      fun hreq => absurd (htype.symm.trans hreq) (by decide)
    rw [State.dispatch, if_neg hreq, if_pos htype]
    exact ⟨_, at_set h.conn rfl _, h.message, .inr ⟨hclosed, .inr ⟨rfl, (by decide : 0 < 60)⟩⟩⟩
  · obtain ⟨hdata, hlength⟩ : d.message.header.type = msgDataReq ∧ d.message.header.length < 0 := by
      simpa [Msg.Passed, htype] using hheld
    have hreq : d.message.header.type ≠ msgIpReq :=
      fun hreq => absurd (hdata.symm.trans hreq) (by decide)
    rw [State.dispatch, if_neg hreq, if_neg htype, if_pos hdata, if_pos hlength]
    exact ⟨d, h.conn, h.message, .inr ⟨hclosed, .inl hpoint⟩⟩

theorem Lingers.step (h : Lingers i c s d) (hheld : ¬ c.message.Passed)
    (hbody : ¬ (c.message.header.type = msgDataReq ∧ 0 < c.message.bodySize)) {e : Event}
    (hgone : Gone i n s e) (hstep : next s e = some s') : ∃ d', Lingers i c s' d' := by
  cases next_course h.conn hstep with
  | @reads a d' hread hconn hkeeping =>
      subst hread
      have hthread := stepRead_of_next h.conn hstep
      rcases h.point with ⟨total, hpoint⟩ | ⟨hclosed, hpoint | ⟨hpoint, hbelow⟩⟩
      · have hat : d.reading.AtRead := by rw [hpoint]; trivial
        have hanswer := hgone.reads a (if_pos rfl) d h.conn hat
        by_cases hclosed : d.keeping = .ended
        · obtain rfl := hanswer.trans (if_pos hclosed)
          rw [stepRead_header_error hpoint hthread]
          refine ⟨d.headerRead, at_set h.conn rfl _, h.message, .inr ⟨hclosed, .inl ?_⟩⟩
          exact if_neg (h.message ▸ hbody)
        · obtain rfl := hanswer.trans (if_neg hclosed)
          rw [stepRead_again hat hthread]
          exact ⟨d, at_set h.conn rfl _, h.message, .inl ⟨total, hpoint⟩⟩
      · exact h.dispatch hheld hclosed hpoint hthread
      · simp only [stepRead, hpoint, if_pos hbelow, Option.some.injEq] at hthread
        subst hthread
        exact ⟨_, at_set h.conn rfl _, h.message, .inl ⟨0, rfl⟩⟩
  | @beats a d' hbeat hconn hbeats =>
      obtain ⟨hreading, hmessage, _⟩ := hbeats.same
      refine ⟨d', hconn, hmessage.trans h.message, .inl ?_⟩
      rw [hreading]
      exact h.point.resolve_right fun hclosed => hbeats.running hclosed.1
  | @rests d' hother hconn hsame =>
      refine ⟨d', hconn, hsame.message.trans h.message, ?_⟩
      rw [hsame.reading, hsame.keeping, hsame.count]
      exact h.point

theorem Lingers.runs (h : Lingers i c s d) (hheld : ¬ c.message.Passed)
    (hbody : ¬ (c.message.header.type = msgDataReq ∧ 0 < c.message.bodySize)) {es : List Event}
    {t : State} (hrun : run next s es = some t)
    (hgone : ∀ pre e post v, es = pre ++ e :: post → run next s pre = some v →
      Gone i n v e) : ∃ d', Lingers i c t d' := by
  refine run_meeting (Gone i n) (fun s => ∃ d, Lingers i c s d) ?_ ⟨d, h⟩ hrun hgone
  rintro s e s' ⟨d, hd⟩ hstays hstep
  exact hd.step hheld hbody hstays hstep

theorem Lingers.not_released (h : Lingers i c s d) : ¬ Released i n s := by
  rintro ⟨_, d', hd', hended⟩
  obtain rfl := Option.some.inj (h.conn.symm.trans hd')
  have hpoint := h.point
  simp [hended] at hpoint

end Lingers

/-! ## Runs -/

theorem ReadPoint.left_le (p : ReadPoint) : p.left ≤ 4 := by
  cases p <;> simp [left]

section Runs

variable {files : List (Option File)} {es : List Event} {s : State} {i n : Nat} {c : Conn}

theorem Departing.number (h : Departing i n s c)
    (hrun : run next (State.start files) es = some s) : n < 1024 := by
  rcases ((mailed_of_run hrun).conns i c h.conn).address with hnone | ⟨m, hm, haddress⟩
  · exact absurd (h.address.symm.trans hnone) (ipText_ne_nil n)
  · rwa [ipText_injective (h.address.symm.trans haddress)]

/-- The message it left is no IP request. -/
theorem Departing.type (h : Departing i n s c)
    (hrun : run next (State.start files) es = some s) : c.message.header.type ≠ msgIpReq := by
  have hread := h.waits
  have hheld : c.ipv4Address ≠ [] := h.address ▸ ipText_ne_nil n
  cases hpoint : c.reading with
  | header total =>
      have hanswered := answered_of_run hrun h.conn
      rw [Conn.Answered, hpoint] at hanswered
      exact hanswered hheld
  | body total =>
      have hwaiting := (reading_of_run hrun i).waiting c h.conn
      rw [Conn.Waiting, hpoint] at hwaiting
      exact fun hreq => absurd (hwaiting.1.symm.trans hreq) (by decide)
  | _ =>
      rw [hpoint] at hread
      exact hread.elim

theorem Departing.closing (h : Departing i n s c) : Closing i n c s c where
  conn := h.conn
  address := h.address
  stage := .waits rfl rfl h.waits
  limit := fun hover => hover.elim (absurd · h.counting.1) (absurd · h.counting.2)
  marked := h.marked
  up := h.up

end Runs

/-- A client that was granted an address is gone, its last message cut anywhere, and `keepLiveThread`
counts to 60 and closes the socket: `readThread` ends and frees the address exactly if the client went
in the middle of its data, or the message it left behind is not a keepalive and, of type 102, has data
to wait for or no negative length. -/
theorem departure_iff (files : List (Option File)) (es : List Event) (s : State)
    (hrun : run next (State.start files) es = some s) (i n : Nat) (c : Conn)
    (hdeparting : Departing i n s c) (es₁ es₂ : List Event) (u t : State)
    (hbefore : run next s es₁ = some u) (hafter : run next u es₂ = some t)
    (hgone : ∀ pre e post v, es₁ ++ es₂ = pre ++ e :: post → run next s pre = some v → Gone i n v e)
    (hclosed : ∃ d, u.conns[i]? = some d ∧ d.keeping = .ended)
    (hlong : 4 ≤ es₂.countP (fun e => (e.readAnswer i).isSome) ∨ ∀ a, next t (.read i a) = none) :
    (∃ pre v, pre <+: es₁ ++ es₂ ∧ run next s pre = some v ∧ Released i n v) ↔ c.Leaves := by
  constructor
  · rintro ⟨pre, v, ⟨rest, hpre⟩, hv, hreleased⟩
    unfold Conn.Leaves
    split
    · rename_i total hpoint
      by_contra hno
      obtain ⟨hheld, hbody⟩ := not_or.mp hno
      have hstart : Lingers i c s c := ⟨hdeparting.conn, rfl, .inl ⟨total, hpoint⟩⟩
      obtain ⟨d, hd⟩ := hstart.runs hheld hbody hv fun pre' e post v' hsplit hv' =>
        hgone pre' e (post ++ rest) v' (by rw [← hpre, hsplit]; simp) hv'
      exact hd.not_released hreleased
    · trivial
  · intro hleaves
    have hn := hdeparting.number hrun
    have hreq := hdeparting.type hrun
    have hfirst := hdeparting.closing.runs hn hleaves hreq hbefore fun pre e post v hsplit hv =>
      hgone pre e (post ++ es₂) v (by rw [hsplit]; simp) hv
    rcases hfirst with ⟨pre, v, hpre, hv, hreleased⟩ | ⟨d, hd⟩
    · exact ⟨pre, v, hpre.trans (List.prefix_append _ _), hv, hreleased⟩
    · obtain ⟨d', hd', hended⟩ := hclosed
      obtain rfl := Option.some.inj (hd.conn.symm.trans hd')
      have hsecond := hd.runs_closed hn hleaves hreq hafter (fun pre e post v hsplit hv =>
        hgone (es₁ ++ pre) e post v (by rw [hsplit]; simp) (run_append_iff.mpr ⟨u, hbefore, hv⟩)) hended
      rcases hsecond with ⟨pre, v, hpre, hv, hreleased⟩ | ⟨b, hb, hcount⟩
      · exact ⟨es₁ ++ pre, v, (List.prefix_append_right_inj _).mpr hpre,
          run_append_iff.mpr ⟨u, hbefore, hv⟩, hreleased⟩
      · rcases hlong with hmany | hstuck
        · have hfour := d.reading.left_le
          have hone := hb.stage.left_pos
          omega
        · obtain ⟨a, ha⟩ := hb.enabled
          exact absurd (hstuck a) ha

/-- A client that asks for an address and goes. -/
def granted : List Event := .accept blank :: grant 0 54 ++ [.read 0 .again]

def untilClose (i : Nat) : List Event :=
  (List.replicate 3 ((List.replicate 20 [Event.keep i .again, .keep i .again, .keep i .again]).flatten ++
    [.keep i .again, .keep i (.count 5)])).flatten ++ [.keep i .again, .keep i .again]

def closedRound : List Event := [.read 0 .error, .read 0 .again, .read 0 .again]

def closedReads : List Event := closedRound ++ [.read 0 .again]

theorem departure_granted :
    ∃ s u t, run next (State.start opened) granted = some s ∧ run next s (untilClose 0) = some u ∧
      run next u closedReads = some t ∧
      ∃ pre v, pre <+: untilClose 0 ++ closedReads ∧ run next s pre = some v ∧ Released 0 2 v := by
  have hstate : (run next (State.start opened) granted).map
      (fun s => (s.conns.map (fun c => decide (c.ipv4Address = ipText 2 ∧ c.reading.AtRead ∧
        (c.keeping ≠ .close ∧ c.keeping ≠ .ended) ∧ c.Leaves)), s.status 2, s.crash, s.stuck)) =
      some ([true], true, none, false) := by decide +kernel
  have hgoes : (run next (State.start opened) granted).map
      (fun s => ((run next s (untilClose 0)).map
          (fun u => (u.conns.map Conn.keeping, (run next u closedReads).isSome)),
        clean next (fun s e => ¬ Gone 0 2 s e) s (untilClose 0 ++ closedReads))) =
      some (some ([.ended], true), true) := by decide +kernel
  obtain ⟨s, hs, hat⟩ := Option.map_eq_some_iff.mp hstate
  rw [hs, Option.map_some, Option.some.injEq, Prod.mk.injEq] at hgoes
  obtain ⟨hruns, hclean⟩ := hgoes
  simp only [Prod.mk.injEq] at hat
  obtain ⟨hconns, hmarked, hcrash, hstuck⟩ := hat
  obtain ⟨c, hone, hconn⟩ := List.map_eq_singleton_iff.mp hconns
  obtain ⟨haddress, hread, hcounting, hleaves⟩ := of_decide_eq_true hconn
  obtain ⟨u, hu, hends⟩ := Option.map_eq_some_iff.mp hruns
  simp only [Prod.mk.injEq] at hends
  obtain ⟨d, hlast, hended⟩ := List.map_eq_singleton_iff.mp hends.1
  obtain ⟨t, ht⟩ := Option.isSome_iff_exists.mp hends.2
  have hdeparting : Departing 0 2 s c :=
    ⟨by rw [hone]; rfl, haddress, hread, hcounting, hmarked, hcrash, hstuck⟩
  exact ⟨s, u, t, hs, hu, ht, (departure_iff opened granted s hs 0 2 c hdeparting (untilClose 0)
    closedReads u t hu ht (good_of_clean hclean) ⟨d, by rw [hlast]; rfl, hended⟩
    (.inl (by decide))).mpr hleaves⟩

/-- A client that was granted an address sends a keepalive and goes. -/
def lastKeepalive : List Event :=
  granted ++ [.read 0 (.bytes [5, 0, 0, 0, 104]), .read 0 .again, .read 0 .again]

theorem last_keepalive_holds_address :
    ∃ s u, run next (State.start opened) lastKeepalive = some s ∧ run next s (untilClose 0) = some u ∧
      u.conns.map Conn.keeping = [.ended] ∧ u.status 2 = true ∧
      (run next u (closedRound ++ closedRound)).isSome ∧
      ∀ es t, run next u es = some t →
        (∀ pre e post v, es = pre ++ e :: post → run next u pre = some v → Gone 0 2 v e) →
        ¬ Released 0 2 t := by
  have hview : (run next (State.start opened) (lastKeepalive ++ untilClose 0)).map
      (fun u => (u.conns.map (fun d => (d.keeping, d.reading, d.message.header.type)), u.status 2,
        (run next u (closedRound ++ closedRound)).isSome)) =
      some ([(.ended, .header 0, msgHeartbeat)], true, true) := by decide +kernel
  obtain ⟨u, hu, hat⟩ := Option.map_eq_some_iff.mp hview
  simp only [Prod.mk.injEq] at hat
  obtain ⟨d, hone, hconn⟩ := List.map_eq_singleton_iff.mp hat.1
  simp only [Prod.mk.injEq] at hconn
  obtain ⟨hkeeping, hreading, htype⟩ := hconn
  obtain ⟨s, hs, hclose⟩ := run_append_iff.mp hu
  refine ⟨s, u, hs, hclose, by rw [hone, List.map_singleton, hkeeping], hat.2.1, hat.2.2, ?_⟩
  intro es t hes hgone
  have hstart : Lingers 0 d u d := ⟨by rw [hone]; rfl, rfl, .inl ⟨0, hreading⟩⟩
  have hbody : ¬ (d.message.header.type = msgDataReq ∧ 0 < d.message.bodySize) :=
    fun hdata => absurd (htype.symm.trans hdata.1) (by decide)
  obtain ⟨d', hd'⟩ := hstart.runs (fun hpassed => hpassed.1 htype) hbody hes hgone
  exact hd'.not_released

end Over6.Threaded
