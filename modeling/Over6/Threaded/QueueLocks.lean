import Over6.Threaded.MsgQueue
import Over6.Threaded.Progress

/-! # The threads and the locks of their queues

In `State` a message is put into `wtSktQue` or taken from it in one step. Here the
queues of the connections are those of `MsgQueue`, with a mutex and a condition variable
each, and `tunReader` and the `writeThread`s go through `push` and `pop` step by step.
What the server does is the same. `tunWriter` and its queue are left out.
-/

namespace Over6.Threaded

open EventRun
open MsgQueue (Op Res fifo)
open SharedObject (Seen Phase)

inductive Caller where
  | tunReader
  | writeThread
deriving DecidableEq, Repr

instance : Fintype Caller where
  elems := {Caller.tunReader, Caller.writeThread}
  complete t := by cases t <;> decide

abbrev Queue : Type := MsgQueue.State Caller Msg

/-- The server with the queues of its connections; the field `wtSktQue` is not used. -/
structure Locked where
  server : State
  queues : Nat → Queue

def Locked.start (files : List (Option File)) : Locked where
  server := State.start files
  queues _ := MsgQueue.State.start

/-- The call of its queue that a thread is at: `writeThread` takes a message, `tunReader` puts in the
packet it has. -/
def State.calling (s : State) (i : Nat) : Caller → Option (Op Msg)
  | .writeThread => s.conns[i]?.bind fun c => if c.writing = .pop then some .pop else none
  | .tunReader =>
      match s.tunReader with
      | .push j buf => if j = i then s.conns[i]?.map fun _ => .push (dataMsg buf) else none
      | _ => none

def State.usesQueue (s : State) : Event → Bool
  | .write i _ => (s.calling i .writeThread).isSome
  | .route =>
      match s.tunReader with
      | .push _ _ => true
      | _ => false
  | _ => false

/-- A call of the queue of connection `i` returns, and its thread goes on. -/
def State.goesOn (i : Nat) (s : State) : Seen Caller (Op Msg) (Res Msg) → State
  | .ret .tunReader .pushed => { s with tunReader := .read }
  | .ret .writeThread (.popped m) =>
      match s.conns[i]? with
      | some c => s.set i { c with outgoing := m, writing := .send .lock }
      | none => s
  | _ => s

inductive LockedEvent where
  /-- A step that is no call of a queue. -/
  | thread (e : Event)
  /-- A thread calls `push` or `pop` of the queue of connection `i`. -/
  | call (i : Nat) (t : Caller)
  /-- A step inside a call, as in `MsgQueue`. -/
  | go (i : Nat) (t : Caller)
  | notify (i : Nat) (t : Caller) (woken : Option Caller)
  | wake (i : Nat) (t : Caller)

namespace Locked

def atQueue (l : Locked) (i : Nat) (e : MsgQueue.Event Caller Msg) : Option Locked :=
  (MsgQueue.step (l.queues i) e).map fun q =>
    ⟨(MsgQueue.seen (l.queues i) e).foldl (State.goesOn i) l.server, Function.update l.queues i q⟩

def next (l : Locked) (e : LockedEvent) : Option Locked :=
  if l.server.crash.isSome then none
  else
    match e with
    | .thread e =>
        if l.server.usesQueue e then none
        else (Threaded.next l.server e).map fun s => { l with server := s }
    | .call i t => (l.server.calling i t).bind fun op => l.atQueue i (.call t op)
    | .go i t => l.atQueue i (.go t)
    | .notify i t woken => l.atQueue i (.notify t woken)
    | .wake i t => l.atQueue i (.wake t)

end Locked

/-! ## The server without the locks

A call counts from the moment that it takes effect: `writeThread` has the message then, and
`tunReader` is done with its packet.
-/

abbrev Object : Type := SharedObject.State Caller (List Msg) (Op Msg) (Res Msg)

/-- The message of a `pop` that has not returned. -/
def inHand (o : Object) : Option Msg :=
  match o.phase .writeThread with
  | .done _ (.popped m) => some m
  | _ => none

/-- The packet is in the queue and `push` has not returned. -/
def handedOver (o : Object) : Bool :=
  match o.phase .tunReader with
  | .done _ _ => true
  | _ => false

def Conn.over (o : Object) (c : Conn) : Conn :=
  { c with
    wtSktQue := o.obj
    outgoing := (inHand o).getD c.outgoing
    writing := if (inHand o).isSome then .send .lock else c.writing }

def TunPoint.over (o : Nat → Object) : TunPoint → TunPoint
  | .push i buf => if handedOver (o i) then .read else .push i buf
  | p => p

def State.over (o : Nat → Object) (s : State) : State :=
  { s with conns := s.conns.mapIdx fun i => Conn.over (o i), tunReader := s.tunReader.over o }

def Locked.objects (l : Locked) (i : Nat) : Object := (l.queues i).object

def Locked.atomic (l : Locked) : State := l.server.over l.objects

/-! ## Steps that are no calls of a queue -/

section Commute

variable {o : Nat → Object} {s s' : State} {i : Nat} {c : Conn} {a : Answer}

theorem over_conns : (s.over o).conns[i]? = (s.conns[i]?).map (Conn.over (o i)) :=
  List.getElem?_mapIdx

theorem over_set : (s.over o).set i (c.over (o i)) = (s.set i c).over o := by
  simp only [State.over, State.set, List.mapIdx_set]

/-- A section under `ipMutex` does not look at the queues. -/
theorem locked_over {α β : Type} {f : α → β} {r : Except Crash α} {r' : Except Crash β}
    (hr : r' = r.map f) {go : α → State} {go' : β → State}
    (hgo : ∀ x, go' (f x) = (go x).over o) :
    (s.over o).locked r' go' = (s.locked r go).map (State.over o) := by
  rw [hr]
  unfold State.locked
  change (if s.stuck then none else _) = _
  split
  · rfl
  · cases r with
    | ok x => exact congrArg some (hgo x)
    | error why => rfl

theorem setIpStatus_over (addr : List UInt8) (b : Bool) :
    (s.over o).setIpStatus addr b = (s.setIpStatus addr b).map (State.over o) := by
  unfold State.setIpStatus
  cases getIpNum addr with
  | none => rfl
  | some num =>
      change (if s.status num = b then _ else _) = Except.map _ (if s.status num = b then _ else _)
      split <;> rfl

theorem setConnectionWithIp_over (addr : List UInt8) :
    (s.over o).setConnectionWithIp addr i = (s.setConnectionWithIp addr i).map (State.over o) := by
  unfold State.setConnectionWithIp
  cases getIpNum addr with
  | none => rfl
  | some num =>
      change (if s.status num = false then _ else _) =
        Except.map _ (if s.status num = false then _ else _)
      split <;> rfl

theorem send_over {who : Thread} {m : Msg} {p : SendPoint} {goto : Sent → Conn → Conn}
    (hgoto : ∀ sent d, goto sent (d.over (o i)) = (goto sent d).over (o i)) :
    (s.over o).send i (c.over (o i)) who m p a goto =
      (s.send i c who m p a goto).map (State.over o) := by
  have hset : ∀ sent d act, ((s.over o).set i (goto sent (Conn.over (o i) d))).note act =
      ((s.set i (goto sent d)).note act).over o := by
    intro sent d act
    rw [hgoto, over_set]
    rfl
  cases p with
  | lock =>
      change (if c.sendMutex = none then _ else _) =
        Option.map _ (if c.sendMutex = none then _ else _)
      split
      · exact congrArg some (hset _ { c with sendMutex := some who } _)
      · rfl
  | header total | data total =>
      change (if s.Answers c.socketFd a then _ else _) =
        Option.map _ (if s.Answers c.socketFd a then _ else _)
      split
      · split
        · rfl
        · exact congrArg some (hset _ c _)
        · exact congrArg some (hset _ { c with sendMutex := none } _)
      · rfl

theorem readHeader_over (q : Object) (total : Nat) :
    (c.over q).readHeader total a = (c.readHeader total a).map (Conn.over q) := by
  cases a with
  | bytes bs =>
      simp only [Conn.readHeader, apply_ite (Option.map _), Option.map_some, Option.map_none,
        apply_ite (Conn.over q)]
      rfl
  | _ => rfl

theorem readBody_over (q : Object) (total : Nat) :
    (c.over q).readBody total a = (c.readBody total a).map (Except.map (Conn.over q)) := by
  cases a with
  | bytes bs =>
      by_cases hread : bs ≠ [] ∧ ((total + bs.length : Nat) : Int) ≤ c.message.bodySize
      · simp only [Conn.readBody]
        rw [if_pos hread]
        refine (if_pos hread).trans ?_
        by_cases hfits : total + bs.length ≤ sizeofData
        · rw [if_pos hfits, if_pos hfits]
          simp only [Option.map_some, Except.map, Conn.over]
          congr
        · rw [if_neg hfits, if_neg hfits]
          rfl
      · simp only [Conn.readBody]
        rw [if_neg hread]
        exact if_neg hread
  | _ => rfl

theorem dispatch_over : (s.over o).dispatch i (c.over (o i)) = (s.dispatch i c).over o := by
  have hgoes : ∀ d : Conn, (s.over o).set i (d.over (o i)) = (s.set i d).over o := fun _ => over_set
  unfold State.dispatch
  by_cases hip : c.message.header.type = msgIpReq
  · rw [if_pos hip]
    exact (if_pos hip).trans (hgoes { c with reading := .request })
  · rw [if_neg hip]
    refine (if_neg hip).trans ?_
    by_cases hbeat : c.message.header.type = msgHeartbeat
    · rw [if_pos hbeat]
      exact (if_pos hbeat).trans (hgoes { c with heartBeatCount := 0, reading := .check })
    · rw [if_neg hbeat]
      refine (if_neg hbeat).trans ?_
      by_cases hdata : c.message.header.type = msgDataReq
      · rw [if_pos hdata]
        refine (if_pos hdata).trans ?_
        by_cases hneg : c.message.header.length < 0
        · rw [if_pos hneg]
          exact if_pos hneg
        · rw [if_neg hneg]
          refine (if_neg hneg).trans ?_
          have hpushed := hgoes { c with reading := .check }
          exact congrArg (fun t : State => t.note (.pushed i
            (c.message.load sizeofMessage c.message.header.length.toNat))) hpushed
      · rw [if_neg hdata]
        exact (if_neg hdata).trans (hgoes { c with reading := .check })

theorem map_id_section {α : Type} (r : Except Crash α) : r = r.map id := by
  cases r <;> rfl

theorem stepRead_over :
    stepRead (s.over o) i (c.over (o i)) a = (stepRead s i c a).map (State.over o) := by
  have hgoes : ∀ d : Conn, (s.over o).set i (d.over (o i)) = (s.set i d).over o := fun _ => over_set
  have hpoint : (c.over (o i)).reading = c.reading := rfl
  have haddress : (c.over (o i)).ipv4Address = c.ipv4Address := rfl
  unfold stepRead
  rw [hpoint]
  cases c.reading with
  | check => exact congrArg some (hgoes { c with reading := _ })
  | header total =>
      by_cases hanswers : s.Answers c.socketFd a
      · refine (if_pos hanswers).trans ?_
        simp only [if_pos hanswers, readHeader_over, Option.map_map]
        refine congrArg (Option.map · _) (funext fun d => ?_)
        exact congrArg (State.note · _) (hgoes d)
      · refine (if_neg hanswers).trans ?_
        simp only [if_neg hanswers, Option.map_none]
  | body total =>
      by_cases hanswers : s.Answers c.socketFd a
      · refine (if_pos hanswers).trans ?_
        simp only [if_pos hanswers, readBody_over, Option.map_map]
        refine congrArg (Option.map · _) (funext fun r => ?_)
        cases r with
        | ok d => exact congrArg (State.note · _) (hgoes d)
        | error why => rfl
      · refine (if_neg hanswers).trans ?_
        simp only [if_neg hanswers, Option.map_none]
  | dispatch => exact congrArg some dispatch_over
  | request =>
      simp only [haddress]
      by_cases hnone : c.ipv4Address = []
      · rw [if_pos hnone, if_pos hnone]
        exact congrArg some (hgoes { c with reading := .choose })
      · rw [if_neg hnone, if_neg hnone]
        refine locked_over (map_id_section _) fun found => ?_
        cases found with
        | none => exact hgoes { c with reading := .choose }
        | some j => rfl
  | choose =>
      cases a with
      | bytes behind =>
          simp only [haddress]
          by_cases hfour : behind.length = 4
          · rw [if_pos hfour, if_pos hfour]
            by_cases hnone : c.ipv4Address = []
            · rw [if_pos hnone, if_pos hnone]
              refine locked_over (map_id_section _) fun free => ?_
              cases free with
              | none => rfl
              | some n => exact hgoes (c.answer (ipText n) behind)
            · rw [if_neg hnone, if_neg hnone]
              exact congrArg some (hgoes (c.answer c.ipv4Address behind))
          · rw [if_neg hfour, if_neg hfour]
            rfl
      | _ => rfl
  | reply p => exact send_over fun _ _ => rfl
  | setStatus =>
      refine locked_over (setIpStatus_over _ _) fun t => ?_
      exact over_set (c := { c with reading := .setConnection })
  | setConnection =>
      refine locked_over (setConnectionWithIp_over _) fun t => ?_
      by_cases hstuck : t.stuck
      · rw [if_pos hstuck]
        exact if_pos hstuck
      · rw [if_neg hstuck]
        exact (if_neg hstuck).trans (over_set (c := { c with reading := .check }))
  | ending =>
      refine locked_over (setIpStatus_over _ _) fun t => ?_
      exact over_set (c := { c with reading := .ended })
  | ended => rfl

theorem stepKeep_over :
    stepKeep (s.over o) i (c.over (o i)) a = (stepKeep s i c a).map (State.over o) := by
  have hgoes : ∀ d : Conn, (s.over o).set i (d.over (o i)) = (s.set i d).over o := fun _ => over_set
  have hpoint : (c.over (o i)).keeping = c.keeping := rfl
  unfold stepKeep
  rw [hpoint]
  cases c.keeping with
  | check =>
      exact congrArg some (hgoes
        { c with keeping := if c.heartBeatCount < 60 then .tick else .close })
  | tick =>
      exact congrArg some (hgoes
        { c with heartBeatCount := c.heartBeatCount + 1, keeping := .test })
  | test =>
      exact congrArg some (hgoes
        { c with keeping := if c.heartBeatCount % 20 = 0 then .send .lock else .check })
  | send p => exact send_over fun _ _ => rfl
  | close =>
      refine congrArg some ?_
      exact congrArg (fun t : State => { t with files := s.files.set c.socketFd none })
        (hgoes { c with keeping := .ended })
  | ended => rfl

/-- `writeThread` outside of `pop`. -/
theorem stepWrite_over (hquiet : inHand (o i) = none) (hpop : c.writing ≠ .pop) :
    stepWrite (s.over o) i (c.over (o i)) a = (stepWrite s i c a).map (State.over o) := by
  have hover : ∀ d : Conn, d.over (o i) = { d with wtSktQue := (o i).obj } := by
    intro d
    rw [Conn.over, hquiet]
    rfl
  have hpoint : (c.over (o i)).writing = c.writing := by rw [hover]
  have hmessage : (c.over (o i)).outgoing = c.outgoing := by rw [hover]
  unfold stepWrite
  rw [hpoint, hmessage]
  cases hwriting : c.writing with
  | pop => exact absurd hwriting hpop
  | send p =>
      refine send_over fun sent d => ?_
      rw [hover, hover]
      rfl
  | ended => rfl

theorem accept_over {stale : Msg} (hmail : (o s.conns.length).obj = [])
    (hquiet : inHand (o s.conns.length) = none) :
    (s.over o).accept stale = (s.accept stale).over o := by
  have hstart : (Conn.start s.lowestFree stale).over (o s.conns.length) =
      Conn.start s.lowestFree stale := by
    rw [Conn.over, hmail, hquiet]
    rfl
  have hlength : (s.over o).conns.length = s.conns.length := List.length_mapIdx
  simp only [State.accept, hlength]
  simp only [State.over, List.mapIdx_concat]
  rw [hstart]
  rfl

end Commute

/-! ## Calls -/

/-- What a thread does with the queue of connection `i` is what it is there for. -/
def State.Fits (s : State) (i : Nat) (t : Caller) : Phase (Op Msg) (Res Msg) → Prop
  | .idle => True
  | .called op => s.calling i t = some op
  | .done op res => s.calling i t = some op ∧ ∃ queue queue', fifo queue op = some (queue', res)

structure Coherent (o : Nat → Object) (s : State) : Prop where
  phases : ∀ i t, s.Fits i t ((o i).phase t)
  unopened : ∀ i, s.conns[i]? = none → (o i).obj = []

section Calls

variable {o : Nat → Object} {s s' : State} {i : Nat} {c : Conn} {a : Answer} {op : Op Msg}

theorem calling_writeThread :
    s.calling i .writeThread = some op ↔ ∃ c, s.conns[i]? = some c ∧ c.writing = .pop ∧ op = .pop := by
  simp only [State.calling, Option.bind_eq_some_iff, Option.ite_none_right_eq_some,
    Option.some.injEq, eq_comm (a := Op.pop)]

theorem calling_tunReader :
    s.calling i .tunReader = some op ↔
      ∃ buf c, s.tunReader = .push i buf ∧ s.conns[i]? = some c ∧ op = .push (dataMsg buf) := by
  cases hpoint : s.tunReader with
  | push j buf =>
      simp only [State.calling, hpoint, Option.ite_none_right_eq_some, Option.map_eq_some_iff]
      constructor
      · rintro ⟨rfl, c, hc, rfl⟩
        exact ⟨buf, c, rfl, hc, rfl⟩
      · rintro ⟨buf', c, hpush, hc, rfl⟩
        obtain ⟨rfl, rfl⟩ := TunPoint.push.inj hpush
        exact ⟨rfl, c, hc, rfl⟩
  | _ => simp [State.calling, hpoint]

theorem State.Fits.mono {t : Caller} {p : Phase (Op Msg) (Res Msg)} (h : s.Fits i t p)
    (hkeep : ∀ op, s.calling i t = some op → s'.calling i t = some op) : s'.Fits i t p := by
  cases p with
  | idle => trivial
  | called op => exact hkeep op h
  | done op res => exact ⟨hkeep op h.1, h.2⟩

/-- A thread stays at its call while others take steps that are no calls. -/
theorem tunReader_stays {e : Event} {buf : List UInt8} (h : next s e = some s')
    (hother : s.usesQueue e = false) (hpush : s.tunReader = .push i buf) :
    s'.tunReader = .push i buf := by
  obtain ⟨_, hnext⟩ := next_spec h
  cases hnext with
  | accepts => exact hpush
  | reads hstep => exact hstep.tunReader.trans hpush
  | writes hstep => exact hstep.tunReader.trans hpush
  | keeps hstep => exact hstep.tunReader.trans hpush
  | arrives => simp [next, hpush] at h
  | finds hpoint | throws hpoint =>
      rw [hpush] at hpoint
      cases hpoint
  | queues hpoint => simp [State.usesQueue, hpoint] at hother

theorem atPop_stays {e : Event} (h : next s e = some s') (hother : s.usesQueue e = false)
    (hc : s.conns[i]? = some c) (hpop : c.writing = .pop) :
    ∃ c', s'.conns[i]? = some c' ∧ c'.writing = .pop := by
  have htouched : ∀ {j d d'}, Touches s j d d' s' → (j = i → d'.writing = d.writing) →
      ∃ c', s'.conns[i]? = some c' ∧ c'.writing = .pop := by
    intro j d d' ht hsame
    by_cases hj : i = j
    · subst hj
      obtain rfl := ht.eq_before hc
      exact ⟨d', ht.after, (hsame rfl).trans hpop⟩
    · exact ⟨c, (ht.others i hj).trans hc, hpop⟩
  obtain ⟨_, hnext⟩ := next_spec h
  cases hnext with
  | accepts stale =>
      refine ⟨c, ?_, hpop⟩
      change (s.conns ++ [Conn.start s.lowestFree stale])[i]? = some c
      rw [List.getElem?_append_left (List.getElem?_eq_some_iff.mp hc).1, hc]
  | reads hstep => exact htouched hstep.touches fun _ => hstep.writing
  | @writes j a d d' _ hstep =>
      refine htouched hstep.touches ?_
      rintro rfl
      have hcalls : s.calling j .writeThread = some .pop :=
        calling_writeThread.mpr ⟨c, hc, hpop, rfl⟩
      simp [State.usesQueue, hcalls] at hother
  | keeps hstep => exact htouched hstep.touches fun _ => hstep.writing
  | arrives | finds | throws => exact ⟨c, hc, hpop⟩
  | queues hpoint => simp [State.usesQueue, hpoint] at hother

theorem calling_stays {e : Event} {t : Caller} (h : next s e = some s')
    (hother : s.usesQueue e = false) (hcall : s.calling i t = some op) :
    s'.calling i t = some op := by
  cases t with
  | tunReader =>
      obtain ⟨buf, c, hpush, hc, rfl⟩ := calling_tunReader.mp hcall
      obtain ⟨c', hc'⟩ := conn_stays h hc
      exact calling_tunReader.mpr ⟨buf, c', tunReader_stays h hother hpush, hc', rfl⟩
  | writeThread =>
      obtain ⟨c, hc, hpop, rfl⟩ := calling_writeThread.mp hcall
      obtain ⟨c', hc', hpop'⟩ := atPop_stays h hother hc hpop
      exact calling_writeThread.mpr ⟨c', hc', hpop', rfl⟩

namespace Coherent

theorem inHand_none (h : Coherent o s) (hno : s.calling i .writeThread = none) :
    inHand (o i) = none := by
  have hfits := h.phases i .writeThread
  unfold inHand
  split
  · rename_i hphase
    rw [hphase] at hfits
    rw [hfits.1] at hno
    cases hno
  · rfl

theorem not_handedOver (h : Coherent o s) (hno : s.calling i .tunReader = none) :
    handedOver (o i) = false := by
  have hfits := h.phases i .tunReader
  unfold handedOver
  split
  · rename_i hphase
    rw [hphase] at hfits
    rw [hfits.1] at hno
    cases hno
  · rfl

theorem next_thread {e : Event} (h : Coherent o s) (hother : s.usesQueue e = false)
    (hstep : next s e = some s') : Coherent o s' where
  phases j t := (h.phases j t).mono fun _ => calling_stays hstep hother
  unopened j hnone := by
    apply h.unopened
    cases hc : s.conns[j]? with
    | none => rfl
    | some c =>
        obtain ⟨c', hc'⟩ := conn_stays hstep hc
        rw [hnone] at hc'
        cases hc'

/-- A step that is no call of a queue is the same step without the locks. -/
theorem thread_over {e : Event} (h : Coherent o s) (hother : s.usesQueue e = false)
    (hstep : next s e = some s') : next (s.over o) e = some (s'.over o) := by
  unfold next at hstep ⊢
  change (if s.crash.isSome then none else _) = _
  split at hstep
  · cases hstep
  · rename_i hup
    rw [if_neg hup]
    cases e with
    | accept stale =>
        rw [← Option.some.inj hstep]
        have hnone : s.conns[s.conns.length]? = none := List.getElem?_eq_none (Nat.le_refl _)
        refine congrArg some (accept_over (h.unopened _ hnone) (h.inHand_none ?_))
        simp [State.calling]
    | read i a =>
        obtain ⟨c, hc, hstep⟩ := Option.bind_eq_some_iff.mp hstep
        simp only [over_conns, hc, Option.map_some, Option.bind_some, stepRead_over, hstep]
    | write i a =>
        obtain ⟨c, hc, hstep⟩ := Option.bind_eq_some_iff.mp hstep
        have hno : s.calling i .writeThread = none := Option.not_isSome_iff_eq_none.mp
          (Bool.not_eq_true _ ▸ hother)
        have hpop : c.writing ≠ .pop := by
          intro hpop
          rw [calling_writeThread.mpr ⟨c, hc, hpop, rfl⟩] at hno
          cases hno
        simp only [over_conns, hc, Option.map_some, Option.bind_some,
          stepWrite_over (h.inHand_none hno) hpop, hstep]
    | keep i a =>
        obtain ⟨c, hc, hstep⟩ := Option.bind_eq_some_iff.mp hstep
        simp only [over_conns, hc, Option.map_some, Option.bind_some, stepKeep_over, hstep]
    | packet buf =>
        obtain ⟨⟨hread, hsize⟩, hstep⟩ := Option.ite_none_right_eq_some.mp hstep
        have hover : (s.over o).tunReader = .read := by
          change s.tunReader.over o = .read
          rw [hread]
          rfl
        rw [← Option.some.inj hstep]
        exact if_pos ⟨hover, hsize⟩
    | route =>
        cases hpoint : s.tunReader with
        | read => simp [stepTun, hpoint] at hstep
        | lookup buf =>
            have hover : (s.over o).tunReader = .lookup buf := by
              change s.tunReader.over o = .lookup buf
              rw [hpoint]
              rfl
            simp only [stepTun, hpoint] at hstep
            simp only [stepTun, hover]
            rw [← Option.map_some, ← hstep]
            refine locked_over (map_id_section _) fun found => ?_
            cases found with
            | none => rfl
            | some j =>
                have hno : s.calling j .tunReader = none := by simp [State.calling, hpoint]
                simp only [id, State.over, TunPoint.over, h.not_handedOver hno]
                rfl
        | push j buf => simp [State.usesQueue, hpoint] at hother

/-- One thread goes on with its call of one queue. -/
theorem update (h : Coherent o s) {t : Caller} {q : Object} (hfits : s'.Fits i t (q.phase t))
    (hothers : ∀ u, u ≠ t → q.phase u = (o i).phase u)
    (hkeep : ∀ j u, j ≠ i ∨ u ≠ t → ∀ op, s.calling j u = some op → s'.calling j u = some op)
    (hconns : ∀ j : Nat, s'.conns[j]? = none → s.conns[j]? = none) (hi : s'.conns[i]? ≠ none) :
    Coherent (Function.update o i q) s' where
  phases j u := by
    by_cases hj : j = i
    · subst hj
      rw [Function.update_self]
      by_cases hu : u = t
      · subst hu
        exact hfits
      · rw [hothers u hu]
        exact (h.phases j u).mono (hkeep j u (.inr hu))
    · rw [Function.update_of_ne hj]
      exact (h.phases j u).mono (hkeep j u (.inl hj))
  unopened j hnone := by
    have hj : j ≠ i := by
      rintro rfl
      exact hi hnone
    rw [Function.update_of_ne hj]
    exact h.unopened j (hconns j hnone)

end Coherent

/-- A connection and its queue in a new state. -/
theorem over_update {q : Object} (d : Conn) :
    (s.set i d).over (Function.update o i q) =
      { (s.over o).set i (d.over q) with tunReader := s.tunReader.over (Function.update o i q) } := by
  have hconns : (s.conns.set i d).mapIdx (fun j => Conn.over (Function.update o i q j)) =
      (s.conns.mapIdx fun j => Conn.over (o j)).set i (d.over q) := by
    apply List.ext_getElem?
    intro j
    by_cases hj : i = j
    · subst hj
      simp only [List.getElem?_mapIdx, List.getElem?_set_self', Function.update_self]
      cases s.conns[i]? <;> rfl
    · rw [List.getElem?_set_ne hj, List.getElem?_mapIdx, List.getElem?_set_ne hj,
        List.getElem?_mapIdx, Function.update_of_ne (Ne.symm hj)]
  simp only [State.over, State.set, hconns]

theorem set_same (hc : s.conns[i]? = some c) : s.set i c = s := by
  obtain ⟨hi, rfl⟩ := List.getElem?_eq_some_iff.mp hc
  rw [State.set, List.set_getElem_self]

theorem tunReader_update {q : Object} (hput : handedOver q = handedOver (o i)) (p : TunPoint) :
    p.over (Function.update o i q) = p.over o := by
  cases p with
  | push j buf =>
      by_cases hj : j = i
      · subst hj
        simp only [TunPoint.over, Function.update_self, hput]
      · simp only [TunPoint.over, Function.update_of_ne hj]
  | _ => rfl

theorem over_queue_update {q : Object} (hmail : q.obj = (o i).obj) (htaken : inHand q = inHand (o i)) :
    (fun j => Conn.over (Function.update o i q j)) = fun j => Conn.over (o j) := by
  funext j d
  by_cases hj : j = i
  · subst hj
    simp only [Function.update_self, Conn.over, hmail, htaken]
  · rw [Function.update_of_ne hj]

/-- Nothing of a queue changes that shows without the locks. -/
theorem over_same {q : Object} (hmail : q.obj = (o i).obj) (htaken : inHand q = inHand (o i))
    (hput : handedOver q = handedOver (o i)) : s.over (Function.update o i q) = s.over o := by
  simp only [State.over, over_queue_update hmail htaken, tunReader_update hput]

theorem handedOver_writeThread (q : Object) (obj : List Msg) (p : Phase (Op Msg) (Res Msg)) :
    handedOver ⟨obj, Function.update q.phase .writeThread p⟩ = handedOver q := rfl

/-- The step without the locks in which a call takes effect. -/
def whole (i : Nat) : SharedObject.Event Caller (Op Msg) → List Event
  | .act .tunReader => [.route]
  | .act .writeThread => [.write i .again]
  | _ => []

/-- No call is under way. -/
theorem over_idle (hidle : ∀ i t, (o i).phase t = .idle) :
    s.over o = { s with conns := s.conns.mapIdx fun i c => { c with wtSktQue := (o i).obj } } := by
  have hconn : (fun i => Conn.over (o i)) = fun i c => { c with wtSktQue := (o i).obj } := by
    funext i c
    simp only [Conn.over, inHand, hidle]
    rfl
  have htun : s.tunReader.over o = s.tunReader := by
    cases s.tunReader with
    | push i buf =>
        simp only [TunPoint.over, handedOver, hidle]
        rfl
    | _ => rfl
  simp only [State.over, hconn, htun]

namespace Coherent

def Answers (o : Nat → Object) (s : State) (i : Nat) (q : Object) (es : List Event) (s' : State) :
    Prop :=
  run next (s.over o) es = some (s'.over (Function.update o i q)) ∧
    Coherent (Function.update o i q) s'

theorem conns_of_calling {t : Caller} (h : s.calling i t = some op) : ∃ c, s.conns[i]? = some c := by
  cases t with
  | tunReader =>
      obtain ⟨_, c, _, hc, _⟩ := calling_tunReader.mp h
      exact ⟨c, hc⟩
  | writeThread =>
      obtain ⟨c, hc, _⟩ := calling_writeThread.mp h
      exact ⟨c, hc⟩

theorem goes (hup : s.crash = none) : ¬ (s.over o).crash.isSome := by
  change ¬ s.crash.isSome
  rw [hup]
  exact Bool.false_ne_true

theorem called (h : Coherent o s) {t : Caller} (hidle : (o i).phase t = .idle)
    (hcall : s.calling i t = some op) :
    Answers o s i ⟨(o i).obj, Function.update (o i).phase t (.called op)⟩ [] s := by
  obtain ⟨c, hc⟩ := conns_of_calling hcall
  constructor
  · have hsame := over_same (o := o) (s := s) (i := i)
      (q := ⟨(o i).obj, Function.update (o i).phase t (.called op)⟩) rfl ?_ ?_
    · rw [run_nil, hsame]
    · cases t with
      | tunReader => rfl
      | writeThread => simp [inHand, hidle]
    · cases t with
      | tunReader => simp [handedOver, hidle]
      | writeThread => rfl
  · have hfits : s.Fits i t (Function.update (o i).phase t (.called op) t) := by
      rw [Function.update_self]
      exact hcall
    exact h.update hfits (fun u hu => Function.update_of_ne hu _ _) (fun _ _ _ _ => id)
      (fun _ => id) (by rw [hc]; exact Option.some_ne_none c)

/-- `tunReader` puts its packet in. -/
theorem pushes (h : Coherent o s) (hup : s.crash = none)
    (hphase : (o i).phase .tunReader = .called op) {queue : List Msg} {res : Res Msg}
    (happly : fifo (o i).obj op = some (queue, res)) :
    Answers o s i ⟨queue, Function.update (o i).phase .tunReader (.done op res)⟩ [.route] s := by
  have hcall : s.calling i .tunReader = some op := by
    have hfits := h.phases i .tunReader
    rwa [hphase] at hfits
  obtain ⟨buf, c, hpush, hc, rfl⟩ := calling_tunReader.mp hcall
  obtain ⟨rfl, rfl⟩ := Prod.mk.inj (Option.some.inj happly).symm
  have hnot : handedOver (o i) = false := by simp [handedOver, hphase]
  constructor
  · have htun : (s.over o).tunReader = .push i buf := by
      change s.tunReader.over o = _
      rw [hpush, TunPoint.over, hnot]
      rfl
    have hread : s.tunReader.over (Function.update o i ⟨(o i).obj ++ [dataMsg buf],
        Function.update (o i).phase .tunReader (.done (.push (dataMsg buf)) .pushed)⟩) = .read := by
      rw [hpush, TunPoint.over, Function.update_self]
      rfl
    have hstep : stepTun (s.over o) = some { (s.over o).set i
        { c.over (o i) with wtSktQue := (o i).obj ++ [dataMsg buf] } with tunReader := .read } := by
      simp only [stepTun, htun, over_conns, hc, Option.map_some]
      rfl
    have hover := over_update (o := o) (s := s) (i := i) (q := ⟨(o i).obj ++ [dataMsg buf],
      Function.update (o i).phase .tunReader (.done (.push (dataMsg buf)) .pushed)⟩) c
    rw [set_same hc, hread] at hover
    refine run_cons_iff.mpr ⟨_, ?_, rfl⟩
    rw [hover]
    exact (if_neg (goes hup)).trans hstep
  · have hfits : s.Fits i .tunReader
        (Function.update (o i).phase .tunReader (.done (.push (dataMsg buf)) .pushed) .tunReader) := by
      rw [Function.update_self]
      exact ⟨hcall, _, _, happly⟩
    exact h.update hfits (fun u hu => Function.update_of_ne hu _ _) (fun _ _ _ _ => id)
      (fun _ => id) (by rw [hc]; exact Option.some_ne_none c)

/-- `writeThread` takes a message. -/
theorem pops (h : Coherent o s) (hup : s.crash = none)
    (hphase : (o i).phase .writeThread = .called op) {queue : List Msg} {res : Res Msg}
    (happly : fifo (o i).obj op = some (queue, res)) :
    Answers o s i ⟨queue, Function.update (o i).phase .writeThread (.done op res)⟩
      [.write i .again] s := by
  have hcall : s.calling i .writeThread = some op := by
    have hfits := h.phases i .writeThread
    rwa [hphase] at hfits
  obtain ⟨c, hc, hpop, rfl⟩ := calling_writeThread.mp hcall
  cases hmail : (o i).obj with
  | nil =>
      rw [hmail] at happly
      cases happly
  | cons m rest =>
      rw [hmail] at happly
      obtain ⟨rfl, rfl⟩ := Prod.mk.inj (Option.some.inj happly)
      have hnot : inHand (o i) = none := by simp [inHand, hphase]
      have hcover : c.over (o i) = { c with wtSktQue := m :: rest } := by
        rw [Conn.over, hnot, hmail]
        rfl
      constructor
      · have hread := tunReader_update (handedOver_writeThread (o i) rest (.done .pop (.popped m)))
          s.tunReader
        have hstep : stepWrite (s.over o) i (c.over (o i)) .again = some ((s.over o).set i
            { c with wtSktQue := rest, outgoing := m, writing := .send .lock }) := by
          rw [hcover]
          simp only [stepWrite, hpop]
        have hover := over_update (o := o) (s := s) (i := i) (q := ⟨rest,
          Function.update (o i).phase .writeThread (.done .pop (.popped m))⟩) c
        rw [set_same hc, hread] at hover
        refine run_cons_iff.mpr ⟨_, ?_, rfl⟩
        rw [hover]
        refine (if_neg (goes hup)).trans ?_
        simp only [over_conns, hc, Option.map_some, Option.bind_some, hstep]
        rfl
      · have hfits : s.Fits i .writeThread
            (Function.update (o i).phase .writeThread (.done .pop (.popped m)) .writeThread) := by
          rw [Function.update_self]
          exact ⟨hcall, _, _, happly⟩
        exact h.update hfits (fun u hu => Function.update_of_ne hu _ _) (fun _ _ _ _ => id)
          (fun _ => id) (by rw [hc]; exact Option.some_ne_none c)

/-- `push` returns. -/
theorem pushed (h : Coherent o s) {res : Res Msg} (hphase : (o i).phase .tunReader = .done op res) :
    Answers o s i ⟨(o i).obj, Function.update (o i).phase .tunReader .idle⟩ []
      (s.goesOn i (.ret .tunReader res)) := by
  have hfits := h.phases i .tunReader
  rw [hphase] at hfits
  obtain ⟨hcall, queue, queue', happly⟩ := hfits
  obtain ⟨buf, c, hpush, hc, rfl⟩ := calling_tunReader.mp hcall
  obtain ⟨rfl, rfl⟩ := Prod.mk.inj (Option.some.inj happly)
  have hput : handedOver (o i) = true := by simp [handedOver, hphase]
  constructor
  · have hread : s.tunReader.over o = .read := by
      rw [hpush, TunPoint.over, hput]
      rfl
    have hconns := over_queue_update (o := o) (i := i)
      (q := ⟨(o i).obj, Function.update (o i).phase .tunReader .idle⟩) rfl rfl
    simp only [run_nil, State.over, State.goesOn, hconns, hread]
    rfl
  · have hfits : ({ s with tunReader := .read } : State).Fits i .tunReader
        (Function.update (o i).phase .tunReader .idle .tunReader) := by
      rw [Function.update_self]
      trivial
    have hthere : ({ s with tunReader := .read } : State).conns[i]? ≠ none := by
      rw [hc]
      exact Option.some_ne_none c
    refine h.update hfits (fun u hu => Function.update_of_ne hu _ _) ?_ (fun _ => id) hthere
    intro j u hother op hop
    cases u with
    | writeThread => exact hop
    | tunReader =>
        obtain ⟨_, _, hpush', _⟩ := calling_tunReader.mp hop
        obtain ⟨rfl, _⟩ := TunPoint.push.inj (hpush.symm.trans hpush')
        exact absurd rfl (hother.resolve_right fun hne => hne rfl)

/-- `pop` returns. -/
theorem popped (h : Coherent o s) {res : Res Msg}
    (hphase : (o i).phase .writeThread = .done op res) :
    Answers o s i ⟨(o i).obj, Function.update (o i).phase .writeThread .idle⟩ []
      (s.goesOn i (.ret .writeThread res)) := by
  have hfits := h.phases i .writeThread
  rw [hphase] at hfits
  obtain ⟨hcall, queue, queue', happly⟩ := hfits
  obtain ⟨c, hc, hpop, rfl⟩ := calling_writeThread.mp hcall
  cases queue with
  | nil => cases happly
  | cons m rest =>
      obtain ⟨rfl, rfl⟩ := Prod.mk.inj (Option.some.inj happly)
      have htaken : inHand (o i) = some m := by simp [inHand, hphase]
      have hgoes : s.goesOn i (.ret .writeThread (.popped m)) =
          s.set i { c with outgoing := m, writing := .send .lock } := by
        simp only [State.goesOn, hc]
      have hi : i < s.conns.length := (List.getElem?_eq_some_iff.mp hc).1
      rw [hgoes]
      constructor
      · have hdone : inHand ⟨(o i).obj, Function.update (o i).phase .writeThread .idle⟩ = none := rfl
        have hover := over_update (o := o) (s := s) (i := i)
          (q := ⟨(o i).obj, Function.update (o i).phase .writeThread .idle⟩)
          { c with outgoing := m, writing := .send .lock }
        have hsame : Conn.over ⟨(o i).obj, Function.update (o i).phase .writeThread .idle⟩
            { c with outgoing := m, writing := .send .lock } = c.over (o i) := by
          simp only [Conn.over, hdone, htaken]
          rfl
        rw [hsame, over_set, set_same hc,
          tunReader_update (handedOver_writeThread (o i) (o i).obj .idle)] at hover
        rw [run_nil, hover]
        rfl
      · have hfits : (s.set i { c with outgoing := m, writing := .send .lock }).Fits i .writeThread
            (Function.update (o i).phase .writeThread .idle .writeThread) := by
          rw [Function.update_self]
          trivial
        refine h.update hfits (fun u hu => Function.update_of_ne hu _ _) ?_ ?_ ?_
        · intro j u hother op hop
          cases u with
          | tunReader =>
              obtain ⟨buf, d, hpush, hd, rfl⟩ := calling_tunReader.mp hop
              have hj : j < s.conns.length := (List.getElem?_eq_some_iff.mp hd).1
              have hlength : j < (s.set i { c with outgoing := m, writing := .send .lock }).conns.length := by
                rwa [State.set, List.length_set]
              exact calling_tunReader.mpr ⟨buf, _, hpush, List.getElem?_eq_getElem hlength, rfl⟩
          | writeThread =>
              have hj : i ≠ j := fun heq => hother.elim (fun hne => hne heq.symm) fun hne => hne rfl
              obtain ⟨d, hd, hwriting, rfl⟩ := calling_writeThread.mp hop
              exact calling_writeThread.mpr ⟨d, (List.getElem?_set_ne hj).trans hd, hwriting, rfl⟩
        · intro j hnone
          simpa [State.set] using hnone
        · simp [State.set, hi]

/-- An event of the object that a queue is, seen from the server. -/
theorem object_answers (h : Coherent o s) (hup : s.crash = none) {q : Object}
    {e : SharedObject.Event Caller (Op Msg)} (hstep : SharedObject.step fifo (o i) e = some q)
    (hcall : ∀ t op, e = .call t op → s.calling i t = some op) :
    Answers o s i q (whole i e) ((SharedObject.seen (o i) e).foldl (State.goesOn i) s) := by
  cases e with
  | call t op =>
      cases hphase : (o i).phase t with
      | idle =>
          simp only [SharedObject.step, hphase, Option.some.injEq] at hstep
          rw [← hstep]
          exact h.called hphase (hcall t op rfl)
      | _ => simp [SharedObject.step, hphase] at hstep
  | act t =>
      cases hphase : (o i).phase t with
      | called op =>
          simp only [SharedObject.step, hphase, Option.map_eq_some_iff] at hstep
          obtain ⟨⟨queue, res⟩, happly, rfl⟩ := hstep
          cases t with
          | tunReader => exact h.pushes hup hphase happly
          | writeThread => exact h.pops hup hphase happly
      | _ => simp [SharedObject.step, hphase] at hstep
  | ret t =>
      cases hphase : (o i).phase t with
      | done op res =>
          simp only [SharedObject.step, hphase, Option.some.injEq] at hstep
          simp only [SharedObject.seen, hphase, List.foldl_cons, List.foldl_nil]
          rw [← hstep]
          cases t with
          | tunReader => exact h.pushed hphase
          | writeThread => exact h.popped hphase
      | _ => simp [SharedObject.step, hphase] at hstep

end Coherent

end Calls

/-! ## Runs -/

namespace Locked

variable {l l' : Locked}

def atOnce (l : Locked) : LockedEvent → List Event
  | .thread e => [e]
  | .go i t => (MsgQueue.asObject (l.queues i) (.go t)).flatMap (whole i)
  | _ => []

theorem asObject_single (q : Queue) (e : MsgQueue.Event Caller Msg) :
    MsgQueue.asObject q e = [] ∨ ∃ a, MsgQueue.asObject q e = [a] := by
  cases e with
  | call t op => exact .inr ⟨_, rfl⟩
  | notify t woken => exact .inr ⟨_, rfl⟩
  | wake t => exact .inl rfl
  | go t =>
      simp only [MsgQueue.asObject]
      split
      all_goals first | exact .inl rfl | exact .inr ⟨_, rfl⟩

theorem call_of_asObject {q : Queue} {e : MsgQueue.Event Caller Msg} {t : Caller} {op : Op Msg}
    (h : MsgQueue.asObject q e = [.call t op]) : e = .call t op := by
  cases e with
  | call u op' =>
      obtain ⟨rfl, rfl⟩ := SharedObject.Event.call.inj (List.singleton_inj.mp h)
      rfl
  | go u =>
      simp only [MsgQueue.asObject] at h
      split at h <;> cases h
  | notify u woken => cases h
  | wake u => cases h

theorem objects_update (i : Nat) (q : Queue) (s : State) :
    Locked.objects ⟨s, Function.update l.queues i q⟩ = Function.update l.objects i q.object := by
  funext j
  by_cases hj : j = i
  · subst hj
    simp only [Locked.objects, Function.update_self]
  · simp only [Locked.objects, Function.update_of_ne hj]

theorem atQueue_answers {i : Nat} {e : MsgQueue.Event Caller Msg}
    (h : Coherent l.objects l.server) (hup : l.server.crash = none)
    (hstep : l.atQueue i e = some l')
    (hcall : ∀ t op, e = .call t op → l.server.calling i t = some op) :
    run Threaded.next l.atomic ((MsgQueue.asObject (l.queues i) e).flatMap (whole i)) =
        some l'.atomic ∧ Coherent l'.objects l'.server := by
  obtain ⟨q, hq, rfl⟩ := Option.map_eq_some_iff.mp hstep
  obtain ⟨hrun, hseen⟩ := MsgQueue.step_answered hq
  rw [Locked.atomic, Locked.atomic, objects_update]
  rcases asObject_single (l.queues i) e with hnone | ⟨a, hone⟩
  · rw [hnone] at hrun hseen ⊢
    have hsame : (l.queues i).object = q.object := Option.some.inj hrun
    have hobjects : Function.update l.objects i q.object = l.objects := by
      rw [← hsame]
      exact Function.update_eq_self i l.objects
    simp only [← hseen, hobjects]
    exact ⟨rfl, h⟩
  · rw [hone] at hrun hseen ⊢
    obtain ⟨q', hobject, hlast⟩ := run_cons_iff.mp hrun
    obtain rfl := Option.some.inj hlast
    have honly : SharedObject.seen (l.queues i).object a = MsgQueue.seen (l.queues i) e := by
      rw [← hseen]
      simp [outputs, hobject]
    rw [← honly, List.flatMap_singleton]
    exact h.object_answers hup hobject fun t op ha => hcall t op (call_of_asObject (ha ▸ hone))

theorem next_answers {e : LockedEvent} (h : Coherent l.objects l.server)
    (hstep : l.next e = some l') :
    run Threaded.next l.atomic (l.atOnce e) = some l'.atomic ∧ Coherent l'.objects l'.server := by
  obtain ⟨hup, hstep⟩ := Option.ite_none_left_eq_some.mp hstep
  have hcrash : l.server.crash = none := Option.not_isSome_iff_eq_none.mp hup
  cases e with
  | thread e =>
      obtain ⟨hother, hstep⟩ := Option.ite_none_left_eq_some.mp hstep
      obtain ⟨s, hs, rfl⟩ := Option.map_eq_some_iff.mp hstep
      have hother : l.server.usesQueue e = false := Bool.not_eq_true _ ▸ hother
      exact ⟨run_cons_iff.mpr ⟨_, h.thread_over hother hs, rfl⟩, h.next_thread hother hs⟩
  | call i t =>
      obtain ⟨op, hcall, hstep⟩ := Option.bind_eq_some_iff.mp hstep
      refine atQueue_answers h hcrash hstep fun u op' heq => ?_
      obtain ⟨rfl, rfl⟩ := MsgQueue.Event.call.inj heq
      exact hcall
  | go i t => exact atQueue_answers h hcrash hstep fun _ _ => nofun
  | notify i t woken => exact atQueue_answers h hcrash hstep fun _ _ => nofun
  | wake i t => exact atQueue_answers h hcrash hstep fun _ _ => nofun

theorem coherent_start (files : List (Option File)) :
    Coherent (Locked.start files).objects (Locked.start files).server where
  phases _ _ := trivial
  unopened _ _ := rfl

end Locked

/-- With a mutex and a condition variable in each queue, the server goes through the same states as
without them: the calls of `push` and `pop` count when they take effect, one after the other. What
has been read, written and closed is the same, and between the calls so is everything else. -/
theorem queue_locks_refine (files : List (Option File)) (es : List LockedEvent) (l : Locked)
    (hrun : run Locked.next (Locked.start files) es = some l) :
    run next (State.start files) (outputs Locked.next Locked.atOnce (Locked.start files) es) =
        some l.atomic ∧
      l.atomic.log = l.server.log ∧ l.atomic.files = l.server.files ∧
      ((∀ i t, (l.queues i).point t = .idle) → l.atomic = { l.server with
        conns := l.server.conns.mapIdx fun i c => { c with wtSktQue := (l.queues i).queue_ } }) := by
  have hanswers := run_abstracted Locked.atomic Locked.atOnce
    (fun l : Locked => Coherent l.objects l.server) (fun _ _ _ h hstep => Locked.next_answers h hstep)
    (Locked.coherent_start files) hrun
  refine ⟨hanswers.1, rfl, rfl, fun hidle => ?_⟩
  exact over_idle fun i t => by
    change ((l.queues i).point t).phase = .idle
    rw [hidle]
    rfl

/-- `writeThread` waits in `pop` when the packet is put in, is woken and takes it. -/
def packetThroughLocks : List LockedEvent :=
  (.accept blank :: grant 0 54).map .thread ++
    [.call 0 .writeThread, .go 0 .writeThread, .go 0 .writeThread, .thread (.packet packetToTwo),
      .thread .route, .call 0 .tunReader, .go 0 .tunReader, .go 0 .tunReader, .go 0 .tunReader,
      .notify 0 .tunReader (some .writeThread), .go 0 .writeThread, .go 0 .writeThread,
      .go 0 .writeThread, .go 0 .writeThread, .thread (.write 0 .again)]

theorem queue_locks_refine_packetThroughLocks :
    ∃ l es, run Locked.next (Locked.start opened) packetThroughLocks = some l ∧
      run next (State.start opened) es = some l.atomic ∧ packetThroughLocks.length = 26 ∧
      es.length = packetForClient.length ∧ l.server.conns.map Conn.writing = [.send (.header 0)] := by
  have hview : (run Locked.next (Locked.start opened) packetThroughLocks).map
      (fun l => l.server.conns.map Conn.writing) = some [.send (.header 0)] := by decide +kernel
  obtain ⟨l, hrun, hwriting⟩ := Option.map_eq_some_iff.mp hview
  have hrefines := (queue_locks_refine opened packetThroughLocks l hrun).1
  exact ⟨l, _, hrun, hrefines, rfl, by decide +kernel, hwriting⟩

end Over6.Threaded
