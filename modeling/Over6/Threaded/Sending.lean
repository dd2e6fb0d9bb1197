import Mathlib.Data.List.Forall2
import Over6.Threaded.Calculus

/-! # Messages kept apart

A thread holds `sendMutex` from before the first `write` of a message to behind the
last one. What a connection writes between two of its locks are the bytes of one
message.
-/

namespace Over6.Threaded

open EventRun Journal

/-! ## What a connection writes -/

def Act.message (i : Nat) : Act → List (Thread × Msg)
  | locked j who m => if j = i then [(who, m)] else []
  | _ => []

/-- The messages put on the socket of connection `i`, in the order in which they got its mutex. -/
def messages (i : Nat) (log : List Act) : List (Thread × Msg) := gather (Act.message i) log

/-- What connection `i` has written, cut where one of its threads gets `sendMutex`; the last piece
comes first. -/
def pieces (i : Nat) : List Act → List (List UInt8)
  | [] => []
  | .locked j _ _ :: log => if j = i then [] :: pieces i log else pieces i log
  | .wrote j _ _ bs :: log =>
      if j = i then
        match pieces i log with
        | [] => [bs]
        | piece :: older => (piece ++ bs) :: older
      else pieces i log
  | _ :: log => pieces i log

def transmitted (i : Nat) (log : List Act) : List (List UInt8) := (pieces i log).reverse

/-- `sendMessage` may write these bytes before it returns 0. -/
def Emits (sent : Thread × Msg) (bs : List UInt8) : Prop :=
  ∃ answers, written sent.2 (.header 0) answers = some bs

theorem mem_messages {i : Nat} {log : List Act} {p : Thread × Msg} (h : p ∈ messages i log) :
    .locked i p.1 p.2 ∈ log := by
  obtain ⟨act, hact, hp⟩ := mem_gather.mp h
  cases act with
  | locked j who m =>
      simp only [Act.message] at hp
      split at hp
      · rename_i hj
        obtain rfl := List.mem_singleton.mp hp
        exact hj ▸ hact
      · cases hp
  | _ => cases hp

/-- A call that is no part of `sendMessage`. -/
def Act.Silent : Act → Prop
  | read _ _ _ | pushed _ _ => True
  | _ => False

theorem messages_of_silent {act : Act} (h : act.Silent) (i : Nat) (log : List Act) :
    messages i (act :: log) = messages i log ∧ pieces i (act :: log) = pieces i log := by
  cases act with
  | read _ _ _ => exact ⟨List.append_nil _, rfl⟩
  | pushed _ _ => exact ⟨List.append_nil _, rfl⟩
  | wrote _ _ _ _ => exact h.elim
  | locked _ _ _ => exact h.elim

theorem messages_of_other {act : Act} {i j : Nat} {c : Conn} {on : Option Nat} (h : act.Of j c on)
    (hj : j ≠ i) (log : List Act) :
    messages i (act :: log) = messages i log ∧ pieces i (act :: log) = pieces i log := by
  cases act with
  | read _ _ _ => exact ⟨List.append_nil _, rfl⟩
  | pushed _ _ => exact ⟨List.append_nil _, rfl⟩
  | wrote k _ _ _ =>
      obtain ⟨rfl, _⟩ := h
      exact ⟨List.append_nil _, if_neg hj⟩
  | locked k who m =>
      obtain ⟨rfl, _⟩ := h
      refine ⟨?_, if_neg hj⟩
      rw [messages, gather_cons, Act.message, if_neg hj, List.append_nil]
      rfl

theorem messages_locked (i : Nat) (who : Thread) (m : Msg) (log : List Act) :
    messages i (.locked i who m :: log) = messages i log ++ [(who, m)] ∧
      pieces i (.locked i who m :: log) = [] :: pieces i log := by
  refine ⟨?_, if_pos rfl⟩
  rw [messages, gather_cons, Act.message, if_pos rfl]
  rfl

theorem messages_wrote {i : Nat} {log : List Act} {piece : List UInt8} {older : List (List UInt8)}
    (h : pieces i log = piece :: older) (who : Thread) (on : Option Nat) (bs : List UInt8) :
    messages i (.wrote i who on bs :: log) = messages i log ∧
      pieces i (.wrote i who on bs :: log) = (piece ++ bs) :: older := by
  refine ⟨List.append_nil _, ?_⟩
  rw [pieces, if_pos rfl, h]

/-! ## Where the threads are -/

namespace Conn

def sendPoint (c : Conn) : Thread → Option SendPoint
  | .read =>
      match c.reading with
      | .reply p => some p
      | _ => none
  | .write =>
      match c.writing with
      | .send p => some p
      | _ => none
  | .keep =>
      match c.keeping with
      | .send p => some p
      | _ => none

def sending (c : Conn) : Thread → Msg
  | .read => c.message
  | .write => c.outgoing
  | .keep => heartBeatMsg

/-- The thread is behind the lock of `sendMutex`. -/
def Inside (c : Conn) (who : Thread) : Prop := ∃ p ∈ c.sendPoint who, p ≠ .lock

instance (c : Conn) (who : Thread) : Decidable (c.Inside who) := by
  unfold Inside
  infer_instance

/-- The thread is where it was, with the same message. -/
def Stays (c c' : Conn) (who : Thread) : Prop :=
  c'.sendPoint who = c.sendPoint who ∧ c'.sending who = c.sending who

theorem Stays.inside_iff {c c' : Conn} {who : Thread} (h : c.Stays c' who) :
    c'.Inside who ↔ c.Inside who := by
  rw [Inside, Inside, h.1]

theorem not_inside_of_none {c : Conn} {who : Thread} (h : c.sendPoint who = none) :
    ¬ c.Inside who := by
  rintro ⟨p, hp, _⟩
  rw [h] at hp
  cases hp

theorem not_inside_of_lock {c : Conn} {who : Thread} (h : c.sendPoint who = some .lock) :
    ¬ c.Inside who := by
  rintro ⟨p, hp, hne⟩
  rw [h] at hp
  exact hne (Option.some.inj hp).symm

end Conn

/-! ## What a step does to them -/

def Sent.point : Sent → Option SendPoint
  | more p => some p
  | _ => none

/-- Nothing is sent, and no thread comes to or from the inside. -/
structure Quiet (c c' : Conn) (log log' : List Act) : Prop where
  mutex : c'.sendMutex = c.sendMutex
  threads : ∀ who, c.Stays c' who ∨ ¬ c.Inside who ∧ ¬ c'.Inside who
  log : log' = log ∨ ∃ act, log' = act :: log ∧ act.Silent

/-- A step of a thread of connection `i`, whose system call returns `a`. -/
inductive Transmits (i : Nat) (c : Conn) (who : Thread) (a : Answer) (c' : Conn)
    (log log' : List Act) : Prop
  | quiet (step : Quiet c c' log log')
  | locks (free : c.sendMutex = none) (held : c'.sendMutex = some who)
      (target : c'.sendPoint who = some (.header 0)) (same : c'.sending who = c.sending who)
      (others : ∀ w, w ≠ who → c.Stays c' w) (log : log' = .locked i who (c.sending who) :: log)
  | writes {p : SendPoint} {bs : List UInt8} {sent : Sent} {on : Option Nat}
      (point : c.sendPoint who = some p) (inside : p ≠ .lock)
      (once : writeOnce (c.sending who) p a = some (bs, sent))
      (held : c'.sendMutex = if sent.point.isSome then c.sendMutex else none)
      (target : c'.sendPoint who = sent.point)
      (same : c'.sending who = c.sending who) (others : ∀ w, w ≠ who → c.Stays c' w)
      (log : log' = .wrote i who on bs :: log)

structure Goes (who : Thread) (goto : Sent → Conn → Conn) : Prop where
  mutex : ∀ sent (c : Conn), (goto sent c).sendMutex = c.sendMutex
  point : ∀ sent (c : Conn), (goto sent c).sendPoint who = sent.point
  same : ∀ sent (c : Conn), (goto sent c).sending who = c.sending who
  others : ∀ sent (c : Conn) w, w ≠ who → c.Stays (goto sent c) w

theorem goes_afterReply : Goes .read Conn.afterReply where
  mutex _ _ := rfl
  point sent _ := by cases sent <;> rfl
  same _ _ := rfl
  others _ _ w hw := by
    cases w with
    | read => exact absurd rfl hw
    | write => exact ⟨rfl, rfl⟩
    | keep => exact ⟨rfl, rfl⟩

theorem goes_afterMessage : Goes .write Conn.afterMessage where
  mutex _ _ := rfl
  point sent _ := by cases sent <;> rfl
  same _ _ := rfl
  others _ _ w hw := by
    cases w with
    | read => exact ⟨rfl, rfl⟩
    | write => exact absurd rfl hw
    | keep => exact ⟨rfl, rfl⟩

theorem goes_afterHeartBeat : Goes .keep Conn.afterHeartBeat where
  mutex _ _ := rfl
  point sent _ := by cases sent <;> rfl
  same _ _ := rfl
  others _ _ w hw := by
    cases w with
    | read => exact ⟨rfl, rfl⟩
    | write => exact ⟨rfl, rfl⟩
    | keep => exact absurd rfl hw

section Steps

variable {s s' : State} {i : Nat} {c c' : Conn} {a : Answer}

theorem at_set (hc : s.conns[i]? = some c) {t : State} (hconns : t.conns = s.conns) (c' : Conn) :
    (t.set i c').conns[i]? = some c' := by
  change (t.conns.set i c')[i]? = some c'
  rw [hconns, List.getElem?_set_self (List.getElem?_eq_some_iff.mp hc).1]

theorem Sends.transmits {who : Thread} {p : SendPoint} {goto : Sent → Conn → Conn}
    (h : Sends s i c who (c.sending who) p a goto s') (hc : s.conns[i]? = some c)
    (hpoint : c.sendPoint who = some p) (hgoto : Goes who goto) :
    ∃ c', s'.conns[i]? = some c' ∧ Transmits i c who a c' s.log s'.log := by
  cases h with
  | locks _ hfree =>
      refine ⟨_, at_set hc rfl _, .locks hfree ?_ ?_ ?_ ?_ rfl⟩
      · rw [hgoto.mutex]
      · rw [hgoto.point, Sent.point]
      · rw [hgoto.same]
        cases who <;> rfl
      · exact fun w hw => hgoto.others _ { c with sendMutex := some who } w hw
  | @writes bs sent mutex hinside _ honce hreleased =>
      refine ⟨_, at_set hc rfl _, .writes hpoint hinside honce ?_ ?_ ?_ ?_ rfl⟩
      · rw [hgoto.mutex]
        cases sent <;> exact hreleased
      · rw [hgoto.point]
      · rw [hgoto.same]
        cases who <;> rfl
      · exact fun w hw => hgoto.others _ { c with sendMutex := mutex } w hw

theorem Quiet.refl (c : Conn) (log : List Act) : Quiet c c log log :=
  ⟨rfl, fun _ => .inl ⟨rfl, rfl⟩, .inl rfl⟩

theorem Quiet.note {log log' : List Act} (h : Quiet c c' log log') (hlog : log' = log) {act : Act}
    (hact : act.Silent) : Quiet c c' log (act :: log') :=
  ⟨h.mutex, h.threads, .inr ⟨act, congrArg _ hlog, hact⟩⟩

def ReadPoint.Outside (p : ReadPoint) : Prop := ∀ q, p = .reply q → q = .lock

theorem not_inside_read (h : c.reading.Outside) : ¬ c.Inside .read := by
  rintro ⟨p, hp, hne⟩
  simp only [Conn.sendPoint] at hp
  split at hp
  · rename_i q hq
    obtain rfl := Option.some.inj hp
    exact hne (h q hq)
  · cases hp

/-- Connection `i` sends nothing on the way from `s` to `t`. -/
def Silences (s : State) (i : Nat) (c : Conn) (t : State) : Prop :=
  ∃ c', t.conns[i]? = some c' ∧ Quiet c c' s.log t.log

/-- Of the connections only `i` changes, in what `readThread` has to itself. -/
theorem quiet_set (hc : s.conns[i]? = some c) {t : State} (hconns : t.conns = s.conns)
    (hlog : t.log = s.log) (hbefore : c.reading.Outside) (hafter : c'.reading.Outside)
    (hmutex : c'.sendMutex = c.sendMutex)
    (hwrite : c'.writing = c.writing ∧ c'.outgoing = c.outgoing) (hkeep : c'.keeping = c.keeping) :
    Silences s i c (t.set i c') := by
  refine ⟨c', at_set hc hconns c', hmutex, fun who => ?_, .inl hlog⟩
  cases who with
  | read => exact .inr ⟨not_inside_read hbefore, not_inside_read hafter⟩
  | write =>
      refine .inl ⟨?_, hwrite.2⟩
      rw [Conn.sendPoint, Conn.sendPoint, hwrite.1]
  | keep =>
      refine .inl ⟨?_, rfl⟩
      rw [Conn.sendPoint, Conn.sendPoint, hkeep]

theorem quiet_fail (hc : s.conns[i]? = some c) (why : Crash) :
    Silences s i c (s.fail why) :=
  ⟨c, hc, Quiet.refl c s.log⟩

theorem Silences.note {t : State} (h : Silences s i c t) (hlog : t.log = s.log) {act : Act}
    (hact : act.Silent) : Silences s i c (t.note act) := by
  obtain ⟨d, hd, hquiet⟩ := h
  exact ⟨d, hd, hquiet.note hlog hact⟩

theorem outside_of_idle {p : ReadPoint} (h : p.Idle) : p.Outside := by
  rintro q rfl
  exact h.elim

theorem outside_of_ne {p : ReadPoint} (h : ∀ q, p ≠ .reply q) : p.Outside :=
  fun q hq => absurd hq (h q)

/-- `readThread` goes on somewhere else. -/
theorem quiet_goto (hc : s.conns[i]? = some c) (hbefore : c.reading.Outside) {p : ReadPoint}
    (hp : p.Outside) : Silences s i c (s.set i { c with reading := p }) :=
  quiet_set hc rfl rfl hbefore hp rfl ⟨rfl, rfl⟩ rfl

/-- A section under `ipMutex`. -/
theorem quiet_locked {α : Type} {r : Except Crash α} {go : α → State}
    (hc : s.conns[i]? = some c) (h : s.locked r go = some s')
    (hgo : ∀ x, r = .ok x → Silences s i c (go x)) : Silences s i c s' := by
  obtain ⟨_, ⟨x, hx, rfl⟩ | ⟨why, _, rfl⟩⟩ := locked_spec h
  · exact hgo x hx
  · exact quiet_fail hc why

/-- The sections record nothing and leave the connections alone. -/
theorem setIpStatus_quiet {addr : List UInt8} {b : Bool} {t : State}
    (h : s.setIpStatus addr b = .ok t) : t.conns = s.conns ∧ t.log = s.log := by
  obtain ⟨_, _, _, hok⟩ | ⟨_, herror, _⟩ := setIpStatus_spec s addr b
  · obtain rfl := Except.ok.inj (hok.symm.trans h)
    exact ⟨rfl, rfl⟩
  · exact absurd (herror.symm.trans h) nofun

theorem setConnectionWithIp_quiet {addr : List UInt8} {t : State}
    (h : s.setConnectionWithIp addr i = .ok t) : t.conns = s.conns ∧ t.log = s.log := by
  unfold State.setConnectionWithIp at h
  split at h
  · cases h
  · split at h <;> cases h <;> exact ⟨rfl, rfl⟩

theorem readBody_quiet (hc : s.conns[i]? = some c) (hbefore : c.reading.Outside) {total : Nat}
    (hpoint : c.reading = .body total) (h : stepRead s i c a = some s') : Silences s i c s' := by
  simp only [stepRead, hpoint] at h
  split at h
  · obtain ⟨r, hread, rfl⟩ := Option.map_eq_some_iff.mp h
    cases readBody_spec hread hpoint with
    | @goes m p hp =>
        have hset : Silences s i c (s.set i { c with message := m, reading := p }) :=
          quiet_set hc rfl rfl hbefore (outside_of_idle hp) rfl ⟨rfl, rfl⟩ rfl
        exact hset.note rfl trivial
    | stops =>
        have hstop : Silences s i c (s.set i { c with reading := .ending }) :=
          quiet_goto hc hbefore (outside_of_ne (by simp))
        exact hstop.note rfl trivial
    | dies => exact (quiet_fail hc .overflow).note rfl trivial
  · cases h

theorem dispatch_quiet (hc : s.conns[i]? = some c) (hbefore : c.reading.Outside) :
    Silences s i c (s.dispatch i c) := by
  have hback : Silences s i c (s.set i { c with reading := .check }) :=
    quiet_goto hc hbefore (outside_of_ne nofun)
  unfold State.dispatch
  simp only
  split
  · exact quiet_goto hc hbefore (outside_of_ne nofun)
  · split
    · exact quiet_set hc rfl rfl hbefore (outside_of_ne nofun) rfl ⟨rfl, rfl⟩ rfl
    · split
      · split
        · exact quiet_fail hc _
        · exact hback.note rfl trivial
      · exact hback

theorem choose_quiet (hc : s.conns[i]? = some c) (hbefore : c.reading.Outside)
    (hpoint : c.reading = .choose) (h : stepRead s i c a = some s') : Silences s i c s' := by
  have hanswer : ∀ addr behind, Silences s i c (s.set i (c.answer addr behind)) := by
    intro addr behind
    refine quiet_set hc rfl rfl hbefore ?_ rfl ⟨rfl, rfl⟩ rfl
    exact fun q hq => (ReadPoint.reply.inj hq).symm
  simp only [stepRead, hpoint] at h
  split at h
  · split at h
    · split at h
      · refine quiet_locked hc h fun free _ => ?_
        cases free with
        | none => exact quiet_fail hc _
        | some n => exact hanswer _ _
      · cases h
        exact hanswer _ _
    · cases h
  · cases h

/-- All that `readThread` does outside of `sendMessage`. -/
theorem stepRead_quiet (hc : s.conns[i]? = some c) (hout : ∀ p, c.reading ≠ .reply p)
    (h : stepRead s i c a = some s') : Silences s i c s' := by
  have hbefore : c.reading.Outside := outside_of_ne hout
  cases hpoint : c.reading with
  | check =>
      simp only [stepRead, hpoint, Option.some.injEq] at h
      subst h
      refine quiet_goto hc hbefore (outside_of_ne fun q => ?_)
      split <;> simp
  | header total =>
      simp only [stepRead, hpoint] at h
      split at h
      · obtain ⟨c', hread, rfl⟩ := Option.map_eq_some_iff.mp h
        obtain ⟨m, p, rfl, hp⟩ := readHeader_spec hread hpoint
        have hset : Silences s i c (s.set i { c with message := m, reading := p }) :=
          quiet_set hc rfl rfl hbefore (outside_of_idle hp) rfl ⟨rfl, rfl⟩ rfl
        exact hset.note rfl trivial
      · cases h
  | body total => exact readBody_quiet hc hbefore hpoint h
  | dispatch =>
      simp only [stepRead, hpoint, Option.some.injEq] at h
      exact h ▸ dispatch_quiet hc hbefore
  | request =>
      simp only [stepRead, hpoint] at h
      split at h
      · cases h
        exact quiet_goto hc hbefore (outside_of_ne (by simp))
      · refine quiet_locked hc h fun found _ => ?_
        split
        · exact quiet_fail hc _
        · exact quiet_goto hc hbefore (outside_of_ne (by simp))
  | choose => exact choose_quiet hc hbefore hpoint h
  | reply p => exact absurd hpoint (hout p)
  | setStatus =>
      simp only [stepRead, hpoint] at h
      refine quiet_locked hc h fun t ht => ?_
      obtain ⟨hconns, hlog⟩ := setIpStatus_quiet ht
      exact quiet_set hc hconns hlog hbefore (outside_of_ne (by simp)) rfl ⟨rfl, rfl⟩ rfl
  | setConnection =>
      simp only [stepRead, hpoint] at h
      refine quiet_locked hc h fun t ht => ?_
      obtain ⟨hconns, hlog⟩ := setConnectionWithIp_quiet ht
      split
      · exact ⟨c, hconns ▸ hc, hlog ▸ Quiet.refl c s.log⟩
      · exact quiet_set hc hconns hlog hbefore (outside_of_ne (by simp)) rfl ⟨rfl, rfl⟩ rfl
  | ending =>
      simp only [stepRead, hpoint] at h
      refine quiet_locked hc h fun t ht => ?_
      obtain ⟨hconns, hlog⟩ := setIpStatus_quiet ht
      exact quiet_set hc hconns hlog hbefore (outside_of_ne (by simp)) rfl ⟨rfl, rfl⟩ rfl
  | ended =>
      simp only [stepRead, hpoint] at h
      cases h

theorem stepRead_transmits (hc : s.conns[i]? = some c) (h : stepRead s i c a = some s') :
    ∃ c', s'.conns[i]? = some c' ∧ Transmits i c .read a c' s.log s'.log := by
  by_cases hreply : ∃ p, c.reading = .reply p
  · obtain ⟨p, hpoint⟩ := hreply
    simp only [stepRead, hpoint] at h
    exact (send_spec h).transmits hc (by rw [Conn.sendPoint, hpoint]) goes_afterReply
  · obtain ⟨c', hc', hquiet⟩ := stepRead_quiet hc (fun p hp => hreply ⟨p, hp⟩) h
    exact ⟨c', hc', .quiet hquiet⟩

/-- A step of a thread that stays in front of the lock. -/
theorem transmits_set (hc : s.conns[i]? = some c) {t : State} (hconns : t.conns = s.conns.set i c')
    (hlog : t.log = s.log) {who : Thread} (hbefore : ¬ c.Inside who) (hafter : ¬ c'.Inside who)
    (hmutex : c'.sendMutex = c.sendMutex) (hothers : ∀ w, w ≠ who → c.Stays c' w) :
    ∃ d, t.conns[i]? = some d ∧ Transmits i c who a d s.log t.log := by
  refine ⟨c', ?_, .quiet ⟨hmutex, fun w => ?_, .inl hlog⟩⟩
  · rw [hconns]
    exact at_set hc rfl c'
  · by_cases hw : w = who
    · subst hw
      exact .inr ⟨hbefore, hafter⟩
    · exact .inl (hothers w hw)

theorem stepWrite_transmits (hc : s.conns[i]? = some c) (h : stepWrite s i c a = some s') :
    ∃ c', s'.conns[i]? = some c' ∧ Transmits i c .write a c' s.log s'.log := by
  unfold stepWrite at h
  split at h
  · rename_i hpoint
    split at h
    · cases h
    · rename_i m queue _
      cases h
      have hconns : (s.set i { c with wtSktQue := queue, outgoing := m, writing := .send .lock }).conns =
          s.conns.set i { c with wtSktQue := queue, outgoing := m, writing := .send .lock } := rfl
      refine transmits_set hc hconns rfl (Conn.not_inside_of_none ?_) (Conn.not_inside_of_lock ?_) rfl ?_
      · simp only [Conn.sendPoint, hpoint]
      · rfl
      · intro w hw
        cases w with
        | read => exact ⟨rfl, rfl⟩
        | write => exact absurd rfl hw
        | keep => exact ⟨rfl, rfl⟩
  · rename_i p hpoint
    exact (send_spec h).transmits hc (by rw [Conn.sendPoint, hpoint]) goes_afterMessage
  · cases h

def KeepPoint.Outside (p : KeepPoint) : Prop := ∀ q, p = .send q → q = .lock

theorem not_inside_keep (h : c.keeping.Outside) : ¬ c.Inside .keep := by
  rintro ⟨p, hp, hne⟩
  simp only [Conn.sendPoint] at hp
  split at hp
  · rename_i q hq
    obtain rfl := Option.some.inj hp
    exact hne (h q hq)
  · cases hp

theorem transmits_keep (hc : s.conns[i]? = some c) (hbefore : c.keeping.Outside) {p : KeepPoint}
    (hp : p.Outside) {n : Nat} {t : State}
    (hconns : t.conns = s.conns.set i { c with heartBeatCount := n, keeping := p })
    (hlog : t.log = s.log) :
    ∃ d, t.conns[i]? = some d ∧ Transmits i c .keep a d s.log t.log := by
  refine transmits_set hc hconns hlog (not_inside_keep hbefore) (not_inside_keep hp) rfl ?_
  intro w hw
  cases w with
  | read => exact ⟨rfl, rfl⟩
  | write => exact ⟨rfl, rfl⟩
  | keep => exact absurd rfl hw

theorem stepKeep_transmits (hc : s.conns[i]? = some c) (h : stepKeep s i c a = some s') :
    ∃ c', s'.conns[i]? = some c' ∧ Transmits i c .keep a c' s.log s'.log := by
  have hout : ∀ p : KeepPoint, (∀ q, p ≠ .send q) → p.Outside :=
    fun p hne q hq => absurd hq (hne q)
  unfold stepKeep at h
  split at h
  · rename_i hpoint
    cases h
    refine transmits_keep hc (hpoint ▸ hout .check nofun) (hout _ fun q => ?_) rfl rfl
    split <;> nofun
  · rename_i hpoint
    cases h
    exact transmits_keep hc (hpoint ▸ hout .tick nofun) (hout .test nofun) rfl rfl
  · rename_i hpoint
    cases h
    refine transmits_keep hc (hpoint ▸ hout .test nofun) (fun q hq => ?_) rfl rfl
    split at hq
    · exact (KeepPoint.send.inj hq).symm
    · cases hq
  · rename_i p hpoint
    exact (send_spec h).transmits hc (by rw [Conn.sendPoint, hpoint]) goes_afterHeartBeat
  · rename_i hpoint
    cases h
    exact transmits_keep hc (hpoint ▸ hout .close nofun) (hout .ended nofun) rfl rfl
  · cases h

end Steps

/-! ## Events -/

def Event.of (i : Nat) (who : Thread) (a : Answer) : Event :=
  match who with
  | .read => .read i a
  | .write => .write i a
  | .keep => .keep i a

inductive Moves (s : State) : Event → State → Prop
  | accepts (stale : Msg) : Moves s (.accept stale) (s.accept stale)
  | same {e : Event} {s' : State} (conns : s'.conns = s.conns) (log : s'.log = s.log) : Moves s e s'
  | queues {e : Event} {s' : State} {i : Nat} {c c' : Conn} (touches : Touches s i c c' s')
      (quiet : Quiet c c' s.log s'.log) : Moves s e s'
  | transmits {s' : State} {i : Nat} {who : Thread} {a : Answer} {c c' : Conn}
      (touches : Touches s i c c' s') (step : Transmits i c who a c' s.log s'.log) :
      Moves s (.of i who a) s'

theorem moves_of_thread {s s' : State} {i : Nat} {c c' : Conn} {who : Thread} {a : Answer}
    (htouches : Touches s i c c' s')
    (h : ∃ d, s'.conns[i]? = some d ∧ Transmits i c who a d s.log s'.log) :
    Moves s (.of i who a) s' := by
  obtain ⟨d, hd, hstep⟩ := h
  obtain rfl := Option.some.inj (hd.symm.trans htouches.after)
  exact .transmits htouches hstep

theorem moves_of_next {s s' : State} {e : Event} (h : next s e = some s') : Moves s e s' := by
  obtain ⟨_, hnext⟩ := next_spec h
  unfold next at h
  split at h
  · cases h
  · cases e with
    | accept stale =>
        cases h
        exact .accepts stale
    | read i a =>
        obtain ⟨c, hc, hstep⟩ := Option.bind_eq_some_iff.mp h
        obtain ⟨_, hreads⟩ := stepRead_reads hc hstep
        exact moves_of_thread hreads.touches (stepRead_transmits hc hstep)
    | write i a =>
        obtain ⟨c, hc, hstep⟩ := Option.bind_eq_some_iff.mp h
        obtain ⟨_, hwrites⟩ := stepWrite_writes hc hstep
        exact moves_of_thread hwrites.touches (stepWrite_transmits hc hstep)
    | keep i a =>
        obtain ⟨c, hc, hstep⟩ := Option.bind_eq_some_iff.mp h
        obtain ⟨_, hkeeps⟩ := stepKeep_keeps hc hstep
        exact moves_of_thread hkeeps.touches (stepKeep_transmits hc hstep)
    | packet buf =>
        simp only at h
        split at h
        · cases h
          exact .same rfl rfl
        · cases h
    | route =>
        simp only [stepTun] at h
        split at h
        · cases h
        · obtain ⟨_, ⟨found, _, rfl⟩ | ⟨why, _, rfl⟩⟩ := locked_spec h
          · exact .same rfl rfl
          · exact .same rfl rfl
        · rename_i i buf _
          split at h
          · cases h
          · rename_i c hc
            cases h
            have htouches : Touches s i c { c with wtSktQue := c.wtSktQue ++ [dataMsg buf] }
                { s.set i { c with wtSktQue := c.wtSktQue ++ [dataMsg buf] } with
                  tunReader := .read } := touches_set hc rfl rfl rfl
            refine .queues htouches ⟨rfl, fun who => .inl ?_, .inl rfl⟩
            cases who <;> exact ⟨rfl, rfl⟩

/-! ## Messages one after the other -/

/-- What has become of a message: a call that is over has left what `Left` says of it, and the call
that holds the mutex has written what it is past. -/
structure Apart (Left : Thread × Msg → List UInt8 → Prop) (i : Nat) (c : Conn) (log : List Act) :
    Prop where
  alone : ∀ who, c.Inside who → c.sendMutex = some who
  finished : c.sendMutex = none → List.Forall₂ Left (messages i log) (transmitted i log)
  underway : ∀ who, c.sendMutex = some who → ∃ p older bss piece,
    c.sendPoint who = some p ∧ p.Running (c.sending who) ∧
      messages i log = older ++ [(who, c.sending who)] ∧ pieces i log = piece :: bss ∧
      List.Forall₂ Left older bss.reverse ∧
      piece ++ p.rest (c.sending who) = emitted (c.sending who)

namespace Apart

variable {Left : Thread × Msg → List UInt8 → Prop} {i : Nat} {c c' : Conn} {log log' : List Act}

theorem ne_lock_of_running {m : Msg} {p : SendPoint} (h : p.Running m) : p ≠ .lock := by
  rintro rfl
  exact h.elim

/-- Nothing is sent here. -/
theorem quiet (h : Apart Left i c log) (hq : Quiet c c' log log') : Apart Left i c' log' := by
  have hlog : messages i log' = messages i log ∧ pieces i log' = pieces i log := by
    rcases hq.log with rfl | ⟨act, rfl, hact⟩
    · exact ⟨rfl, rfl⟩
    · exact messages_of_silent hact i log
  refine ⟨fun who hin => ?_, fun hfree => ?_, fun who hheld => ?_⟩
  · rw [hq.mutex]
    rcases hq.threads who with hstays | ⟨_, hnot⟩
    · exact h.alone who (hstays.inside_iff.mp hin)
    · exact absurd hin hnot
  · rw [hq.mutex] at hfree
    rw [hlog.1, transmitted, hlog.2]
    exact h.finished hfree
  · rw [hq.mutex] at hheld
    obtain ⟨p, older, bss, piece, hpoint, hrunning, hmessages, hpieces, hleft, hrest⟩ :=
      h.underway who hheld
    have hstays : c.Stays c' who := by
      rcases hq.threads who with hstays | ⟨hnot, _⟩
      · exact hstays
      · exact absurd ⟨p, hpoint, ne_lock_of_running hrunning⟩ hnot
    refine ⟨p, older, bss, piece, ?_⟩
    rw [hstays.1, hstays.2, hlog.1, hlog.2]
    exact ⟨hpoint, hrunning, hmessages, hpieces, hleft, hrest⟩

/-- Of the threads only `who` moves, and it is behind the lock then only if it holds the mutex. -/
theorem alone_step (h : Apart Left i c log) {who : Thread} (hmutex : c.sendMutex = none ∨
      c.sendMutex = some who) (hself : c'.Inside who → c'.sendMutex = some who)
    (hothers : ∀ w, w ≠ who → c.Stays c' w) : ∀ w, c'.Inside w → c'.sendMutex = some w := by
  intro w hin
  by_cases hw : w = who
  · subst hw
    exact hself hin
  · have hheld := h.alone w ((hothers w hw).inside_iff.mp hin)
    rcases hmutex with hfree | hwho
    · rw [hfree] at hheld
      cases hheld
    · rw [hwho] at hheld
      exact absurd (Option.some.inj hheld).symm hw

theorem step (h : Apart Left i c log) {who : Thread} {a : Answer}
    (ht : Transmits i c who a c' log log') (hwhole : ∀ sent, Left sent (emitted sent.2))
    (hcut : a = .error → c.Inside who → ∀ sent bs, bs <+: emitted sent.2 → Left sent bs) :
    Apart Left i c' log' := by
  cases ht with
  | quiet hq => exact h.quiet hq
  | locks hfree hheld htarget hsame hothers hlog =>
      obtain ⟨hmessages, hpieces⟩ := messages_locked i who (c.sending who) log
      refine ⟨h.alone_step (.inl hfree) (fun _ => hheld) hothers, fun hnone => ?_, fun w hw => ?_⟩
      · rw [hheld] at hnone
        cases hnone
      · obtain rfl := Option.some.inj (hheld.symm.trans hw)
        refine ⟨.header 0, messages i log, pieces i log, [], htarget, ?_, ?_, ?_, h.finished hfree, ?_⟩
        · exact Nat.zero_lt_succ 4
        · rw [hlog, hmessages, hsame]
        · rw [hlog, hpieces]
        · rfl
  | @writes p bs sent on hpoint hinside honce hheld htarget hsame hothers hlog =>
      have hmutex := h.alone who ⟨p, hpoint, hinside⟩
      obtain ⟨p₀, older, bss, piece, hp₀, hrunning, hmessages, hpieces, hleft, hrest⟩ :=
        h.underway who hmutex
      obtain rfl := Option.some.inj (hpoint.symm.trans hp₀)
      obtain ⟨hmessages', hpieces'⟩ := messages_wrote hpieces who on bs
      rw [hmutex] at hheld
      have hafter : ∀ b, Left (who, c.sending who) b → b = piece ++ bs →
          List.Forall₂ Left (messages i log') (transmitted i log') := by
        rintro b hb rfl
        rw [hlog, hmessages', transmitted, hpieces', hmessages, List.reverse_cons]
        exact List.rel_append hleft (.cons hb .nil)
      cases writeOnce_wrote hrunning honce with
      | @more p' hrunning' hcut' =>
          have hmore : c'.sendMutex = some who := hheld
          refine ⟨h.alone_step (.inr hmutex) (fun _ => hmore) hothers, fun hnone => ?_, fun w hw => ?_⟩
          · rw [hmore] at hnone
            cases hnone
          · obtain rfl := Option.some.inj (hmore.symm.trans hw)
            refine ⟨p', older, bss, piece ++ bs, htarget, ?_, ?_, ?_, hleft, ?_⟩
            · rw [hsame]
              exact hrunning'
            · rw [hlog, hmessages', hmessages, hsame]
            · rw [hlog, hpieces']
            · rw [hsame, List.append_assoc, ← hcut', hrest]
      | done hlast =>
          have hnone : c'.sendMutex = none := hheld
          have hout : ¬ c'.Inside who := Conn.not_inside_of_none htarget
          refine ⟨h.alone_step (.inr hmutex) (fun hin => absurd hin hout) hothers, fun _ => ?_,
            fun w hw => ?_⟩
          · exact hafter _ (hwhole (who, c.sending who)) (by rw [← hlast, hrest])
          · rw [hnone] at hw
            cases hw
      | failed hnothing =>
          have hnone : c'.sendMutex = none := hheld
          have hout : ¬ c'.Inside who := Conn.not_inside_of_none htarget
          have herror : a = .error := (writeOnce_failed_iff honce).mp rfl
          refine ⟨h.alone_step (.inr hmutex) (fun hin => absurd hin hout) hothers, fun _ => ?_,
            fun w hw => ?_⟩
          · refine hafter piece (hcut herror ⟨p, hpoint, hinside⟩ _ _ ⟨_, hrest⟩) ?_
            rw [hnothing, List.append_nil]
          · rw [hnone] at hw
            cases hw

end Apart

/-- A connection, which may still be to come. -/
structure Orderly (Left : Thread × Msg → List UInt8 → Prop) (i : Nat) (s : State) : Prop where
  apart : ∀ c, s.conns[i]? = some c → Apart Left i c s.log
  fresh : s.conns[i]? = none → messages i s.log = [] ∧ pieces i s.log = []

def Event.failing (i : Nat) : Event → Option Thread
  | .read j a => if j = i ∧ a = .error then some .read else none
  | .write j a => if j = i ∧ a = .error then some .write else none
  | .keep j a => if j = i ∧ a = .error then some .keep else none
  | _ => none

theorem failing_of (i : Nat) (who : Thread) : (Event.of i who .error).failing i = some who := by
  cases who <;> exact if_pos ⟨rfl, rfl⟩

/-- A write of connection `i` in `sendMessage` fails. -/
def Fails (i : Nat) (s : State) (e : Event) : Prop :=
  ∃ who ∈ e.failing i, ∃ c ∈ s.conns[i]?, c.Inside who

instance (i : Nat) (s : State) (e : Event) : Decidable (Fails i s e) := by
  unfold Fails
  infer_instance

namespace Orderly

variable {Left : Thread × Msg → List UInt8 → Prop} {i : Nat} {s s' : State}

theorem start (i : Nat) (files : List (Option File)) : Orderly Left i (State.start files) :=
  ⟨fun c hc => by simp [State.start] at hc, fun _ => ⟨rfl, rfl⟩⟩

/-- A step of another connection. -/
theorem other (h : Orderly Left i s) {j : Nat} {c c' : Conn} (hj : j ≠ i)
    (ht : Touches s j c c' s') : Orderly Left i s' := by
  have hconn : s'.conns[i]? = s.conns[i]? := ht.others i (Ne.symm hj)
  have hsame : messages i s'.log = messages i s.log ∧ pieces i s'.log = pieces i s.log := by
    rcases ht.log with hlog | ⟨act, hlog, hof⟩
    · rw [hlog]
      exact ⟨rfl, rfl⟩
    · rw [hlog]
      exact messages_of_other hof hj s.log
  obtain ⟨hmessages, hpieces⟩ := hsame
  refine ⟨fun d hd => ?_, fun hnone => ?_⟩
  · have hd' := h.apart d (hconn ▸ hd)
    refine ⟨hd'.alone, ?_, ?_⟩
    · rw [hmessages, transmitted, hpieces]
      exact hd'.finished
    · rw [hmessages, hpieces]
      exact hd'.underway
  · rw [hmessages, hpieces]
    exact h.fresh (hconn ▸ hnone)

/-- A step of a connection is one of the other connections, or one of its own. -/
theorem touches (h : Orderly Left i s) {j : Nat} {c c' : Conn} (ht : Touches s j c c' s')
    (hself : j = i → Apart Left i c s.log → Apart Left i c' s'.log) : Orderly Left i s' := by
  by_cases hj : j = i
  · subst hj
    refine ⟨fun d hd => ?_, fun hnone => ?_⟩
    · obtain rfl := Option.some.inj (ht.after.symm.trans hd)
      exact hself rfl (h.apart c ht.before)
    · rw [ht.after] at hnone
      cases hnone
  · exact h.other hj ht

theorem accept (h : Orderly Left i s) (stale : Msg) : Orderly Left i (s.accept stale) := by
  refine ⟨fun c hc => ?_, fun hnone => ?_⟩
  · rcases conns_accept hc with hold | ⟨rfl, rfl⟩
    · exact h.apart c hold
    · obtain ⟨hmessages, hpieces⟩ := h.fresh (List.getElem?_eq_none (Nat.le_refl _))
      refine ⟨fun who hin => ?_, fun _ => ?_, fun who hheld => ?_⟩
      · cases who <;> exact absurd hin (Conn.not_inside_of_none rfl)
      · change List.Forall₂ Left (messages _ s.log) (transmitted _ s.log)
        rw [hmessages, transmitted, hpieces]
        exact .nil
      · cases hheld
  · have hlen : (s.accept stale).conns.length = s.conns.length + 1 := List.length_append
    have hle := List.getElem?_eq_none_iff.mp hnone
    exact h.fresh (List.getElem?_eq_none (by omega))

theorem moves (h : Orderly Left i s) {e : Event} (hm : Moves s e s')
    (hwhole : ∀ sent, Left sent (emitted sent.2))
    (hcut : Fails i s e → ∀ sent bs, bs <+: emitted sent.2 → Left sent bs) : Orderly Left i s' := by
  cases hm with
  | accepts stale => exact h.accept stale
  | same hconns hlog =>
      refine ⟨?_, ?_⟩
      · rw [hconns, hlog]
        exact h.apart
      · rw [hconns, hlog]
        exact h.fresh
  | queues ht hquiet => exact h.touches ht fun _ hapart => hapart.quiet hquiet
  | @transmits _ j who a c c' ht hstep =>
      refine h.touches ht ?_
      rintro rfl hapart
      refine hapart.step hstep hwhole ?_
      rintro rfl hinside
      exact hcut ⟨who, failing_of j who, c, ht.before, hinside⟩

end Orderly

def Front (sent : Thread × Msg) (bs : List UInt8) : Prop := bs <+: emitted sent.2

end Over6.Threaded
