import Over6.Threaded.Calculus

/-! # The asserts of the threaded server

One client alone with a server whose other addresses may be in use. `readThread` and
`setIpStatus` assert what they expect of the address, and all ways out of `readThread`
give an address back, whether there is one or not.
-/

namespace Over6.Threaded

open EventRun

/-- No assert has failed and `std::stoi` has not thrown, nor will in the step that comes next. -/
structure AssertsHold (s : State) : Prop where
  passed : s.crash ≠ some .requestAssert ∧ s.crash ≠ some .statusAssert ∧ s.crash ≠ some .stoi
  coming : ∀ (i : Nat) c, s.conns[i]? = some c → s.Sound c

/-- A second IP request, an end before there is an address, or a reply that cannot be sent. -/
def Conn.Dooms (c : Conn) (a : Answer) : Prop :=
  match c.reading with
  | .check => 60 ≤ c.heartBeatCount ∧ c.ipv4Address = []
  | .body _ => a = .error ∧ c.ipv4Address = []
  | .dispatch => c.message.header.type = msgIpReq ∧ c.ipv4Address ≠ []
  | .reply p => p ≠ .lock ∧ a = .error
  | _ => False

instance (c : Conn) (a : Answer) : Decidable (c.Dooms a) := by
  unfold Conn.Dooms
  exact match c.reading with
    | .check | .body _ | .dispatch | .reply _ => inferInstanceAs (Decidable (_ ∧ _))
    | .header _ | .request | .choose | .setStatus | .setConnection | .ending | .ended =>
        inferInstanceAs (Decidable False)

def Dooms (s : State) : Event → Prop
  | .read i a => ∃ c ∈ s.conns[i]?, c.Dooms a
  | _ => False

instance (s : State) (e : Event) : Decidable (Dooms s e) :=
  match e with
  | .read i a => inferInstanceAs (Decidable (∃ c ∈ s.conns[i]?, c.Dooms a))
  | .accept _ | .write .. | .keep .. | .packet _ | .route => inferInstanceAs (Decidable False)

/-- One client, and no other is accepted. -/
def State.client (files : List (Option File)) (status : Int → Bool)
    (connections : Int → Option Nat) (stale : Msg) : State :=
  State.accept { State.start files with status := status, connections := connections } stale

def nextAlone (s : State) : Event → Option State
  | .accept _ => none
  | e => next s e

/-! ## What the only client has of its address -/

/-- `readThread` has an address or not, and the tables say so. -/
def State.Granted (s : State) (c : Conn) : Prop :=
  match c.reading with
  | .request | .choose => c.ipv4Address = []
  | .reply _ | .setStatus =>
      ∃ n : Nat, n < 1024 ∧ c.ipv4Address = ipText n ∧ s.status n = false
  | .setConnection | .ending =>
      ∃ n : Nat, n < 1024 ∧ c.ipv4Address = ipText n ∧ s.status n = true
  | .ended => True
  | _ =>
      c.ipv4Address = [] ∨ ∃ n : Nat, n < 1024 ∧ c.ipv4Address = ipText n ∧ s.status n = true ∧
        (s.connections n).isSome

structure Alone (s : State) : Prop where
  granted : ∀ (i : Nat) c, s.conns[i]? = some c → i = 0 ∧ s.Granted c
  packet : ∀ buf, s.tunReader = .lookup buf → 20 ≤ buf.length

theorem granted_idle {s : State} {c : Conn} (h : c.reading.Idle) : s.Granted c ↔
    (c.ipv4Address = [] ∨ ∃ n : Nat, n < 1024 ∧ c.ipv4Address = ipText n ∧ s.status n = true ∧
      (s.connections n).isSome) := by
  unfold State.Granted
  cases hpoint : c.reading <;> rw [hpoint] at h <;> exact h.elim

theorem sound_idle {s : State} {c : Conn} (h : c.reading.Idle) : s.Sound c := by
  unfold State.Sound
  cases hpoint : c.reading <;> rw [hpoint] at h <;> trivial

/-- Only the address, the point and the tables count. -/
theorem granted_congr {s s' : State} {c c' : Conn} (hstatus : s'.status = s.status)
    (hconnections : s'.connections = s.connections) (hpoint : c'.reading = c.reading)
    (haddress : c'.ipv4Address = c.ipv4Address) : s'.Granted c' ↔ s.Granted c := by
  rw [State.Granted, State.Granted, hstatus, hconnections, hpoint, haddress]

theorem sound_congr {s s' : State} {c c' : Conn} (hstatus : s'.status = s.status)
    (hconnections : s'.connections = s.connections) (hpoint : c'.reading = c.reading)
    (haddress : c'.ipv4Address = c.ipv4Address) : s'.Sound c' ↔ s.Sound c := by
  rw [State.Sound, State.Sound, State.getConnectionByIp, State.getConnectionByIp, hstatus,
    hconnections, hpoint, haddress]

/-- What the tables say of the address is all that is asserted of it. -/
theorem sound_of_granted {s : State} {c : Conn} (h : s.Granted c) : s.Sound c := by
  have hnumber : ∀ {n : Nat}, n < 1024 → c.ipv4Address = ipText n →
      getIpNum c.ipv4Address = some (n : Int) := by
    intro n hn htext
    rw [htext, getIpNum_ipText (by omega)]
  unfold State.Granted at h
  unfold State.Sound
  cases hpoint : c.reading <;> simp only [hpoint] at h ⊢
  case request => exact .inl h
  case setStatus =>
    obtain ⟨n, hn, htext, hunused⟩ := h
    exact ⟨n, hnumber hn htext, hunused⟩
  case setConnection =>
    obtain ⟨n, hn, htext, _⟩ := h
    exact ⟨n, hnumber hn htext⟩
  case ending =>
    obtain ⟨n, hn, htext, hused⟩ := h
    exact ⟨n, hnumber hn htext, hused⟩

/-- The assert in front of a grant holds for a client without an address only. -/
theorem sound_request_iff {s : State} {c : Conn} (hpoint : c.reading = .request)
    (h : c.ipv4Address = [] ∨ ∃ n : Nat, n < 1024 ∧ c.ipv4Address = ipText n ∧
      s.status n = true ∧ (s.connections n).isSome) : s.Sound c ↔ c.ipv4Address = [] := by
  rw [State.Sound, hpoint]
  refine ⟨?_, .inl⟩
  rintro (hnil | hnone)
  · exact hnil
  · rcases h with hnil | ⟨n, hn, htext, hused, hsome⟩
    · exact hnil
    · rw [State.getConnectionByIp, htext, getIpNum_ipText (by omega)] at hnone
      simp only [hused, if_true] at hnone
      rw [Except.ok.inj hnone] at hsome
      cases hsome

/-- The address given back is there exactly if there is one. -/
theorem sound_ending_iff {s : State} {c : Conn} (hpoint : c.reading = .ending)
    (h : c.ipv4Address = [] ∨ ∃ n : Nat, n < 1024 ∧ c.ipv4Address = ipText n ∧
      s.status n = true ∧ (s.connections n).isSome) : s.Sound c ↔ c.ipv4Address ≠ [] := by
  rw [State.Sound, hpoint]
  constructor
  · rintro ⟨num, hnum, _⟩ hnil
    rw [hnil, getIpNum_nil] at hnum
    cases hnum
  · intro hne
    rcases h with hnil | ⟨n, hn, htext, hused, _⟩
    · exact absurd hnil hne
    · exact ⟨n, by rw [htext, getIpNum_ipText (by omega)], hused⟩

section Steps

variable {s s' : State} {i : Nat} {c c' : Conn} {a : Answer}

/-- There is no other connection. -/
theorem Touches.only (h : Touches s i c c' s') (halone : Alone s) {j : Nat} {d : Conn}
    (hd : s'.conns[j]? = some d) : i = 0 ∧ j = i ∧ d = c' := by
  have hi : i = 0 := (halone.granted i c h.before).1
  rcases h.conns hd with hsame | ⟨hj, hd⟩
  · exact ⟨hi, hsame⟩
  · have hzero := (halone.granted j d hd).1
    omega

theorem Touches.assertsHold_iff (h : Touches s i c c' s') (halone : Alone s) (hsafe : AssertsHold s)
    (hcrash : s'.crash = s.crash) : AssertsHold s' ↔ s'.Sound c' := by
  refine ⟨fun hafter => hafter.coming i c' h.after, fun hsound => ⟨hcrash ▸ hsafe.passed, ?_⟩⟩
  intro j d hd
  obtain ⟨_, _, rfl⟩ := h.only halone hd
  exact hsound

theorem Touches.alone (h : Touches s i c c' s') (halone : Alone s) (hgranted : s'.Granted c')
    (hpacket : ∀ buf, s'.tunReader = .lookup buf → 20 ≤ buf.length) : Alone s' := by
  refine ⟨fun j d hd => ?_, hpacket⟩
  obtain ⟨hi, rfl, rfl⟩ := h.only halone hd
  exact ⟨hi, hgranted⟩

/-- A step that does not crash, with what it says of the connection. -/
theorem Reads.settles (h : Reads s i c a c' s') (halone : Alone s) (hsafe : AssertsHold s)
    (hcrash : s'.crash = s.crash) (hgood : ¬ c.Dooms a → s'.Granted c')
    (hbad : c.Dooms a → ¬ s'.Sound c') :
    (AssertsHold s' ↔ ¬ c.Dooms a) ∧ (AssertsHold s' → Alone s') := by
  rw [h.touches.assertsHold_iff halone hsafe hcrash]
  refine ⟨⟨fun hs hdoomed => hbad hdoomed hs, fun hno => sound_of_granted (hgood hno)⟩, fun hs => ?_⟩
  refine h.touches.alone halone (hgood fun hdoomed => hbad hdoomed hs) ?_
  rw [h.tunReader]
  exact halone.packet

/-- A step that does not doom the process. -/
theorem Reads.fine (h : Reads s i c a c' s') (halone : Alone s) (hsafe : AssertsHold s)
    (hcrash : s'.crash = s.crash) (hgood : ¬ c.Dooms a) (hgranted : s'.Granted c') :
    (AssertsHold s' ↔ ¬ c.Dooms a) ∧ (AssertsHold s' → Alone s') :=
  h.settles halone hsafe hcrash (fun _ => hgranted) fun hdoomed => absurd hdoomed hgood

theorem not_dooms_of_goes (hpoint : c.reading.Idle)
    (hunasked : c.reading = .dispatch → c.message.header.type ≠ msgIpReq)
    (hbelow : c.reading = .check → c.heartBeatCount < 60)
    (hintact : ∀ total, c.reading = .body total → a ≠ .error) : ¬ c.Dooms a := by
  unfold Conn.Dooms
  cases hreading : c.reading with
  | check => exact fun hdoomed => absurd hdoomed.1 (Nat.not_le.mpr (hbelow hreading))
  | body total => exact fun hdoomed => hintact total hreading hdoomed.1
  | dispatch => exact fun hdoomed => hunasked hreading hdoomed.1
  | header total => exact id
  | _ =>
      rw [hreading] at hpoint
      exact hpoint.elim

theorem Reads.alone_step (h : Reads s i c a c' s') (halone : Alone s) (hsafe : AssertsHold s) :
    (AssertsHold s' ↔ ¬ c.Dooms a) ∧ (AssertsHold s' → Alone s') := by
  have hgranted : s.Granted c := (halone.granted i c h.touches.before).2
  obtain ⟨t, hstep, hpool⟩ := h.step
  cases hstep with
  | goes hpoint htarget haddress hunasked hbelow hintact =>
      refine h.fine halone hsafe hpool.crash
        (not_dooms_of_goes hpoint hunasked hbelow hintact) ?_
      rw [granted_idle htarget, haddress, hpool.status, hpool.connections]
      exact (granted_idle hpoint).mp hgranted
  | asks hpoint htype htarget haddress =>
      have hidle : c.reading.Idle := by rw [hpoint]; trivial
      have hheld := (granted_idle hidle).mp hgranted
      have hdooms : c.Dooms a ↔ c.ipv4Address ≠ [] := by
        rw [Conn.Dooms, hpoint]
        exact and_iff_right htype
      refine h.settles halone hsafe hpool.crash (fun hno => ?_) fun hdoomed => ?_
      · rw [State.Granted, htarget]
        exact haddress.trans (not_not.mp (hdooms.not.mp hno))
      · rw [sound_request_iff htarget, haddress]
        · exact hdooms.mp hdoomed
        · rw [haddress, hpool.status, hpool.connections]
          exact hheld
  | passes hpoint htarget haddress =>
      refine h.fine halone hsafe hpool.crash (by rw [Conn.Dooms, hpoint]; exact id) ?_
      rw [State.Granted, hpoint] at hgranted
      rw [State.Granted, htarget]
      exact haddress.trans hgranted
  | stops hpoint htarget haddress =>
      have hidle : c.reading.Idle := by
        rcases hpoint with ⟨hpoint, _⟩ | ⟨total, hpoint, _⟩ <;> rw [hpoint] <;> trivial
      have hheld := (granted_idle hidle).mp hgranted
      have hdooms : c.Dooms a ↔ c.ipv4Address = [] := by
        rw [Conn.Dooms]
        rcases hpoint with ⟨hpoint, hlimit⟩ | ⟨total, hpoint, herror⟩
        · simp [hpoint, hlimit]
        · simp [hpoint, herror]
      refine h.settles halone hsafe hpool.crash (fun hno => ?_) fun hdoomed => ?_
      · rw [State.Granted, htarget, haddress, hpool.status]
        obtain ⟨n, hn, htext, hused, _⟩ := hheld.resolve_left (hdooms.not.mp hno)
        exact ⟨n, hn, htext, hused⟩
      · rw [sound_ending_iff htarget, haddress]
        · exact not_not.mpr (hdooms.mp hdoomed)
        · rw [haddress, hpool.status, hpool.connections]
          exact hheld
  | takes n hpoint _ hfree htarget haddress =>
      obtain ⟨_, hn, hunused⟩ := getFreeIP_spec hfree
      refine h.fine halone hsafe hpool.crash (by rw [Conn.Dooms, hpoint]; exact id) ?_
      rw [State.Granted, htarget, haddress, hpool.status]
      exact ⟨n, hn, rfl, hunused⟩
  | retakes hpoint hheld =>
      rw [State.Granted, hpoint] at hgranted
      exact absurd hgranted hheld
  | sends p hpoint htarget hintact haddress =>
      rw [State.Granted, hpoint] at hgranted
      refine h.fine halone hsafe hpool.crash ?_ ?_
      · rw [Conn.Dooms, hpoint]
        rintro ⟨hlock, herror⟩
        exact hintact.elim hlock fun hne => hne herror
      · rcases htarget with ⟨p', htarget⟩ | htarget <;>
          rw [State.Granted, htarget, haddress, hpool.status] <;> exact hgranted
  | loses p hpoint herror htarget haddress =>
      rw [State.Granted, hpoint] at hgranted
      obtain ⟨n, hn, htext, hunused⟩ := hgranted
      have hdooms : c.Dooms a := by
        rw [Conn.Dooms, hpoint]
        exact herror
      refine h.settles halone hsafe hpool.crash (fun hno => absurd hdooms hno) fun _ => ?_
      -- The address is given back before it is marked.
      rw [State.Sound, htarget, haddress, hpool.status, htext, getIpNum_ipText (by omega)]
      rintro ⟨num, hnum, hused⟩
      rw [← Option.some.inj hnum, hunused] at hused
      cases hused
  | marks num hpoint hnum hfree htarget haddress =>
      rw [State.Granted, hpoint] at hgranted
      obtain ⟨n, hn, htext, _⟩ := hgranted
      obtain rfl : num = n := number_ipText hn (htext ▸ hnum)
      refine h.fine halone hsafe hpool.crash (by rw [Conn.Dooms, hpoint]; exact id) ?_
      rw [State.Granted, htarget, haddress]
      exact ⟨n, hn, htext, by rw [hpool.status_update, if_pos rfl]⟩
  | registers num hpoint hnum hused htarget haddress =>
      rw [State.Granted, hpoint] at hgranted
      obtain ⟨n, hn, htext, _⟩ := hgranted
      obtain rfl : num = n := number_ipText hn (htext ▸ hnum)
      have hidle : c'.reading.Idle := by rw [htarget]; trivial
      refine h.fine halone hsafe hpool.crash (by rw [Conn.Dooms, hpoint]; exact id) ?_
      rw [granted_idle hidle, haddress, hpool.status, hpool.connections]
      refine .inr ⟨n, hn, htext, hused, ?_⟩
      change (Function.update s.connections n (some i) n).isSome = true
      rw [Function.update_self]
      rfl
  | hangs num hpoint hnum hunused =>
      rw [State.Granted, hpoint] at hgranted
      obtain ⟨n, hn, htext, hused⟩ := hgranted
      rw [htext, getIpNum_ipText (by omega)] at hnum
      rw [← Option.some.inj hnum, hused] at hunused
      cases hunused
  | leaves num hpoint _ _ htarget haddress =>
      refine h.fine halone hsafe hpool.crash (by rw [Conn.Dooms, hpoint]; exact id) ?_
      rw [State.Granted, htarget]
      trivial
  | dies why hpoint hcause hsame =>
      have hsound : s'.Sound c' := by
        rw [hsame, sound_congr hpool.status hpool.connections rfl rfl]
        exact hsafe.coming i c h.touches.before
      have hgood : ¬ c.Dooms a := by
        rw [Conn.Dooms]
        rcases hpoint with ⟨hpoint, htype⟩ | ⟨total, hpoint, hintact⟩ | ⟨hpoint, _⟩
        · simp [hpoint, htype]
        · simp [hpoint, hintact]
        · simp [hpoint]
      have hcrash : s'.crash = some why := hpool.crash
      refine ⟨iff_of_true ⟨?_, fun j d hd => ?_⟩ hgood, fun _ => h.touches.alone halone ?_ ?_⟩
      · rw [hcrash]
        rcases hcause with rfl | rfl | rfl <;> decide
      · obtain ⟨_, _, rfl⟩ := h.touches.only halone hd
        exact hsound
      · rw [hsame, granted_congr hpool.status hpool.connections rfl rfl]
        exact hgranted
      · rw [h.tunReader]
        exact halone.packet
  | asserts why _ hunsound =>
      exact absurd (hsafe.coming i c h.touches.before) hunsound

/-- A step in which `readThread` has no part changes nothing for it. -/
theorem Aside.alone_step (h : Aside s i c c' s') (halone : Alone s) (hsafe : AssertsHold s)
    (hpacket : ∀ buf, s'.tunReader = .lookup buf → 20 ≤ buf.length) : AssertsHold s' ∧ Alone s' := by
  constructor
  · rw [h.touches.assertsHold_iff halone hsafe h.pool.crash,
      sound_congr h.pool.status h.pool.connections h.reading h.address]
    exact hsafe.coming i c h.touches.before
  · refine h.touches.alone halone ?_ hpacket
    rw [granted_congr h.pool.status h.pool.connections h.reading h.address]
    exact (halone.granted i c h.touches.before).2

/-- The address in a packet has a number. -/
theorem number_of_packet {buf : List UInt8} (h : 20 ≤ buf.length) :
    (getIpNum (mkAddr ((buf.drop 16).take 4))).isSome := by
  obtain ⟨x, y, z, w, hfour⟩ : ∃ x y z w, (buf.drop 16).take 4 = [x, y, z, w] := by
    have hlen : ((buf.drop 16).take 4).length = 4 := by
      rw [List.length_take, List.length_drop]
      omega
    exact List.length_eq_four.mp hlen
  rw [hfour, getIpNum_mkAddr]
  rfl

theorem next_of_alone {e : Event} (h : nextAlone s e = some s') :
    next s e = some s' ∧ ∀ stale, e ≠ .accept stale := by
  cases e with
  | accept stale => cases h
  | _ => exact ⟨h, by simp⟩

theorem nextAlone_step {e : Event} (halone : Alone s) (hsafe : AssertsHold s)
    (h : nextAlone s e = some s') :
    (AssertsHold s' ↔ ¬ Dooms s e) ∧ (AssertsHold s' → Alone s') := by
  obtain ⟨hstep, hother⟩ := next_of_alone h
  obtain ⟨_, hnext⟩ := next_spec hstep
  have hquiet : AssertsHold s' ∧ Alone s' → ¬ Dooms s e →
      (AssertsHold s' ↔ ¬ Dooms s e) ∧ (AssertsHold s' → Alone s') :=
    fun hboth hno => ⟨iff_of_true hboth.1 hno, fun _ => hboth.2⟩
  cases hnext with
  | accepts stale => exact absurd rfl (hother stale)
  | @reads i a c c' _ hreads =>
      obtain ⟨hiff, halone'⟩ := hreads.alone_step halone hsafe
      have hdooms : Dooms s (.read i a) → c.Dooms a := by
        rintro ⟨d, hd, hdoomed⟩
        obtain rfl := hreads.touches.eq_before hd
        exact hdoomed
      have hback : c.Dooms a → Dooms s (.read i a) :=
        fun hdoomed => ⟨c, hreads.touches.before, hdoomed⟩
      exact ⟨hiff.trans (not_congr ⟨hback, hdooms⟩), halone'⟩
  | writes hwrites =>
      refine hquiet (hwrites.toAside.alone_step halone hsafe ?_) id
      rw [hwrites.tunReader]
      exact halone.packet
  | keeps hkeeps =>
      refine hquiet (hkeeps.toAside.alone_step halone hsafe ?_) id
      rw [hkeeps.tunReader]
      exact halone.packet
  | arrives hsize =>
      refine hquiet ⟨⟨hsafe.passed, hsafe.coming⟩, halone.granted, ?_⟩ id
      intro buf hbuf
      rw [← TunPoint.lookup.inj hbuf]
      exact hsize.1
  | @finds buf found hpoint =>
      refine hquiet ⟨⟨hsafe.passed, hsafe.coming⟩, halone.granted, ?_⟩ id
      intro buf' hbuf
      cases found <;> cases hbuf
  | throws hpoint hnone =>
      have hsome := number_of_packet (halone.packet _ hpoint)
      rw [hnone] at hsome
      cases hsome
  | queues _ haside _ _ _ _ _ _ hread =>
      refine hquiet (haside.alone_step halone hsafe ?_) id
      rw [hread]
      exact fun buf hbuf => by cases hbuf

end Steps

/-! ## Runs -/

/-- However one client and the threads for it go about it: no assert of `readThread` or `setIpStatus`
fails and `std::stoi` never throws exactly if no IP request comes after an address was assigned, no
write of the reply fails, and `readThread` does not come to its end before it has an address. -/
theorem asserts_hold_iff (files : List (Option File)) (status : Int → Bool)
    (connections : Int → Option Nat) (stale : Msg) (es : List Event) (s : State)
    (hrun : run nextAlone (State.client files status connections stale) es = some s) :
    (∀ pre u, pre <+: es →
        run nextAlone (State.client files status connections stale) pre = some u → AssertsHold u) ↔
      ∀ pre e post u, es = pre ++ e :: post →
        run nextAlone (State.client files status connections stale) pre = some u → ¬ Dooms u e := by
  have hconn : ∀ (i : Nat) c, (State.client files status connections stale).conns[i]? = some c →
      i = 0 ∧ c.reading = .check ∧ c.ipv4Address = [] := by
    intro i c hc
    rcases conns_accept hc with hold | ⟨hi, rfl⟩
    · simp [State.start] at hold
    · exact ⟨hi, rfl, rfl⟩
  have halone : Alone (State.client files status connections stale) := by
    refine ⟨fun i c hc => ?_, fun buf hbuf => by cases hbuf⟩
    obtain ⟨hi, hpoint, hnil⟩ := hconn i c hc
    exact ⟨hi, (granted_idle (by rw [hpoint]; trivial)).mpr (.inl hnil)⟩
  have hsafe : AssertsHold (State.client files status connections stale) := by
    refine ⟨⟨by simp [State.client, State.accept, State.start], ?_, ?_⟩, fun i c hc => ?_⟩
    · simp [State.client, State.accept, State.start]
    · simp [State.client, State.accept, State.start]
    · exact sound_idle (by rw [(hconn i c hc).2.1]; trivial)
  exact run_guarded_iff Dooms Alone AssertsHold
    (fun _ _ _ hi hs hstep hafter => (nextAlone_step hi hs hstep).2 hafter)
    (fun _ _ _ hi hs hstep => (nextAlone_step hi hs hstep).1) halone hsafe hrun

def onlyClient : State := State.client opened (fun _ => false) (fun _ => none) blank

def oneRequest : List Event :=
  grant 0 54 ++ [.read 0 .again, .read 0 (.bytes [25, 0, 0, 0, 102]), .read 0 (.bytes packetToTwo),
    .read 0 .again, .read 0 .again, .read 0 (.bytes [5, 0, 0, 0, 104]), .read 0 .again]

theorem asserts_hold_oneRequest :
    ∃ s, run nextAlone onlyClient oneRequest = some s ∧
      ∀ pre u, pre <+: oneRequest → run nextAlone onlyClient pre = some u → AssertsHold u := by
  have hsome : (run nextAlone onlyClient oneRequest).isSome = true := by decide +kernel
  obtain ⟨s, hs⟩ := Option.isSome_iff_exists.mp hsome
  refine ⟨s, hs, ?_⟩
  have hiff := asserts_hold_iff opened (fun _ => false) (fun _ => none) blank oneRequest s hs
  exact hiff.mpr (not_bad_of_clean (by decide +kernel))

/-- Two IP requests of one client, one after the other. -/
def secondRequest : List Event :=
  grant 0 54 ++ [.read 0 .again, .read 0 (.bytes [5, 0, 0, 0, 100]), .read 0 .again, .read 0 .again]

theorem second_request_aborts :
    ∃ s, run nextAlone onlyClient secondRequest = some s ∧ s.crash = some .requestAssert ∧
      ¬ AssertsHold s := by
  have hcrash : (run nextAlone onlyClient secondRequest).map State.crash =
      some (some .requestAssert) := by decide +kernel
  obtain ⟨s, hs, hfailed⟩ := Option.map_eq_some_iff.mp hcrash
  exact ⟨s, hs, hfailed, fun h => h.passed.1 hfailed⟩

end Over6.Threaded
