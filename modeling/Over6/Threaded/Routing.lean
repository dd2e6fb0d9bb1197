import Over6.Threaded.Serial
import Over6.Threaded.Stream

/-! # Whose packets go where

`tunReader` prints the whole destination of a packet, and looks its connection up by
the number behind the last point. So it goes by the last byte alone.
-/

namespace Over6.Threaded

open EventRun

/-- `tunReader` from `tunRead` to the next one, while no other thread comes in between. -/
def State.tunReaderOnce (s : State) (buf : List UInt8) : Option State :=
  (run next s [.packet buf, .route]).bind fun t =>
    match t.tunReader with
    | .push _ _ => next t .route
    | _ => some t

structure Packs (buf : List UInt8) (m : Msg) : Prop where
  type : m.header.type = msgDataRsb
  length : m.header.length = buf.length + 5
  payload : m.load sizeofMessage buf.length = buf

def Conn.Addressed (c : Conn) (buf : List UInt8) : Prop :=
  c.ipv4Address = mkAddr ((buf.drop 16).take 4) ∧ c.reading ≠ .ended

/-- The packet goes into the queue of the connection it is addressed to, and into no other. -/
def Routed (s t : State) (buf : List UInt8) : Prop :=
  ∀ (i : Nat) c, s.conns[i]? = some c → ∃ c', t.conns[i]? = some c' ∧
    (c.Addressed buf → ∃ m, c'.wtSktQue = c.wtSktQue ++ [m] ∧ Packs buf m) ∧
    (¬ c.Addressed buf → c'.wtSktQue = c.wtSktQue)

/-! ## Packets and addresses -/

theorem packs_dataMsg {buf : List UInt8} (h : buf.length ≤ 1600) : Packs buf (dataMsg buf) := by
  have hall : buf.take ((buf.length : Int) + 5 - 5).toNat = buf := by
    rw [Int.add_sub_cancel, Int.toNat_natCast, List.take_length]
  have hheader : (dataMsg buf).header = ⟨(buf.length + 5 : Int), msgDataRsb⟩ := by
    rw [dataMsg, queuedMsg]
    refine header_fill _ ?_ ?_ _
    · change 0 ≤ (buf.length : Int) + 5
      omega
    · change (buf.length : Int) + 5 < 2 ^ 31
      omega
  refine ⟨by rw [hheader], by rw [hheader], ?_⟩
  rw [dataMsg, queuedMsg, hall, data_fill _ _ (Nat.le_refl _), List.take_length]

theorem ipText_eq (n : Nat) : ipText n = Decimal.text 10 ++ 46 :: (Decimal.text 128 ++ 46 ::
    (Decimal.text 0 ++ 46 :: Decimal.text n)) := by
  have hfront : Server.ascii "10.128.0." = Decimal.text 10 ++ 46 :: (Decimal.text 128 ++ 46 ::
      (Decimal.text 0 ++ [46])) := by decide +kernel
  rw [ipText, hfront]
  simp

theorem ipText_toNat (d : UInt8) : ipText d.toNat = mkAddr [10, 128, 0, d] := by
  rw [ipText_eq]
  simp [mkAddr, List.intercalate]

theorem mkAddr_injective {x y z w x' y' z' w' : UInt8}
    (h : mkAddr [x, y, z, w] = mkAddr [x', y', z', w']) :
    x = x' ∧ y = y' ∧ z = z' ∧ w = w' := by
  have hquad := congrArg Decimal.dottedQuad h
  have hleft : Decimal.dottedQuad (mkAddr [x, y, z, w]) = some [x, y, z, w] :=
    Decimal.dottedQuad_quadText x y z w
  have hright : Decimal.dottedQuad (mkAddr [x', y', z', w']) = some [x', y', z', w'] :=
    Decimal.dottedQuad_quadText x' y' z' w'
  rw [hleft, hright] at hquad
  simpa using hquad

/-- The address of a packet is one of the pool's exactly if it begins with 10.128.0 and ends with the
number. -/
theorem mkAddr_eq_ipText_iff {x y z w : UInt8} {n : Nat} (hn : n < 1024) :
    mkAddr [x, y, z, w] = ipText n ↔ [x, y, z] = [10, 128, 0] ∧ n = w.toNat := by
  constructor
  · intro h
    have hnumber : n = w.toNat := by
      have hlast := getIpNum_mkAddr x y z w
      rw [h, getIpNum_ipText (by omega)] at hlast
      exact Int.ofNat.inj (Option.some.inj hlast)
    rw [hnumber, ipText_toNat] at h
    obtain ⟨rfl, rfl, rfl, _⟩ := mkAddr_injective h
    exact ⟨rfl, hnumber⟩
  · rintro ⟨hfront, rfl⟩
    simp only [List.cons.injEq, and_true] at hfront
    obtain ⟨rfl, rfl, rfl⟩ := hfront
    exact (ipText_toNat w).symm

/-! ## One packet -/

section Packet

variable {s : State} {buf : List UInt8} {x y z w : UInt8}

/-- What the lookup finds decides on the queue. -/
theorem tunReaderOnce_spec (hup : s.crash = none) (hfree : s.stuck = false)
    (hreader : s.tunReader = .read) (hlong : 20 ≤ buf.length) (hfits : buf.length ≤ 1600)
    (hdst : (buf.drop 16).take 4 = [x, y, z, w]) :
    s.tunReaderOnce buf =
      match (if s.status w.toNat then s.connections w.toNat else none) with
      | none => some { s with tunReader := .read }
      | some i => s.conns[i]?.map fun c =>
          { s.set i { c with wtSktQue := c.wtSktQue ++ [dataMsg buf] } with tunReader := .read } := by
  have hlookup : ({ s with tunReader := .lookup buf } : State).getConnectionByIp
      (mkAddr ((buf.drop 16).take 4)) =
        .ok (if s.status w.toNat then s.connections w.toNat else none) := by
    rw [State.getConnectionByIp, hdst, getIpNum_mkAddr]
  have hpacket : next s (.packet buf) = some { s with tunReader := .lookup buf } := by
    simp [next, hup, hreader, hlong, hfits]
  have hroute : next { s with tunReader := .lookup buf } .route =
      some { s with tunReader :=
        match (if s.status w.toNat then s.connections w.toNat else none) with
        | none => .read
        | some i => .push i buf } := by
    have hgoes : next { s with tunReader := .lookup buf } .route =
        stepTun { s with tunReader := .lookup buf } := if_neg (by simp [hup])
    rw [hgoes]
    simp only [stepTun]
    rw [hlookup]
    exact if_neg (by simp [hfree])
  have hrun : run next s [.packet buf, .route] = some { s with tunReader :=
      match (if s.status w.toNat then s.connections w.toNat else none) with
      | none => .read
      | some i => .push i buf } :=
    run_cons_iff.mpr ⟨_, hpacket, run_cons_iff.mpr ⟨_, hroute, rfl⟩⟩
  rw [State.tunReaderOnce, hrun, Option.bind_some]
  cases hfound : (if s.status w.toNat then s.connections w.toNat else none) with
  | none => rfl
  | some i =>
      have hgoes : next { s with tunReader := .push i buf } .route =
          stepTun { s with tunReader := .push i buf } := if_neg (by simp [hup])
      simp only [hgoes, stepTun]
      cases s.conns[i]? <;> rfl

theorem exists_dst (hlong : 20 ≤ buf.length) :
    ∃ x y z w, (buf.drop 16).take 4 = [x, y, z, w] ∧ (buf.drop 16).take 3 = [x, y, z] ∧
      buf[19]? = some w := by
  have hlen : ((buf.drop 16).take 4).length = 4 := by
    rw [List.length_take, List.length_drop]
    omega
  obtain ⟨x, y, z, w, hfour⟩ := List.length_eq_four.mp hlen
  refine ⟨x, y, z, w, hfour, ?_, ?_⟩
  · have hthree := congrArg (List.take 3) hfour
    rwa [List.take_take] at hthree
  · have hlast := congrArg (·[3]?) hfour
    simpa [List.getElem?_take, List.getElem?_drop] using hlast

/-- A packet is for a connection exactly if its destination is in 10.128.0.0/24 and ends with the number
that the connection holds. -/
theorem Marked.addressed_iff (h : Marked s) {i : Nat} {c : Conn} (hc : s.conns[i]? = some c)
    (hdst : (buf.drop 16).take 4 = [x, y, z, w]) :
    c.Addressed buf ↔ [x, y, z] = [10, 128, 0] ∧ c.Holds w.toNat := by
  rw [Conn.Addressed, hdst]
  constructor
  · rintro ⟨haddress, hlive⟩
    have hne : c.ipv4Address ≠ [] := by
      intro hnone
      have hnumber := getIpNum_mkAddr x y z w
      rw [← haddress, hnone, getIpNum_nil] at hnumber
      cases hnumber
    obtain ⟨n, hn, htext, _⟩ := h i c hc hne
    obtain ⟨hpool, rfl⟩ := (mkAddr_eq_ipText_iff hn).mp (haddress.symm.trans htext)
    exact ⟨hpool, htext, hlive⟩
  · rintro ⟨hpool, htext, hlive⟩
    have hw : w.toNat < 1024 := Nat.lt_trans w.toNat_lt (by decide)
    exact ⟨htext.trans ((mkAddr_eq_ipText_iff hw).mpr ⟨hpool, rfl⟩).symm, hlive⟩

end Packet

/-- After any history of grants and releases, one thread at a time: a packet goes to the connection
that holds its destination, and to no other, exactly if its destination is in 10.128.0.0/24, or its last
byte is not the number of an address that is held. -/
theorem routing_exact_iff (files : List (Option File)) (es : List Event) (s : State)
    (hrun : run next (State.start files) es = some s)
    (hserial : ∀ pre u, pre <+: es → run next (State.start files) pre = some u → Serial u)
    (hquiescent : Quiescent s) (hup : s.crash = none) (hreader : s.tunReader = .read)
    (buf : List UInt8) (hlong : 20 ≤ buf.length) (hfits : buf.length ≤ 1600) :
    (∃ t, s.tunReaderOnce buf = some t ∧ Routed s t buf) ↔
      ∀ w, buf[19]? = some w → (∃ c ∈ s.conns, c.Holds w.toNat) →
        (buf.drop 16).take 3 = [10, 128, 0] := by
  have hordered := ordered_of_run hrun hserial
  obtain ⟨x, y, z, w, hdst, hfront, hlast⟩ := exists_dst hlong
  have hfound : ∀ {i : Nat}, (if s.status w.toNat then s.connections w.toNat else none) = some i ↔
      ∃ c, s.conns[i]? = some c ∧ c.Holds w.toNat := hquiescent.lookup_iff hordered.tabled
  rw [tunReaderOnce_spec hup hordered.unlocked.free hreader hlong hfits hdst, hfront]
  constructor
  · rintro ⟨t, ht, hrouted⟩ w' hw' ⟨c, hmem, hholds⟩
    obtain rfl := Option.some.inj (hlast.symm.trans hw')
    obtain ⟨i, hc⟩ := List.mem_iff_getElem?.mp hmem
    rw [hfound.mpr ⟨c, hc, hholds⟩] at ht
    simp only [hc, Option.map_some, Option.some.injEq] at ht
    subst ht
    by_contra hforeign
    -- The holder gets the packet though it is for another address.
    obtain ⟨c', hc', _, hkept⟩ := hrouted i c hc
    have hsame := hkept fun haddressed =>
      hforeign ((hordered.marked.addressed_iff hc hdst).mp haddressed).1
    obtain rfl := Option.some.inj ((at_set hc rfl _).symm.trans hc')
    exact absurd (congrArg List.length hsame) (by simp)
  · intro hnear
    cases hlookup : (if s.status w.toNat then s.connections w.toNat else none) with
    | none =>
        refine ⟨_, rfl, fun i c hc => ⟨c, hc, fun haddressed => ?_, fun _ => rfl⟩⟩
        have hholds := ((hordered.marked.addressed_iff hc hdst).mp haddressed).2
        exact absurd (hlookup.symm.trans (hfound.mpr ⟨c, hc, hholds⟩)) nofun
    | some j =>
        obtain ⟨d, hd, hholds⟩ := hfound.mp hlookup
        have hpool := hnear w hlast ⟨d, List.mem_of_getElem? hd, hholds⟩
        simp only [hd, Option.map_some]
        refine ⟨_, rfl, fun i c hc => ?_⟩
        by_cases hi : i = j
        · subst hi
          obtain rfl := Option.some.inj (hd.symm.trans hc)
          refine ⟨_, at_set hd rfl _, fun _ => ⟨_, rfl, packs_dataMsg hfits⟩, fun hno => ?_⟩
          exact absurd ((hordered.marked.addressed_iff hd hdst).mpr ⟨hpool, hholds⟩) hno
        · refine ⟨c, (List.getElem?_set_ne (Ne.symm hi)).trans hc, fun haddressed => ?_, fun _ => rfl⟩
          have hother := ((hordered.marked.addressed_iff hc hdst).mp haddressed).2
          exact absurd hother (hordered.unique.alone hd hholds i c hi hc)

def firstGrant : List Event := .accept blank :: grant 0 54

theorem firstGrant_serial {pre : List Event} {u : State} (hpre : pre <+: firstGrant)
    (hu : run next (State.start opened) pre = some u) : Serial u := by
  have hsolo : Solo 0 (State.start opened) := fun j c _ hc => by simp [State.start] at hc
  exact (hsolo.run (by decide) hpre hu).serial

theorem quiescent_of_conns {s : State} {c : Conn} (hconns : s.conns = [c]) (hidle : c.reading.Idle) :
    Quiescent s := by
  intro i d hd hoccupied
  have hmem := List.mem_of_getElem? hd
  rw [hconns, List.mem_singleton] at hmem
  exact hoccupied.1 (hmem ▸ hidle)

theorem firstGrant_spec :
    ∃ s c, run next (State.start opened) firstGrant = some s ∧ s.conns = [c] ∧ c.Holds 2 ∧
      c.wtSktQue.length = 0 ∧ Quiescent s ∧ s.crash = none ∧ s.tunReader = .read := by
  have hview : (run next (State.start opened) firstGrant).map
      (fun s => (s.conns.map (fun c => (c.ipv4Address, c.reading, c.wtSktQue.length)), s.crash,
        s.tunReader)) = some ([(ipText 2, .check, 0)], none, .read) := by decide +kernel
  obtain ⟨s, hs, hat⟩ := Option.map_eq_some_iff.mp hview
  simp only [Prod.mk.injEq] at hat
  obtain ⟨c, hconns, hconn⟩ := List.map_eq_singleton_iff.mp hat.1
  simp only [Prod.mk.injEq] at hconn
  refine ⟨s, c, hs, hconns, ⟨hconn.1, by simp [hconn.2.1]⟩, hconn.2.2, quiescent_of_conns hconns ?_,
    hat.2⟩
  rw [hconn.2.1]
  trivial

theorem routing_exact_firstGrant :
    ∃ s t, run next (State.start opened) firstGrant = some s ∧
      s.tunReaderOnce packetToTwo = some t ∧ Routed s t packetToTwo := by
  obtain ⟨s, c, hs, _, _, _, hquiescent, hup, hreader⟩ := firstGrant_spec
  obtain ⟨t, ht, hrouted⟩ := (routing_exact_iff opened firstGrant s hs
    (fun _ _ => firstGrant_serial) hquiescent hup hreader packetToTwo (by decide) (by decide)).mpr
    fun _ _ _ => by decide
  exact ⟨s, t, hs, ht, hrouted⟩

def foreignPacket : List UInt8 := List.replicate 16 69 ++ [192, 168, 1, 2]

theorem foreign_packet_queued :
    ∃ s, run next (State.start opened) firstGrant = some s ∧ Quiescent s ∧
      (s.tunReaderOnce foreignPacket).map (fun t => t.conns.map fun c => c.wtSktQue.length) = some [1] ∧
      ¬ ∃ t, s.tunReaderOnce foreignPacket = some t ∧ Routed s t foreignPacket := by
  obtain ⟨s, c, hs, hconns, hholds, hempty, hquiescent, _, _⟩ := firstGrant_spec
  have hqueued : (run next (State.start opened) firstGrant).bind (fun s =>
      (s.tunReaderOnce foreignPacket).map fun t => t.conns.map fun c => c.wtSktQue.length) =
      some [1] := by decide +kernel
  rw [hs, Option.bind_some] at hqueued
  refine ⟨s, hs, hquiescent, hqueued, fun ⟨t, ht, hrouted⟩ => ?_⟩
  have hother : ¬ c.Addressed foreignPacket := by
    rintro ⟨haddress, _⟩
    exact absurd (hholds.1.symm.trans haddress) (by decide +kernel)
  obtain ⟨c', hc', _, hkept⟩ := hrouted 0 c (by rw [hconns]; rfl)
  rw [ht, Option.map_some, Option.some.injEq] at hqueued
  obtain ⟨d, hone, hlength⟩ := List.map_eq_singleton_iff.mp hqueued
  rw [hone] at hc'
  obtain rfl := Option.some.inj hc'
  rw [hkept hother, hempty] at hlength
  exact absurd hlength (by decide)

end Over6.Threaded
