import Over6.Droid.Frames
import Over6.Lib.Loop

/-! # The loop of over6Handle

The client's bytes may be anything. A pass goes on by the length in front, which nothing
keeps from being 0, and takes the size of the header from it, which may be larger. Where
the passes get to is read off the bytes as they were before the first one.
-/

namespace Over6.Droid

open BoundedLoop EventRun MachineInt

structure Writes where
  tun : Write
  header : Write
  reply : Write

/-- One pass of `over6Handle`: it goes on after every complete packet. -/
def over6Pass (rs : List Report) (env : Nat → Writes) (k : Nat) (s : State) : Flow State :=
  if s.over6PacketBuffer.Complete then
    .next (over6Handle (env k).tun (env k).header (env k).reply rs s)
  else .stop (over6Handle (env k).tun (env k).header (env k).reply rs s)

/-- A payload that the pass is to write lies behind the header in what the buffer holds. -/
def Buffer.Bounded (b : Buffer) : Prop :=
  b.Complete → b.type = typeRequest → (b.actualSize : Int) ≤ b.used - sizeofMessage

instance (b : Buffer) : Decidable b.Bounded := inferInstanceAs (Decidable (_ → _ → _))

/-- `over6Handle` returns whatever the writes do, with no more bytes than before, and writes no
bytes from behind those in use. -/
structure Total (rs : List Report) (s : State) : Prop where
  returns : ∀ env, ∃ fuel s', iterate (over6Pass rs env) fuel 0 s = .stopped s' ∧
    s'.point = .reports rs ∧ s'.over6PacketBuffer.used ≤ s.over6PacketBuffer.used
  bounded : ∀ env fuel t, iterate (over6Pass rs env) fuel 0 s = .running t →
    t.over6PacketBuffer.Bounded

namespace Buffer

/-! ## The bytes ahead -/

def lengthAt (b : Buffer) (p : Nat) : Nat := leNat (b.buf.load p 4)

def CompleteAt (b : Buffer) (p : Nat) : Prop := p + 4 ≤ b.used ∧ p + b.lengthAt p ≤ b.used

instance (b : Buffer) (p : Nat) : Decidable (b.CompleteAt p) := inferInstanceAs (Decidable (_ ∧ _))

/-- The type found at `p`, behind a packet of type `t`: where the bytes end with the length field,
the cell of the type has not been written again. -/
def typeAt (b : Buffer) (p : Nat) (t : UInt8) : UInt8 :=
  if p + sizeofMessage ≤ b.used then b.buf (p + 4) else t

/-- A pass begins at `p`, and finds the type `t`. -/
inductive Front (b : Buffer) : Nat → UInt8 → Prop
  | first : Front b 0 (b.buf 4)
  | next {p : Nat} {t : UInt8} (front : Front b p t) (complete : b.CompleteAt p) :
      Front b (p + b.lengthAt p) (b.typeAt (p + b.lengthAt p) t)

/-- Every complete packet that comes to the front has a length, and one for the tun device the
length of its header at least. -/
def Advances (b : Buffer) : Prop :=
  ∀ p t, b.Front p t → b.CompleteAt p →
    b.lengthAt p ≠ 0 ∧ (t = typeRequest → sizeofMessage ≤ b.lengthAt p)

/-- What is left of `b₀` where a pass begins at `p`. -/
structure From (b₀ : Buffer) (p : Nat) (t : UInt8) (b : Buffer) : Prop where
  used : b.used + p = b₀.used
  bytes : ∀ i < b.used, b.buf i = b₀.buf (p + i)
  type : b.type = t

theorem From.start (b : Buffer) : From b 0 (b.buf 4) b where
  used := rfl
  bytes i _ := by rw [Nat.zero_add]
  type := rfl

section From

variable {b₀ b : Buffer} {p : Nat} {t : UInt8}

theorem From.used_le (h : From b₀ p t b) : b.used ≤ b₀.used := Nat.le.intro h.used

theorem dropFront_cell (b : Buffer) (n i : Nat) :
    (b.dropFront n).buf i = if i < b.used - n then b.buf (n + i) else b.buf i := by
  have hmove := b.buf.move_apply 0 n (b.used - n) i
  simp only [Nat.zero_le, true_and, Nat.zero_add, Nat.sub_zero] at hmove
  rw [← hmove, dropFront, Int.toNat_natCast, Int.toNat_sub]

theorem dropFront_zero (b : Buffer) : b.dropFront (0 : Nat) = b := by
  have hmem : b.buf.move 0 0 b.used = b.buf := b.buf.move_self 0 b.used
  rw [dropFront, Int.toNat_natCast, Int.toNat_sub, Nat.sub_zero, hmem]

theorem From.length (h : From b₀ p t b) (hfour : 4 ≤ b.used) : b.length = b₀.lengthAt p := by
  rw [Buffer.length, lengthAt]
  congr 1
  apply CellMemory.load_congr
  intro i hi
  rw [Nat.zero_add]
  exact h.bytes i (by omega)

theorem From.complete (h : From b₀ p t b) : b.Complete ↔ b₀.CompleteAt p := by
  have hused := h.used
  constructor
  · rintro ⟨hfour, hlen⟩
    have hlength := h.length hfour
    exact ⟨by omega, by omega⟩
  · rintro ⟨hfour, hlen⟩
    have hlength := h.length (by omega)
    exact ⟨by omega, by omega⟩

/-- A pass takes away the packet in front. -/
theorem From.next (h : From b₀ p t b) (hcomplete : b.Complete) :
    From b₀ (p + b₀.lengthAt p) (b₀.typeAt (p + b₀.lengthAt p) t) (b.dropFront b.length) := by
  have hused := h.used
  have hfive : sizeofMessage = 5 := rfl
  obtain ⟨hfour, hle⟩ := hcomplete
  have hlength := h.length hfour
  have hleft : (b.dropFront b.length).used = b.used - b.length := Int.toNat_sub _ _
  refine ⟨by omega, fun i hi => ?_, ?_⟩
  · rw [dropFront_cell, if_pos (by omega), h.bytes _ (by omega), hlength, Nat.add_assoc]
  · rw [Buffer.type, dropFront_cell, typeAt]
    by_cases hmore : 4 < b.used - b.length
    · rw [if_pos hmore, if_pos (by omega), h.bytes _ (by omega), hlength, Nat.add_assoc]
    · rw [if_neg hmore, if_neg (by omega)]
      exact h.type

end From

/-- The size wraps around where the length is less than the header's. -/
theorem actualSize_le_iff {b : Buffer} (hused : b.used ≤ pipeBufLen) (h : b.Complete) :
    (b.actualSize : Int) ≤ b.used - sizeofMessage ↔ sizeofMessage ≤ b.length := by
  have hle := h.2
  have hfive : sizeofMessage = 5 := rfl
  have hcap : pipeBufLen = 6553600 := rfl
  rw [actualSize, sizeT]
  omega

end Buffer

/-! ## Passes -/

section Passes

variable {rs : List Report} {env : Nat → Writes} {k : Nat} {s s' : State}

/-- The buffer changes the same way whatever the type, and whatever the writes do. -/
theorem over6Pass_next (h : over6Pass rs env k s = .next s') :
    s.over6PacketBuffer.Complete ∧
      s'.over6PacketBuffer = s.over6PacketBuffer.dropFront s.over6PacketBuffer.length := by
  unfold over6Pass at h
  split at h
  · rename_i hcomplete
    obtain rfl := Flow.next.inj h
    refine ⟨hcomplete, ?_⟩
    rw [over6Handle, if_pos hcomplete]
  · cases h

theorem over6Pass_stop (h : over6Pass rs env k s = .stop s') :
    ¬ s.over6PacketBuffer.Complete ∧ s' = { s with point := .reports rs } := by
  unfold over6Pass at h
  split at h
  · cases h
  · rename_i hcomplete
    obtain rfl := Flow.stop.inj h
    exact ⟨hcomplete, if_neg hcomplete⟩

theorem over6Pass_of_complete (rs : List Report) (env : Nat → Writes) (k : Nat)
    (h : s.over6PacketBuffer.Complete) :
    ∃ s', over6Pass rs env k s = .next s' ∧
      s'.over6PacketBuffer = s.over6PacketBuffer.dropFront s.over6PacketBuffer.length := by
  have hpass : over6Pass rs env k s =
      .next (over6Handle (env k).tun (env k).header (env k).reply rs s) := if_pos h
  exact ⟨_, hpass, (over6Pass_next hpass).2⟩

theorem over6Handle_point (tun header reply : Write) (rs : List Report)
    (h : s.over6PacketBuffer.Complete) : (over6Handle tun header reply rs s).point = s.point := by
  rw [over6Handle, if_pos h]
  unfold handlePacket
  split_ifs <;> rfl

def passInput (env : Nat → Writes) (k : Nat) : Input := .packet (env k).tun (env k).header (env k).reply

/-- The passes are steps of the server. -/
theorem iterate_run (fuel : Nat) (hpoint : s.point = .packets rs) :
    ∃ n, run step s ((List.range' k n).map (passInput env)) =
      some (iterate (over6Pass rs env) fuel k s).state := by
  induction fuel generalizing k s with
  | zero => exact ⟨0, rfl⟩
  | succ fuel ih =>
      let s' : State := over6Handle (env k).tun (env k).header (env k).reply rs s
      have hstep : step s (passInput env k) = some s' := by simp only [step, passInput, s', hpoint]
      by_cases hcomplete : s.over6PacketBuffer.Complete
      · have hpass : over6Pass rs env k s = .next s' := if_pos hcomplete
        obtain ⟨n, hrun⟩ := ih (k := k + 1) ((over6Handle_point _ _ _ rs hcomplete).trans hpoint)
        refine ⟨n + 1, ?_⟩
        rw [iterate_of_next fuel hpass, List.range'_succ, List.map_cons]
        exact run_cons_iff.mpr ⟨s', hstep, hrun⟩
      · have hpass : over6Pass rs env k s = .stop s' := if_neg hcomplete
        refine ⟨1, ?_⟩
        rw [iterate_of_stop fuel hpass]
        exact run_cons_iff.mpr ⟨s', hstep, rfl⟩

/-! ## All passes -/

/-- Every place where a pass begins is reached. -/
theorem reaches_front (rs : List Report) (env : Nat → Writes) {p : Nat} {t : UInt8}
    (h : s.over6PacketBuffer.Front p t) :
    ∃ n u, iterate (over6Pass rs env) n 0 s = .running u ∧
      s.over6PacketBuffer.From p t u.over6PacketBuffer := by
  induction h with
  | first => exact ⟨0, s, rfl, .start _⟩
  | next _ hcomplete ih =>
      obtain ⟨n, u, hrun, hfrom⟩ := ih
      have hthere := hfrom.complete.mpr hcomplete
      obtain ⟨u', hpass, hbuffer⟩ := over6Pass_of_complete rs env (0 + n) hthere
      refine ⟨n + 1, u', ?_, hbuffer ▸ hfrom.next hthere⟩
      rw [iterate_add, hrun]
      exact iterate_of_next 0 hpass

/-- Every pass begins at such a place. -/
theorem front_of_iterate {n : Nat} {u : State}
    (h : iterate (over6Pass rs env) n 0 s = .running u) :
    ∃ p t, s.over6PacketBuffer.Front p t ∧ s.over6PacketBuffer.From p t u.over6PacketBuffer := by
  refine iterate_running_invariant
    (fun u => ∃ p t, s.over6PacketBuffer.Front p t ∧
      s.over6PacketBuffer.From p t u.over6PacketBuffer) ?_ ⟨0, _, .first, .start _⟩ h
  rintro k u u' ⟨p, t, hfront, hfrom⟩ hpass
  obtain ⟨hcomplete, hbuffer⟩ := over6Pass_next hpass
  exact ⟨_, _, hfront.next (hfrom.complete.mp hcomplete), hbuffer ▸ hfrom.next hcomplete⟩

/-- A packet without a length stays where it is. -/
theorem forever_of_zero {u : State} (hcomplete : u.over6PacketBuffer.Complete)
    (hzero : u.over6PacketBuffer.length = 0) : ¬ Terminates (over6Pass rs env) k u := by
  refine not_terminates_of_recurrent (fun t => t.over6PacketBuffer = u.over6PacketBuffer) ?_ k u rfl
  intro k t ht
  have hthere : t.over6PacketBuffer.Complete := ht ▸ hcomplete
  obtain ⟨t', hpass, hbuffer⟩ := over6Pass_of_complete rs env k hthere
  refine ⟨t', hpass, ?_⟩
  rw [hbuffer, ht, hzero]
  exact u.over6PacketBuffer.dropFront_zero

/-- The passes come to an end where every packet has a length. -/
theorem terminates_of_advances (rs : List Report) (env : Nat → Writes)
    (h : s.over6PacketBuffer.Advances) :
    Terminates (over6Pass rs env) 0 s := by
  refine terminates_of_measure
    (fun u => ∃ p t, s.over6PacketBuffer.Front p t ∧
      s.over6PacketBuffer.From p t u.over6PacketBuffer)
    (fun u => u.over6PacketBuffer.used) ?_ 0 s ⟨0, _, .first, .start _⟩
  rintro k u ⟨p, t, hfront, hfrom⟩
  by_cases hcomplete : u.over6PacketBuffer.Complete
  · obtain ⟨u', hpass, hbuffer⟩ := over6Pass_of_complete rs env k hcomplete
    have hthere := hfrom.complete.mp hcomplete
    have hnext := hfrom.next hcomplete
    have hpositive := (h p t hfront hthere).1
    have hbefore := hfrom.used
    have hafter := hnext.used
    rw [← hbuffer] at hnext hafter
    exact .inr ⟨u', hpass, ⟨_, _, hfront.next hthere, hnext⟩, by omega⟩
  · exact .inl ⟨_, if_neg hcomplete⟩

end Passes

/-- Whatever the client sends, `over6Handle` is total exactly if the passes advance over it. -/
theorem over6Handle_total_iff (rs : List Report) (s : State)
    (hused : s.over6PacketBuffer.used ≤ pipeBufLen) :
    Total rs s ↔ s.over6PacketBuffer.Advances := by
  constructor
  · intro htotal p t hfront hthere
    let env : Nat → Writes := fun _ => ⟨.error, .error, .error⟩
    obtain ⟨n, u, hrun, hfrom⟩ := reaches_front rs env hfront
    have hcomplete := hfrom.complete.mpr hthere
    have hlength := hfrom.length hcomplete.1
    constructor
    · intro hzero
      obtain ⟨fuel, s', hstopped, _⟩ := htotal.returns env
      exact forever_of_zero hcomplete (hlength.trans hzero) (.of_running hrun ⟨fuel, s', hstopped⟩)
    · intro htype
      have hbounded := htotal.bounded env n u hrun hcomplete (hfrom.type.trans htype)
      have hroom := hfrom.used_le.trans hused
      rw [← hlength]
      exact (Buffer.actualSize_le_iff hroom hcomplete).mp hbounded
  · intro hadvances
    refine ⟨fun env => ?_, fun env n u hrun hcomplete htype => ?_⟩
    · obtain ⟨fuel, s', hstopped⟩ := terminates_of_advances rs env hadvances
      obtain ⟨n, u, hrun, hlast⟩ := iterate_stopped_last hstopped
      obtain ⟨p, t, _, hfrom⟩ := front_of_iterate hrun
      obtain ⟨_, rfl⟩ := over6Pass_stop hlast
      exact ⟨fuel, _, hstopped, rfl, hfrom.used_le⟩
    · obtain ⟨p, t, hfront, hfrom⟩ := front_of_iterate hrun
      have hlong := (hadvances p t hfront (hfrom.complete.mp hcomplete)).2
        (hfrom.type.symm.trans htype)
      have hroom := hfrom.used_le.trans hused
      rw [← hfrom.length hcomplete.1] at hlong
      exact (Buffer.actualSize_le_iff hroom hcomplete).mpr hlong

/-- All places where a pass begins are among these, and the packets there are as they should be. -/
structure Buffer.Closed (b : Buffer) (places : List (Nat × UInt8)) : Prop where
  first : (0, b.buf 4) ∈ places
  next : ∀ q ∈ places, b.CompleteAt q.1 →
    (q.1 + b.lengthAt q.1, b.typeAt (q.1 + b.lengthAt q.1) q.2) ∈ places
  sound : ∀ q ∈ places, b.CompleteAt q.1 →
    b.lengthAt q.1 ≠ 0 ∧ (q.2 = typeRequest → sizeofMessage ≤ b.lengthAt q.1)

instance (b : Buffer) (places : List (Nat × UInt8)) : Decidable (b.Closed places) :=
  decidable_of_iff
    ((0, b.buf 4) ∈ places ∧
      (∀ q ∈ places, b.CompleteAt q.1 →
        (q.1 + b.lengthAt q.1, b.typeAt (q.1 + b.lengthAt q.1) q.2) ∈ places) ∧
      ∀ q ∈ places, b.CompleteAt q.1 →
        b.lengthAt q.1 ≠ 0 ∧ (q.2 = typeRequest → sizeofMessage ≤ b.lengthAt q.1))
    ⟨fun h => ⟨h.1, h.2.1, h.2.2⟩, fun h => ⟨h.first, h.next, h.sound⟩⟩

theorem Buffer.advances_of_closed {b : Buffer} {places : List (Nat × UInt8)}
    (h : b.Closed places) : b.Advances := by
  intro p t hfront
  have hmem : (p, t) ∈ places := by
    induction hfront with
    | first => exact h.first
    | next _ hcomplete ih => exact h.next _ ih hcomplete
  exact h.sound _ hmem

/-- Bytes of the client are in the buffer when the tun device is ready. -/
def handed (bytes : List UInt8) : List Input :=
  [.wait [⟨.over6, true, false, false⟩, ⟨.tun, false, true, false⟩], .report [.bytes bytes],
    .report []]

def orderlyBytes : List UInt8 := heartbeat.bytes ++ (Frame.mk typeRequest packet).bytes

def orderlyPlaces : List (Nat × UInt8) := [(0, typeHeart), (5, typeRequest), (30, typeRequest)]

theorem over6Handle_total_iff_orderlyBytes :
    ∃ u, runZero (handed orderlyBytes) = some u ∧ u.point = .packets [] ∧ Total [] u := by
  have hview : (runZero (handed orderlyBytes)).map (fun u => decide (u.point = .packets [] ∧
      u.over6PacketBuffer.used = 30 ∧ u.over6PacketBuffer.Closed orderlyPlaces)) = some true := by
    decide +kernel
  obtain ⟨u, hrun, hu⟩ := Option.map_eq_some_iff.mp hview
  obtain ⟨hpoint, hused, hclosed⟩ := of_decide_eq_true hu
  have hroom : u.over6PacketBuffer.used ≤ pipeBufLen := by
    rw [hused]
    decide
  exact ⟨u, hrun, hpoint,
    (over6Handle_total_iff [] u hroom).mpr (Buffer.advances_of_closed hclosed)⟩

/-- Four zeros are a complete packet that never goes away; of five bytes that announce one, more
are to be written than there are. -/
theorem hostile_bytes_not_total :
    (∃ u, runZero (handed [0, 0, 0, 0]) = some u ∧ u.point = .packets [] ∧ ¬ Total [] u) ∧
      ∃ u, runZero (handed [1, 0, 0, 0, 102]) = some u ∧ u.point = .packets [] ∧
        u.over6PacketBuffer.used = 5 ∧ u.over6PacketBuffer.actualSize = 2 ^ 64 - 4 ∧
        ¬ Total [] u := by
  have hzero : (runZero (handed [0, 0, 0, 0])).map (fun u => decide (u.point = .packets [] ∧
      u.over6PacketBuffer.Complete ∧ u.over6PacketBuffer.length = 0)) = some true := by
    decide +kernel
  have hshort : (runZero (handed [1, 0, 0, 0, 102])).map (fun u => decide (u.point = .packets [] ∧
      u.over6PacketBuffer.used = 5 ∧ u.over6PacketBuffer.actualSize = 2 ^ 64 - 4 ∧
        ¬ u.over6PacketBuffer.Bounded)) = some true := by
    decide +kernel
  let env : Nat → Writes := fun _ => ⟨.error, .error, .error⟩
  constructor
  · obtain ⟨u, hrun, hu⟩ := Option.map_eq_some_iff.mp hzero
    obtain ⟨hpoint, hcomplete, hlength⟩ := of_decide_eq_true hu
    refine ⟨u, hrun, hpoint, fun htotal => ?_⟩
    obtain ⟨fuel, s', hstopped, _⟩ := htotal.returns env
    exact forever_of_zero hcomplete hlength ⟨fuel, s', hstopped⟩
  · obtain ⟨u, hrun, hu⟩ := Option.map_eq_some_iff.mp hshort
    obtain ⟨hpoint, hused, hsize, hbeyond⟩ := of_decide_eq_true hu
    exact ⟨u, hrun, hpoint, hused, hsize, fun htotal => hbeyond (htotal.bounded env 0 u rfl)⟩

end Over6.Droid
