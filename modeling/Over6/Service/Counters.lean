import Over6.Client.Traffic
import Over6.Service.Alignment

/-! # Counters on their way to the screen

`handle_command` writes its four counters as they lie in memory, and `timer_task`
puts each of them together from two signed halves.
-/

namespace Over6.Service

open MachineInt EventRun
open Client (stateBytes)

/-! ## What `timer_task` makes of a response -/

abbrev Stream := List UInt8

namespace Stream

/-- `read()`; at the end of the stream it is -1. -/
def read : Stream → Int × Stream
  | [] => (-1, [])
  | b :: s => (b.toNat, s)

def readInt (s : Stream) : Int × Stream :=
  let (a, s) := read s
  let (b, s) := read s
  let (c, s) := read s
  let (d, s) := read s
  (int32 (int32 (int32 (int32 (int32 (int32 (d * 256) + c) * 256) + b) * 256) + a), s)

def readLong (s : Stream) : Int × Stream :=
  let (a, s) := readInt s
  let (b, s) := readInt s
  (int64 (int64 (b * 2 ^ 32) + a), s)

end Stream

/-- What `broadcastState` sends of the traffic. -/
structure Shown where
  inBytes : Int
  outBytes : Int
  inPackets : Int
  outPackets : Int
  inSpeedBytes : Int
  outSpeedBytes : Int
deriving DecidableEq, Repr

namespace Shown

/-- `startVPN` sets all to zero. -/
def start : Shown := ⟨0, 0, 0, 0, 0, 0⟩

/-- `timer_task` reads a response. -/
def fetch (old : Shown) (response : Stream) : Shown :=
  let (inBytes, s) := Stream.readLong response
  let (outBytes, s) := Stream.readLong s
  let (inPackets, s) := Stream.readLong s
  let (outPackets, _) := Stream.readLong s
  { inBytes := inBytes
    outBytes := outBytes
    inPackets := inPackets
    outPackets := outPackets
    inSpeedBytes := int64 (inBytes - old.inBytes)
    outSpeedBytes := int64 (outBytes - old.outBytes) }

def counters (d : Shown) : List Int := [d.inBytes, d.outBytes, d.inPackets, d.outPackets]

end Shown

def displays : Shown → List Stream → List Shown
  | _, [] => []
  | old, response :: rest => old.fetch response :: displays (old.fetch response) rest

/-! ## Halves put together -/

theorem leBytes_add (m n v : Nat) : leBytes (m + n) v = leBytes m v ++ leBytes n (v / 256 ^ m) := by
  induction m generalizing v with
  | zero => simp [leBytes]
  | succ m ih =>
      rw [Nat.succ_add, leBytes, leBytes, ih, Nat.div_div_eq_div_mul, List.cons_append,
        Nat.pow_succ, Nat.mul_comm (256 ^ m)]

theorem readInt_cons (a b c d : UInt8) (rest : Stream) :
    Stream.readInt (a :: b :: c :: d :: rest) =
      (int32 (((d.toNat * 256 + c.toNat : Int) * 256 + b.toNat) * 256 + a.toNat), rest) := by
  have hread : Stream.readInt (a :: b :: c :: d :: rest) =
      (int32 (int32 (int32 (int32 (int32 (int32 ((d.toNat : Int) * 256) + c.toNat) * 256) +
        b.toNat) * 256) + a.toNat), rest) := rfl
  rw [hread]
  simp only [int32_add, int32_mul]

theorem readInt_leBytes (n : Nat) (rest : Stream) :
    Stream.readInt (leBytes 4 n ++ rest) = (int32 n, rest) := by
  obtain ⟨a, b, c, d, hbytes⟩ : ∃ a b c d, leBytes 4 n = [a, b, c, d] := ⟨_, _, _, _, rfl⟩
  have hvalue := leNat_leBytes 4 n
  rw [hbytes] at hvalue ⊢
  simp only [leNat] at hvalue
  have hsum : ((d.toNat * 256 + c.toNat : Int) * 256 + b.toNat) * 256 + a.toNat =
      ((n % 256 ^ 4 : Nat) : Int) := by omega
  have hmod : int32 ((n % 256 ^ 4 : Nat) : Int) = int32 n := by
    rw [int32, int32, Int.bmod_def, Int.bmod_def]
    omega
  change Stream.readInt (a :: b :: c :: d :: rest) = _
  rw [readInt_cons, hsum, hmod]

/-- The low half counts as a signed number. -/
theorem readLong_leBytes {v : Nat} (hv : v < 2 ^ 63) (rest : Stream) :
    Stream.readLong (leBytes 8 v ++ rest) =
      ((if v % 2 ^ 32 < 2 ^ 31 then (v : Int) else v - 2 ^ 32), rest) := by
  have hread : ∀ s, Stream.readLong s = (int64 (int64 ((Stream.readInt (Stream.readInt s).2).1 *
      2 ^ 32) + (Stream.readInt s).1), (Stream.readInt (Stream.readInt s).2).2) := fun _ => rfl
  have hhigh : int32 ((v / 256 ^ 4 : Nat) : Int) = ((v / 256 ^ 4 : Nat) : Int) := by
    rw [int32_of_range] <;> omega
  have hlow : int32 v = if v % 2 ^ 32 < 2 ^ 31 then ((v % 2 ^ 32 : Nat) : Int)
      else ((v % 2 ^ 32 : Nat) : Int) - 2 ^ 32 := by
    rw [int32, Int.bmod_def]
    split <;> split <;> omega
  rw [leBytes_add 4 4, List.append_assoc, hread, readInt_leBytes, readInt_leBytes, hhigh, hlow]
  refine congrArg (·, rest) ?_
  have hshift : int64 (((v / 256 ^ 4 : Nat) : Int) * 2 ^ 32) = ((v / 256 ^ 4 : Nat) : Int) * 2 ^ 32 := by
    rw [int64_of_range] <;> omega
  change int64 (int64 (((v / 256 ^ 4 : Nat) : Int) * 2 ^ 32) + _) = _
  rw [hshift]
  split
  · rw [int64_of_range] <;> omega
  · rw [int64_of_range] <;> omega

/-! ## The polls of a run -/

/-- The four counters, in the order in which they are written. -/
def counters (s : Client.State) : List Nat :=
  [s.inBytes, s.outBytes, s.inPackets, s.outPackets].map UInt64.toNat

/-- The groups of bytes that the service has read to their end. -/
def Java.complete (j : Java) : List (List UInt8) :=
  match j.todo with
  | .read _ :: _ => j.groups.dropLast
  | _ => j.groups

/-- The states in which `FETCH_STATE` was handled, each with the bytes read for it. -/
def Link.polls (l : Link) : List (Client.State × List UInt8) :=
  ((l.fetched.zip l.java.complete).filter fun p => p.1.1 = commandFetchState).map
    fun p => (p.1.2, p.2)

/-- What is shown is what was counted: it never goes down, and no speed is negative. -/
structure Survives (polls : List (Client.State × List UInt8)) : Prop where
  values : (displays .start (polls.map Prod.snd)).map Shown.counters =
    polls.map fun p => (counters p.1).map Nat.cast
  rising : (Shown.start :: displays .start (polls.map Prod.snd)).Pairwise fun d d' =>
    d.inBytes ≤ d'.inBytes ∧ d.outBytes ≤ d'.outBytes
  speeds : ∀ d ∈ displays .start (polls.map Prod.snd), 0 ≤ d.inSpeedBytes ∧ 0 ≤ d.outSpeedBytes

def Clear31 (v : Nat) : Prop := v % 2 ^ 32 < 2 ^ 31

instance (v : Nat) : Decidable (Clear31 v) := inferInstanceAs (Decidable (_ < _))

/-! ## One poll after the other -/

def received (v : Nat) : Int := if Clear31 v then v else v - 2 ^ 32

theorem received_eq_iff (v : Nat) : received v = v ↔ Clear31 v := by
  unfold received
  split
  · exact iff_of_true rfl ‹_›
  · refine iff_of_false ?_ ‹_›
    omega

theorem fetch_stateBytes {s : Client.State} (hsmall : ∀ v ∈ counters s, v < 2 ^ 63) (old : Shown) :
    (old.fetch (stateBytes s)).counters = (counters s).map received := by
  have hin := hsmall s.inBytes.toNat (by simp [counters])
  have hout := hsmall s.outBytes.toNat (by simp [counters])
  have hinPackets := hsmall s.inPackets.toNat (by simp [counters])
  have houtPackets := hsmall s.outPackets.toNat (by simp [counters])
  have hbytes : stateBytes s = leBytes 8 s.inBytes.toNat ++ (leBytes 8 s.outBytes.toNat ++
      (leBytes 8 s.inPackets.toNat ++ (leBytes 8 s.outPackets.toNat ++ []))) := by
    simp [stateBytes]
  rw [hbytes]
  simp only [Shown.fetch, readLong_leBytes hin, readLong_leBytes hout, readLong_leBytes hinPackets,
    readLong_leBytes houtPackets]
  rfl

section Polls

variable {polls : List (Client.State × List UInt8)}

theorem displays_counters (hbytes : ∀ p ∈ polls, p.2 = stateBytes p.1)
    (hsmall : ∀ p ∈ polls, ∀ v ∈ counters p.1, v < 2 ^ 63) (old : Shown) :
    (displays old (polls.map Prod.snd)).map Shown.counters =
      polls.map fun p => (counters p.1).map received := by
  induction polls generalizing old with
  | nil => rfl
  | cons p polls ih =>
      obtain ⟨hp, htail⟩ := List.forall_mem_cons.mp hbytes
      obtain ⟨hpsmall, htailsmall⟩ := List.forall_mem_cons.mp hsmall
      rw [List.map_cons, displays, List.map_cons, List.map_cons, ih htail htailsmall, hp,
        fetch_stateBytes hpsmall]

/-- Values that come across as they are are shown in the order of the polls. -/
theorem displays_rise (hbytes : ∀ p ∈ polls, p.2 = stateBytes p.1)
    (hsmall : ∀ p ∈ polls, ∀ v ∈ counters p.1, v < 2 ^ 63)
    (hclear : ∀ p ∈ polls, ∀ v ∈ counters p.1, Clear31 v)
    (hrise : (polls.map Prod.fst).Pairwise Client.Counts) (old : Shown)
    (hpos : 0 ≤ old.inBytes ∧ 0 ≤ old.outBytes)
    (hold : ∀ p ∈ polls, old.inBytes ≤ p.1.inBytes.toNat ∧ old.outBytes ≤ p.1.outBytes.toNat) :
    ((old :: displays old (polls.map Prod.snd)).Pairwise fun d d' =>
        d.inBytes ≤ d'.inBytes ∧ d.outBytes ≤ d'.outBytes) ∧
      ∀ d ∈ displays old (polls.map Prod.snd), 0 ≤ d.inSpeedBytes ∧ 0 ≤ d.outSpeedBytes := by
  induction polls generalizing old with
  | nil => exact ⟨List.pairwise_singleton _ _, nofun⟩
  | cons p polls ih =>
      obtain ⟨hp, htail⟩ := List.forall_mem_cons.mp hbytes
      obtain ⟨hpsmall, htailsmall⟩ := List.forall_mem_cons.mp hsmall
      obtain ⟨hpclear, htailclear⟩ := List.forall_mem_cons.mp hclear
      obtain ⟨hfirst, htailrise⟩ := List.pairwise_cons.mp hrise
      obtain ⟨hpold, _⟩ := List.forall_mem_cons.mp hold
      have hvalues : (old.fetch p.2).inBytes = p.1.inBytes.toNat ∧
          (old.fetch p.2).outBytes = p.1.outBytes.toNat := by
        have hall := fetch_stateBytes hpsmall old
        rw [← hp, List.map_congr_left fun v hv => (received_eq_iff v).mpr (hpclear v hv)] at hall
        exact ⟨(List.cons.inj hall).1, (List.cons.inj (List.cons.inj hall).2).1⟩
      have hinsmall := hpsmall p.1.inBytes.toNat (by simp [counters])
      have houtsmall := hpsmall p.1.outBytes.toNat (by simp [counters])
      have hspeeds : 0 ≤ (old.fetch p.2).inSpeedBytes ∧ 0 ≤ (old.fetch p.2).outSpeedBytes := by
        change 0 ≤ int64 ((old.fetch p.2).inBytes - old.inBytes) ∧
          0 ≤ int64 ((old.fetch p.2).outBytes - old.outBytes)
        rw [hvalues.1, hvalues.2, int64_of_range (by omega) (by omega),
          int64_of_range (by omega) (by omega)]
        omega
      have hlater : ∀ q ∈ polls, (old.fetch p.2).inBytes ≤ q.1.inBytes.toNat ∧
          (old.fetch p.2).outBytes ≤ q.1.outBytes.toNat := by
        intro q hq
        obtain ⟨hin, hout⟩ := hfirst q.1 (List.mem_map_of_mem hq)
        omega
      obtain ⟨hpairs, hrest⟩ := ih htail htailsmall htailclear htailrise _ (by omega) hlater
      rw [List.map_cons, displays]
      refine ⟨List.pairwise_cons.mpr ⟨fun d hd => ?_, hpairs⟩, List.forall_mem_cons.mpr ⟨hspeeds, hrest⟩⟩
      rcases List.mem_cons.mp hd with rfl | hd
      · omega
      · have hstep := (List.pairwise_cons.mp hpairs).1 d hd
        omega

theorem survives_of_polls (hbytes : ∀ p ∈ polls, p.2 = stateBytes p.1)
    (hsmall : ∀ p ∈ polls, ∀ v ∈ counters p.1, v < 2 ^ 63)
    (hrise : (polls.map Prod.fst).Pairwise Client.Counts) :
    Survives polls ↔ ∀ p ∈ polls, ∀ v ∈ counters p.1, Clear31 v := by
  constructor
  · intro h p hp v hv
    have hvalues := h.values
    rw [displays_counters hbytes hsmall, List.map_inj_left] at hvalues
    have hcounters := hvalues p hp
    rw [List.map_inj_left] at hcounters
    exact (received_eq_iff v).mp (hcounters v hv)
  · intro hclear
    have hstart : ∀ p ∈ polls, Shown.start.inBytes ≤ p.1.inBytes.toNat ∧
        Shown.start.outBytes ≤ p.1.outBytes.toNat :=
      fun p _ => ⟨Int.natCast_nonneg _, Int.natCast_nonneg _⟩
    obtain ⟨hrising, hspeeds⟩ := displays_rise hbytes hsmall hclear hrise .start
      ⟨Int.le_refl 0, Int.le_refl 0⟩ hstart
    refine ⟨?_, hrising, hspeeds⟩
    rw [displays_counters hbytes hsmall]
    refine List.map_congr_left fun p hp => List.map_congr_left fun v hv => ?_
    exact (received_eq_iff v).mpr (hclear p hp v hv)

end Polls

/-! ## Runs -/

/-- None of the counters needs the sign bit of a `long`. -/
def Link.Small (l : Link) : Prop := ∀ v ∈ counters l.client, v < 2 ^ 63

instance (l : Link) : Decidable l.Small := inferInstanceAs (Decidable (∀ v ∈ _, _))

theorem Link.Small.bytes {l : Link} (h : l.Small) : l.client.Small :=
  ⟨h _ (by simp [counters]), h _ (by simp [counters])⟩

/-- Each command found the byte counters where the one before had left them, or higher. -/
structure Tallied (l : Link) : Prop where
  bounded : l.client.Bounded
  rises : (l.handled.map Prod.snd).Pairwise Client.Counts
  past : ∀ h ∈ l.handled, Client.Counts h.2 l.client
  small : ∀ h ∈ l.handled, ∀ v ∈ counters h.2, v < 2 ^ 63

namespace Tallied

variable {l l' : Link}

theorem of_eq (h : Tallied l) (hclient : l'.client = l.client) (hhandled : l'.handled = l.handled) :
    Tallied l' := by
  refine ⟨?_, ?_, ?_, ?_⟩
  · rw [hclient]
    exact h.bounded
  · rw [hhandled]
    exact h.rises
  · rw [hclient, hhandled]
    exact h.past
  · rw [hhandled]
    exact h.small

/-- A handler has been called. -/
theorem called (h : Tallied l) (hsmall : l.Small) {e : Client.Event} {client : Client.State}
    (hstep : Client.step l.client e = some client) (hclient : l'.client = client)
    (hhandled : l'.handled = l.handled) : Tallied l' := by
  have hcounts := Client.step_counts h.bounded hsmall.bytes hstep
  refine ⟨?_, ?_, ?_, ?_⟩
  · rw [hclient]
    exact h.bounded.step hstep
  · rw [hhandled]
    exact h.rises
  · rw [hclient, hhandled]
    exact fun p hp => (h.past p hp).trans hcounts
  · rw [hhandled]
    exact h.small

theorem snoc (h : Tallied l) (hsmall : l.Small) (c : UInt8) :
    Tallied { l with handled := l.handled ++ [(c, l.client)] } := by
  refine ⟨h.bounded, ?_, fun p hp => ?_, fun p hp => ?_⟩
  · rw [List.map_append, List.pairwise_append]
    refine ⟨h.rises, List.pairwise_singleton _ _, fun s hs t ht => ?_⟩
    obtain ⟨p, hp, rfl⟩ := List.mem_map.mp hs
    obtain rfl := List.mem_singleton.mp ht
    exact h.past p hp
  · rcases List.mem_append.mp hp with hp | hp
    · exact h.past p hp
    · obtain rfl := List.mem_singleton.mp hp
      exact .refl l.client
  · rcases List.mem_append.mp hp with hp | hp
    · exact h.small p hp
    · obtain rfl := List.mem_singleton.mp hp
      exact hsmall

theorem step {e : Event} (h : Tallied l) (hsmall : l.Small) (hstep : Service.step l e = some l') :
    Tallied l' := by
  cases e with
  | write =>
      obtain ⟨_, _, rfl⟩ := Option.map_eq_some_iff.mp hstep
      exact h.of_eq rfl rfl
  | read n =>
      obtain ⟨_, _, rfl⟩ := Option.map_eq_some_iff.mp hstep
      exact h.of_eq rfl rfl
  | tick =>
      obtain ⟨_, _, rfl⟩ := Option.map_eq_some_iff.mp hstep
      exact h.of_eq rfl rfl
  | send f =>
      simp only [Service.step, Option.ite_none_right_eq_some, Option.some.injEq] at hstep
      obtain ⟨_, rfl⟩ := hstep
      exact h.of_eq rfl rfl
  | command =>
      simp only [Service.step] at hstep
      split at hstep
      · simp only [Option.ite_none_right_eq_some, Option.some.injEq] at hstep
        obtain ⟨_, rfl⟩ := hstep
        exact h.of_eq rfl rfl
      · cases hstep
  | argument n =>
      simp only [Service.step] at hstep
      split at hstep
      · simp only [Option.ite_none_right_eq_some, Option.some.injEq] at hstep
        obtain ⟨_, rfl⟩ := hstep
        exact h.of_eq rfl rfl
      · cases hstep
  | finish write =>
      simp only [Service.step] at hstep
      split at hstep
      · rename_i p _
        obtain ⟨client, hclient, rfl⟩ := Option.map_eq_some_iff.mp hstep
        exact (h.snoc hsmall p.command).called hsmall hclient rfl rfl
      · cases hstep
  | native e =>
      simp only [Service.step, Option.ite_none_right_eq_some] at hstep
      obtain ⟨_, hstep⟩ := hstep
      obtain ⟨client, hclient, rfl⟩ := Option.map_eq_some_iff.mp hstep
      exact h.called hsmall hclient rfl rfl

theorem init (fds : Client.Descriptors) (time₁ time₂ : Int) (stale : CellMemory UInt8) (fd : Nat) :
    Tallied (Link.start fds time₁ time₂ stale fd) := by
  have hnone : (Link.start fds time₁ time₂ stale fd).handled = [] := rfl
  refine ⟨.protocolInit fds time₁ time₂ stale, .nil, fun h hh => ?_, fun h hh => ?_⟩
  · rw [hnone] at hh
    exact absurd hh List.not_mem_nil
  · rw [hnone] at hh
    exact absurd hh List.not_mem_nil

end Tallied

/-! ## What the polls are -/

section Aligned

variable {socketFd : Fd} {fd : Nat} {l : Link}

theorem complete_getElem? {j : Java} {k : Nat} {g : List UInt8} (h : j.complete[k]? = some g) :
    j.groups[k]? = some g ∧ (k + 1 < j.groups.length ∨ ¬ j.Reading) := by
  unfold Java.complete at h
  split at h
  · rw [List.getElem?_dropLast] at h
    split at h
    · exact ⟨h, .inl (by omega)⟩
    · cases h
  · rename_i hnone
    refine ⟨h, .inr ?_⟩
    rintro ⟨length, rest, htodo⟩
    exact hnone length rest htodo

theorem polls_bytes (h : Aligned socketFd fd l) : ∀ p ∈ l.polls, p.2 = stateBytes p.1 := by
  intro p hp
  obtain ⟨⟨⟨c, s⟩, g⟩, hmem, rfl⟩ := List.mem_map.mp hp
  obtain ⟨hzip, hcommand⟩ := List.mem_filter.mp hmem
  obtain ⟨k, hk⟩ := List.mem_iff_getElem?.mp hzip
  rw [List.getElem?_zip_eq_some] at hk
  obtain ⟨hgroup, hwhole⟩ := complete_getElem? hk.2
  obtain ⟨h', hh, hanswer⟩ := h.complete k g hgroup hwhole
  obtain rfl := Option.some.inj (hk.1.symm.trans hh)
  rwa [Answer, if_pos (of_decide_eq_true hcommand)] at hanswer

theorem zip_sublist {α β : Type} (l : List α) (m : List β) : ((l.zip m).map Prod.fst).Sublist l := by
  induction l generalizing m with
  | nil => exact .refl []
  | cons a l ih =>
      cases m with
      | nil => exact List.nil_sublist _
      | cons b m => exact (ih m).cons_cons a

theorem polls_sublist (l : Link) : (l.polls.map Prod.fst).Sublist (l.handled.map Prod.snd) := by
  have hpolls : l.polls.map Prod.fst = (((l.fetched.zip l.java.complete).filter
      fun p => p.1.1 = commandFetchState).map Prod.fst).map Prod.snd := by
    rw [Link.polls, List.map_map, List.map_map]
    rfl
  rw [hpolls]
  refine (List.Sublist.trans ?_ (List.filter_sublist (p := fun h => fetches h.1))).map Prod.snd
  exact (List.filter_sublist.map Prod.fst).trans (zip_sublist l.fetched l.java.complete)

end Aligned

/-- In every run with counters below 63 bits: what the service shows is what `handle_command` found,
never goes down and makes no negative speed exactly if bit 31 of no counter polled is set. -/
theorem counters_survive_iff (fds : Client.Descriptors) (time₁ time₂ : Int)
    (stale : CellMemory UInt8) (fd : Nat) (hfd : fd < 2 ^ 31) (es : List Event) (l : Link)
    (hrun : run step (Link.start fds time₁ time₂ stale fd) es = some l)
    (hsmall : ∀ pre e post u, es = pre ++ e :: post →
      run step (Link.start fds time₁ time₂ stale fd) pre = some u → u.Small) :
    Survives l.polls ↔ ∀ p ∈ l.polls, ∀ v ∈ counters p.1, Clear31 v := by
  have htallied : Tallied l :=
    run_meeting (fun l _ => l.Small) Tallied (fun _ _ _ h hok => h.step hok)
      (.init fds time₁ time₂ stale fd) hrun hsmall
  have hsub := polls_sublist l
  refine survives_of_polls (polls_bytes (steady_of_run hfd hrun).aligned) (fun p hp => ?_)
    (htallied.rises.sublist hsub)
  obtain ⟨h, hh, hstate⟩ := List.mem_map.mp (hsub.subset (List.mem_map_of_mem hp))
  exact hstate ▸ htallied.small h hh

def trafficAndPoll (down up : List UInt8) : List Event :=
  let f : Frame := ⟨msgDataRsb, down⟩
  [.send f, .native (.socket (.bytes f.bytes) (Client.SocketEnv.prompt 0) 9),
    .native (.tunnel (.bytes up) Client.writesAll Client.writesAll), .tick, .write, .command,
    .finish fun _ => Client.writesAll] ++ List.replicate 32 (.read 1)

/-- The service gets its address, passes on descriptor 6 and polls twice. -/
def twoPolls : List Event :=
  let reply : Frame := ⟨msgIpRsb, "13.8.0.2".toList.map fun c => UInt8.ofNat c.toNat⟩
  let finish : Event := .finish fun _ => Client.writesAll
  [.write, .command, finish, .send reply,
    .native (.socket (.bytes reply.bytes) (Client.SocketEnv.prompt 0) 9), .read 20] ++
    List.replicate 4 (.read 1) ++ List.replicate 5 .write ++ [.command, .argument 4, finish] ++
    trafficAndPoll [69, 1, 2] [69, 3] ++ trafficAndPoll [69] [69, 4, 5, 6]

theorem counters_survive_twoPolls :
    ∃ l, run step (Link.start .usual 0 0 (fun _ => 0) 6) twoPolls = some l ∧
      (l.polls.map fun p => counters p.1) = [[8, 2, 1, 1], [14, 6, 2, 2]] ∧ Survives l.polls := by
  have hany : ((run step (Link.start .usual 0 0 (fun _ => 0) 6) twoPolls).any fun l =>
      decide ((l.polls.map fun p => counters p.1) = [[8, 2, 1, 1], [14, 6, 2, 2]] ∧
        ∀ p ∈ l.polls, ∀ v ∈ counters p.1, Clear31 v)) = true := by decide +kernel
  obtain ⟨l, hrun, hl⟩ := (Option.any_eq_true _ _).mp hany
  obtain ⟨hcounted, hclear⟩ := of_decide_eq_true hl
  have hsmall : ∀ pre e post u, twoPolls = pre ++ e :: post →
      run step (Link.start .usual 0 0 (fun _ => 0) 6) pre = some u → u.Small :=
    good_of_clean (by decide +kernel)
  exact ⟨l, hrun, hcounted, (counters_survive_iff .usual 0 0 (fun _ => 0) 6 (by decide) twoPolls l
    hrun hsmall).mpr hclear⟩

def receivedSoFar (v : Nat) : Client.State :=
  { Client.protocolInit .usual 0 0 fun _ => 0 with inBytes := UInt64.ofNat v }

/-- The byte that makes it two GiB. -/
theorem two_gib_negative :
    (Stream.readLong (leBytes 8 (2 ^ 31))).1 = -2 ^ 31 ∧
      (displays .start ([2 ^ 31 - 1, 2 ^ 31].map fun v => stateBytes (receivedSoFar v))).map
        (fun d => (d.inBytes, d.inSpeedBytes)) =
          [(2 ^ 31 - 1, 2 ^ 31 - 1), (-2 ^ 31, 1 - 2 ^ 32)] ∧
      ¬ Survives ([2 ^ 31 - 1, 2 ^ 31].map fun v =>
        (receivedSoFar v, stateBytes (receivedSoFar v))) := by
  have hshown : (displays .start ([2 ^ 31 - 1, 2 ^ 31].map fun v =>
      stateBytes (receivedSoFar v))).map (fun d => (d.inBytes, d.inSpeedBytes)) =
        [(2 ^ 31 - 1, 2 ^ 31 - 1), (-2 ^ 31, 1 - 2 ^ 32)] := by decide +kernel
  refine ⟨by decide +kernel, hshown, fun h => ?_⟩
  have hspeeds := h.speeds
  rw [List.map_map] at hspeeds
  have hlast : (-2 ^ 31, 1 - 2 ^ 32) ∈ (displays .start ([2 ^ 31 - 1, 2 ^ 31].map fun v =>
      stateBytes (receivedSoFar v))).map (fun d : Shown => (d.inBytes, d.inSpeedBytes)) := by
    rw [hshown]
    simp
  obtain ⟨d, hd, hpair⟩ := List.mem_map.mp hlast
  have hspeed := (hspeeds d hd).1
  rw [(Prod.mk.inj hpair).2] at hspeed
  exact absurd hspeed (by decide)

end Over6.Service
