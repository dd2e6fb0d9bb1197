import Mathlib.Data.Option.Basic
import Mathlib.Logic.Relation

/-! # Two keepalive timers

A client and a server send each other a beat whenever their last one is more than
`interval` old. What is sent arrives in order; beats and the request by which the
client becomes known to the server take at most `delay`. Both sides look at the
clock at every value. Then neither ever goes without a beat for long.
-/

namespace Keepalive

/-! ## Beats on their way -/

/-- From `anchor` on the times of the beats in flight are at most `gap` apart, and the last of them
is not older than `sent`. -/
def Paced (gap sent : Int) : Int → List Int → Prop
  | anchor, [] => sent ≤ anchor
  | anchor, t :: flight => t ≤ anchor + gap ∧ Paced gap sent t flight

theorem Paced.send {gap sent now anchor : Int} {flight : List Int}
    (h : Paced gap sent anchor flight) (hfresh : now ≤ sent + gap) :
    Paced gap now anchor (flight ++ [now]) := by
  induction flight generalizing anchor with
  | nil =>
      have hlast : sent ≤ anchor := h
      exact ⟨by omega, Int.le_refl now⟩
  | cons t flight ih => exact ⟨h.1, ih h.2⟩

/-- One direction: the sender sent its last beat at `sent`, the receiver saw its last at `seen`, and
`flight` are the times of those in between. -/
structure Beacon (gap delay slack now sent seen : Int) (flight : List Int) : Prop where
  paced : ∃ anchor, anchor ≤ seen + slack ∧ Paced gap sent anchor flight
  past : ∀ t ∈ flight, t ≤ now
  due : ∀ t ∈ flight, now ≤ t + delay
  fresh : now ≤ sent + gap

namespace Beacon

variable {gap delay slack now sent seen : Int} {flight : List Int}

/-- The receiver has seen a beat not long ago. -/
theorem age (h : Beacon gap delay slack now sent seen flight) (hdelay : 0 ≤ delay) :
    now ≤ seen + slack + gap + delay := by
  obtain ⟨anchor, hanchor, hpaced⟩ := h.paced
  have hfresh := h.fresh
  cases flight with
  | nil =>
      have hlast : sent ≤ anchor := hpaced
      omega
  | cons t flight =>
      have hnext := hpaced.1
      have hdue := h.due t List.mem_cons_self
      omega

theorem send (h : Beacon gap delay slack now sent seen flight) (hgap : 0 ≤ gap)
    (hdelay : 0 ≤ delay) : Beacon gap delay slack now now seen (flight ++ [now]) := by
  obtain ⟨anchor, hanchor, hpaced⟩ := h.paced
  refine ⟨⟨anchor, hanchor, hpaced.send h.fresh⟩, ?_, ?_, by omega⟩
  · intro t ht
    rcases List.mem_append.mp ht with ht | ht
    · exact h.past t ht
    · exact Int.le_of_eq (List.mem_singleton.mp ht)
  · intro t ht
    rcases List.mem_append.mp ht with ht | ht
    · exact h.due t ht
    · rw [List.mem_singleton.mp ht]
      omega

/-- The first beat in flight arrives. -/
theorem see {t : Int} (h : Beacon gap delay slack now sent seen (t :: flight))
    (hslack : 0 ≤ slack) : Beacon gap delay slack now sent now flight := by
  obtain ⟨_, _, _, hpaced⟩ := h.paced
  have hpast := h.past t List.mem_cons_self
  exact ⟨⟨t, by omega, hpaced⟩, fun u hu => h.past u (List.mem_cons_of_mem t hu),
    fun u hu => h.due u (List.mem_cons_of_mem t hu), h.fresh⟩

/-- The receiver may have seen the sender in another way. -/
theorem mono {seen' : Int} (h : Beacon gap delay slack now sent seen flight) (hle : seen ≤ seen') :
    Beacon gap delay slack now sent seen' flight := by
  obtain ⟨anchor, hanchor, hpaced⟩ := h.paced
  exact ⟨⟨anchor, by omega, hpaced⟩, h.past, h.due, h.fresh⟩

theorem tick (h : Beacon gap delay slack now sent seen flight)
    (hfresh : now + 1 ≤ sent + gap) (hdue : ∀ t ∈ flight, now + 1 ≤ t + delay) :
    Beacon gap delay slack (now + 1) sent seen flight := by
  refine ⟨h.paced, ?_, hdue, hfresh⟩
  intro t ht
  have hpast := h.past t ht
  omega

end Beacon

/-! ## The two parties -/

structure Timing where
  interval : Int
  delay : Int
  /-- How long the client may take to send its request. -/
  setup : Int
  interval_nonneg : 0 ≤ interval
  delay_nonneg : 0 ≤ delay
  setup_nonneg : 0 ≤ setup
  /-- The request comes before the first beat. -/
  setup_le : setup ≤ interval

inductive Kind where
  | request
  | beat
  | other
deriving DecidableEq

/-- Messages in flight with the time they were sent, the oldest first. -/
abbrev Flight := List (Int × Kind)

def beats (flight : Flight) : List Int :=
  (flight.filter fun m => m.2 == .beat).map Prod.fst

theorem beats_append (flight flight' : Flight) :
    beats (flight ++ flight') = beats flight ++ beats flight' := by
  simp [beats]

theorem beats_cons_beat (t : Int) (flight : Flight) :
    beats ((t, .beat) :: flight) = t :: beats flight := by
  simp [beats]

theorem beats_cons_of_ne (t : Int) {k : Kind} (hk : k ≠ .beat) (flight : Flight) :
    beats ((t, k) :: flight) = beats flight := by
  simp [beats, hk]

theorem beats_snoc_of_ne (t : Int) {k : Kind} (hk : k ≠ .beat) (flight : Flight) :
    beats (flight ++ [(t, k)]) = beats flight := by
  rw [beats_append, beats_cons_of_ne t hk]
  exact List.append_nil _

theorem mem_beats {t : Int} {flight : Flight} : t ∈ beats flight ↔ (t, .beat) ∈ flight := by
  simp [beats]

structure State where
  now : Int
  /-- When the client sent its last beat. -/
  sent : Int
  /-- When the client saw the last beat of the server. -/
  seen : Int
  /-- The same two clocks on the side of the server, once it knows the client. -/
  entry : Option (Int × Int)
  up : Flight
  down : Flight
  requested : Bool
  /-- Whether either side has looked at the clock since it went on. -/
  beaten : Bool
  swept : Bool
  stopped : Bool

def State.init (start : Int) : State where
  now := start
  sent := start
  seen := start
  entry := none
  up := []
  down := []
  requested := false
  beaten := false
  swept := false
  stopped := false

/-- At the time `now` no beat or request in flight is late. -/
def InTime (delay now : Int) (flight : Flight) : Prop :=
  ∀ t k, (t, k) ∈ flight → k ≠ .other → now ≤ t + delay

inductive Step (T : Timing) (start : Int) (s : State) : State → Prop
  | tick (hbeaten : s.beaten = true) (hswept : s.swept = true)
      (hup : InTime T.delay (s.now + 1) s.up)
      (hdown : s.stopped = false → InTime T.delay (s.now + 1) s.down)
      (hsetup : s.requested = true ∨ s.now + 1 ≤ start + T.setup) :
      Step T start s { s with now := s.now + 1, beaten := false, swept := false }
  | clientBeats (hdue : T.interval < s.now - s.sent) :
      Step T start s { s with sent := s.now, up := s.up ++ [(s.now, .beat)], beaten := true }
  | clientRests (hrest : s.now - s.sent ≤ T.interval) : Step T start s { s with beaten := true }
  | clientRequests (hfirst : s.requested = false) :
      Step T start s { s with up := s.up ++ [(s.now, .request)], requested := true }
  | clientSends : Step T start s { s with up := s.up ++ [(s.now, .other)] }
  | clientSees (t : Int) (k : Kind) (rest : Flight) (hdown : s.down = (t, k) :: rest) :
      Step T start s { s with down := rest, seen := if k = .beat then s.now else s.seen }
  | clientStops : Step T start s { s with stopped := true }
  | serverBeats (sent seen : Int) (hentry : s.entry = some (sent, seen))
      (hdue : T.interval < s.now - sent) :
      Step T start s { s with entry := some (s.now, seen), down := s.down ++ [(s.now, .beat)] }
  | serverRests (hrest : ∀ sent seen, s.entry = some (sent, seen) → s.now - sent ≤ T.interval) :
      Step T start s { s with swept := true }
  | serverSends (k : Kind) (hk : k ≠ .beat) :
      Step T start s { s with down := s.down ++ [(s.now, k)] }
  | serverGrants (t : Int) (rest : Flight) (hup : s.up = (t, .request) :: rest)
      (hnone : s.entry = none) :
      Step T start s { s with up := rest, entry := some (s.now, s.now) }
  | serverSees (t : Int) (k : Kind) (rest : Flight) (hup : s.up = (t, k) :: rest)
      (hk : k ≠ .request) :
      Step T start s { s with
        up := rest
        entry := if k = .beat then s.entry.map fun e => (e.1, s.now) else s.entry }

abbrev Steps (T : Timing) (start : Int) : State → State → Prop := Relation.ReflTransGen (Step T start)

/-! ## The invariant -/

/-- No beat comes before the request. -/
def Led : Flight → Prop
  | [] => True
  | (_, .request) :: _ => True
  | (_, .beat) :: _ => False
  | (_, .other) :: rest => Led rest

theorem Led.snoc {up : Flight} (h : Led up) (t : Int) {k : Kind}
    (hk : k ≠ .beat ∨ ∃ u, (u, .request) ∈ up) : Led (up ++ [(t, k)]) := by
  induction up with
  | nil =>
      cases k with
      | request => trivial
      | beat => simp at hk
      | other => trivial
  | cons m up ih =>
      obtain ⟨u, l⟩ := m
      cases l with
      | request => trivial
      | beat => exact h.elim
      | other =>
          refine ih h (hk.imp_right ?_)
          rintro ⟨v, hv⟩
          exact ⟨v, by simpa using hv⟩

theorem InTime.snoc {delay now : Int} {flight : Flight} (h : InTime delay now flight)
    (hdelay : 0 ≤ delay) (k : Kind) : InTime delay now (flight ++ [(now, k)]) := by
  intro t l ht hl
  rcases List.mem_append.mp ht with ht | ht
  · exact h t l ht hl
  · obtain ⟨rfl, rfl⟩ := Prod.mk.inj (List.mem_singleton.mp ht)
    omega

theorem InTime.tail {delay now : Int} {m : Int × Kind} {flight : Flight}
    (h : InTime delay now (m :: flight)) : InTime delay now flight :=
  fun t k ht hk => h t k (List.mem_cons_of_mem m ht) hk

theorem InTime.beats {delay now : Int} {flight : Flight} (h : InTime delay now flight) :
    ∀ t ∈ beats flight, now ≤ t + delay := fun t ht => h t .beat (mem_beats.mp ht) (by decide)

/-- When the server last saw the client, or the client started. -/
def State.serverSeen (s : State) (start : Int) : Int := (s.entry.map Prod.snd).getD start

structure Inv (T : Timing) (start : Int) (s : State) : Prop where
  beaten : s.beaten = true → s.now - s.sent ≤ T.interval
  swept : s.swept = true → ∀ sent seen, s.entry = some (sent, seen) → s.now - sent ≤ T.interval
  started : start ≤ s.sent ∧ s.sent ≤ s.now ∧ start ≤ s.seen
  /-- Until it is asked, the server has nothing to go by. -/
  early : s.requested = false → s.now ≤ start + T.setup
  asked : s.entry = none → s.requested = true →
    ∃ t, (t, .request) ∈ s.up ∧ t ≤ start + T.setup
  led : s.entry = none → Led s.up
  intime : InTime T.delay s.now s.up
  up : Beacon (T.interval + 1) T.delay 0 s.now s.sent (s.serverSeen start) (beats s.up)
  unknown : s.entry = none → beats s.down = []
  down : ∀ sent seen, s.entry = some (sent, seen) → s.stopped = false →
    Beacon (T.interval + 1) T.delay (T.setup + T.delay) s.now sent s.seen (beats s.down)

namespace Inv

variable {T : Timing} {start : Int} {s s' : State}

theorem init (T : Timing) (start : Int) : Inv T start (.init start) := by
  have hsetup := T.setup_nonneg
  have hinterval := T.interval_nonneg
  have hrefl := Int.le_refl start
  refine ⟨by simp [State.init], by simp [State.init], ⟨hrefl, hrefl, hrefl⟩, ?_, by simp [State.init],
    fun _ => trivial, by simp [InTime, State.init], ?_, fun _ => rfl, by simp [State.init]⟩
  · intro _
    change start ≤ start + T.setup
    omega
  · refine ⟨⟨start, Int.le_of_eq (Int.add_zero start).symm, hrefl⟩, ?_, ?_, ?_⟩
    · simp [State.init, beats]
    · simp [State.init, beats]
    · change start ≤ start + (T.interval + 1)
      omega

/-- The server will know the client soon after the start. -/
theorem unknown_now (h : Inv T start s) (hnone : s.entry = none) :
    s.now ≤ start + T.setup + T.delay := by
  have hdelay := T.delay_nonneg
  cases hreq : s.requested with
  | false =>
      have hearly := h.early hreq
      omega
  | true =>
      obtain ⟨t, ht, hle⟩ := h.asked hnone hreq
      have hdue := h.intime t .request ht (by decide)
      omega

theorem tick (h : Inv T start s) (hbeaten : s.beaten = true) (hswept : s.swept = true)
    (hup : InTime T.delay (s.now + 1) s.up)
    (hdown : s.stopped = false → InTime T.delay (s.now + 1) s.down)
    (hsetup : s.requested = true ∨ s.now + 1 ≤ start + T.setup) :
    Inv T start { s with now := s.now + 1, beaten := false, swept := false } := by
  have hclient := h.beaten hbeaten
  have hstarted := h.started
  refine ⟨fun h => by simp at h, fun h => by simp at h, ⟨hstarted.1, ?_, hstarted.2.2⟩, ?_, h.asked,
    h.led, hup, h.up.tick ?_ hup.beats, h.unknown, ?_⟩
  · change s.sent ≤ s.now + 1
    omega
  · intro hreq
    rcases hsetup with hset | hset
    · exact absurd (hset.symm.trans hreq) (by decide)
    · exact hset
  · omega
  · intro sent seen hentry hstopped
    have hserver := h.swept hswept sent seen hentry
    exact (h.down sent seen hentry hstopped).tick (by omega) (hdown hstopped).beats

/-- A beat that is due is not the first the server hears of the client. -/
theorem clientBeats (h : Inv T start s) (hdue : T.interval < s.now - s.sent) :
    Inv T start { s with sent := s.now, up := s.up ++ [(s.now, .beat)], beaten := true } := by
  have hinterval := T.interval_nonneg
  have hdelay := T.delay_nonneg
  have hsetup := T.setup_le
  have hstarted := h.started
  have hrequested : s.requested = true := by
    by_contra hreq
    have hearly := h.early (by simpa using hreq)
    omega
  refine ⟨?_, h.swept, ⟨?_, Int.le_refl _, hstarted.2.2⟩, h.early, ?_, ?_, h.intime.snoc hdelay _, ?_,
    h.unknown, h.down⟩
  · intro _
    change s.now - s.now ≤ T.interval
    omega
  · change start ≤ s.now
    omega
  · intro hnone hreq
    obtain ⟨t, ht, hle⟩ := h.asked hnone hreq
    exact ⟨t, List.mem_append_left _ ht, hle⟩
  · intro hnone
    obtain ⟨t, ht, _⟩ := h.asked hnone hrequested
    exact (h.led hnone).snoc _ (.inr ⟨t, ht⟩)
  · have hsend := h.up.send (by omega) hdelay
    rw [beats_append]
    exact hsend

theorem clientRequests (h : Inv T start s) (hfirst : s.requested = false) :
    Inv T start { s with up := s.up ++ [(s.now, .request)], requested := true } := by
  have hne : Kind.request ≠ .beat := by decide
  refine ⟨h.beaten, h.swept, h.started, fun h => by simp at h, ?_,
    fun hnone => (h.led hnone).snoc _ (.inl hne),
    h.intime.snoc T.delay_nonneg _, ?_, h.unknown, h.down⟩
  · intro _ _
    exact ⟨s.now, List.mem_append_right _ List.mem_cons_self, h.early hfirst⟩
  · rw [beats_snoc_of_ne s.now hne]
    exact h.up

theorem clientSends (h : Inv T start s) :
    Inv T start { s with up := s.up ++ [(s.now, .other)] } := by
  have hne : Kind.other ≠ .beat := by decide
  refine ⟨h.beaten, h.swept, h.started, h.early, ?_, fun hnone => (h.led hnone).snoc _ (.inl hne),
    h.intime.snoc T.delay_nonneg _, ?_, h.unknown, h.down⟩
  · intro hnone hreq
    obtain ⟨t, ht, hle⟩ := h.asked hnone hreq
    exact ⟨t, List.mem_append_left _ ht, hle⟩
  · rw [beats_snoc_of_ne s.now hne]
    exact h.up

theorem clientSees (h : Inv T start s) {t : Int} {k : Kind} {rest : Flight}
    (hdown : s.down = (t, k) :: rest) :
    Inv T start { s with down := rest, seen := if k = .beat then s.now else s.seen } := by
  have hstarted := h.started
  by_cases hk : k = .beat
  · subst hk
    have hbeats : beats s.down = t :: beats rest := by rw [hdown, beats_cons_beat]
    have hslack : 0 ≤ T.setup + T.delay := Int.add_nonneg T.setup_nonneg T.delay_nonneg
    refine ⟨h.beaten, h.swept, ⟨hstarted.1, hstarted.2.1, ?_⟩, h.early, h.asked, h.led, h.intime,
      h.up, ?_, ?_⟩
    · change start ≤ s.now
      omega
    · intro hnone
      have hnil := h.unknown hnone
      rw [hbeats] at hnil
      cases hnil
    · intro sent seen hentry hstopped
      have hbeacon := h.down sent seen hentry hstopped
      rw [hbeats] at hbeacon
      exact hbeacon.see hslack
  · have hbeats : beats s.down = beats rest := by rw [hdown, beats_cons_of_ne t hk]
    rw [if_neg hk]
    refine ⟨h.beaten, h.swept, hstarted, h.early, h.asked, h.led, h.intime, h.up, ?_, ?_⟩
    · intro hnone
      exact hbeats.symm.trans (h.unknown hnone)
    · intro sent seen hentry hstopped
      have hbeacon := h.down sent seen hentry hstopped
      rw [hbeats] at hbeacon
      exact hbeacon

theorem serverBeats (h : Inv T start s) {sent seen : Int} (hentry : s.entry = some (sent, seen)) :
    Inv T start
      { s with entry := some (s.now, seen), down := s.down ++ [(s.now, .beat)] } := by
  have hinterval := T.interval_nonneg
  have hseen : s.serverSeen start = seen := by rw [State.serverSeen, hentry]; rfl
  refine ⟨h.beaten, ?_, h.started, h.early, nofun, nofun, h.intime, ?_,
    nofun, ?_⟩
  · intro _ sent' seen' he
    obtain ⟨rfl, _⟩ := Prod.mk.inj (Option.some.inj he)
    change s.now - s.now ≤ T.interval
    omega
  · have hup := h.up
    rw [hseen] at hup
    exact hup
  · intro sent' seen' he hstopped
    obtain ⟨rfl, _⟩ := Prod.mk.inj (Option.some.inj he)
    rw [beats_append]
    exact (h.down sent seen hentry hstopped).send (by omega) T.delay_nonneg

theorem serverSends (h : Inv T start s) {k : Kind} (hk : k ≠ .beat) :
    Inv T start { s with down := s.down ++ [(s.now, k)] } := by
  have hbeats := beats_snoc_of_ne s.now hk s.down
  refine ⟨h.beaten, h.swept, h.started, h.early, h.asked, h.led, h.intime, h.up, ?_, ?_⟩
  · intro hnone
    exact hbeats.trans (h.unknown hnone)
  · intro sent seen hentry hstopped
    rw [hbeats]
    exact h.down sent seen hentry hstopped

theorem serverGrants (h : Inv T start s) {t : Int} {rest : Flight}
    (hup : s.up = (t, .request) :: rest) (hnone : s.entry = none) :
    Inv T start { s with up := rest, entry := some (s.now, s.now) } := by
  have hinterval := T.interval_nonneg
  have hstarted := h.started
  have hnow := h.unknown_now hnone
  have hintime := h.intime
  have hbeats : beats s.up = beats rest := by rw [hup, beats_cons_of_ne t (by decide)]
  rw [hup] at hintime
  refine ⟨h.beaten, ?_, hstarted, h.early, nofun, nofun, hintime.tail, ?_,
    nofun, ?_⟩
  · intro _ sent seen he
    obtain ⟨rfl, _⟩ := Prod.mk.inj (Option.some.inj he)
    change s.now - s.now ≤ T.interval
    omega
  · have hseen : s.serverSeen start = start := by rw [State.serverSeen, hnone]; rfl
    have hbeacon := h.up
    rw [hseen, hbeats] at hbeacon
    have hlate : start ≤ s.now := Int.le_trans hstarted.1 hstarted.2.1
    exact hbeacon.mono hlate
  · intro sent seen he _
    obtain ⟨rfl, _⟩ := Prod.mk.inj (Option.some.inj he)
    have hnil : beats s.down = [] := h.unknown hnone
    rw [hnil]
    refine ⟨⟨s.now, ?_, Int.le_refl _⟩, by simp, by simp, ?_⟩
    · change s.now ≤ s.seen + (T.setup + T.delay)
      omega
    · change s.now ≤ s.now + (T.interval + 1)
      omega

theorem serverSees (h : Inv T start s) {t : Int} {k : Kind} {rest : Flight}
    (hup : s.up = (t, k) :: rest) (hk : k ≠ .request) :
    Inv T start { s with
      up := rest
      entry := if k = .beat then s.entry.map fun e => (e.1, s.now) else s.entry } := by
  have hintime := h.intime
  have hled := h.led
  have hasked := h.asked
  rw [hup] at hintime hled hasked
  have hmem : ∀ u, (u, Kind.request) ∈ (t, k) :: rest → (u, Kind.request) ∈ rest := by
    intro u hu
    rcases List.mem_cons.mp hu with he | hu
    · exact absurd (Prod.mk.inj he).2.symm hk
    · exact hu
  cases k with
  | request => exact absurd rfl hk
  | beat =>
      have hbeats : beats s.up = t :: beats rest := by rw [hup, beats_cons_beat]
      cases hentry : s.entry with
      | none => exact (hled hentry).elim
      | some e =>
          refine ⟨h.beaten, ?_, h.started, h.early, nofun, nofun, hintime.tail,
            ?_, nofun, ?_⟩
          · intro hswept sent seen he
            obtain ⟨rfl, _⟩ := Prod.mk.inj (Option.some.inj he)
            exact h.swept hswept e.1 e.2 hentry
          · have hbeacon := h.up
            rw [hbeats] at hbeacon
            exact hbeacon.see (Int.le_refl 0)
          · intro sent seen he hstopped
            obtain ⟨rfl, _⟩ := Prod.mk.inj (Option.some.inj he)
            exact h.down e.1 e.2 hentry hstopped
  | other =>
      have hbeats : beats s.up = beats rest := by rw [hup, beats_cons_of_ne t (by decide)]
      refine ⟨h.beaten, h.swept, h.started, h.early, ?_, hled, hintime.tail, ?_, h.unknown, h.down⟩
      · intro hnone hreq
        obtain ⟨u, hu, hle⟩ := hasked hnone hreq
        exact ⟨u, hmem u hu, hle⟩
      · have hbeacon := h.up
        rw [hbeats] at hbeacon
        exact hbeacon

theorem step (h : Inv T start s) (hs : Step T start s s') : Inv T start s' := by
  cases hs with
  | tick hbeaten hswept hup hdown hsetup => exact h.tick hbeaten hswept hup hdown hsetup
  | clientBeats hdue => exact h.clientBeats hdue
  | clientRests hrest => exact { h with beaten := fun _ => hrest }
  | clientRequests hfirst => exact h.clientRequests hfirst
  | clientSends => exact h.clientSends
  | clientSees t k rest hdown => exact h.clientSees hdown
  | clientStops => exact { h with down := fun _ _ _ hstopped => by cases hstopped }
  | serverBeats sent seen hentry hdue => exact h.serverBeats hentry
  | serverRests hrest => exact { h with swept := fun _ => hrest }
  | serverSends k hk => exact h.serverSends hk
  | serverGrants t rest hup hnone => exact h.serverGrants hup hnone
  | serverSees t k rest hup hk => exact h.serverSees hup hk

theorem steps (h : Inv T start s) (hs : Steps T start s s') : Inv T start s' := by
  induction hs with
  | refl => exact h
  | tail _ hstep ih => exact ih.step hstep

/-! ## Nobody is given up -/

/-- The server has seen the client not long ago. -/
theorem server_age (h : Inv T start s) {sent seen : Int} (hentry : s.entry = some (sent, seen)) :
    s.now - seen ≤ T.interval + 1 + T.delay := by
  have hage := h.up.age T.delay_nonneg
  have hseen : s.serverSeen start = seen := by rw [State.serverSeen, hentry]; rfl
  omega

/-- A client that goes on has seen the server not long ago, or started not long ago. -/
theorem client_age (h : Inv T start s) (hstopped : s.stopped = false) :
    s.now - s.seen ≤ T.setup + T.delay + (T.interval + 1) + T.delay := by
  have hinterval := T.interval_nonneg
  have hdelay := T.delay_nonneg
  cases hentry : s.entry with
  | none =>
      have hnow := h.unknown_now hentry
      have hstarted := h.started
      omega
  | some e =>
      have hage := (h.down e.1 e.2 hentry hstopped).age hdelay
      omega

end Inv

end Keepalive
