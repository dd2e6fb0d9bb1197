import Over6.Server.Pass

/-! # The receive buffers

What a buffer holds, what a read and a consumed frame make of it, and the bounds
its fill keeps along every run.
-/

namespace Over6.Server

open MachineInt BoundedLoop EventRun

namespace BufferEntry

variable {e : BufferEntry}

def content (e : BufferEntry) : List UInt8 := e.buf.load 0 e.used.toNat

theorem content_length (e : BufferEntry) : e.content.length = e.used.toNat := by
  simp [content]

def Bounded (e : BufferEntry) : Prop := 0 ≤ e.used ∧ e.used ≤ bufSize

theorem Bounded.length (h : e.Bounded) : (e.content.length : Int) = e.used := by
  have hlo := h.1
  rw [content_length]
  omega

theorem Bounded.size (h : e.Bounded) : (sizeT 64 e.used : Int) = e.used := by
  obtain ⟨hlo, hhi⟩ := h
  have hcap : (bufSize : Int) = 65536 := rfl
  exact sizeT_64 hlo (by omega)

theorem Bounded.room (h : e.Bounded) : (e.room : Int) = bufSize - e.used := by
  obtain ⟨hlo, hhi⟩ := h
  have hcap : (bufSize : Int) = 65536 := rfl
  exact sizeT_64 (by omega) (by omega)

/-- The header is that of the bytes held. -/
theorem header_eq (hhead : sizeofMessage ≤ e.content.length) :
    e.header = Message.ofBytes e.content := by
  have hle : sizeofMessage ≤ e.used.toNat := by rwa [content_length] at hhead
  rw [header, ← Message.ofBytes_take e.content, content, CellMemory.load_take _ hle]

theorem complete_iff (h : e.Bounded) :
    e.Complete ↔ sizeofMessage ≤ e.content.length ∧
      (Message.ofBytes e.content).length ≤ e.content.length := by
  have hlen := h.length
  have hsize := h.size
  unfold Complete
  constructor
  · rintro ⟨hhead, hbody⟩
    have hhead' : sizeofMessage ≤ e.content.length := by omega
    rw [header_eq hhead'] at hbody
    exact ⟨hhead', by omega⟩
  · rintro ⟨hhead, hbody⟩
    rw [header_eq hhead]
    exact ⟨by omega, by omega⟩

/-! ## Reading and consuming -/

def append (e : BufferEntry) (bs : List UInt8) : BufferEntry where
  buf := e.buf.store e.used.toNat bs
  used := e.used + bs.length

theorem append_content (h : e.Bounded) (bs : List UInt8) :
    (e.append bs).content = e.content ++ bs := e.buf.load_fill_store h.1 bs

theorem Bounded.append (h : e.Bounded) {bs : List UInt8} (hfits : bs.length ≤ e.room) :
    (e.append bs).Bounded := by
  have hroom := h.room
  have hlo := h.1
  exact ⟨by simp only [BufferEntry.append]; omega, by simp only [BufferEntry.append]; omega⟩

def behind (e : BufferEntry) (msglen : Int) : BufferEntry where
  buf := e.buf.move 0 msglen.toNat (sizeT 64 (int32 (e.used - msglen)))
  used := e.used - msglen

theorem Bounded.behind (h : e.Bounded) {msglen : Int} (hlo : 0 ≤ msglen) (hhi : msglen ≤ e.used) :
    (e.behind msglen).Bounded := by
  obtain ⟨_, hcap⟩ := h
  exact ⟨by simp only [BufferEntry.behind]; omega, by simp only [BufferEntry.behind]; omega⟩

/-- What is left in range of the move. -/
theorem behind_size (h : e.Bounded) {msglen : Int} (hlo : 0 ≤ msglen) (hhi : msglen ≤ e.used) :
    (sizeT 64 (int32 (e.used - msglen)) : Int) = e.used - msglen := by
  have hcap : (bufSize : Int) = 65536 := rfl
  have hused := h.2
  rw [int32_of_range (by omega) (by omega)]
  exact sizeT_64 (by omega) (by omega)

theorem behind_content (h : e.Bounded) {msglen : Int} (hlo : 0 ≤ msglen) (hhi : msglen ≤ e.used) :
    (e.behind msglen).content = e.content.drop msglen.toNat :=
  e.buf.load_fill_move hlo hhi (behind_size h hlo hhi)

end BufferEntry

/-! ## Bounds along a run -/

theorem readClient_bufs (fd : Fd) (bs : List UInt8) (s : State) :
    (readClient fd bs s).bufs = Function.update s.bufs fd ((s.bufs fd).append bs) := rfl

theorem State.consumed_bufs (s : State) (fd : Fd) (msg : Message) :
    (s.consumed fd msg).bufs = Function.update s.bufs fd ((s.bufs fd).behind msg.length) := rfl

def State.Bounded (s : State) : Prop := ∀ fd, (s.bufs fd).Bounded

namespace State.Bounded

variable {s s' : State}

theorem initState (fds : Descriptors) : (initState fds).Bounded := by
  intro fd
  exact ⟨Int.le_refl 0, Int.natCast_nonneg bufSize⟩

theorem of_bufs (h : s.Bounded) (hbufs : s'.bufs = s.bufs) : s'.Bounded := by
  intro fd
  rw [hbufs]
  exact h fd

theorem update (h : s.Bounded) {fd : Fd} {e : BufferEntry} (he : e.Bounded)
    (hbufs : s'.bufs = Function.update s.bufs fd e) : s'.Bounded := by
  intro x
  rw [hbufs]
  by_cases hx : x = fd
  · subst hx
    rw [Function.update_self]
    exact he
  · rw [Function.update_of_ne hx]
    exact h x

theorem readClient (h : s.Bounded) {fd : Fd} {bs : List UInt8}
    (hfits : bs.length ≤ (s.bufs fd).room) : (readClient fd bs s).Bounded :=
  h.update ((h fd).append hfits) (readClient_bufs fd bs s)

/-- A frame passed with a length that is not negative leaves a fill behind. -/
theorem passed (h : s.Bounded) {env : FrameEnv} {fd : Fd} {t : State}
    (hcomplete : (s.bufs fd).Complete)
    (hframe : Dispatch env fd (s.bufs fd).header s (.next t))
    (hlen : 0 ≤ (s.bufs fd).header.length) :
    (t.consumed fd (s.bufs fd).header).Bounded := by
  have hbufs : t.bufs = s.bufs := hframe.bufs
  have hbehind := (h fd).behind hlen hcomplete.2
  apply h.update hbehind
  rw [State.consumed_bufs, hbufs]

theorem parse (h : s.Bounded) {env : FrameEnv} {fd : Fd} {flow : Flow State}
    (hp : Parse env fd s flow) : flow.state.Bounded := by
  cases hp with
  | waits => exact h
  | left hcomplete hframe => exact h.of_bufs hframe.bufs
  | passed hcomplete hframe hlen => exact h.passed hcomplete hframe hlen
  | @overran _ t s' hframe hmove =>
      have hbufs : s'.bufs = t.bufs := by
        unfold consume at hmove
        simp only at hmove
        split at hmove
        · cases hmove
        · cases hmove
          rfl
      exact h.of_bufs (hbufs.trans hframe.bufs)

theorem route (h : s.Bounded) {flow : Flow State} (hr : Route s flow) : flow.state.Bounded := by
  cases hr with
  | drained => exact h
  | nobody => exact h
  | header => exact h.of_bufs rfl
  | packet => exact h.of_bufs rfl
  | routed => exact h.update ⟨Int.le_refl 0, Int.natCast_nonneg bufSize⟩ rfl

theorem pass (h : s.Bounded) (hp : Pass s s') : s'.Bounded := by
  cases hp with
  | accept fd added _ =>
      have hempty : BufferEntry.Bounded { s.bufs fd with used := 0 } :=
        ⟨Int.le_refl 0, Int.natCast_nonneg bufSize⟩
      exact h.update hempty rfl
  | hangup fd _ => exact h.of_bufs (s.freed_spec fd).2.1
  | read fd _ bs hfits => exact h.readClient hfits
  | parsed env fd _ hp => exact h.parse hp
  | parsedLast env fd _ hp => exact h.parse hp
  | readTun bs hfits => exact h.update ((h s.tunFd).append hfits) rfl
  | routed hr => exact h.route hr
  | routedLast hr => exact h.route hr
  | swept env i hs =>
      cases hs with
      | skipped => exact h
      | spared => exact h.of_bufs (s.swept_bufs env i)
      | stuck => exact h.of_bufs (s.swept_bufs env i)
      | evicted =>
          refine h.of_bufs ?_
          rw [((s.swept env i).freed_spec _).2.1, s.swept_bufs env i]

theorem passes (h : s.Bounded) (hp : Passes s s') : s'.Bounded := by
  induction hp with
  | refl => exact h
  | tail _ hp ih => exact ih.pass hp

theorem runFrom {fds : Descriptors} {es : List Event} (h : runFrom fds es = some s) :
    s.Bounded := (initState fds).passes (runFrom_passes h)

/-- The fills are fills at every pass of a call. -/
theorem processClient (h : s.Bounded) {fd : Fd} {r : ReadResult}
    (hfits : r.Fits (s.bufs fd).room) (env : Nat → FrameEnv) (removed : Bool) (fuel : Nat) :
    (processClient r env removed fuel fd s).state.Bounded := by
  have hended : (freeClientFd removed fd s).Bounded := by
    rcases freeClientFd_cases removed fd s with hf | ⟨_, hf⟩
    · rwa [hf]
    · rw [hf]
      exact h.of_bufs (s.freed_spec fd).2.1
  cases r with
  | error => exact hended
  | bytes bs =>
      cases bs with
      | nil => exact hended
      | cons b bs =>
          exact iterate_invariant State.Bounded
            (fun k t ht => ht.parse (parseOnce_parse (env k) fd t)) fuel 0 _ (h.readClient hfits)

end State.Bounded

end Over6.Server
