import Over6.Threaded.Requests

/-! # What the clients send to the tun

`message.length` counts the header and `message.data` does not hold it, so that the string
made of `message.length` bytes of data is longer than the data that came in.
-/

namespace Over6.Threaded

open MachineInt EventRun Journal

/-! ## Strings for the tun -/

def Act.push (i : Nat) : Act → List (List UInt8)
  | pushed j bs => if j = i then [bs] else []
  | _ => []

/-- The strings that connection `i` has pushed to the tun. -/
def uploads (i : Nat) (log : List Act) : List (List UInt8) := gather (Act.push i) log

namespace Request

def Uploads (r : Request) : Prop := r.message.type = msgDataReq ∧ 0 ≤ r.message.length

instance (r : Request) : Decidable r.Uploads := inferInstanceAs (Decidable (_ ∧ _))

/-- The frames that clients send. -/
def Upstream (r : Request) : Prop :=
  r.message.type = msgIpReq ∨ r.message.type = msgHeartbeat ∨
    r.message.type = msgDataReq ∧ 5 ≤ r.message.length ∧ r.message.length ≤ 4101

theorem Upstream.length_ge {r : Request} (h : r.Upstream) (htype : r.message.type = msgDataReq) :
    5 ≤ r.message.length := by
  rcases h with hreq | hbeat | ⟨_, hlo, _⟩
  · exact absurd (htype.symm.trans hreq) (by decide)
  · exact absurd (htype.symm.trans hbeat) (by decide)
  · exact hlo

/-- The data are five bytes less than the length says. -/
theorem data_length {r : Request} (htype : r.message.type = msgDataReq) (hlo : 5 ≤ r.message.length) :
    (r.data.length : Int) = r.message.length - 5 := by
  have hhi : r.message.length < 2 ^ 31 := (Message.length_range r.header).2
  have hwhole : r.data.length = awaited r.message := r.whole
  rw [hwhole, awaited, if_pos htype, int32_of_range] <;> omega

end Request

/-- The string begins with the data and has the length in the header. -/
structure Surplus (r : Request) (bs : List UInt8) : Prop where
  data : r.data <+: bs
  length : (bs.length : Int) = r.message.length

/-- No header announces more data than its length says. -/
theorem awaited_le {m : Message} (hlo : 0 ≤ m.length) (hhi : m.length < 2 ^ 31) :
    awaited m ≤ m.length.toNat := by
  unfold awaited
  split
  · rw [int32_of_range] <;> omega
  · exact Nat.zero_le _

theorem surplus_of_message (m : Msg) (hlength : 0 ≤ m.header.length) :
    Surplus m.request (m.load sizeofMessage m.header.length.toNat) := by
  have hle := awaited_le hlength (Message.length_range (m.load 0 sizeofMessage)).2
  constructor
  · change m.load sizeofMessage (awaited m.header) <+: _
    rw [← CellMemory.load_take m hle]
    exact List.take_prefix _ _
  · rw [CellMemory.load_length, Msg.request_message]
    exact Int.toNat_of_nonneg hlength

def Uploaded (i : Nat) (seen : List Request) (s : State) : Prop :=
  List.Forall₂ Surplus (seen.filter Request.Uploads) (uploads i s.log)

section Steps

variable {s s' : State} {i : Nat} {c c' : Conn} {a : Answer} {seen : List Request}

theorem uploads_alien {act : Act} (h : act.Alien i) (log : List Act) :
    uploads i (act :: log) = uploads i log := by
  have hnothing : Act.push i act = [] := by
    cases act with
    | pushed j bs => exact if_neg h
    | _ => rfl
  rw [uploads, gather_cons, hnothing, List.append_nil]
  rfl

theorem Takes.uploaded (h : Takes s i c a c' s') (hseen : Uploaded i seen s) :
    Uploaded i (seen ++ c.taken) s' := by
  have hnone : c.reading ≠ .dispatch → uploads i s'.log = uploads i s.log →
      Uploaded i (seen ++ c.taken) s' := by
    intro hpoint hlog
    rw [Uploaded, taken_of_ne hpoint, List.append_nil, hlog]
    exact hseen
  have hskip : c.reading = .dispatch → ¬ c.message.request.Uploads →
      uploads i s'.log = uploads i s.log → Uploaded i (seen ++ c.taken) s' := by
    intro hpoint hno hlog
    rw [Uploaded, taken_dispatch hpoint, List.filter_append, List.filter_cons_of_neg (by simpa using hno),
      List.filter_nil, List.append_nil, hlog]
    exact hseen
  cases h with
  | begins hpoint => exact hnone (by simp [hpoint]) rfl
  | stops hpoint => exact hnone (by simp [hpoint]) rfl
  | waits hpoint =>
      refine hnone ?_ (List.append_nil _)
      rcases hpoint with ⟨_, hpoint⟩ | ⟨_, hpoint⟩ <;> simp [hpoint]
  | reads hpoint => exact hnone (by simp [hpoint]) (List.append_nil _)
  | completes hpoint => exact hnone (by simp [hpoint]) (List.append_nil _)
  | breaks hpoint => exact hnone (by simp [hpoint]) (List.append_nil _)
  | stores hpoint => exact hnone (by simp [hpoint]) (List.append_nil _)
  | overflows hpoint => exact hnone (by simp [hpoint]) (List.append_nil _)
  | loses hpoint => exact hnone (by simp [hpoint]) (List.append_nil _)
  | asks hpoint htype =>
      refine hskip hpoint (fun huploads => ?_) rfl
      exact absurd (huploads.1.symm.trans htype) (by decide)
  | resets hpoint htype =>
      refine hskip hpoint (fun huploads => ?_) rfl
      exact absurd (huploads.1.symm.trans htype) (by decide)
  | pushes hpoint htype hlength =>
      have huploads : c.message.request.Uploads := ⟨htype, hlength⟩
      rw [Uploaded, taken_dispatch hpoint, List.filter_append,
        List.filter_cons_of_pos (by simpa using huploads), List.filter_nil]
      have hpush : uploads i (.pushed i (c.message.load sizeofMessage c.message.header.length.toNat) ::
          s.log) = uploads i s.log ++ [c.message.load sizeofMessage c.message.header.length.toNat] := by
        rw [uploads, gather_cons, Act.push, if_pos rfl]
        rfl
      have hrel : List.Forall₂ Surplus (seen.filter Request.Uploads ++ [c.message.request])
          (uploads i s.log ++ [c.message.load sizeofMessage c.message.header.length.toNat]) :=
        List.rel_append hseen (.cons (surplus_of_message c.message hlength) .nil)
      rw [← hpush] at hrel
      exact hrel
  | throws hpoint htype hlength =>
      refine hskip hpoint (fun huploads => ?_) rfl
      exact absurd huploads.2 (Int.not_le.mpr hlength)
  | skips hpoint htype => exact hskip hpoint (fun huploads => htype.2.2 huploads.1) rfl

theorem uploads_of_alien (h : s'.log = s.log ∨ ∃ act, s'.log = act :: s.log ∧ act.Alien i) :
    uploads i s'.log = uploads i s.log := by
  rcases h with hlog | ⟨act, hlog, halien⟩
  · rw [hlog]
  · rw [hlog, uploads_alien halien]

theorem uploaded_next {e : Event} (h : Uploaded i seen s) (hstep : next s e = some s') :
    Uploaded i (seen ++ taken i s e) s' := by
  cases next_reader hstep i with
  | takes hevent hc _ htakes =>
      subst hevent
      rw [taken_of_read hc]
      exact htakes.uploaded h
  | serves hevent hc hbusy hserves =>
      subst hevent
      rw [taken_of_read hc, (hserves.held hbusy).2.2.1, List.append_nil, Uploaded,
        uploads_of_alien hserves.log.alien]
      exact h
  | elsewhere hother haway =>
      rw [taken_of_other hother, List.append_nil, Uploaded, uploads_of_alien haway.log]
      exact h

end Steps

/-! ## Runs -/

theorem uploaded_of_run {files : List (Option File)} {es : List Event} {s : State}
    (hrun : run next (State.start files) es = some s) (i : Nat) :
    Uploaded i (outputs next (taken i) (State.start files) es) s := by
  have hstart : Uploaded i [] (State.start files) := .nil
  have huploaded := run_outputs (taken i) (fun _ _ => False) (Uploaded i)
    (fun _ _ _ _ h _ hstep => uploaded_next h hstep) hstart hrun (fun _ _ _ _ _ _ => not_false)
  rwa [List.nil_append] at huploaded

/-- What is held of a request that is not complete is less than a request. -/
theorem short_of_held {c : Conn} (hwaiting : c.Waiting) (hpoint : c.reading ≠ .dispatch) :
    requestCode.Short (c.message.load 0 c.held) := by
  have hlt : c.held < sizeofMessage + awaited c.message.header := by
    unfold Conn.Waiting at hwaiting
    unfold Conn.held
    cases hreading : c.reading with
    | header total =>
        rw [hreading] at hwaiting
        exact Nat.lt_of_lt_of_le hwaiting (Nat.le_add_right _ _)
    | body total =>
        rw [hreading] at hwaiting
        obtain ⟨htype, hlt⟩ := hwaiting
        rw [Msg.bodySize] at hlt
        rw [awaited, if_pos htype]
        simp only
        omega
    | dispatch => exact absurd hreading hpoint
    | _ => exact Nat.add_pos_left (by decide) _
  refine ⟨c.message.request, trivial, ?_, fun hall => ?_⟩
  · change _ <+: c.message.request.bytes
    rw [Msg.request_bytes, ← CellMemory.load_take c.message (Nat.le_of_lt hlt)]
    exact List.take_prefix _ _
  · have hlen := congrArg List.length hall
    change _ = c.message.request.bytes.length at hlen
    rw [CellMemory.load_length, Msg.request_bytes, CellMemory.load_length] at hlen
    omega

/-- However the frames of a client come in pieces: the strings that its `readThread` pushes to the tun
are the data of its type-102 frames exactly if there is no such frame. -/
theorem payloads_pushed_iff (files : List (Option File)) (es : List Event) (s : State)
    (hrun : run next (State.start files) es = some s) (hup : s.crash = none) (i : Nat) (c : Conn)
    (hc : s.conns[i]? = some c) (hfine : ¬ Refused i s.log) (hpoint : c.reading ≠ .dispatch)
    (requests : List Request) (hupstream : ∀ r ∈ requests, r.Upstream) (part : List UInt8)
    (hpart : requestCode.Short part)
    (hreceived : received i s.log = requestCode.stream requests ++ part) :
    uploads i s.log = (requests.filter (·.message.type = msgDataReq)).map Request.data ↔
      ∀ r ∈ requests, r.message.type ≠ msgDataReq := by
  have hreading := reading_of_run hrun i
  have huploaded := uploaded_of_run hrun i
  have hseen : outputs next (taken i) (State.start files) es = requests := by
    refine requestCode.split_unique (fun _ _ => trivial) (fun _ _ => trivial)
      (short_of_held (hreading.waiting c hc) hpoint) hpart ?_
    rw [← hreading.held c hc hup hfine, hreceived]
  rw [hseen, Uploaded] at huploaded
  have hdata : requests.filter Request.Uploads = requests.filter (·.message.type = msgDataReq) := by
    refine List.filter_congr fun r hr => ?_
    refine decide_eq_decide.mpr (and_iff_left_of_imp fun htype => ?_)
    have hlo := (hupstream r hr).length_ge htype
    omega
  rw [hdata] at huploaded
  constructor
  · intro hexact r hr htype
    rw [hexact] at huploaded
    have hmem : r ∈ requests.filter (·.message.type = msgDataReq) :=
      List.mem_filter.mpr ⟨hr, by simpa using htype⟩
    rw [List.forall₂_map_right_iff, List.forall₂_same] at huploaded
    -- The string is as long as the frame, and the data are five bytes less.
    have hlen := (huploaded r hmem).length
    rw [Request.data_length htype ((hupstream r hr).length_ge htype)] at hlen
    omega
  · intro hnone
    have hempty : requests.filter (·.message.type = msgDataReq) = [] := by
      rw [List.filter_eq_nil_iff]
      exact fun r hr => by simpa using hnone r hr
    rw [hempty] at huploaded ⊢
    exact List.forall₂_nil_left_iff.mp huploaded

def keepalive : Request := ⟨[5, 0, 0, 0, 104], [], rfl, by decide⟩

def addressRequest : Request := ⟨[5, 0, 0, 0, 100], [], rfl, by decide⟩

def shortPacket : Request := ⟨[25, 0, 0, 0, 102], packetToTwo, rfl, by decide⟩

/-- A keepalive, an IP request and another keepalive in pieces, and the first bytes of a packet. -/
def requestsInPieces : List Event :=
  [.accept blank, .read 0 .again, .read 0 (.bytes [5, 0, 0]), .read 0 .again,
    .read 0 (.bytes [0, 104]), .read 0 .again, .read 0 .again, .read 0 (.bytes [5]), .read 0 .again,
    .read 0 (.bytes [0, 0, 0, 100]), .read 0 .again, .read 0 .again, .read 0 (.bytes [0, 0, 0, 0])] ++
  takeReply 0 54 ++
  [.read 0 .again, .read 0 .again, .read 0 .again, .read 0 (.bytes [5, 0, 0, 0]), .read 0 .again,
    .read 0 (.bytes [104]), .read 0 .again, .read 0 .again, .read 0 (.bytes [25, 0]),
    .read 0 (.bytes [0, 0, 102]), .read 0 .again, .read 0 (.bytes (packetToTwo.take 7))]

theorem payloads_pushed_requestsInPieces :
    ∃ s, run next (State.start opened) requestsInPieces = some s ∧
      received 0 s.log = requestCode.stream [keepalive, addressRequest, keepalive] ++
        (shortPacket.header ++ packetToTwo.take 7) ∧
      s.conns.map Conn.ipv4Address = [ipText 2] ∧ uploads 0 s.log = [] := by
  have hview : (run next (State.start opened) requestsInPieces).map
      (fun s => (received 0 s.log, decide (Refused 0 s.log), s.crash, s.conns.map Conn.reading)) =
        some (requestCode.stream [keepalive, addressRequest, keepalive] ++
          (shortPacket.header ++ packetToTwo.take 7), false, none, [.body 7]) := by decide +kernel
  have haddress : (run next (State.start opened) requestsInPieces).map
      (fun s => s.conns.map Conn.ipv4Address) = some [ipText 2] := by decide +kernel
  obtain ⟨s, hs, hpair⟩ := Option.map_eq_some_iff.mp hview
  simp only [Prod.mk.injEq, decide_eq_false_iff_not] at hpair
  obtain ⟨hreceived, hfine, hup, hpoints⟩ := hpair
  rw [hs, Option.map_some, Option.some.injEq] at haddress
  obtain ⟨c, hconns, hpoint⟩ := List.map_eq_singleton_iff.mp hpoints
  have hshort : requestCode.Short (shortPacket.header ++ packetToTwo.take 7) :=
    ⟨shortPacket, trivial, by decide +kernel, by decide +kernel⟩
  have htypes : ∀ r ∈ [keepalive, addressRequest, keepalive],
      r.message.type = msgHeartbeat ∨ r.message.type = msgIpReq := by decide +kernel
  refine ⟨s, hs, hreceived, haddress, ?_⟩
  have hpushed := (payloads_pushed_iff opened requestsInPieces s hs hup 0 c (by rw [hconns]; rfl)
    hfine (by rw [hpoint]; nofun) [keepalive, addressRequest, keepalive] ?_ _ hshort hreceived).mpr ?_
  · rw [hpushed]
    decide +kernel
  · intro r hr
    rcases htypes r hr with htype | htype
    · exact .inr (.inl htype)
    · exact .inl htype
  · intro r hr
    rcases htypes r hr with htype | htype <;> rw [htype] <;> decide

def longPacket : Request := ⟨[35, 0, 0, 0, 102], List.replicate 30 7, rfl, by decide⟩

def twoPackets : List Event :=
  [.accept blank, .read 0 .again, .read 0 (.bytes longPacket.header),
    .read 0 (.bytes longPacket.data), .read 0 .again, .read 0 .again,
    .read 0 (.bytes shortPacket.header), .read 0 (.bytes shortPacket.data), .read 0 .again]

theorem stale_bytes_pushed :
    ∃ s, run next (State.start opened) twoPackets = some s ∧
      received 0 s.log = requestCode.stream [longPacket, shortPacket] ∧
      uploads 0 s.log = [longPacket.data ++ [0, 0, 0, 0, 0], shortPacket.data ++ [7, 7, 7, 7, 7]] ∧
      uploads 0 s.log ≠ [longPacket, shortPacket].map Request.data := by
  have hview : (run next (State.start opened) twoPackets).map
      (fun s => (received 0 s.log, uploads 0 s.log)) =
        some (requestCode.stream [longPacket, shortPacket],
          [longPacket.data ++ [0, 0, 0, 0, 0], shortPacket.data ++ [7, 7, 7, 7, 7]]) := by
    decide +kernel
  obtain ⟨s, hs, hpair⟩ := Option.map_eq_some_iff.mp hview
  obtain ⟨hreceived, huploads⟩ := Prod.mk.inj hpair
  refine ⟨s, hs, hreceived, huploads, ?_⟩
  rw [huploads]
  decide

end Over6.Threaded
