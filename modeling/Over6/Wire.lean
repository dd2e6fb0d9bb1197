import Over6.Lib.MachineInt
import Over6.Lib.PrefixCode

/-! # The 4over6 wire format

Both programs exchange packed `{ int length; char type; }` headers followed by
`length - 5` bytes of payload; the length counts the header.
-/

namespace Over6

open MachineInt

/-! ## Headers -/

/-- `sizeof(message)`: the struct is packed. -/
abbrev sizeofMessage : Nat := 5

abbrev msgIpReq : UInt8 := 100
abbrev msgIpRsb : UInt8 := 101
abbrev msgDataReq : UInt8 := 102
abbrev msgDataRsb : UInt8 := 103
abbrev msgHeartbeat : UInt8 := 104

/-- The packed header both programs read and write. -/
structure Message where
  length : Int
  type : UInt8
deriving DecidableEq, Repr

def Message.bytes (m : Message) : List UInt8 := leBytes 4 (sizeT 32 m.length) ++ [m.type]

/-- `*(message *)buf`: any five bytes are a header. -/
def Message.ofBytes (bs : List UInt8) : Message where
  length := int32 (leNat (bs.take 4))
  type := bs.getD 4 0

@[simp] theorem Message.bytes_length (m : Message) : m.bytes.length = sizeofMessage := by
  simp [Message.bytes]

theorem Message.length_range (bs : List UInt8) :
    -2 ^ 31 ≤ (Message.ofBytes bs).length ∧ (Message.ofBytes bs).length < 2 ^ 31 := by
  simp only [Message.ofBytes]
  exact int32_range _

/-- Only the first five bytes count. -/
theorem Message.ofBytes_take (bs : List UInt8) :
    Message.ofBytes (bs.take sizeofMessage) = Message.ofBytes bs := by
  have hlength : (bs.take sizeofMessage).take 4 = bs.take 4 := by rw [List.take_take]; rfl
  have htype : (bs.take sizeofMessage).getD 4 0 = bs.getD 4 0 := by
    simp [List.getD_eq_getElem?_getD]
  rw [Message.ofBytes, Message.ofBytes, hlength, htype]

/-- A header whose length fits an `int` is read back as it was written. -/
theorem Message.ofBytes_bytes (m : Message) (rest : List UInt8)
    (hlo : 0 ≤ m.length) (hhi : m.length < 2 ^ 31) : Message.ofBytes (m.bytes ++ rest) = m := by
  have hsize : sizeT 32 m.length = m.length.toNat := sizeT_of_range hlo (by omega)
  have hlen : (leBytes 4 m.length.toNat).length = 4 := leBytes_length 4 _
  have hnat : leNat (leBytes 4 m.length.toNat) = m.length.toNat :=
    leNat_leBytes_of_lt (by omega)
  have htake : (m.bytes ++ rest).take 4 = leBytes 4 m.length.toNat := by
    rw [Message.bytes, hsize, List.append_assoc, List.take_left' hlen]
  have htype : (m.bytes ++ rest).getD 4 0 = m.type := by
    simp [Message.bytes, hsize, List.getD_eq_getElem?_getD]
  have hback : int32 m.length.toNat = m.length := by
    rw [int32_of_range] <;> omega
  rw [Message.ofBytes, htake, htype, hnat, hback]

/-! ## Frames -/

/-- A header together with the payload it announces. -/
structure Frame where
  type : UInt8
  payload : List UInt8
deriving DecidableEq, Repr

namespace Frame

/-- The size a frame has on the wire and in its own length field. -/
def size (f : Frame) : Nat := f.payload.length + sizeofMessage

def message (f : Frame) : Message := ⟨f.size, f.type⟩

def bytes (f : Frame) : List UInt8 := f.message.bytes ++ f.payload

/-- The length field of the frame is a positive `int`. -/
def Valid (f : Frame) : Prop := f.size < 2 ^ 31

instance (f : Frame) : Decidable f.Valid := inferInstanceAs (Decidable (_ < _))

@[simp] theorem bytes_length (f : Frame) : f.bytes.length = f.size := by
  simp [bytes, size, Nat.add_comm]

theorem size_ge (f : Frame) : sizeofMessage ≤ f.size := Nat.le_add_left _ _

theorem ofBytes_bytes {f : Frame} (hf : f.Valid) (rest : List UInt8) :
    Message.ofBytes (f.bytes ++ rest) = f.message := by
  rw [bytes, List.append_assoc]
  have h : f.size < 2 ^ 31 := hf
  have hlen : f.message.length = f.size := rfl
  exact Message.ofBytes_bytes _ _ (by omega) (by omega)

/-- The bytes behind the header of a complete frame. -/
theorem payload_of_bytes (f : Frame) (rest : List UInt8) :
    ((f.bytes ++ rest).drop sizeofMessage).take (f.size - sizeofMessage) = f.payload := by
  rw [bytes, List.append_assoc, List.drop_left' (Message.bytes_length _), size,
    Nat.add_sub_cancel, List.take_left]

end Frame

def uploads (frames : List Frame) : List (List UInt8) :=
  (frames.filter fun f => f.type == msgDataReq).map Frame.payload

theorem uploads_append (fs gs : List Frame) : uploads (fs ++ gs) = uploads fs ++ uploads gs := by
  simp [uploads]

/-- Two frames at the front of one stream are the same frame. -/
theorem Frame.bytes_separated (a b : Frame) (x y : List UInt8) (ha : a.Valid) (hb : b.Valid)
    (h : a.bytes ++ x = b.bytes ++ y) : a = b := by
  have hmsg : a.message = b.message := by
    rw [← Frame.ofBytes_bytes ha x, h, Frame.ofBytes_bytes hb y]
  have hlen : a.payload.length = b.payload.length := by
    have hl := congrArg Message.length hmsg
    simp only [Frame.message, Frame.size] at hl
    omega
  have htype : a.type = b.type := congrArg Message.type hmsg
  have htail : a.payload ++ x = b.payload ++ y := by
    rw [Frame.bytes, Frame.bytes, hmsg, List.append_assoc, List.append_assoc] at h
    exact List.append_cancel_left h
  have hpay : a.payload = b.payload := (List.append_inj htail hlen).1
  cases a
  cases b
  simp_all

/-- The frames of both programs, cut out of a byte stream by their length fields. -/
def frameCode : PrefixCode Frame UInt8 where
  encode := Frame.bytes
  Valid := Frame.Valid
  nonempty f h := by
    have hl := congrArg List.length h
    simp [Frame.size] at hl
  separated := Frame.bytes_separated

@[simp] theorem frameCode_encode (f : Frame) : frameCode.encode f = f.bytes := rfl

theorem frameCode_valid {f : Frame} : frameCode.Valid f ↔ f.Valid := Iff.rfl

/-- The header at the front of a long enough beginning of a stream. -/
theorem ofBytes_of_prefix {rest : List UInt8} {f : Frame} {tail : List Frame} (hf : f.Valid)
    (hp : rest <+: frameCode.stream (f :: tail)) (hlen : sizeofMessage ≤ rest.length) :
    Message.ofBytes (rest.take sizeofMessage) = f.message := by
  have hfront : rest.take sizeofMessage = f.message.bytes := by
    obtain ⟨more, hmore⟩ := hp
    have htake := congrArg (List.take sizeofMessage) hmore
    rw [List.take_append_of_le_length hlen, PrefixCode.stream_cons, frameCode_encode,
      Frame.bytes, List.append_assoc, List.take_left' (Message.bytes_length _)] at htake
    exact htake
  have hsize : f.size < 2 ^ 31 := hf
  have hmsg : f.message.length = f.size := rfl
  have h := Message.ofBytes_bytes f.message [] (by omega) (by omega)
  rwa [List.append_nil, ← hfront] at h

/-! ## A buffer on its way through a stream of frames -/

section Partway

variable {sent words : List Frame} {got held : List UInt8}

/-- A complete front frame is the next frame of the stream. -/
theorem front_of_partway (h : frameCode.Partway sent got words held)
    (hvalid : ∀ f ∈ sent, f.Valid) (hgot : got <+: frameCode.stream sent)
    (hlen : sizeofMessage ≤ held.length) (hbody : (Message.ofBytes held).length ≤ held.length) :
    ∃ f tail more, sent = words ++ f :: tail ∧ Message.ofBytes held = f.message ∧
      held = f.bytes ++ more := by
  obtain ⟨tail, hsplit, hpre⟩ := h.front hvalid hgot
  cases tail with
  | nil =>
      have hnil : held = [] := List.prefix_nil.mp hpre
      simp [hnil] at hlen
  | cons f tail =>
      have hf : f.Valid := hvalid f (by simp [hsplit])
      have hmsg := ofBytes_of_prefix hf hpre hlen
      rw [Message.ofBytes_take] at hmsg
      rw [hmsg] at hbody
      have hwhole : (frameCode.encode f).length ≤ held.length := by
        rw [frameCode_encode, Frame.bytes_length]
        exact Int.ofNat_le.mp hbody
      obtain ⟨more, hmore, _⟩ := frameCode.first_of_long hpre hwhole
      exact ⟨f, tail, more, hsplit, hmsg, hmore⟩

/-- A buffer without a complete front frame holds less than the next frame. -/
theorem settled_of_partway (h : frameCode.Partway sent got words held)
    (hvalid : ∀ f ∈ sent, f.Valid) (hgot : got <+: frameCode.stream sent)
    (hshort : ¬ (sizeofMessage ≤ held.length ∧ (Message.ofBytes held).length ≤ held.length)) :
    frameCode.Settled sent got words := by
  refine PrefixCode.Partway.settled _ h hvalid hgot ?_
  intro f tail hsplit
  by_cases hlt : held.length < f.size
  · rwa [frameCode_encode, Frame.bytes_length]
  · have hge := f.size_ge
    obtain ⟨tail', hsplit', hpre⟩ := h.front hvalid hgot
    have htail : tail' = f :: tail := List.append_cancel_left (hsplit'.symm.trans hsplit)
    rw [htail] at hpre
    have hmsg := ofBytes_of_prefix (hvalid f (by simp [hsplit])) hpre (by omega)
    rw [Message.ofBytes_take] at hmsg
    rw [hmsg] at hshort
    exact absurd ⟨by omega, Int.ofNat_le.mpr (Nat.le_of_not_lt hlt)⟩ hshort

end Partway

end Over6
