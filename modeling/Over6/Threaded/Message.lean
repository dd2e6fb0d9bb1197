import Over6.Lib.Memory
import Over6.Threaded.Address

/-! # Messages of the threaded server

A `Msg` is a header and a block of data in one piece of memory. `sendMessage` writes
the header and, for two types, as much of the data as the length field says.
-/

namespace Over6.Threaded

open MachineInt
open Server (ascii)

/-- The header lies in the first five cells, `data` behind it. -/
abbrev Msg := CellMemory UInt8

abbrev sizeofData : Nat := 4096

namespace Msg

def header (m : Msg) : Message := Message.ofBytes (m.load 0 sizeofMessage)

def bodySize (m : Msg) : Int := int32 (m.header.length - 5)

def fill (m : Msg) (h : Message) (data : List UInt8) : Msg :=
  (m.store 0 h.bytes).store sizeofMessage data

/-- `memset(message.data, 0, sizeof(message.data))`. -/
def clearData (m : Msg) : Msg :=
  fun a => if sizeofMessage ≤ a ∧ a < sizeofMessage + sizeofData then 0 else m a

end Msg

/-! ## The messages the threads put together -/

/-- `heartBeatMsg`; its data is never looked at. -/
def heartBeatMsg : Msg := Msg.fill (fun _ => 0) ⟨0, msgHeartbeat⟩ []

def queuedMsg (len : Int) (type : UInt8) (data : List UInt8) : Msg :=
  Msg.fill (fun _ => 0) ⟨len, type⟩ (data.take (len - 5).toNat)

def dataMsg (buf : List UInt8) : Msg := queuedMsg (buf.length + 5) msgDataRsb buf

def ipInfoStr (ipv4Address : List UInt8) : List UInt8 :=
  ipv4Address ++ ascii " 0.0.0.0 202.38.120.242 8.8.8.8 202.106.0.20"

/-- The reply built in `message`. The copy of `message.length` bytes takes some from `behind` the NUL
of the string as well. -/
def replyMsg (m : Msg) (ipv4Address behind : List UInt8) : Msg :=
  let str := ipInfoStr ipv4Address
  m.clearData.fill ⟨str.length + 5, msgIpRsb⟩ ((str ++ 0 :: behind).take (str.length + 5) ++ [0])

/-! ## `sendMessage` -/

/-- What a system call returns: nothing for now (zero, or -1 with `EAGAIN`), an error, or something. -/
inductive Answer where
  | again
  | error
  | bytes (bs : List UInt8)
  | count (n : Nat)
deriving DecidableEq, Repr

/-- Where a call of `sendMessage` is: at the mutex, or at a `write` after `totalLength` bytes. -/
inductive SendPoint where
  | lock
  | header (totalLength : Nat)
  | data (totalLength : Nat)
deriving DecidableEq, Repr

/-- The next point of `sendMessage`, or the end of it. -/
inductive Sent where
  | more (p : SendPoint)
  | done
  | failed
deriving DecidableEq, Repr

/-- `sendMessage` goes by the type, and then by the length. -/
def Msg.CarriesData (m : Msg) : Prop :=
  (m.header.type = msgIpRsb ∨ m.header.type = msgDataRsb) ∧ 0 < m.bodySize

instance (m : Msg) : Decidable m.CarriesData := inferInstanceAs (Decidable (_ ∧ _))

namespace SendPoint

def offer (m : Msg) : SendPoint → List UInt8
  | lock => []
  | header total => m.load total (sizeofMessage - total)
  | data total => m.load (sizeofMessage + total) (m.bodySize - total).toNat

/-- `totalLength` grows by `n`, and the loop conditions are checked. -/
def advance (m : Msg) (n : Nat) : SendPoint → Sent
  | lock => .more (header 0)
  | header total =>
      if total + n < sizeofMessage then .more (header (total + n))
      else if m.CarriesData then .more (data 0)
      else .done
  | data total => if (total + n : Nat) < m.bodySize then .more (data (total + n)) else .done

end SendPoint

/-- One `write`: the bytes it takes, and where `sendMessage` goes on. -/
def writeOnce (m : Msg) (p : SendPoint) : Answer → Option (List UInt8 × Sent)
  | .again => some ([], .more p)
  | .error => some ([], .failed)
  | .count n =>
      if 0 < n ∧ n ≤ (p.offer m).length then some ((p.offer m).take n, p.advance m n) else none
  | .bytes _ => none

/-- What a call of `sendMessage` that returns 0 has written, if its writes get these answers. -/
def written (m : Msg) : SendPoint → List Answer → Option (List UInt8)
  | _, [] => none
  | p, a :: answers =>
      match writeOnce m p a with
      | some (bs, .more p') => (written m p' answers).map (bs ++ ·)
      | some (bs, .done) => if answers = [] then some bs else none
      | _ => none

/-! ## What gets on the wire -/

/-- The header, and the data for the types that carry some. -/
def emitted (m : Msg) : List UInt8 :=
  m.load 0 sizeofMessage ++ if m.CarriesData then m.load sizeofMessage m.bodySize.toNat else []

namespace SendPoint

def Running (m : Msg) : SendPoint → Prop
  | lock => False
  | header total => total < sizeofMessage
  | data total => m.CarriesData ∧ total < m.bodySize

def rest (m : Msg) : SendPoint → List UInt8
  | lock => emitted m
  | header total =>
      m.load total (sizeofMessage - total) ++
        if m.CarriesData then m.load sizeofMessage m.bodySize.toNat else []
  | data total => m.load (sizeofMessage + total) (m.bodySize - total).toNat

end SendPoint

/-- A write has taken `bs`: what is left is what was left before, less `bs`. -/
inductive Wrote (m : Msg) (p : SendPoint) (bs : List UInt8) : Sent → Prop
  | more {p' : SendPoint} (running : p'.Running m) (rest : p.rest m = bs ++ p'.rest m) :
      Wrote m p bs (.more p')
  | done (rest : p.rest m = bs) : Wrote m p bs .done
  | failed (nothing : bs = []) : Wrote m p bs .failed

theorem wrote_header {m : Msg} {total n : Nat} (htotal : total < sizeofMessage)
    (hn : n ≤ sizeofMessage - total) :
    Wrote m (.header total) (m.load total n) (SendPoint.advance m n (.header total)) := by
  have hcut : m.load total (sizeofMessage - total) =
      m.load total n ++ m.load (total + n) (sizeofMessage - (total + n)) := by
    rw [← CellMemory.load_add]
    congr 1
    omega
  simp only [SendPoint.advance]
  split
  · refine .more ‹_› ?_
    rw [SendPoint.rest, SendPoint.rest, hcut, List.append_assoc]
  · have hend : sizeofMessage - (total + n) = 0 := by omega
    rw [hend, CellMemory.load_zero, List.append_nil] at hcut
    split
    · rename_i hcarries
      refine .more ⟨hcarries, hcarries.2⟩ ?_
      rw [SendPoint.rest, SendPoint.rest, hcut, if_pos hcarries, Nat.add_zero, Nat.cast_zero,
        Int.sub_zero]
    · rename_i hcarries
      refine .done ?_
      rw [SendPoint.rest, hcut, if_neg hcarries, List.append_nil]

theorem wrote_data {m : Msg} {total n : Nat} (hcarries : m.CarriesData)
    (hn : (total + n : Nat) ≤ m.bodySize) :
    Wrote m (.data total) (m.load (sizeofMessage + total) n)
      (SendPoint.advance m n (.data total)) := by
  have hcut : m.load (sizeofMessage + total) (m.bodySize - total).toNat =
      m.load (sizeofMessage + total) n ++
        m.load (sizeofMessage + (total + n)) (m.bodySize - (total + n : Nat)).toNat := by
    have hsize : (m.bodySize - total).toNat = n + (m.bodySize - (total + n : Nat)).toNat := by omega
    rw [hsize, CellMemory.load_add, Nat.add_assoc]
  simp only [SendPoint.advance]
  split
  · refine .more ⟨hcarries, ‹_›⟩ ?_
    rw [SendPoint.rest, SendPoint.rest]
    exact hcut
  · have hend : (m.bodySize - (total + n : Nat)).toNat = 0 := by omega
    rw [hend, CellMemory.load_zero, List.append_nil] at hcut
    exact .done hcut

theorem writeOnce_wrote {m : Msg} {p : SendPoint} {a : Answer} {bs : List UInt8} {sent : Sent}
    (hp : p.Running m) (h : writeOnce m p a = some (bs, sent)) : Wrote m p bs sent := by
  cases a with
  | again =>
      cases h
      exact .more hp rfl
  | error =>
      cases h
      exact .failed rfl
  | bytes _ => cases h
  | count n =>
      unfold writeOnce at h
      simp only at h
      split at h
      · rename_i hn
        obtain ⟨rfl, rfl⟩ := Prod.mk.inj (Option.some.inj h)
        cases p with
        | lock => exact hp.elim
        | header total =>
            have hfit : n ≤ sizeofMessage - total := by
              simpa only [SendPoint.offer, CellMemory.load_length] using hn.2
            have hbytes : (SendPoint.offer m (.header total)).take n = m.load total n :=
              CellMemory.load_take m hfit
            rw [hbytes]
            exact wrote_header hp hfit
        | data total =>
            have hfit : n ≤ (m.bodySize - total).toNat := by
              simpa only [SendPoint.offer, CellMemory.load_length] using hn.2
            have hbytes : (SendPoint.offer m (.data total)).take n =
                m.load (sizeofMessage + total) n := CellMemory.load_take m hfit
            have hroom := hp.2
            rw [hbytes]
            exact wrote_data hp.1 (by omega)
      · cases h

/-- A call that returns 0 has written what it had to, however the kernel took it. -/
theorem written_eq {m : Msg} {p : SendPoint} {answers : List Answer} {bs : List UInt8}
    (hp : p.Running m) (h : written m p answers = some bs) : bs = p.rest m := by
  induction answers generalizing p bs with
  | nil => cases h
  | cons a answers ih =>
      unfold written at h
      split at h
      · rename_i new p' hwrite
        obtain ⟨later, hlater, rfl⟩ := Option.map_eq_some_iff.mp h
        cases writeOnce_wrote hp hwrite with
        | more hrunning hrest => rw [hrest, ih hrunning hlater]
      · rename_i new hwrite
        split at h
        · obtain rfl := Option.some.inj h
          cases writeOnce_wrote hp hwrite with
          | done hrest => exact hrest.symm
        · cases h
      · cases h

theorem written_emitted {m : Msg} {answers : List Answer} {bs : List UInt8}
    (h : written m (.header 0) answers = some bs) : bs = emitted m :=
  written_eq (p := .header 0) (show 0 < sizeofMessage by decide) h

/-- A kernel that takes everything at once gets a call to its end. -/
theorem written_whole (m : Msg) : ∃ answers, written m (.header 0) answers = some (emitted m) := by
  have hheader : writeOnce m (.header 0) (.count sizeofMessage) =
      some (m.load 0 sizeofMessage, if m.CarriesData then .more (.data 0) else .done) := by
    simp [writeOnce, SendPoint.offer, SendPoint.advance, CellMemory.load_take]
  by_cases hcarries : m.CarriesData
  · obtain ⟨n, hn⟩ : ∃ n : Nat, m.bodySize = n := Int.eq_ofNat_of_zero_le (Int.le_of_lt hcarries.2)
    have hpos : 0 < n := by
      have hbody := hcarries.2
      omega
    have hdata : writeOnce m (.data 0) (.count n) = some (m.load sizeofMessage n, .done) := by
      simp [writeOnce, SendPoint.offer, SendPoint.advance, CellMemory.load_take, hn, hpos]
    refine ⟨[.count sizeofMessage, .count n], ?_⟩
    rw [if_pos hcarries] at hheader
    simp only [written, hheader, hdata, if_true, Option.map_some]
    rw [emitted, if_pos hcarries, hn, Int.toNat_natCast]
  · refine ⟨[.count sizeofMessage], ?_⟩
    rw [if_neg hcarries] at hheader
    simp only [written, hheader, if_true]
    rw [emitted, if_neg hcarries, List.append_nil]

end Over6.Threaded
