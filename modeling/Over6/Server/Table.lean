import Mathlib.Logic.Equiv.Fin.Basic
import Over6.Server.State

/-! # The user table

Searching, allocating and freeing entries. All three scan `users[]` from index 0
and stop at the first match; the index `-1` of a failed scan is `none`.
-/

namespace Over6.Server

open MachineInt

/-- `inet_pton(AF_INET, ...)`: the four octets in memory order. -/
def inetPton (text : List UInt8) : Option UInt32 :=
  (Decimal.dottedQuad text).map fun octets => UInt32.ofNat (leNat octets)

/-- The address `13.8.0.i` in memory order. -/
def slotAddr (i : Slot) : UInt32 := UInt32.ofNat (leNat [13, 8, 0, UInt8.ofNat i])

theorem slotText_eq (i : Slot) : slotText i = Decimal.quadText 13 8 0 (UInt8.ofNat i) := by
  have hi : (UInt8.ofNat (i : Nat)).toNat = (i : Nat) := UInt8.toNat_ofNat_of_lt i.isLt
  have hfront : addressPrefix ++ ascii "." =
      Decimal.text 13 ++ [46] ++ Decimal.text 8 ++ [46] ++ Decimal.text 0 ++ [46] := by
    decide
  rw [slotText, hfront, Decimal.quadText, hi]
  simp [List.intercalate]

/-- The text in an entry is that of its address. -/
theorem inetPton_slotText (i : Slot) : inetPton (slotText i) = some (slotAddr i) := by
  rw [inetPton, slotText_eq, Decimal.dottedQuad_quadText]
  rfl

theorem slotAddr_injective {i j : Slot} (h : slotAddr i = slotAddr j) : i = j := by
  have hi : (UInt8.ofNat (i : Nat)).toNat = (i : Nat) := UInt8.toNat_ofNat_of_lt i.isLt
  have hj : (UInt8.ofNat (j : Nat)).toNat = (j : Nat) := UInt8.toNat_ofNat_of_lt j.isLt
  have hnat := congrArg UInt32.toNat h
  simp only [slotAddr, leNat, UInt32.toNat_ofNat', hi, hj] at hnat
  have hlti := i.isLt
  have hltj := j.isLt
  apply Fin.ext
  have h13 : (13 : UInt8).toNat = 13 := rfl
  have h8 : (8 : UInt8).toNat = 8 := rfl
  have h0 : (0 : UInt8).toNat = 0 := rfl
  rw [h13, h8, h0] at hnat
  omega

/-! ## Searching -/

def searchUserInfoByAddr (users : Users) (addr : UInt32) : Option Slot :=
  Fin.find? fun i => (users i).v4addr == addr && !(users i).status

def searchUserInfoByFd (users : Users) (clientFd : Fd) : Option Slot :=
  Fin.find? fun i => (users i).fd == clientFd && !(users i).status

def Owns (users : Users) (fd : Fd) (i : Slot) : Prop :=
  (users i).fd = fd ∧ (users i).status = false

instance (users : Users) (fd : Fd) (i : Slot) : Decidable (Owns users fd i) :=
  inferInstanceAs (Decidable (_ ∧ _))

theorem searchUserInfoByFd_eq_some {users : Users} {fd : Fd} {i : Slot} :
    searchUserInfoByFd users fd = some i ↔ Owns users fd i ∧ ∀ j < i, ¬ Owns users fd j := by
  rw [searchUserInfoByFd, Fin.find?_eq_some_iff]
  simp [Owns]

theorem searchUserInfoByFd_eq_none {users : Users} {fd : Fd} :
    searchUserInfoByFd users fd = none ↔ ∀ i, ¬ Owns users fd i := by
  rw [searchUserInfoByFd, Fin.find?_eq_none_iff]
  simp [Owns]

theorem searchUserInfoByFd_isSome {users : Users} {fd : Fd} :
    (searchUserInfoByFd users fd).isSome = true ↔ ∃ i, Owns users fd i := by
  rw [searchUserInfoByFd, Fin.isSome_find?_iff]
  simp [Owns]

theorem searchUserInfoByAddr_eq_some {users : Users} {addr : UInt32} {i : Slot}
    (h : searchUserInfoByAddr users addr = some i) :
    (users i).v4addr = addr ∧ (users i).status = false := by
  rw [searchUserInfoByAddr, Fin.find?_eq_some_iff] at h
  simpa using h.1

theorem searchUserInfoByAddr_eq_none {users : Users} {addr : UInt32} :
    searchUserInfoByAddr users addr = none ↔
      ∀ i, (users i).v4addr = addr → (users i).status = true := by
  rw [searchUserInfoByAddr, Fin.find?_eq_none_iff]
  simp

theorem searchUserInfoByAddr_zero {users : Users} {addr : UInt32} (haddr : (users 0).v4addr = addr)
    (hstatus : (users 0).status = false) : searchUserInfoByAddr users addr = some 0 := by
  rw [searchUserInfoByAddr, Fin.find?_eq_some_iff]
  refine ⟨by simp [haddr, hstatus], ?_⟩
  intro j hj
  exact absurd hj (Fin.not_lt_zero j)

/-! ## Allocating -/

/-- The entry `allocate_ip_addr` leaves behind; it reads the clock twice. -/
def UserInfo.grant (u : UserInfo) (clientFd : Fd) (sentSecs recvedSecs : Int) : UserInfo :=
  { u with
    status := false
    fd := clientFd
    lastHeartbeatSentSecs := sentSecs
    lastHeartbeatRecvedSecs := recvedSecs
    v4addr := (inetPton u.addr).getD u.v4addr }

def firstFree (users : Users) : Option Slot := Fin.find? fun i => (users i).status

def allocateIpAddr (clientFd : Fd) (sentSecs recvedSecs : Int) (s : State) :
    State × Option Slot :=
  match firstFree s.users with
  | none => (s, none)
  | some i =>
      ((s.setUser i ((s.users i).grant clientFd sentSecs recvedSecs)).note clientFd
        (.granted i recvedSecs), some i)

/-- The descriptor owns an entry and there is another one for it. -/
def grantsTwice (users : Users) (clientFd : Fd) : Bool :=
  (searchUserInfoByFd users clientFd).isSome && (firstFree users).isSome

theorem firstFree_eq_some {users : Users} {i : Slot} :
    firstFree users = some i ↔ (users i).status = true ∧ ∀ j < i, (users j).status = false := by
  unfold firstFree
  exact Fin.find?_eq_some_iff

theorem firstFree_eq_none {users : Users} :
    firstFree users = none ↔ ∀ i, (users i).status = false := by
  unfold firstFree
  exact Fin.find?_eq_none_iff

-- Unfolded, a search is 256 nested tests.
attribute [irreducible] searchUserInfoByAddr searchUserInfoByFd firstFree

theorem grantsTwice_eq_true {users : Users} {fd : Fd} :
    grantsTwice users fd = true ↔ (∃ i, Owns users fd i) ∧ ∃ i, firstFree users = some i := by
  rw [grantsTwice, Bool.and_eq_true, searchUserInfoByFd_isSome, Option.isSome_iff_exists]

/-! ## Freeing -/

def UserInfo.release (u : UserInfo) : UserInfo := { u with status := true, fd := -1 }

def deallocateIpAddr (clientFd : Fd) (s : State) : State × Option Slot :=
  match searchUserInfoByFd s.users clientFd with
  | none => (s, none)
  | some i => ((s.setUser i (s.users i).release).note clientFd (.released i), some i)

def State.close (s : State) (fd : Fd) : State :=
  { s.note fd .closed with conn := Function.update s.conn fd none }

/-- `free_client_fd`; `removed` is the kernel's answer for a descriptor epoll does watch. -/
def freeClientFd (removed : Bool) (clientFd : Fd) (s : State) : State :=
  if s.watched clientFd && removed then
    let s := { s with watched := Function.update s.watched clientFd false }
    (deallocateIpAddr clientFd s).1.close clientFd
  else s

end Over6.Server
