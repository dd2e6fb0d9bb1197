import Mathlib.Algebra.Group.Int.Defs
import Mathlib.Algebra.Group.Nat.Defs
import Mathlib.Data.List.Basic
import Mathlib.Data.Nat.Basic

/-! # Fixed-width integers and their bytes

Little-endian byte strings as numbers, and the two conversions C makes between
signed and unsigned integers of a given width.
-/

namespace MachineInt

def leNat : List UInt8 → Nat
  | [] => 0
  | b :: bs => b.toNat + 256 * leNat bs

/-- The `width` low bytes of a number, lowest first. -/
def leBytes : Nat → Nat → List UInt8
  | 0, _ => []
  | width + 1, n => UInt8.ofNat n :: leBytes width (n / 256)

@[simp] theorem leBytes_length (width n : Nat) : (leBytes width n).length = width := by
  induction width generalizing n with
  | zero => rfl
  | succ width ih => simp [leBytes, ih]

theorem leNat_leBytes (width n : Nat) : leNat (leBytes width n) = n % 256 ^ width := by
  induction width generalizing n with
  | zero => simp [leBytes, leNat, Nat.mod_one]
  | succ width ih =>
      have hlow : (UInt8.ofNat n).toNat = n % 256 := UInt8.toNat_ofNat'
      rw [leBytes, leNat, ih, hlow, Nat.pow_succ, Nat.mul_comm (256 ^ width), Nat.mod_mul]

theorem leNat_leBytes_of_lt {width n : Nat} (h : n < 256 ^ width) :
    leNat (leBytes width n) = n := by
  rw [leNat_leBytes, Nat.mod_eq_of_lt h]

theorem leNat_lt (bs : List UInt8) : leNat bs < 256 ^ bs.length := by
  induction bs with
  | nil => decide
  | cons b bs ih =>
      have hb := b.toNat_lt
      rw [leNat, List.length_cons, Nat.pow_succ]
      omega

theorem leBytes_leNat (bs : List UInt8) : leBytes bs.length (leNat bs) = bs := by
  induction bs with
  | nil => rfl
  | cons b bs ih =>
      have hb := b.toNat_lt
      have hlow : UInt8.ofNat (b.toNat + 256 * leNat bs) = b := by
        apply UInt8.toNat_inj.mp
        rw [UInt8.toNat_ofNat']
        omega
      have hhigh : (b.toNat + 256 * leNat bs) / 256 = leNat bs := by omega
      rw [leNat, List.length_cons, leBytes, hlow, hhigh, ih]

/-- Byte strings of one length are their values. -/
theorem leNat_injective {as bs : List UInt8} (hlen : as.length = bs.length)
    (h : leNat as = leNat bs) : as = bs := by
  rw [← leBytes_leNat as, ← leBytes_leNat bs, hlen, h]

/-! ## Conversions -/

/-- The 32-bit signed integer with the low 32 bits of `x`. -/
def int32 (x : Int) : Int := x.bmod (2 ^ 32)

/-- The unsigned integer of `bits` bits a signed value is converted to. -/
def sizeT (bits : Nat) (x : Int) : Nat := (x % 2 ^ bits).toNat

/-- The 64-bit signed integer with the low 64 bits of `x`. -/
def int64 (x : Int) : Int := x.bmod (2 ^ 64)

theorem int32_of_range {x : Int} (hlo : -2 ^ 31 ≤ x) (hhi : x < 2 ^ 31) : int32 x = x := by
  rw [int32, Int.bmod_def]
  omega

theorem int32_range (x : Int) : -2 ^ 31 ≤ int32 x ∧ int32 x < 2 ^ 31 := by
  rw [int32, Int.bmod_def]
  omega

theorem int64_of_range {x : Int} (hlo : -2 ^ 63 ≤ x) (hhi : x < 2 ^ 63) : int64 x = x := by
  rw [int64, Int.bmod_def]
  omega

theorem int32_add (x y : Int) : int32 (int32 x + y) = int32 (x + y) := Int.bmod_add_bmod

theorem int32_mul (x y : Int) : int32 (int32 x * y) = int32 (x * y) := Int.bmod_mul_bmod

theorem sizeT_of_range {bits : Nat} {x : Int} (hlo : 0 ≤ x) (hhi : x < 2 ^ bits) :
    sizeT bits x = x.toNat := by
  rw [sizeT, Int.emod_eq_of_lt hlo hhi]

theorem sizeT_64 {x : Int} (hlo : 0 ≤ x) (hhi : x < 2 ^ 63) : (sizeT 64 x : Int) = x := by
  rw [sizeT_of_range hlo (by omega)]
  omega

theorem sizeT_32 {x : Int} (hlo : 0 ≤ x) (hhi : x < 2 ^ 32) : (sizeT 32 x : Int) = x := by
  rw [sizeT_of_range hlo (by omega)]
  omega

end MachineInt
