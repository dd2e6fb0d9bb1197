import Mathlib.Data.List.TakeWhile
import Over6.Client.ReadIp
import Over6.Server.State

/-! # Addresses of the threaded server

Addresses are kept as text. What stands behind the last point of one is its number,
the index into `status` and the key of `connections`.
-/

namespace Over6.Threaded

open Client (isSpace)
open Server (ascii)

/-- `std::stoi`; without a number, or with one that no `int` holds, it throws. -/
def stoi (text : List UInt8) : Option Int :=
  let ptr := text.dropWhile isSpace
  let negative := ptr.head? == some 45
  let ptr := if negative || ptr.head? == some 43 then ptr.drop 1 else ptr
  let digits := ptr.takeWhile Decimal.isDigit
  let v : Int := if negative then -Decimal.value digits else Decimal.value digits
  if digits = [] ∨ v < -2 ^ 31 ∨ 2 ^ 31 ≤ v then none else some v

/-- `getline` leaves the last field in `s`. -/
def getIpNum (addr : List UInt8) : Option Int := stoi ((addr.splitOn 46).getLastD [])

def mkAddr (str : List UInt8) : List UInt8 :=
  List.intercalate [46] ((str.take 4).map fun b => Decimal.text b.toNat)

/-- The address that `getFreeIP` makes of a number. -/
def ipText (i : Nat) : List UInt8 := ascii "10.128.0." ++ Decimal.text i

example : getIpNum (ascii "10.128.0.37") = some 37 ∧ getIpNum [] = none := by decide +kernel

/-! ## The number of an address -/

theorem stoi_digits {text : List UInt8} (hne : text ≠ [])
    (hdigits : ∀ b ∈ text, Decimal.isDigit b = true) (hlt : Decimal.value text < 2 ^ 31) :
    stoi text = some (Decimal.value text : Int) := by
  cases text with
  | nil => exact absurd rfl hne
  | cons b bs =>
      have hb : Decimal.isDigit b = true := hdigits b List.mem_cons_self
      obtain ⟨hlo, hhi⟩ : 48 ≤ b.toNat ∧ b.toNat ≤ 57 := by
        simpa [Decimal.isDigit, UInt8.le_iff_toNat_le] using hb
      have hspace : isSpace b = false := by
        simp only [isSpace, Bool.or_eq_false_iff, beq_eq_false_iff_ne, ne_eq, Bool.and_eq_false_iff,
          decide_eq_false_iff_not, UInt8.le_iff_toNat_le]
        refine ⟨fun h => ?_, .inr ?_⟩
        · rw [h] at hlo
          exact absurd hlo (by decide)
        · have hthirteen : (13 : UInt8).toNat = 13 := rfl
          omega
      have hminus : (b == 45) = false := by
        rw [beq_eq_false_iff_ne]
        rintro rfl
        exact absurd hlo (by decide)
      have hplus : (b == 43) = false := by
        rw [beq_eq_false_iff_ne]
        rintro rfl
        exact absurd hlo (by decide)
      have hall : (b :: bs).takeWhile Decimal.isDigit = b :: bs :=
        List.takeWhile_eq_self_iff.mpr hdigits
      have hstart : (b :: bs).dropWhile isSpace = b :: bs :=
        List.dropWhile_cons_of_neg (by simp [hspace])
      have hrange : ¬ ((b :: bs) = [] ∨ (Decimal.value (b :: bs) : Int) < -2 ^ 31 ∨
          2 ^ 31 ≤ (Decimal.value (b :: bs) : Int)) := by
        rintro (hnil | hneg | hbig)
        · cases hnil
        · omega
        · omega
      simp only [stoi, hstart, List.head?_cons, Option.some_beq_some, hminus, hplus, Bool.or_self,
        Bool.false_eq_true, if_false, hall]
      exact if_neg hrange

theorem getIpNum_nil : getIpNum [] = none := by decide

/-- The number of a text whose last field is a printed one. -/
theorem getIpNum_append {front : List UInt8} {i : Nat} (hi : i < 2 ^ 31) :
    getIpNum (front ++ 46 :: Decimal.text i) = some (i : Int) := by
  have hlast : ((front ++ 46 :: Decimal.text i).splitOn 46).getLastD [] = Decimal.text i := by
    have hfield : (Decimal.text i).splitOn 46 = [Decimal.text i] :=
      List.splitOn_eq_singleton (Decimal.dot_notMem_text i)
    rw [List.splitOn_append_cons_self, hfield]
    simp
  rw [getIpNum, hlast, stoi_digits (Decimal.text_ne_nil i) fun b hb => Decimal.text_isDigit hb,
    Decimal.value_text]
  rw [Decimal.value_text]
  exact hi

theorem getIpNum_ipText {i : Nat} (hi : i < 2 ^ 31) : getIpNum (ipText i) = some (i : Int) := by
  have hpoint : ipText i = ascii "10.128.0" ++ 46 :: Decimal.text i := by
    have hprefix : ascii "10.128.0." = ascii "10.128.0" ++ [46] := by decide
    rw [ipText, hprefix, List.append_assoc, List.singleton_append]
  rw [hpoint, getIpNum_append hi]

theorem ipText_ne_nil (i : Nat) : ipText i ≠ [] := by
  intro h
  exact absurd (List.append_eq_nil_iff.mp h).1 (by decide)

theorem ipText_injective {m n : Nat} (h : ipText m = ipText n) : m = n :=
  Decimal.text_injective (List.append_cancel_left h)

theorem number_ipText {n : Nat} {num : Int} (hn : n < 1024) (h : getIpNum (ipText n) = some num) :
    num = n := by
  rw [getIpNum_ipText (by omega)] at h
  exact (Option.some.inj h).symm

/-- The last byte of an address is its number. -/
theorem getIpNum_mkAddr (a b c d : UInt8) :
    getIpNum (mkAddr [a, b, c, d]) = some (d.toNat : Int) := by
  have hsplit : mkAddr [a, b, c, d] =
      (Decimal.text a.toNat ++ 46 :: (Decimal.text b.toNat ++ 46 :: Decimal.text c.toNat)) ++
        46 :: Decimal.text d.toNat := by
    simp [mkAddr, List.intercalate]
  have hd : d.toNat < 256 := d.toNat_lt
  rw [hsplit, getIpNum_append (by omega)]

end Over6.Threaded
