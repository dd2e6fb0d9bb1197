import Mathlib.Data.List.Basic
import Mathlib.Tactic.IntervalCases

/-! # Decimal text

Numbers as ASCII digits without leading zeros, and dotted quads of them.
-/

namespace Decimal

/-- The decimal digits of a number, lowest first; `fuel` bounds their count. -/
def digits : Nat → Nat → List Nat
  | 0, _ => []
  | fuel + 1, n => n % 10 :: if n < 10 then [] else digits fuel (n / 10)

/-- What `%d` prints for a natural number. -/
def text (n : Nat) : List UInt8 := ((digits (n + 1) n).map fun d => UInt8.ofNat (48 + d)).reverse

def value (bs : List UInt8) : Nat := bs.foldl (fun acc b => acc * 10 + (b.toNat - 48)) 0

def isDigit (b : UInt8) : Bool := 48 ≤ b && b ≤ 57

theorem digits_lt {fuel n d : Nat} (h : d ∈ digits fuel n) : d < 10 := by
  induction fuel generalizing n with
  | zero => simp [digits] at h
  | succ fuel ih =>
      simp only [digits, List.mem_cons] at h
      rcases h with rfl | h
      · omega
      · split at h
        · simp at h
        · exact ih h

theorem digits_length {k : Nat} (fuel : Nat) {n : Nat} (h : n < 10 ^ (k + 1)) :
    (digits fuel n).length ≤ k + 1 := by
  induction k generalizing fuel n with
  | zero =>
      cases fuel with
      | zero => simp [digits]
      | succ fuel =>
          rw [digits, if_pos (by omega)]
          exact Nat.le_refl 1
  | succ k ih =>
      cases fuel with
      | zero => simp [digits]
      | succ fuel =>
          have htenth : n / 10 < 10 ^ (k + 1) :=
            Nat.div_lt_of_lt_mul (by rwa [Nat.mul_comm, ← Nat.pow_succ])
          have hrest := ih fuel htenth
          rw [digits, List.length_cons]
          split
          · exact Nat.succ_le_succ (Nat.zero_le _)
          · exact Nat.succ_le_succ hrest

theorem isDigit_ofNat {d : Nat} (h : d < 10) : isDigit (UInt8.ofNat (48 + d)) = true := by
  interval_cases d <;> rfl

theorem toNat_ofNat_digit {d : Nat} (h : d < 10) : (UInt8.ofNat (48 + d)).toNat - 48 = d := by
  have hb : (UInt8.ofNat (48 + d)).toNat = (48 + d) % 256 := UInt8.toNat_ofNat'
  omega

theorem text_isDigit {n : Nat} {b : UInt8} (h : b ∈ text n) : isDigit b = true := by
  simp only [text, List.mem_reverse, List.mem_map] at h
  obtain ⟨d, hd, rfl⟩ := h
  exact isDigit_ofNat (digits_lt hd)

theorem text_ne_nil (n : Nat) : text n ≠ [] := by
  simp [text, digits]

theorem text_length {k n : Nat} (h : n < 10 ^ (k + 1)) : (text n).length ≤ k + 1 := by
  rw [text, List.length_reverse, List.length_map]
  exact digits_length (n + 1) h

theorem foldr_digits {fuel n : Nat} (h : n < fuel) :
    (digits fuel n).foldr (fun d acc => acc * 10 + d) 0 = n := by
  induction fuel generalizing n with
  | zero => omega
  | succ fuel ih =>
      simp only [digits, List.foldr_cons]
      split
      · simp
        omega
      · rw [ih (by omega)]
        omega

/-- Reading back what was printed. -/
theorem value_text (n : Nat) : value (text n) = n := by
  have hback : (digits (n + 1) n).map (fun d => (UInt8.ofNat (48 + d)).toNat - 48) =
      digits (n + 1) n := by
    conv => rhs; rw [← List.map_id (digits (n + 1) n)]
    exact List.map_congr_left fun d hd => toNat_ofNat_digit (digits_lt hd)
  have hfold : ((digits (n + 1) n).map fun d => (UInt8.ofNat (48 + d)).toNat - 48).foldr
      (fun d acc => acc * 10 + d) 0 = n := by
    rw [hback, foldr_digits (Nat.lt_succ_self n)]
  rw [List.foldr_map] at hfold
  rw [value, text, List.foldl_reverse, List.foldr_map]
  exact hfold

theorem text_injective {m n : Nat} (h : text m = text n) : m = n := by
  rw [← value_text m, ← value_text n, h]

/-- Printing a number of up to three digits starts with `0` only for zero itself. -/
theorem text_small {n : Nat} (h : n < 256) :
    (text n).length ≤ 3 ∧ ((text n).head? = some 48 → (text n).length = 1) := by
  revert n
  decide +kernel

/-! ## Dotted quads -/

/-- A number from 0 to 255 without superfluous zeros. -/
def octet (bs : List UInt8) : Option UInt8 :=
  if bs ≠ [] ∧ bs.all isDigit ∧ (bs.head? = some 48 → bs.length = 1) ∧ value bs ≤ 255 then
    some (UInt8.ofNat (value bs))
  else none

def dottedQuad (bs : List UInt8) : Option (List UInt8) :=
  match bs.splitOn 46 with
  | [a, b, c, d] => [a, b, c, d].mapM octet
  | _ => none

def quadText (a b c d : UInt8) : List UInt8 :=
  List.intercalate [46] [text a.toNat, text b.toNat, text c.toNat, text d.toNat]

theorem octet_text (a : UInt8) : octet (text a.toNat) = some a := by
  have ha : a.toNat < 256 := a.toNat_lt
  rw [octet, if_pos, value_text, UInt8.ofNat_toNat]
  refine ⟨text_ne_nil _, List.all_eq_true.mpr fun b hb => text_isDigit hb,
    (text_small ha).2, ?_⟩
  rw [value_text]
  omega

theorem dot_notMem_text (n : Nat) : (46 : UInt8) ∉ text n := by
  intro h
  exact absurd (text_isDigit h) (by decide)

theorem dottedQuad_quadText (a b c d : UInt8) :
    dottedQuad (quadText a b c d) = some [a, b, c, d] := by
  have hsplit : (quadText a b c d).splitOn 46 =
      [text a.toNat, text b.toNat, text c.toNat, text d.toNat] := by
    apply List.splitOn_intercalate
    · intro l hl
      simp only [List.mem_cons, List.not_mem_nil, or_false] at hl
      rcases hl with rfl | rfl | rfl | rfl <;> exact dot_notMem_text _
    · simp
  simp [dottedQuad, hsplit, octet_text]

end Decimal
