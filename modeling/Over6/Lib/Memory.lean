import Mathlib.Data.List.Basic

/-! # Cells addressed from zero

A memory is the contents of all cells. Loading cuts a list out of it, storing and
moving put one back; the equations say what a load sees after either.
-/

abbrev CellMemory (α : Type) := Nat → α

namespace CellMemory

variable {α : Type}

def load (m : CellMemory α) (off n : Nat) : List α := (List.range n).map fun i => m (off + i)

def store (m : CellMemory α) (off : Nat) (xs : List α) : CellMemory α :=
  fun a => if off ≤ a then xs.getD (a - off) (m a) else m a

/-- Copy `n` cells, the source being read before the destination is written. -/
def move (m : CellMemory α) (dst src n : Nat) : CellMemory α :=
  m.store dst (m.load src n)

@[simp] theorem load_zero (m : CellMemory α) (off : Nat) : m.load off 0 = [] := rfl

@[simp] theorem load_length (m : CellMemory α) (off n : Nat) : (m.load off n).length = n := by
  simp [load]

theorem load_getElem? (m : CellMemory α) (off n i : Nat) :
    (m.load off n)[i]? = if i < n then some (m (off + i)) else none := by
  simp only [load, List.getElem?_map]
  split <;> simp_all

/-- Two loads of the same cells are the same. -/
theorem load_congr {m m' : CellMemory α} {off off' n : Nat}
    (h : ∀ i < n, m (off + i) = m' (off' + i)) : m.load off n = m'.load off' n := by
  apply List.map_congr_left
  intro i hi
  exact h i (List.mem_range.mp hi)

theorem load_add (m : CellMemory α) (off a b : Nat) :
    m.load off (a + b) = m.load off a ++ m.load (off + a) b := by
  apply List.ext_getElem?
  intro i
  rw [List.getElem?_append, load_length, load_getElem?, load_getElem?, load_getElem?]
  by_cases hi : i < a
  · simp [hi, show i < a + b by omega]
  · have hsum : off + a + (i - a) = off + i := by omega
    rw [if_neg hi, hsum]
    by_cases hb : i < a + b
    · rw [if_pos hb, if_pos (by omega)]
    · rw [if_neg hb, if_neg (by omega)]

theorem load_take (m : CellMemory α) {off n k : Nat} (h : k ≤ n) :
    (m.load off n).take k = m.load off k := by
  obtain ⟨d, rfl⟩ := Nat.exists_eq_add_of_le h
  rw [load_add, List.take_left' (load_length m off k)]

theorem load_drop (m : CellMemory α) {off n k : Nat} (h : k ≤ n) :
    (m.load off n).drop k = m.load (off + k) (n - k) := by
  obtain ⟨d, rfl⟩ := Nat.exists_eq_add_of_le h
  rw [load_add, List.drop_left' (load_length m off k), Nat.add_sub_cancel_left]

theorem store_of_lt (m : CellMemory α) {off a : Nat} (xs : List α) (h : a < off) :
    m.store off xs a = m a := by
  simp [store, Nat.not_le.mpr h]

/-- A load of exactly the stored cells. -/
theorem load_store (m : CellMemory α) (off : Nat) (xs : List α) :
    (m.store off xs).load off xs.length = xs := by
  apply List.ext_getElem?
  intro i
  rw [load_getElem?]
  by_cases hi : i < xs.length
  · simp [hi, store]
  · simp [hi]

/-- Storing behind the loaded cells appends to them. -/
theorem load_store_append (m : CellMemory α) (off n : Nat) (xs : List α) :
    (m.store (off + n) xs).load off (n + xs.length) = m.load off n ++ xs := by
  rw [load_add, load_store]
  congr 1
  apply load_congr
  intro i hi
  exact store_of_lt m xs (by omega)

/-- Moving cells to where they are changes nothing. -/
theorem move_self (m : CellMemory α) (off n : Nat) : m.move off off n = m := by
  funext a
  rw [move, store]
  split
  · rename_i hle
    rw [List.getD_eq_getElem?_getD, load_getElem?]
    split
    · rw [Nat.add_sub_cancel' hle]
      rfl
    · rfl
  · rfl

/-- What a move brought to the front. -/
theorem load_move (m : CellMemory α) (dst src n : Nat) :
    (m.move dst src n).load dst n = m.load src n := by
  have h := load_store m dst (m.load src n)
  rwa [load_length] at h

theorem move_apply (m : CellMemory α) (dst src n a : Nat) :
    m.move dst src n a = if dst ≤ a ∧ a < dst + n then m (src + (a - dst)) else m a := by
  rw [move, store, List.getD_eq_getElem?_getD, load_getElem?]
  by_cases hle : dst ≤ a
  · by_cases hlt : a < dst + n
    · rw [if_pos hle, if_pos (by omega), if_pos ⟨hle, hlt⟩]
      rfl
    · rw [if_pos hle, if_neg (by omega), if_neg (fun h => hlt h.2)]
      rfl
  · rw [if_neg hle, if_neg (fun h => hle h.1)]

/-! ## Buffers filled from the front -/

/-- What is stored behind a fill is appended to what the buffer holds. -/
theorem load_fill_store (m : CellMemory α) {fill : Int} (h : 0 ≤ fill) (xs : List α) :
    (m.store fill.toNat xs).load 0 (fill + xs.length).toNat = m.load 0 fill.toNat ++ xs := by
  have hsum : (fill + xs.length).toNat = fill.toNat + xs.length := by omega
  have happ := m.load_store_append 0 fill.toNat xs
  rw [Nat.zero_add] at happ
  rw [hsum, happ]

/-- Moving what lies behind the first `len` cells to the front drops those. -/
theorem load_fill_move (m : CellMemory α) {fill len : Int} (hlo : 0 ≤ len) (hhi : len ≤ fill)
    {size : Nat} (hsize : (size : Int) = fill - len) :
    (m.move 0 len.toNat size).load 0 (fill - len).toNat = (m.load 0 fill.toNat).drop len.toNat := by
  have hcount : (fill - len).toNat = size := by omega
  rw [hcount, load_move, load_drop _ (by omega), Nat.zero_add]
  congr 1
  omega

end CellMemory
