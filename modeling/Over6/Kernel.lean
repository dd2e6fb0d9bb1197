import Mathlib.Data.List.Basic

/-! # What the kernel answers

Both programs read from and write to descriptors. The answers are left open:
everything is proved for all of them.
-/

namespace Over6

abbrev Fd := Int

theorem ne_neg_one_of_nonneg {fd : Fd} (h : 0 ≤ fd) : fd ≠ -1 := by
  intro he
  rw [he] at h
  exact absurd h (by decide)

/-- One `read()`: an error, or the bytes it delivered; none at the end of the stream. -/
inductive ReadResult where
  | error
  | bytes (bs : List UInt8)
deriving DecidableEq, Repr

/-- `read()` delivers no more than it was asked for. -/
def ReadResult.Fits (r : ReadResult) (room : Nat) : Prop :=
  match r with
  | .error => True
  | .bytes bs => bs.length ≤ room

instance (r : ReadResult) (room : Nat) : Decidable (r.Fits room) :=
  match r with
  | .error => inferInstanceAs (Decidable True)
  | .bytes bs => inferInstanceAs (Decidable (bs.length ≤ room))

/-- One `write()`: an error, or at most `n + 1` bytes taken. -/
inductive WriteResult where
  | error
  | wrote (n : Nat)
deriving DecidableEq, Repr

namespace WriteResult

def ret (r : WriteResult) (size : Nat) : Int :=
  match r with
  | error => -1
  | wrote n => (min (n + 1) size : Nat)

def taken (r : WriteResult) (bs : List UInt8) : List UInt8 := bs.take (r.ret bs.length).toNat

end WriteResult

end Over6
