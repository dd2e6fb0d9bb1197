import Over6.Lib.Decimal
import Over6.Lib.MachineInt

/-! # Scanning an IP reply

`READ_IP` and the part of `sscanf` it uses. A pointer into the text is the text
from there on; behind its end lie NULs.
-/

namespace Over6.Client

open MachineInt

def isSpace (b : UInt8) : Bool := b == 32 || (9 ≤ b && b ≤ 13)

/-- What `%d` stores: the number as `strtoimax` reads it, cut down to an `int`. -/
def toInt (negative : Bool) (digits : List UInt8) : Int :=
  let v : Int := Decimal.value digits
  int32 (if negative then max (-2 ^ 63) (-v) else min (2 ^ 63 - 1) v)

/-- One `%d`: the number, if there is one, and where the scan stopped. -/
def scanInt (ptr : List UInt8) : Option Int × List UInt8 :=
  let ptr := ptr.dropWhile isSpace
  let negative := ptr.head? == some 45
  let ptr := if negative || ptr.head? == some 43 then ptr.drop 1 else ptr
  let digits := ptr.takeWhile Decimal.isDigit
  (if digits = [] then none else some (toInt negative digits), ptr.drop digits.length)

/-- `n` numbers with points between them. -/
def scanFields : Nat → List UInt8 → List Int × List UInt8
  | 0, ptr => ([], ptr)
  | n + 1, ptr =>
      match scanInt ptr with
      | (none, rest) => ([], rest)
      | (some v, rest) =>
          if n ≠ 0 ∧ rest.head? = some 46 then
            let more := scanFields n (rest.drop 1)
            (v :: more.1, more.2)
          else ([v], rest)

def toByte (v : Int) : UInt8 := UInt8.ofNat (v % 256).toNat

structure IpScan where
  ip : List UInt8
  ptr : List UInt8
  /-- How many cells from the old pointer on were looked at. -/
  seen : Nat

/-- `READ_IP`. Fields that `sscanf` did not assign keep what was on the stack. -/
def readIp (stale : Nat → UInt8) (ptr : List UInt8) : IpScan :=
  let scan := scanFields 4 ptr
  let next := (ptr.drop 1).dropWhile fun b => b != 0 && b != 32
  { ip := (List.range 4).map fun i => ((scan.1.map toByte)[i]?).getD (stale i)
    ptr := next
    seen := max (ptr.length - scan.2.length) (ptr.length - next.length) + 1 }

structure QuadScan where
  ips : List (List UInt8)
  ptr : List UInt8
  /-- How far into the text has been looked. -/
  seen : Nat

def readIps (stale : Nat → Nat → UInt8) (text : List UInt8) (n : Nat) : QuadScan :=
  (List.range n).foldl
    (fun q k =>
      let r := readIp (stale k) q.ptr
      { ips := q.ips ++ [r.ip]
        ptr := r.ptr
        seen := max q.seen (text.length - q.ptr.length + r.seen) })
    { ips := [], ptr := text, seen := 0 }

example : (readIps (fun _ _ => 0) ("13.8.0.2 0.0.0.0 166.111.8.28 166.111.8.29 8.8.8.8".toList.map
    fun c => UInt8.ofNat c.toNat) 5).ips =
    [[13, 8, 0, 2], [0, 0, 0, 0], [166, 111, 8, 28], [166, 111, 8, 29], [8, 8, 8, 8]] := by
  decide +kernel

end Over6.Client
