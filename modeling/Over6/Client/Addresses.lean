import Over6.Client.ReadIp
import Mathlib.Data.List.Induction

/-! # Addresses in the text of an IP reply

What `READ_IP` makes of a dotted quad with anything behind it, and what the calls in
a row make of quads with spaces between them. Each call stops on the space, which the
next one skips in `sscanf` and steps over with its first `ptr ++`.
-/

namespace Over6.Client

open MachineInt

structure Address where
  a : UInt8
  b : UInt8
  c : UInt8
  d : UInt8
deriving DecidableEq, Repr

namespace Address

def text (ip : Address) : List UInt8 := Decimal.quadText ip.a ip.b ip.c ip.d

def bytes (ip : Address) : List UInt8 := [ip.a, ip.b, ip.c, ip.d]

def front (ip : Address) : List UInt8 :=
  Decimal.text ip.a.toNat ++ 46 :: (Decimal.text ip.b.toNat ++ 46 ::
    (Decimal.text ip.c.toNat ++ [46]))

theorem text_eq (ip : Address) : ip.text = ip.front ++ Decimal.text ip.d.toNat := by
  simp [text, front, Decimal.quadText, List.intercalate]

end Address

/-! ## One number -/

theorem digit_bounds {b : UInt8} (h : Decimal.isDigit b = true) : 48 ≤ b.toNat ∧ b.toNat ≤ 57 := by
  simp only [Decimal.isDigit, Bool.and_eq_true, decide_eq_true_eq, UInt8.le_iff_toNat_le] at h
  exact h

theorem isSpace_of_isDigit {b : UInt8} (h : Decimal.isDigit b = true) : isSpace b = false := by
  have hb := digit_bounds h
  have hne : b ≠ 32 := by
    rintro rfl
    exact absurd hb.1 (by decide)
  have hhigh : ¬ b ≤ 13 := by
    rw [UInt8.le_iff_toNat_le]
    have h13 : (13 : UInt8).toNat = 13 := rfl
    omega
  simp [isSpace, hne, hhigh]

theorem not_sign_of_isDigit {b : UInt8} (h : Decimal.isDigit b = true) : b ≠ 45 ∧ b ≠ 43 := by
  constructor
  · rintro rfl
    exact absurd h (by decide)
  · rintro rfl
    exact absurd h (by decide)

theorem text_head (n : Nat) :
    ∃ d rest, Decimal.text n = d :: rest ∧ Decimal.isDigit d = true := by
  cases htext : Decimal.text n with
  | nil => exact absurd htext (Decimal.text_ne_nil n)
  | cons d rest =>
      refine ⟨d, rest, rfl, Decimal.text_isDigit (n := n) ?_⟩
      rw [htext]
      exact List.mem_cons_self

theorem drop_takeWhile_length {α : Type} (p : α → Bool) (l : List α) :
    l.drop (l.takeWhile p).length = l.dropWhile p := by
  have h : (l.takeWhile p ++ l.dropWhile p).drop (l.takeWhile p).length = l.dropWhile p :=
    List.drop_left' rfl
  rwa [List.takeWhile_append_dropWhile] at h

/-- `%d` on a number behind white space, with anything behind it. -/
theorem scanInt_text {ws : List UInt8} (hws : ∀ b ∈ ws, isSpace b = true) (n : Nat)
    (rest : List UInt8) : scanInt (ws ++ (Decimal.text n ++ rest)) =
      (some (toInt false (Decimal.text n ++ rest.takeWhile Decimal.isDigit)),
        rest.dropWhile Decimal.isDigit) := by
  have hdigits : ∀ b ∈ Decimal.text n, Decimal.isDigit b = true := fun b hb =>
    Decimal.text_isDigit hb
  obtain ⟨d, more, htext, hd⟩ := text_head n
  obtain ⟨hminus, hplus⟩ := not_sign_of_isDigit hd
  have hskip : (ws ++ (Decimal.text n ++ rest)).dropWhile isSpace = Decimal.text n ++ rest := by
    rw [List.dropWhile_append_of_pos hws, htext, List.cons_append,
      List.dropWhile_cons_of_neg (by simp [isSpace_of_isDigit hd])]
  have htake : (Decimal.text n ++ rest).takeWhile Decimal.isDigit =
      Decimal.text n ++ rest.takeWhile Decimal.isDigit := List.takeWhile_append_of_pos hdigits
  have hhead : (Decimal.text n ++ rest).head? = some d := by rw [htext]; rfl
  have hne : Decimal.text n ++ rest.takeWhile Decimal.isDigit ≠ [] := by
    rw [htext]
    exact List.cons_ne_nil _ _
  have hdrop : (Decimal.text n ++ rest).drop
      (Decimal.text n ++ rest.takeWhile Decimal.isDigit).length =
        rest.dropWhile Decimal.isDigit := by
    rw [← htake, drop_takeWhile_length, List.dropWhile_append_of_pos hdigits]
  have hsign : (some d == some (45 : UInt8)) = false ∧ (some d == some (43 : UInt8)) = false := by
    simp [hminus, hplus]
  unfold scanInt
  simp only [hskip, hhead, hsign, Bool.or_false, Bool.false_eq_true, if_false, htake, hdrop,
    if_neg hne]

/-! ## One quad -/

theorem toInt_number {n : Nat} (h : n < 2 ^ 31) : toInt false (Decimal.text n) = n := by
  simp only [toInt, Decimal.value_text, Bool.false_eq_true, if_false]
  have hmin : min (2 ^ 63 - 1) (n : Int) = n := by omega
  rw [hmin]
  exact int32_of_range (by omega) (by omega)

theorem toInt_text {n : Nat} (h : n < 256) : toInt false (Decimal.text n) = n :=
  toInt_number (by omega)

theorem toByte_toNat (b : UInt8) : toByte b.toNat = b := by
  have hb : b.toNat < 256 := b.toNat_lt
  have hmod : (((b.toNat : Int) % 256).toNat) = b.toNat := by omega
  rw [toByte, hmod, UInt8.ofNat_toNat]

/-- A number that a point follows is read as it stands. -/
theorem scanFields_point {ws : List UInt8} (hws : ∀ b ∈ ws, isSpace b = true) (n : Nat) {m : Nat}
    (hm : m < 256) (rest : List UInt8) :
    scanFields (n + 2) (ws ++ (Decimal.text m ++ 46 :: rest)) =
      ((m : Int) :: (scanFields (n + 1) rest).1, (scanFields (n + 1) rest).2) := by
  have hdot : Decimal.isDigit 46 = false := rfl
  have hscan : scanInt (ws ++ (Decimal.text m ++ 46 :: rest)) = (some (m : Int), 46 :: rest) := by
    rw [scanInt_text hws, List.takeWhile_cons_of_neg (by simp [hdot]),
      List.dropWhile_cons_of_neg (by simp [hdot]), List.append_nil, toInt_text hm]
  rw [scanFields, hscan]
  rfl

/-- The last number runs on into whatever digits lie behind it. -/
theorem scanFields_last (m : Nat) (rest : List UInt8) :
    scanFields 1 (Decimal.text m ++ rest) =
      ([toInt false (Decimal.text m ++ rest.takeWhile Decimal.isDigit)],
        rest.dropWhile Decimal.isDigit) := by
  have hnone : ∀ b ∈ ([] : List UInt8), isSpace b = true := fun b hb => nomatch hb
  have hscan := scanInt_text hnone m rest
  rw [List.nil_append] at hscan
  rw [scanFields, hscan]
  rfl

theorem scanFields_quad {ws : List UInt8} (hws : ∀ b ∈ ws, isSpace b = true) (ip : Address)
    (rest : List UInt8) : scanFields 4 (ws ++ (ip.text ++ rest)) =
      ([(ip.a.toNat : Int), ip.b.toNat, ip.c.toNat,
          toInt false (Decimal.text ip.d.toNat ++ rest.takeWhile Decimal.isDigit)],
        rest.dropWhile Decimal.isDigit) := by
  have hnone : ∀ b ∈ ([] : List UInt8), isSpace b = true := fun b hb => nomatch hb
  have ha := scanFields_point hws 2 ip.a.toNat_lt (Decimal.text ip.b.toNat ++ 46 ::
    (Decimal.text ip.c.toNat ++ 46 :: (Decimal.text ip.d.toNat ++ rest)))
  have hb := scanFields_point hnone 1 ip.b.toNat_lt
    (Decimal.text ip.c.toNat ++ 46 :: (Decimal.text ip.d.toNat ++ rest))
  have hc := scanFields_point hnone 0 ip.c.toNat_lt (Decimal.text ip.d.toNat ++ rest)
  rw [List.nil_append] at hb hc
  rw [ip.text_eq, Address.front]
  simp only [List.append_assoc, List.cons_append, List.nil_append]
  rw [ha, hb, hc, scanFields_last]

/-- Nothing in a quad ends it. -/
theorem Address.plain (ip : Address) {b : UInt8} (h : b ∈ ip.text) : b ≠ 0 ∧ b ≠ 32 := by
  have hdigit : Decimal.isDigit b = true ∨ b = 46 := by
    rw [ip.text_eq, Address.front] at h
    simp only [List.mem_append, List.mem_cons, List.not_mem_nil, or_false] at h
    rcases h with ((h | h | h | h | h | h) | h)
    · exact .inl (Decimal.text_isDigit h)
    · exact .inr h
    · exact .inl (Decimal.text_isDigit h)
    · exact .inr h
    · exact .inl (Decimal.text_isDigit h)
    · exact .inr h
    · exact .inl (Decimal.text_isDigit h)
  constructor
  · rintro rfl
    exact absurd hdigit (by decide)
  · rintro rfl
    exact absurd hdigit (by decide)

theorem Address.text_ne_nil (ip : Address) : ip.text ≠ [] := by
  rw [ip.text_eq]
  exact List.append_ne_nil_of_right_ne_nil _ (Decimal.text_ne_nil _)

theorem Address.text_length (ip : Address) : ip.text.length ≤ 15 := by
  have ha := (Decimal.text_small ip.a.toNat_lt).1
  have hb := (Decimal.text_small ip.b.toNat_lt).1
  have hc := (Decimal.text_small ip.c.toNat_lt).1
  have hd := (Decimal.text_small ip.d.toNat_lt).1
  rw [ip.text_eq, Address.front]
  simp only [List.length_append, List.length_cons, List.length_nil]
  omega

/-- Whether `READ_IP` moves its pointer past the cell. -/
def passes (b : UInt8) : Bool := b != 0 && b != 32

/-- The first pointer is at a quad, the later ones at the space in front of one. -/
def Lead (ws : List UInt8) : Prop := ws = [] ∨ ws = [32]

theorem skipped_quad {ws : List UInt8} (hws : Lead ws) (ip : Address) (rest : List UInt8) :
    ((ws ++ (ip.text ++ rest)).drop 1).dropWhile passes = rest.dropWhile passes := by
  have hpass : ∀ b ∈ ip.text, passes b = true := by
    intro b hb
    obtain ⟨hnul, hspace⟩ := ip.plain hb
    simp [passes, hnul, hspace]
  rcases hws with rfl | rfl
  · cases htext : ip.text with
    | nil => exact absurd htext ip.text_ne_nil
    | cons first more =>
        rw [htext] at hpass
        exact List.dropWhile_append_of_pos fun b hb => hpass b (List.mem_cons_of_mem _ hb)
  · exact List.dropWhile_append_of_pos hpass

/-- One call on a quad: its last octet is what the digits behind it make of it. -/
theorem readIp_quad (stale : Nat → UInt8) {ws : List UInt8} (hws : Lead ws) (ip : Address)
    (rest : List UInt8) :
    (readIp stale (ws ++ (ip.text ++ rest))).ip = [ip.a, ip.b, ip.c,
        toByte (toInt false (Decimal.text ip.d.toNat ++ rest.takeWhile Decimal.isDigit))] ∧
      (readIp stale (ws ++ (ip.text ++ rest))).ptr = rest.dropWhile passes ∧
      (readIp stale (ws ++ (ip.text ++ rest))).seen =
        ws.length + ip.text.length + max (rest.takeWhile Decimal.isDigit).length
          (rest.takeWhile passes).length + 1 := by
  have hspace : ∀ b ∈ ws, isSpace b = true := by
    intro b hb
    rcases hws with rfl | rfl
    · cases hb
    · rw [List.mem_singleton.mp hb]
      rfl
  have hscan := scanFields_quad hspace ip rest
  have hskip := skipped_quad hws ip rest
  have hdigits := congrArg List.length
    (List.takeWhile_append_dropWhile (p := Decimal.isDigit) (l := rest))
  have hpassed := congrArg List.length (List.takeWhile_append_dropWhile (p := passes) (l := rest))
  rw [List.length_append] at hdigits hpassed
  unfold passes at hskip hpassed ⊢
  refine ⟨?_, ?_, ?_⟩
  · simp only [readIp, hscan, List.map_cons, List.map_nil, toByte_toNat]
    rfl
  · simp only [readIp, hskip]
  · simp only [readIp, hscan, hskip, List.length_append]
    omega

/-! ## The calls in a row -/

theorem readIps_succ (stale : Nat → Nat → UInt8) (text : List UInt8) (n : Nat) :
    readIps stale text (n + 1) =
      { ips := (readIps stale text n).ips ++ [(readIp (stale n) (readIps stale text n).ptr).ip]
        ptr := (readIp (stale n) (readIps stale text n).ptr).ptr
        seen := max (readIps stale text n).seen (text.length - (readIps stale text n).ptr.length +
          (readIp (stale n) (readIps stale text n).ptr).seen) } := by
  unfold readIps
  rw [List.range_succ, List.foldl_append]
  rfl

def spaced (ips : List Address) : List UInt8 := (ips.map fun ip => 32 :: ip.text).flatten

theorem spaced_append (ips : List Address) (ip : Address) :
    spaced (ips ++ [ip]) = spaced ips ++ 32 :: ip.text := by
  simp [spaced]

theorem spaced_length (ips : List Address) : (spaced ips).length ≤ ips.length * 16 := by
  induction ips with
  | nil => exact Nat.le_refl 0
  | cons ip ips ih =>
      have hip := ip.text_length
      have hcons : (spaced (ip :: ips)).length = ip.text.length + 1 + (spaced ips).length := by
        rw [spaced, List.map_cons, List.flatten_cons, List.length_append]
        rfl
      rw [hcons, List.length_cons]
      omega

/-- Behind the last quad comes a NUL or a space. -/
def Ends (rest : List UInt8) : Prop := ∃ b more, rest = b :: more ∧ (b = 0 ∨ b = 32)

theorem Ends.stops {rest : List UInt8} (h : Ends rest) :
    rest.takeWhile Decimal.isDigit = [] ∧ rest.takeWhile passes = [] ∧
      rest.dropWhile passes = rest := by
  obtain ⟨b, more, rfl, rfl | rfl⟩ := h
  · exact ⟨rfl, rfl, rfl⟩
  · exact ⟨rfl, rfl, rfl⟩

/-- What `READ_IP` makes of a quad with `rest` behind it: the digits there go to the last octet. -/
def Address.read (ip : Address) (rest : List UInt8) : List UInt8 :=
  [ip.a, ip.b, ip.c,
    toByte (toInt false (Decimal.text ip.d.toNat ++ rest.takeWhile Decimal.isDigit))]

def looked (rest : List UInt8) : Nat :=
  max (rest.takeWhile Decimal.isDigit).length (rest.takeWhile passes).length + 1

theorem Ends.read {rest : List UInt8} (h : Ends rest) (ip : Address) : ip.read rest = ip.bytes := by
  rw [Address.read, h.stops.1, List.append_nil, toInt_text ip.d.toNat_lt, toByte_toNat]
  rfl

theorem Ends.looked {rest : List UInt8} (h : Ends rest) : looked rest = 1 := by
  rw [Client.looked, h.stops.1, h.stops.2.1]
  rfl

theorem readIps_first (stale : Nat → Nat → UInt8) (ip : Address) (rest : List UInt8) :
    readIps stale (ip.text ++ rest) 1 =
      { ips := [ip.read rest]
        ptr := rest.dropWhile passes
        seen := ip.text.length + looked rest } := by
  obtain ⟨hip, hptr, hseen⟩ := readIp_quad (stale 0) (.inl rfl) ip rest
  rw [List.nil_append] at hip hptr hseen
  have hzero : readIps stale (ip.text ++ rest) 0 = ⟨[], ip.text ++ rest, 0⟩ := rfl
  rw [readIps_succ, hzero, hip, hptr, hseen]
  simp only [QuadScan.mk.injEq, Nat.sub_self, List.length_nil, looked]
  exact ⟨rfl, trivial, by omega⟩

/-- One more call, with the pointer at the space in front of a quad. -/
theorem readIps_next {stale : Nat → Nat → UInt8} {front rest : List UInt8} {ip : Address} {n : Nat}
    {ips : List (List UInt8)}
    (h : readIps stale (front ++ 32 :: (ip.text ++ rest)) n =
      ⟨ips, 32 :: (ip.text ++ rest), front.length + 1⟩) :
    readIps stale (front ++ 32 :: (ip.text ++ rest)) (n + 1) =
      { ips := ips ++ [ip.read rest]
        ptr := rest.dropWhile passes
        seen := front.length + (1 + ip.text.length) + looked rest } := by
  obtain ⟨hip, hptr, hseen⟩ := readIp_quad (stale n) (.inr rfl) ip rest
  rw [List.cons_append, List.nil_append] at hip hptr hseen
  rw [readIps_succ, h, hip, hptr, hseen]
  simp only [QuadScan.mk.injEq, List.length_append, List.length_cons, List.length_nil, looked]
  exact ⟨rfl, trivial, by omega⟩

/-- Quads with spaces between them: every call gets its own. By induction on the quads
behind the first, the last one taken off: it is the one read last. -/
theorem readIps_spaced (stale : Nat → Nat → UInt8) (first : Address) (ips : List Address) :
    ∀ {rest : List UInt8}, Ends rest →
      readIps stale (first.text ++ (spaced ips ++ rest)) (ips.length + 1) =
        { ips := (first :: ips).map Address.bytes
          ptr := rest
          seen := (first.text ++ spaced ips).length + 1 } := by
  induction ips using List.reverseRecOn with
  | nil =>
      intro rest hends
      have hspaced : spaced [] = [] := rfl
      rw [hspaced, List.nil_append, List.length_nil, Nat.zero_add, readIps_first, hends.read,
        hends.looked, hends.stops.2.2, List.append_nil]
      rfl
  | append_singleton ips ip ih =>
      intro rest hends
      have hspace : Ends (32 :: (ip.text ++ rest)) := ⟨32, _, rfl, .inr rfl⟩
      have hbefore := ih hspace
      rw [← List.append_assoc] at hbefore
      have hnext := readIps_next hbefore
      have htext : first.text ++ (spaced (ips ++ [ip]) ++ rest) =
          (first.text ++ spaced ips) ++ 32 :: (ip.text ++ rest) := by
        rw [spaced_append, List.append_assoc, List.append_assoc, List.cons_append]
      rw [htext, List.length_append, List.length_singleton, hnext, hends.read, hends.looked,
        hends.stops.2.2, spaced_append]
      simp only [QuadScan.mk.injEq, List.length_append, List.length_cons, List.map_append,
        List.map_cons, List.map_nil, List.cons_append]
      exact ⟨trivial, trivial, by omega⟩

/-- The same without anything that ends the last quad: only that one is in doubt. -/
theorem readIps_unended (stale : Nat → Nat → UInt8) (first : Address) (ips : List Address)
    (last : Address) (rest : List UInt8) :
    readIps stale (first.text ++ (spaced (ips ++ [last]) ++ rest)) (ips.length + 2) =
      { ips := (first :: ips).map Address.bytes ++ [last.read rest]
        ptr := rest.dropWhile passes
        seen := (first.text ++ spaced (ips ++ [last])).length + looked rest } := by
  have hspace : Ends (32 :: (last.text ++ rest)) := ⟨32, _, rfl, .inr rfl⟩
  have hbefore := readIps_spaced stale first ips hspace
  rw [← List.append_assoc] at hbefore
  have hnext := readIps_next hbefore
  have htext : first.text ++ (spaced (ips ++ [last]) ++ rest) =
      (first.text ++ spaced ips) ++ 32 :: (last.text ++ rest) := by
    rw [spaced_append, List.append_assoc, List.append_assoc, List.cons_append]
  rw [htext, hnext, spaced_append]
  simp only [QuadScan.mk.injEq, List.length_append, List.length_cons]
  exact ⟨trivial, trivial, by omega⟩

/-- The text of an IP reply: quads with spaces between them, and a NUL behind the last. -/
def configText (ips : List Address) : List UInt8 :=
  List.intercalate [32] (ips.map Address.text) ++ [0]

theorem intercalate_text (first : Address) (ips : List Address) :
    List.intercalate [32] ((first :: ips).map Address.text) = first.text ++ spaced ips := by
  induction ips generalizing first with
  | nil => simp [spaced, List.intercalate]
  | cons second ips ih =>
      have hnext := ih second
      rw [List.map_cons] at hnext
      rw [List.map_cons, List.map_cons, List.intercalate_cons_cons, hnext, List.append_assoc]
      rfl

theorem configText_length (first : Address) (ips : List Address) :
    (configText (first :: ips)).length = (first.text ++ spaced ips).length + 1 := by
  rw [configText, intercalate_text, List.length_append]
  rfl

theorem readIps_configText (stale : Nat → Nat → UInt8) (first : Address) (ips : List Address)
    (beyond : List UInt8) :
    readIps stale (configText (first :: ips) ++ beyond) (ips.length + 1) =
      { ips := (first :: ips).map Address.bytes
        ptr := 0 :: beyond
        seen := (configText (first :: ips)).length } := by
  have htext : configText (first :: ips) ++ beyond =
      first.text ++ (spaced ips ++ 0 :: beyond) := by
    rw [configText, intercalate_text, List.append_assoc, List.append_assoc]
    rfl
  rw [htext, readIps_spaced stale first ips ⟨0, beyond, rfl, .inl rfl⟩, configText_length]

/-- Five addresses in the text of an IP reply come out as they went in, whatever they are and
whatever lies behind the text; the last pointer is at the NUL. -/
theorem config_text_round_trip (ip mask dns1 dns2 dns3 : Address) (stale : Nat → Nat → UInt8)
    (beyond : List UInt8) :
    (readIps stale (configText [ip, mask, dns1, dns2, dns3] ++ beyond) 5).ips =
        [ip.bytes, mask.bytes, dns1.bytes, dns2.bytes, dns3.bytes] ∧
      (readIps stale (configText [ip, mask, dns1, dns2, dns3] ++ beyond) 5).ptr = 0 :: beyond := by
  have hread := readIps_configText stale ip [mask, dns1, dns2, dns3] beyond
  rw [List.length_cons, List.length_cons, List.length_cons, List.length_cons,
    List.length_nil] at hread
  rw [hread]
  exact ⟨rfl, rfl⟩

end Over6.Client
