import Over6.Client.Addresses
import Over6.Threaded.Grants
import Over6.Threaded.Routing

/-! # The addresses that `getFreeIP` hands out

The number of an address is an index below 1024, the decimal end of a text, and, with the
client and in packets, one byte.
-/

namespace Over6.Threaded

open EventRun
open Client (readIp)

/-- The bytes the client makes of the address in its IP reply, with `stale` on its stack and `beyond`
behind the reply. -/
def addressRead (stale : Nat → UInt8) (beyond : List UInt8) (n : Nat) : List UInt8 :=
  (readIp stale (ipInfoStr (ipText n) ++ beyond)).ip

theorem toByte_natCast (n : Nat) : Client.toByte n = UInt8.ofNat n := by
  have hmod : ((n : Int) % 256).toNat = n % 2 ^ 8 := by omega
  rw [Client.toByte, hmod, UInt8.ofNat_mod_size]

/-- The client keeps the last byte of the number. -/
theorem addressRead_eq (stale : Nat → UInt8) (beyond : List UInt8) {n : Nat} (hn : n < 1024) :
    addressRead stale beyond n = [10, 128, 0, UInt8.ofNat n] := by
  have hnone : ∀ b ∈ ([] : List UInt8), Client.isSpace b = true := fun b hb => nomatch hb
  obtain ⟨rest, hrest⟩ : ∃ rest, Server.ascii " 0.0.0.0 202.38.120.242 8.8.8.8 202.106.0.20" ++ beyond =
      32 :: rest := ⟨_, rfl⟩
  have htext : ipInfoStr (ipText n) ++ beyond = [] ++ (Decimal.text 10 ++ 46 ::
      ([] ++ (Decimal.text 128 ++ 46 :: ([] ++ (Decimal.text 0 ++ 46 ::
        (Decimal.text n ++ 32 :: rest)))))) := by
    rw [ipInfoStr, List.append_assoc, hrest, ipText_eq]
    simp
  have hlast : Client.scanFields 1 (Decimal.text n ++ 32 :: rest) = ([(n : Int)], 32 :: rest) := by
    have hspace : Decimal.isDigit 32 = false := rfl
    rw [Client.scanFields_last, List.takeWhile_cons_of_neg (by simp [hspace]),
      List.dropWhile_cons_of_neg (by simp [hspace]), List.append_nil, Client.toInt_number (by omega)]
  have hscan : Client.scanFields 4 (ipInfoStr (ipText n) ++ beyond) =
      ([10, 128, 0, (n : Int)], 32 :: rest) := by
    rw [htext, Client.scanFields_point hnone 2 (by decide), Client.scanFields_point hnone 1 (by decide),
      Client.scanFields_point hnone 0 (by decide), hlast]
    rfl
  rw [addressRead, readIp, hscan]
  have hbytes : [(10 : Int), 128, 0, n].map Client.toByte = [10, 128, 0, UInt8.ofNat n] := by
    rw [← toByte_natCast]
    rfl
  rw [hbytes]
  rfl

/-- What a client needs of the address `n` that it is about to be granted. -/
structure Usable (s : State) (n : Nat) : Prop where
  /-- A host address of 10.128.0.0/24. -/
  host : ∃ d : UInt8, 1 ≤ d.toNat ∧ d.toNat ≤ 254 ∧ ipText n = mkAddr [10, 128, 0, d]
  same : ∀ stale beyond, mkAddr (addressRead stale beyond n) = ipText n
  apart : ∀ c ∈ s.conns, ∀ m, c.Holds m → ∀ stale beyond stale' beyond',
    addressRead stale beyond n ≠ addressRead stale' beyond' m
  /-- A packet for what the client read is looked up under the number, whatever the tables say then. -/
  found : ∀ stale beyond (t : State), t.getConnectionByIp (mkAddr (addressRead stale beyond n)) =
    .ok (if t.status n then t.connections n else none)

theorem getFreeIP_least {s : State} {n : Nat} (h : s.getFreeIP = some n) {l : Nat} (hl : 2 ≤ l)
    (hlt : l < n) : s.status l = true := by
  obtain ⟨_, i, hi, hat, hbefore⟩ := List.find?_eq_some_iff_getElem.mp h
  rw [List.length_map, List.length_range] at hi
  simp only [List.getElem_map, List.getElem_range] at hat
  have hused := hbefore (l - 2) (by omega)
  simp only [List.getElem_map, List.getElem_range, Bool.not_not] at hused
  rwa [Nat.sub_add_cancel hl] at hused

theorem Conn.Holds.number_lt {files : List (Option File)} {es : List Event} {s : State}
    (hrun : run next (State.start files) es = some s) {c : Conn} (hc : c ∈ s.conns) {m : Nat}
    (hholds : c.Holds m) : m < 1024 := by
  obtain ⟨i, hi⟩ := List.mem_iff_getElem?.mp hc
  rcases ((mailed_of_run hrun).conns i c hi).address with hnone | ⟨k, hk, haddress⟩
  · exact absurd (hholds.1.symm.trans hnone) (ipText_ne_nil m)
  · rwa [ipText_injective (hholds.1.symm.trans haddress)]

theorem ofNat_eq_of_mod {m n : Nat} (h : m % 256 = n) : UInt8.ofNat n = UInt8.ofNat m := by
  have hsize : m % 2 ^ 8 = n := h
  rw [← hsize, UInt8.ofNat_mod_size]

/-- However addresses were granted and given back before: the address that `getFreeIP` returns is
usable exactly if the lowest free number is at most 254 and no client that is connected holds one
with the same last byte. -/
theorem free_address_usable_iff (files : List (Option File)) (es : List Event) (s : State)
    (hrun : run next (State.start files) es = some s) (n : Nat) (hfree : s.getFreeIP = some n) :
    Usable s n ↔
      ∃ k : Nat, 2 ≤ k ∧ k ≤ 254 ∧ s.status k = false ∧
        (∀ l : Nat, 2 ≤ l → l < k → s.status l = true) ∧
        ∀ c ∈ s.conns, ∀ m, c.Holds m → m % 256 ≠ k := by
  obtain ⟨htwo, hn, hunused⟩ := getFreeIP_spec hfree
  constructor
  · intro husable
    obtain ⟨d, _, hd, htext⟩ := husable.host
    obtain rfl : n = d.toNat := ipText_injective (htext.trans (ipText_toNat d).symm)
    refine ⟨d.toNat, htwo, hd, hunused, fun l hl hlt => getFreeIP_least hfree hl hlt, ?_⟩
    intro c hc m hholds hsame
    refine husable.apart c hc m hholds (fun _ => 0) [] (fun _ => 0) [] ?_
    rw [addressRead_eq _ _ hn, addressRead_eq _ _ (hholds.number_lt hrun hc), ofNat_eq_of_mod hsame]
  · rintro ⟨k, hk, hsmall, hkfree, hbelow, hothers⟩
    obtain rfl : n = k := by
      rcases Nat.lt_trichotomy n k with hlt | heq | hlt
      · exact absurd (hunused.symm.trans (hbelow n htwo hlt)) nofun
      · exact heq
      · exact absurd (hkfree.symm.trans (getFreeIP_least hfree hk hlt)) nofun
    have hbyte : (UInt8.ofNat n).toNat = n :=
      UInt8.toNat_ofNat_of_lt' (Nat.lt_of_le_of_lt hsmall (by decide))
    have htext : mkAddr [10, 128, 0, UInt8.ofNat n] = ipText n := by
      rw [← ipText_toNat, hbyte]
    refine ⟨⟨UInt8.ofNat n, by omega, by omega, htext.symm⟩, fun stale beyond => ?_, ?_,
      fun stale beyond t => ?_⟩
    · rw [addressRead_eq _ _ hn, htext]
    · intro c hc m hholds stale beyond stale' beyond' hequal
      rw [addressRead_eq _ _ hn, addressRead_eq _ _ (hholds.number_lt hrun hc)] at hequal
      have hlast : UInt8.ofNat n = UInt8.ofNat m := by simpa using hequal
      have hnumber := congrArg UInt8.toNat hlast
      rw [hbyte, UInt8.toNat_ofNat'] at hnumber
      exact hothers c hc m hholds hnumber.symm
    · rw [addressRead_eq _ _ hn, htext, State.getConnectionByIp, getIpNum_ipText (by omega)]

/-- With 252 clients connected the last host address is free. -/
theorem free_address_usable_last :
    ∃ s, run next (State.start opened) (manyGrants 252) = some s ∧ s.conns.length = 252 ∧
      s.getFreeIP = some 254 ∧ Usable s 254 := by
  obtain ⟨s, hrun, hgranted⟩ := run_manyGrants opened 252 (by decide)
  have hfree : s.getFreeIP = some 254 := hgranted.getFreeIP (by decide)
  refine ⟨s, hrun, hgranted.length, hfree,
    (free_address_usable_iff opened (manyGrants 252) s hrun 254 hfree).mpr
      ⟨254, by decide, by decide, (getFreeIP_spec hfree).2.2,
        fun l hl hlt => getFreeIP_least hfree hl hlt, ?_⟩⟩
  intro c hc m hholds hsame
  obtain ⟨i, hi⟩ := List.mem_iff_getElem?.mp hc
  have hbound := (List.getElem?_eq_some_iff.mp hi).1
  rw [hgranted.length] at hbound
  have hnumber : i + 2 = m :=
    ipText_injective ((hgranted.held i c hi).2.symm.trans hholds.1)
  omega

/-- With one client more the next one is to get 10.128.0.255, the broadcast address. -/
theorem broadcast_address_next :
    ∃ s, run next (State.start opened) (manyGrants 253) = some s ∧
      (∀ pre u, pre <+: manyGrants 253 → run next (State.start opened) pre = some u → Serial u) ∧
      s.conns.length = 253 ∧ s.getFreeIP = some 255 ∧ ¬ Usable s 255 := by
  obtain ⟨s, hrun, hgranted⟩ := run_manyGrants opened 253 (by decide)
  refine ⟨s, hrun, fun pre u hpre hu => manyGrants_serial opened 253 (by decide) hpre hu,
    hgranted.length, hgranted.getFreeIP (by decide), fun husable => ?_⟩
  obtain ⟨d, _, hd, htext⟩ := husable.host
  have hnumber : 255 = d.toNat := ipText_injective (htext.trans (ipText_toNat d).symm)
  omega

end Over6.Threaded
