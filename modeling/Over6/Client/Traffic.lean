import Over6.Client.Hostile

/-! # The byte counters of the client

`in_bytes` and `out_bytes` grow by no more than the buffer holds in one call of a
handler. Below 63 bits they do not wrap around then, so they do not go down.
-/

namespace Over6.Client

open MachineInt BoundedLoop EventRun

/-- The byte counters have room for what one call of a handler adds to them. -/
structure State.Small (s : State) : Prop where
  inBytes : s.inBytes.toNat < 2 ^ 63
  outBytes : s.outBytes.toNat < 2 ^ 63

structure Counts (s s' : State) : Prop where
  inBytes : s.inBytes.toNat ≤ s'.inBytes.toNat
  outBytes : s.outBytes.toNat ≤ s'.outBytes.toNat

namespace Counts

theorem refl (s : State) : Counts s s := ⟨Nat.le_refl _, Nat.le_refl _⟩

theorem trans {s t u : State} (h : Counts s t) (h' : Counts t u) : Counts s u :=
  ⟨h.inBytes.trans h'.inBytes, h.outBytes.trans h'.outBytes⟩

theorem of_eq {s s' : State} (hin : s'.inBytes = s.inBytes) (hout : s'.outBytes = s.outBytes) :
    Counts s s' :=
  ⟨Nat.le_of_eq (congrArg UInt64.toNat hin.symm), Nat.le_of_eq (congrArg UInt64.toNat hout.symm)⟩

end Counts

theorem toNat_add_of_small {a : UInt64} {n : Nat} (h : a.toNat + n < 2 ^ 64) :
    (a + UInt64.ofNat n).toNat = a.toNat + n := by
  rw [UInt64.toNat_add, UInt64.toNat_ofNat', Nat.mod_eq_of_lt (by omega : n < 2 ^ 64),
    Nat.mod_eq_of_lt h]

/-! ## `handle_socket` -/

theorem Logged.counters {P : Act → Prop} {s t : State} (h : Logged P s t) :
    t.inBytes = s.inBytes ∧ t.outBytes = s.outBytes := by
  obtain ⟨new, rfl, _⟩ := h
  exact ⟨rfl, rfl⟩

theorem Dispatch.outBytes {env : SocketEnv} {msg : Message} {s : State} {flow : Flow State}
    (h : Dispatch env msg s flow) : flow.state.outBytes = s.outBytes := by
  cases h with
  | answered _ _ hlog => exact hlog.counters.2
  | unanswered _ _ hlog => exact hlog.counters.2
  | _ => rfl

/-- A frame that is passed counts with its length, or not at all. -/
theorem Dispatch.inBytes_next {env : SocketEnv} {msg : Message} {s t : State}
    (h : Dispatch env msg s (.next t)) :
    t.inBytes = s.inBytes ∨ t.inBytes = s.inBytes + UInt64.ofNat (sizeT 64 msg.length) := by
  cases h with
  | answered _ _ hlog => exact .inl hlog.counters.1
  | heartbeat => exact .inl rfl
  | early => exact .inl rfl
  | injected => exact .inr rfl

theorem Dispatch.inBytes_stop {env : SocketEnv} {msg : Message} {s t : State}
    (h : Dispatch env msg s (.stop t)) : t.inBytes = s.inBytes := by
  cases h with
  | unanswered _ _ hlog => exact hlog.counters.1
  | refused => rfl
  | unknown => rfl

/-- What is counted was in the buffer, and is not there any more. -/
structure Counted (s t : State) : Prop where
  bounded : t.Bounded
  outBytes : t.outBytes = s.outBytes
  lower : s.inBytes.toNat ≤ t.inBytes.toNat
  upper : (t.inBytes.toNat : Int) + t.socketNreads ≤ s.inBytes.toNat + s.socketNreads

theorem Counted.pass {env : SocketEnv} {s t t' : State} (hsmall : s.inBytes.toNat < 2 ^ 63)
    (hs : s.Bounded) (h : Counted s t) (hpass : Pass env t (.next t')) : Counted s t' := by
  cases hpass with
  | @passed hcomplete u hframe hlen =>
      have hkept : Kept t u := hframe.kept
      have hlower := h.lower
      have hupper := h.upper
      have hfill := hs.2
      have hcap : (bufferSize : Int) = 4194304 := rfl
      have hnreads : (u.consumed t.header).socketNreads = t.socketNreads - t.header.length := by
        rw [← hkept.socketNreads]
        rfl
      have hsize := sizeT_64 hlen (by have hfront := hcomplete.2; have htop := h.bounded.2; omega)
      refine ⟨h.bounded.passed hcomplete hframe hlen, hframe.outBytes.trans h.outBytes, ?_, ?_⟩
      · change _ ≤ u.inBytes.toNat
        rcases hframe.inBytes_next with hsame | hadded
        · rwa [hsame]
        · have hfront := hcomplete.2
          rw [hadded, toNat_add_of_small (by omega)]
          omega
      · rw [hnreads]
        change (u.inBytes.toNat : Int) + _ ≤ _
        rcases hframe.inBytes_next with hsame | hadded
        · rw [hsame]
          omega
        · have hfront := hcomplete.2
          rw [hadded, toNat_add_of_small (by omega)]
          omega

theorem handleSocket_traffic {s s' : State} {r : ReadResult} {env : Nat → SocketEnv} {fuel : Nat}
    (hs : s.Bounded) (hsmall : s.Small) (hfits : r.Fits s.room)
    (h : handleSocket r env fuel s = .stopped s') : Counts s s' := by
  cases r with
  | error =>
      obtain rfl := Outcome.stopped.inj h
      exact .of_eq rfl rfl
  | bytes bs =>
      rw [handleSocket_of_bounded hs hfits] at h
      have hreceived := hs.receive hfits
      obtain ⟨n, t, hrun, hstop⟩ := iterate_stopped_last h
      have hcounted : Counted (receive bs s) t := by
        refine iterate_running_invariant (Counted (receive bs s)) ?_
          ⟨hreceived, rfl, Nat.le_refl _, Int.le_refl _⟩ hrun
        intro k u u' hu hnext
        exact hu.pass hsmall.inBytes hreceived (hnext ▸ socketOnce_pass hu.bounded (env k))
      have hpass := socketOnce_pass hcounted.bounded (env (0 + n))
      rw [hstop] at hpass
      have hlast : s'.inBytes = t.inBytes ∧ s'.outBytes = t.outBytes := by
        cases hpass with
        | waits => exact ⟨rfl, rfl⟩
        | left _ hframe => exact ⟨hframe.inBytes_stop, hframe.outBytes⟩
      refine ⟨?_, ?_⟩
      · rw [hlast.1]
        exact hcounted.lower
      · rw [hlast.2, hcounted.outBytes]
        exact Nat.le_refl _

/-! ## Every call -/

theorem Commanded.counts {s s' : State} (h : Commanded s s') : Counts s s' := by
  obtain ⟨_, _, _, rfl⟩ := h
  exact .of_eq rfl rfl

theorem handleTunnel_counts {r : ReadResult} (write₁ write₂ : WriteResult) {s : State}
    (hsmall : s.Small) (hfits : r.Fits bufferSize) : Counts s (handleTunnel r write₁ write₂ s) := by
  have huplink := handleTunnel_uplink r write₁ write₂ s
  generalize handleTunnel r write₁ write₂ s = t at huplink
  cases huplink with
  | @sent packet hread =>
      have hout := hsmall.outBytes
      have hcap : bufferSize = 4194304 := rfl
      have hlen : packet.length ≤ bufferSize := by
        rw [hread] at hfits
        exact hfits
      refine ⟨Nat.le_refl _, ?_⟩
      change s.outBytes.toNat ≤ (s.outBytes + UInt64.ofNat packet.length).toNat
      rw [toNat_add_of_small (by omega)]
      omega
  | _ => exact .of_eq rfl rfl

theorem step_counts {s s' : State} {e : Event} (hs : s.Bounded) (hsmall : s.Small)
    (h : step s e = some s') : Counts s s' := by
  cases step_call h with
  | heartbeat now write =>
      have hbeat := handleHeartbeat_beat now write s
      generalize handleHeartbeat now write s = t at hbeat
      cases hbeat <;> exact .of_eq rfl rfl
  | command env fuel hcall => exact (handleCommand_commanded hcall).counts
  | socket r env fuel hfits hcall => exact handleSocket_traffic hs hsmall hfits hcall
  | tunnel r write₁ write₂ _ hfits => exact handleTunnel_counts write₁ write₂ hsmall hfits

end Over6.Client
