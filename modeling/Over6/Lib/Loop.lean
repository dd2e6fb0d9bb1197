import Mathlib.Logic.Relation
import Mathlib.Order.Basic

/-! # Loops that may leave, go on or go wrong

A loop body answers with the state it leaves behind and with what happens next:
another pass, a normal exit, or behaviour the language gives no meaning to. The
passes are numbered, so that a body can consult the outside world once per pass.
-/

namespace BoundedLoop

/-- What one pass of a loop body ends with. -/
inductive Flow (σ : Type) where
  | next (s : σ)
  | stop (s : σ)
  | fault (s : σ)

/-- Where a loop stands after a bounded number of passes. -/
inductive Outcome (σ : Type) where
  | running (s : σ)
  | stopped (s : σ)
  | faulted (s : σ)

variable {σ : Type}

namespace Flow

def state : Flow σ → σ
  | next s | stop s | fault s => s

/-- Sequencing inside one pass: an exit or a fault skips what follows. -/
def bind (r : Flow σ) (f : σ → Flow σ) : Flow σ :=
  match r with
  | next s => f s
  | stop s => .stop s
  | fault s => .fault s

@[simp] theorem state_next (s : σ) : (next s).state = s := rfl
@[simp] theorem state_stop (s : σ) : (stop s).state = s := rfl
@[simp] theorem state_fault (s : σ) : (fault s).state = s := rfl
@[simp] theorem bind_next (s : σ) (f : σ → Flow σ) : (next s).bind f = f s := rfl
@[simp] theorem bind_stop (s : σ) (f : σ → Flow σ) : (stop s).bind f = .stop s := rfl
@[simp] theorem bind_fault (s : σ) (f : σ → Flow σ) : (fault s).bind f = .fault s := rfl

end Flow

namespace Outcome

def state : Outcome σ → σ
  | running s | stopped s | faulted s => s

@[simp] theorem state_running (s : σ) : (running s).state = s := rfl
@[simp] theorem state_stopped (s : σ) : (stopped s).state = s := rfl
@[simp] theorem state_faulted (s : σ) : (faulted s).state = s := rfl

def returned : Outcome σ → Option σ
  | stopped s => some s
  | running _ | faulted _ => none

theorem returned_eq_some {o : Outcome σ} {s : σ} : o.returned = some s ↔ o = .stopped s := by
  cases o <;> simp [returned]

end Outcome

/-- At most `fuel` passes, the first of them numbered `k`. -/
def iterate (body : Nat → σ → Flow σ) : Nat → Nat → σ → Outcome σ
  | 0, _, s => .running s
  | fuel + 1, k, s =>
      match body k s with
      | .next s' => iterate body fuel (k + 1) s'
      | .stop s' => .stopped s'
      | .fault s' => .faulted s'

/-- The loop is left normally after finitely many passes. -/
def Terminates (body : Nat → σ → Flow σ) (k : Nat) (s : σ) : Prop :=
  ∃ fuel s', iterate body fuel k s = .stopped s'

@[simp] theorem iterate_zero (body : Nat → σ → Flow σ) (k : Nat) (s : σ) :
    iterate body 0 k s = .running s := rfl

theorem iterate_of_next {body : Nat → σ → Flow σ} {k : Nat} {s s' : σ} (fuel : Nat)
    (h : body k s = .next s') : iterate body (fuel + 1) k s = iterate body fuel (k + 1) s' := by
  simp [iterate, h]

theorem iterate_of_stop {body : Nat → σ → Flow σ} {k : Nat} {s s' : σ} (fuel : Nat)
    (h : body k s = .stop s') : iterate body (fuel + 1) k s = .stopped s' := by
  simp [iterate, h]

theorem iterate_of_fault {body : Nat → σ → Flow σ} {k : Nat} {s s' : σ} (fuel : Nat)
    (h : body k s = .fault s') : iterate body (fuel + 1) k s = .faulted s' := by
  simp [iterate, h]

/-- Split a loop at any number of passes. -/
theorem iterate_add (body : Nat → σ → Flow σ) (a b k : Nat) (s : σ) :
    iterate body (a + b) k s =
      match iterate body a k s with
      | .running s' => iterate body b (k + a) s'
      | .stopped s' => .stopped s'
      | .faulted s' => .faulted s' := by
  induction a generalizing k s with
  | zero => simp
  | succ a ih =>
      rw [Nat.add_right_comm]
      cases h : body k s with
      | next s' =>
          rw [iterate_of_next _ h, iterate_of_next _ h, ih]
          simp [Nat.add_assoc, Nat.add_comm 1 a]
      | stop s' => simp [iterate_of_stop _ h]
      | fault s' => simp [iterate_of_fault _ h]

/-- A loop that was left is not resumed by more fuel. -/
theorem iterate_stopped_add {body : Nat → σ → Flow σ} {fuel k : Nat} {s s' : σ}
    (h : iterate body fuel k s = .stopped s') (extra : Nat) :
    iterate body (fuel + extra) k s = .stopped s' := by
  rw [iterate_add, h]

/-- The state a loop is left in does not depend on the fuel it was given. -/
theorem iterate_stopped_unique {body : Nat → σ → Flow σ} {a b k : Nat} {s s₁ s₂ : σ}
    (h₁ : iterate body a k s = .stopped s₁) (h₂ : iterate body b k s = .stopped s₂) :
    s₁ = s₂ := by
  have e₁ := iterate_stopped_add h₁ b
  have e₂ := iterate_stopped_add h₂ a
  rw [Nat.add_comm] at e₂
  exact Outcome.stopped.inj (e₁.symm.trans e₂)

/-! ## Invariants of a loop -/

/-- A property that every pass keeps, whatever the pass ends with, holds at the end. -/
theorem iterate_invariant {body : Nat → σ → Flow σ} (I : σ → Prop)
    (step : ∀ k s, I s → I (body k s).state) (fuel k : Nat) (s : σ) (h : I s) :
    I (iterate body fuel k s).state := by
  induction fuel generalizing k s with
  | zero => exact h
  | succ fuel ih =>
      have hs := step k s h
      cases hb : body k s with
      | next s' =>
          rw [iterate_of_next _ hb]
          exact ih (k + 1) s' (by simpa [hb] using hs)
      | stop s' =>
          rw [iterate_of_stop _ hb]
          simpa [hb] using hs
      | fault s' =>
          rw [iterate_of_fault _ hb]
          simpa [hb] using hs

/-- A pass that does not lead to another one is the last. -/
theorem iterate_of_last {body : Nat → σ → Flow σ} {k : Nat} {s : σ}
    (h : ∀ s', body k s ≠ .next s') (fuel : Nat) :
    (iterate body (fuel + 1) k s).state = (body k s).state ∧
      ∀ t, iterate body (fuel + 1) k s ≠ .running t := by
  cases hb : body k s with
  | next s' => exact absurd hb (h s')
  | stop s' => simp [iterate_of_stop _ hb]
  | fault s' => simp [iterate_of_fault _ hb]

/-- A property that exactly the bad passes break, and break for good, holds of a loop that made
none of them. -/
theorem iterate_safe_iff {body : Nat → σ → Flow σ} (Bad : Nat → σ → Prop) (I Safe : σ → Prop)
    (inv : ∀ k s s', I s → body k s = .next s' → I s')
    (once : ∀ k s, I s → (Safe (body k s).state ↔ Safe s ∧ ¬ Bad k s))
    (fuel k : Nat) (s : σ) (h : I s) :
    Safe (iterate body fuel k s).state ↔
      Safe s ∧ ∀ j < fuel, ∀ t, iterate body j k s = .running t → ¬ Bad (k + j) t := by
  induction fuel generalizing k s with
  | zero => simp
  | succ fuel ih =>
      have hfirst := once k s h
      by_cases hnext : ∃ s', body k s = .next s'
      · obtain ⟨s', hb⟩ := hnext
        rw [hb, Flow.state_next] at hfirst
        rw [iterate_of_next _ hb, ih (k + 1) s' (inv k s s' h hb), hfirst, and_assoc,
          and_congr_right_iff]
        intro _
        constructor
        · rintro ⟨hgood, hrest⟩ j hj t ht
          cases j with
          | zero => exact Outcome.running.inj ht ▸ hgood
          | succ j =>
              rw [iterate_of_next _ hb] at ht
              rw [Nat.add_comm j 1, ← Nat.add_assoc]
              exact hrest j (Nat.lt_of_succ_lt_succ hj) t ht
        · intro hall
          refine ⟨hall 0 (Nat.succ_pos _) s rfl, fun j hj t ht => ?_⟩
          have hlater := hall (j + 1) (Nat.succ_lt_succ hj) t (by rw [iterate_of_next _ hb, ht])
          rwa [Nat.add_comm j 1, ← Nat.add_assoc] at hlater
      · have hlast := iterate_of_last (not_exists.mp hnext)
        rw [(hlast fuel).1, hfirst, and_congr_right_iff]
        intro _
        constructor
        · intro hgood j _ t ht
          cases j with
          | zero => exact Outcome.running.inj ht ▸ hgood
          | succ j => exact absurd ht ((hlast j).2 t)
        · intro hall
          exact hall 0 (Nat.succ_pos _) s rfl

/-- What holds at an exit: the last pass was made from a state that kept the invariant. -/
theorem iterate_stopped_last {body : Nat → σ → Flow σ} {fuel k : Nat} {s s' : σ}
    (h : iterate body fuel k s = .stopped s') :
    ∃ n t, iterate body n k s = .running t ∧ body (k + n) t = .stop s' := by
  induction fuel generalizing k s with
  | zero => simp at h
  | succ fuel ih =>
      cases hb : body k s with
      | next t =>
          rw [iterate_of_next _ hb] at h
          obtain ⟨n, u, hrun, hstop⟩ := ih h
          refine ⟨n + 1, u, by rw [iterate_of_next _ hb, hrun], ?_⟩
          rw [← hstop, Nat.add_assoc, Nat.add_comm 1 n]
      | stop t =>
          rw [iterate_of_stop _ hb] at h
          obtain rfl := Outcome.stopped.inj h
          exact ⟨0, s, rfl, by simpa using hb⟩
      | fault t =>
          rw [iterate_of_fault _ hb] at h
          simp at h

/-- What every pass that leads to another one keeps holds as long as the loop goes on. -/
theorem iterate_running_invariant {body : Nat → σ → Flow σ} (I : σ → Prop)
    (next : ∀ k s s', I s → body k s = .next s' → I s') {fuel k : Nat} {s s' : σ} (h : I s)
    (hrun : iterate body fuel k s = .running s') : I s' := by
  induction fuel generalizing k s with
  | zero => exact Outcome.running.inj hrun ▸ h
  | succ fuel ih =>
      cases hb : body k s with
      | next t =>
          rw [iterate_of_next _ hb] at hrun
          exact ih (next k s t h hb) hrun
      | stop t =>
          rw [iterate_of_stop _ hb] at hrun
          cases hrun
      | fault t =>
          rw [iterate_of_fault _ hb] at hrun
          cases hrun

/-- A loop that was left has gone through related states only. -/
theorem iterate_reaches {body : Nat → σ → Flow σ} (R : σ → σ → Prop) (I : σ → Prop)
    (next : ∀ k s s', I s → body k s = .next s' → R s s' ∧ I s')
    (stop : ∀ k s s', I s → body k s = .stop s' → R s s')
    {fuel k : Nat} {s s' : σ} (h : I s) (hrun : iterate body fuel k s = .stopped s') :
    Relation.ReflTransGen R s s' := by
  induction fuel generalizing k s with
  | zero => simp at hrun
  | succ fuel ih =>
      cases hb : body k s with
      | next t =>
          rw [iterate_of_next _ hb] at hrun
          obtain ⟨hr, hi⟩ := next k s t h hb
          exact .head hr (ih hi hrun)
      | stop t =>
          rw [iterate_of_stop _ hb] at hrun
          obtain rfl := Outcome.stopped.inj hrun
          exact .single (stop k s t h hb)
      | fault t =>
          rw [iterate_of_fault _ hb] at hrun
          simp at hrun

/-! ## Termination and divergence -/

theorem Terminates.of_next {body : Nat → σ → Flow σ} {k : Nat} {s s' : σ}
    (hb : body k s = .next s') (h : Terminates body (k + 1) s') : Terminates body k s := by
  obtain ⟨fuel, t, ht⟩ := h
  exact ⟨fuel + 1, t, by rw [iterate_of_next _ hb, ht]⟩

theorem Terminates.of_stop {body : Nat → σ → Flow σ} {k : Nat} {s s' : σ}
    (hb : body k s = .stop s') : Terminates body k s :=
  ⟨1, s', by rw [iterate_of_stop _ hb]⟩

/-- A measure that every repeated pass lowers bounds the loop. -/
theorem terminates_of_measure {body : Nat → σ → Flow σ} (I : σ → Prop) (μ : σ → Nat)
    (step : ∀ k s, I s → (∃ s', body k s = .stop s') ∨
      ∃ s', body k s = .next s' ∧ I s' ∧ μ s' < μ s)
    (k : Nat) (s : σ) (h : I s) : Terminates body k s := by
  induction hn : μ s using Nat.strongRecOn generalizing k s with
  | ind n ih =>
      subst hn
      rcases step k s h with ⟨s', hb⟩ | ⟨s', hb, hi, hlt⟩
      · exact .of_stop hb
      · exact .of_next hb (ih (μ s') hlt (k + 1) s' hi rfl)

/-- A loop whose passes only lead back to passes of the same kind is never left. -/
theorem not_terminates_of_recurrent {body : Nat → σ → Flow σ} (I : σ → Prop)
    (step : ∀ k s, I s → ∃ s', body k s = .next s' ∧ I s')
    (k : Nat) (s : σ) (h : I s) : ¬ Terminates body k s := by
  rintro ⟨fuel, t, ht⟩
  induction fuel generalizing k s with
  | zero => simp at ht
  | succ fuel ih =>
      obtain ⟨s', hb, hi⟩ := step k s h
      rw [iterate_of_next _ hb] at ht
      exact ih (k + 1) s' hi ht

theorem not_terminates_of_fault {body : Nat → σ → Flow σ} {k : Nat} {s s' : σ}
    (hb : body k s = .fault s') : ¬ Terminates body k s := by
  rintro ⟨fuel, t, ht⟩
  cases fuel with
  | zero => simp at ht
  | succ fuel => simp [iterate_of_fault _ hb] at ht

theorem terminates_of_next_iff {body : Nat → σ → Flow σ} {k : Nat} {s s' : σ}
    (hb : body k s = .next s') : Terminates body k s ↔ Terminates body (k + 1) s' := by
  refine ⟨?_, .of_next hb⟩
  rintro ⟨fuel, t, ht⟩
  cases fuel with
  | zero => simp at ht
  | succ fuel => exact ⟨fuel, t, by rwa [iterate_of_next _ hb] at ht⟩

/-- A loop that terminates does so from where it has got to. -/
theorem Terminates.of_running {body : Nat → σ → Flow σ} {n k : Nat} {s s' : σ}
    (hrun : iterate body n k s = .running s') (h : Terminates body k s) :
    Terminates body (k + n) s' := by
  obtain ⟨fuel, t, ht⟩ := h
  have hmore := iterate_stopped_add ht n
  rw [Nat.add_comm, iterate_add, hrun] at hmore
  exact ⟨fuel, t, hmore⟩

/-- Bodies that do the same wherever the loop gets to make the same loop. -/
theorem iterate_eq_of_invariant {body body' : Nat → σ → Flow σ} (I : σ → Prop)
    (same : ∀ k s, I s → body k s = body' k s)
    (next : ∀ k s s', I s → body k s = .next s' → I s') (fuel k : Nat) (s : σ) (h : I s) :
    iterate body fuel k s = iterate body' fuel k s := by
  induction fuel generalizing k s with
  | zero => rfl
  | succ fuel ih =>
      cases hb : body k s with
      | next s' =>
          rw [iterate_of_next _ hb, iterate_of_next _ ((same k s h).symm.trans hb)]
          exact ih (k + 1) s' (next k s s' h hb)
      | stop s' => rw [iterate_of_stop _ hb, iterate_of_stop _ ((same k s h).symm.trans hb)]
      | fault s' => rw [iterate_of_fault _ hb, iterate_of_fault _ ((same k s h).symm.trans hb)]

end BoundedLoop
