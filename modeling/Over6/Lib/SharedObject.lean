import Mathlib.Algebra.BigOperators.Group.Finset.Basic
import Mathlib.Data.Fintype.Basic
import Over6.Lib.Run

/-! # Objects that threads share

A call of a shared object takes effect at one moment between the call and its return.
What the callers see are the calls and the returns; the effects in their order are a
sequential use of the object, and each thread sees its own part of them.
-/

namespace SharedObject

open EventRun

inductive Phase (ι ω : Type) where
  | idle
  | called (op : ι)
  | done (op : ι) (res : ω)

structure State (T σ ι ω : Type) where
  obj : σ
  phase : T → Phase ι ω

inductive Event (T ι : Type) where
  | call (t : T) (op : ι)
  /-- The call takes effect. -/
  | act (t : T)
  | ret (t : T)

inductive Seen (T ι ω : Type) where
  | call (t : T) (op : ι)
  | ret (t : T) (res : ω)

def Seen.thread {T ι ω : Type} : Seen T ι ω → T
  | .call t _ => t
  | .ret t _ => t

section

variable {T σ ι ω : Type} [DecidableEq T] {apply : σ → ι → Option (σ × ω)}

def start (o : σ) : State T σ ι ω := ⟨o, fun _ => .idle⟩

/-- An operation that cannot take effect yet makes its caller wait. -/
def step (apply : σ → ι → Option (σ × ω)) (s : State T σ ι ω) :
    Event T ι → Option (State T σ ι ω)
  | .call t op =>
      match s.phase t with
      | .idle => some { s with phase := Function.update s.phase t (.called op) }
      | _ => none
  | .act t =>
      match s.phase t with
      | .called op =>
          (apply s.obj op).map fun r => ⟨r.1, Function.update s.phase t (.done op r.2)⟩
      | _ => none
  | .ret t =>
      match s.phase t with
      | .done _ _ => some { s with phase := Function.update s.phase t .idle }
      | _ => none

def seen (s : State T σ ι ω) : Event T ι → List (Seen T ι ω)
  | .call t op => [.call t op]
  | .act _ => []
  | .ret t =>
      match s.phase t with
      | .done _ res => [.ret t res]
      | _ => []

/-- The effect of an event: whose call it was, and what it gave. -/
def effect (apply : σ → ι → Option (σ × ω)) (s : State T σ ι ω) : Event T ι → List (T × ι × ω)
  | .call _ _ => []
  | .act t =>
      match s.phase t with
      | .called op => ((apply s.obj op).map fun r => (t, op, r.2)).toList
      | _ => []
  | .ret _ => []

/-- The operations one after the other, each with the result it has then. -/
inductive Sequential (apply : σ → ι → Option (σ × ω)) : σ → List (T × ι × ω) → σ → Prop where
  | nil (o : σ) : Sequential apply o [] o
  | snoc {o o' o'' : σ} {done : List (T × ι × ω)} {t : T} {op : ι} {res : ω} :
      Sequential apply o done o' → apply o' op = some (o'', res) →
      Sequential apply o (done ++ [(t, op, res)]) o''

def own (t : T) (done : List (T × ι × ω)) : List (Seen T ι ω) :=
  (done.filter fun d => d.1 = t).flatMap fun d => [.call d.1 d.2.1, .ret d.1 d.2.2]

def Phase.unseen (t : T) : Phase ι ω → List (Seen T ι ω)
  | .done _ res => [.ret t res]
  | _ => []

def Phase.waiting (t : T) : Phase ι ω → List (Seen T ι ω)
  | .called op => [.call t op]
  | _ => []

/-- The history so far and the effects so far belong together. -/
structure Explains (apply : σ → ι → Option (σ × ω)) (o : σ) (history : List (Seen T ι ω))
    (done : List (T × ι × ω)) (s : State T σ ι ω) : Prop where
  sequential : Sequential apply o done s.obj
  /-- Each thread has seen its own effects, but for the return that is still to come. -/
  own : ∀ t, (history.filter fun v => v.thread = t) ++ (s.phase t).unseen t =
    own t done ++ (s.phase t).waiting t

theorem own_snoc_self (t : T) (done : List (T × ι × ω)) (op : ι) (res : ω) :
    own t (done ++ [(t, op, res)]) = own t done ++ [.call t op, .ret t res] := by
  simp [own]

theorem own_snoc_other {t u : T} (h : t ≠ u) (done : List (T × ι × ω)) (op : ι) (res : ω) :
    own u (done ++ [(t, op, res)]) = own u done := by
  simp [own, h]

theorem explains_start (apply : σ → ι → Option (σ × ω)) (o : σ) :
    Explains apply o [] [] (start (T := T) o) where
  sequential := .nil o
  own _ := rfl

theorem Explains.call {o : σ} {history : List (Seen T ι ω)} {done : List (T × ι × ω)}
    {s : State T σ ι ω} {t : T} (h : Explains apply o history done s) (hidle : s.phase t = .idle)
    (op : ι) :
    Explains apply o (history ++ [.call t op]) done
      { s with phase := Function.update s.phase t (.called op) } where
  sequential := h.sequential
  own u := by
    have hu := h.own u
    by_cases hut : u = t
    · subst hut
      rw [hidle] at hu
      simpa [Seen.thread, Phase.unseen, Phase.waiting] using hu
    · have hne : t ≠ u := fun heq => hut heq.symm
      simpa [Seen.thread, Function.update_of_ne hut, hne] using hu

theorem Explains.act {o o' : σ} {history : List (Seen T ι ω)} {done : List (T × ι × ω)}
    {s : State T σ ι ω} {t : T} {op : ι} {res : ω} (h : Explains apply o history done s)
    (hcalled : s.phase t = .called op) (happly : apply s.obj op = some (o', res)) :
    Explains apply o history (done ++ [(t, op, res)])
      ⟨o', Function.update s.phase t (.done op res)⟩ where
  sequential := h.sequential.snoc happly
  own u := by
    have hu := h.own u
    by_cases hut : u = t
    · subst hut
      rw [hcalled] at hu
      simp only [Phase.unseen, Phase.waiting, List.append_nil] at hu
      simp [hu, Phase.unseen, Phase.waiting, own_snoc_self]
    · have hne : t ≠ u := fun heq => hut heq.symm
      simpa only [own_snoc_other hne, Function.update_of_ne hut] using hu

theorem Explains.ret {o : σ} {history : List (Seen T ι ω)} {done : List (T × ι × ω)}
    {s : State T σ ι ω} {t : T} {op : ι} {res : ω} (h : Explains apply o history done s)
    (hdone : s.phase t = .done op res) :
    Explains apply o (history ++ [.ret t res]) done
      { s with phase := Function.update s.phase t .idle } where
  sequential := h.sequential
  own u := by
    have hu := h.own u
    by_cases hut : u = t
    · subst hut
      rw [hdone] at hu
      simpa [Seen.thread, Phase.unseen, Phase.waiting] using hu
    · have hne : t ≠ u := fun heq => hut heq.symm
      simpa [Seen.thread, Function.update_of_ne hut, hne] using hu

theorem step_explains {o : σ} {history : List (Seen T ι ω)} {done : List (T × ι × ω)}
    {s s' : State T σ ι ω} {e : Event T ι} (h : Explains apply o history done s)
    (hstep : step apply s e = some s') :
    Explains apply o (history ++ seen s e) (done ++ effect apply s e) s' := by
  cases e with
  | call t op =>
      cases hphase : s.phase t with
      | idle =>
          simp only [step, hphase, Option.some.injEq] at hstep
          rw [← hstep, seen, effect, List.append_nil]
          exact h.call hphase op
      | _ => simp [step, hphase] at hstep
  | act t =>
      cases hphase : s.phase t with
      | called op =>
          simp only [step, hphase, Option.map_eq_some_iff] at hstep
          obtain ⟨⟨o', res⟩, happly, rfl⟩ := hstep
          simp only [seen, effect, hphase, happly, List.append_nil, Option.map_some,
            Option.toList_some]
          exact h.act hphase happly
      | _ => simp [step, hphase] at hstep
  | ret t =>
      cases hphase : s.phase t with
      | done op res =>
          simp only [step, hphase, Option.some.injEq] at hstep
          simp only [← hstep, seen, effect, hphase, List.append_nil]
          exact h.ret hphase
      | _ => simp [step, hphase] at hstep

/-- The effects along a run explain its history. -/
theorem run_explains {o : σ} {s : State T σ ι ω} {es : List (Event T ι)}
    (hrun : run (step apply) (start o) es = some s) :
    Explains apply o (outputs (step apply) seen (start o) es)
      (outputs (step apply) (effect apply) (start o) es) s := by
  induction es using List.reverseRecOn generalizing s with
  | nil =>
      obtain rfl := Option.some.inj hrun
      exact explains_start apply o
  | append_singleton es e ih =>
      obtain ⟨u, hu, hstep⟩ := run_snoc_iff.mp hrun
      rw [outputs_snoc seen e hu, outputs_snoc (effect apply) e hu]
      exact step_explains (ih hu) hstep

end

/-! ## Sums over the threads -/

/-- What one thread adds to a sum is replaced. -/
theorem sum_update {T P : Type} [Fintype T] [DecidableEq T] (weigh : P → Nat) (f : T → P) (t : T)
    (p : P) : ∑ u, weigh (Function.update f t p u) + weigh (f t) = ∑ u, weigh (f u) + weigh p := by
  have hsplit : ∀ g : T → Nat, ∑ u, g u = g t + ∑ u ∈ Finset.univ.erase t, g u := fun g =>
    (Finset.add_sum_erase _ g (Finset.mem_univ t)).symm
  have hrest : ∑ u ∈ Finset.univ.erase t, weigh (Function.update f t p u) =
      ∑ u ∈ Finset.univ.erase t, weigh (f u) := by
    refine Finset.sum_congr rfl fun u hu => ?_
    rw [Function.update_of_ne (Finset.ne_of_mem_erase hu)]
  rw [hsplit, hsplit fun u => weigh (f u), hrest, Function.update_self]
  omega

end SharedObject
