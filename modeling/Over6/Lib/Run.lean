import Mathlib.Data.List.Induction
import Mathlib.Logic.Relation

/-! # Finite runs of a partial step function

A step function says which state an event leads to, or that the event cannot
happen. A run is the list of its events; invariants are proved for one step and
then hold along every run.
-/

namespace EventRun

variable {σ ε : Type}

/-- The state a list of events leads to, if every one of them can happen. -/
def run (step : σ → ε → Option σ) : σ → List ε → Option σ
  | s, [] => some s
  | s, e :: es => (step s e).bind fun s' => run step s' es

@[simp] theorem run_nil (step : σ → ε → Option σ) (s : σ) : run step s [] = some s := rfl

theorem run_cons_iff {step : σ → ε → Option σ} {s t : σ} {e : ε} {es : List ε} :
    run step s (e :: es) = some t ↔ ∃ s', step s e = some s' ∧ run step s' es = some t := by
  simp [run, Option.bind_eq_some_iff]

theorem run_append_iff {step : σ → ε → Option σ} {s t : σ} {es es' : List ε} :
    run step s (es ++ es') = some t ↔
      ∃ s', run step s es = some s' ∧ run step s' es' = some t := by
  induction es generalizing s with
  | nil => simp
  | cons e es ih =>
      simp only [List.cons_append, run_cons_iff, ih]
      constructor
      · rintro ⟨s₁, h₁, s₂, h₂, h₃⟩
        exact ⟨s₂, ⟨s₁, h₁, h₂⟩, h₃⟩
      · rintro ⟨s₂, ⟨s₁, h₁, h₂⟩, h₃⟩
        exact ⟨s₁, h₁, s₂, h₂, h₃⟩

theorem run_snoc_iff {step : σ → ε → Option σ} {s t : σ} {e : ε} {es : List ε} :
    run step s (es ++ [e]) = some t ↔ ∃ s', run step s es = some s' ∧ step s' e = some t := by
  simp [run_append_iff, run_cons_iff]

/-- A property that every step keeps holds along every run. -/
theorem run_invariant {step : σ → ε → Option σ} (I : σ → Prop)
    (keep : ∀ s e s', I s → step s e = some s' → I s') {s t : σ} {es : List ε}
    (h : I s) (hrun : run step s es = some t) : I t := by
  induction es generalizing s with
  | nil => exact Option.some.inj hrun ▸ h
  | cons e es ih =>
      obtain ⟨s', hs, hr⟩ := run_cons_iff.mp hrun
      exact ih (keep s e s' h hs) hr

/-- A property that every step but the bad ones keeps holds along a run without a bad one. -/
theorem run_avoiding {step : σ → ε → Option σ} (Bad : σ → ε → Prop) (I : σ → Prop)
    (keep : ∀ s e s', I s → ¬ Bad s e → step s e = some s' → I s') {s t : σ} {es : List ε}
    (h : I s) (hrun : run step s es = some t)
    (hgood : ∀ pre e post u, es = pre ++ e :: post → run step s pre = some u → ¬ Bad u e) : I t := by
  induction es generalizing s with
  | nil => exact Option.some.inj hrun ▸ h
  | cons e es ih =>
      obtain ⟨s', hs, hr⟩ := run_cons_iff.mp hrun
      refine ih (keep s e s' h (hgood [] e es s rfl rfl) hs) hr ?_
      rintro pre e' post u rfl hu
      exact hgood (e :: pre) e' post u rfl (run_cons_iff.mpr ⟨s', hs, hu⟩)

/-- The same, said of the good steps. -/
theorem run_meeting {step : σ → ε → Option σ} (Good : σ → ε → Prop) (I : σ → Prop)
    (keep : ∀ s e s', I s → Good s e → step s e = some s' → I s') {s t : σ} {es : List ε}
    (h : I s) (hrun : run step s es = some t)
    (hgood : ∀ pre e post u, es = pre ++ e :: post → run step s pre = some u → Good u e) : I t :=
  run_avoiding (fun s e => ¬ Good s e) I
    (fun s e s' hs hfine hstep => keep s e s' hs (not_not.mp hfine) hstep) h hrun
    fun pre e post u hsplit hu => not_not_intro (hgood pre e post u hsplit hu)

/-- Steps that count bring a run nearer to what is to happen; the rank says how many are left. -/
theorem run_ranked {step : σ → ε → Option σ} (counts : ε → Bool) (Good : σ → ε → Prop)
    (I : Nat → σ → Prop) (Done : σ → Prop)
    (keep : ∀ k s e s', I k s → Good s e → step s e = some s' →
      Done s' ∨ ∃ k', I k' s' ∧ k' + (if counts e then 1 else 0) ≤ k)
    {s t : σ} {es : List ε} {k : Nat} (h : I k s) (hrun : run step s es = some t)
    (hgood : ∀ pre e post u, es = pre ++ e :: post → run step s pre = some u → Good u e) :
    (∃ pre u, pre <+: es ∧ run step s pre = some u ∧ Done u) ∨
      ∃ k', I k' t ∧ k' + es.countP counts ≤ k := by
  induction es generalizing s k with
  | nil => exact .inr ⟨k, Option.some.inj hrun ▸ h, Nat.le_refl _⟩
  | cons e es ih =>
      obtain ⟨s', hs, hr⟩ := run_cons_iff.mp hrun
      rcases keep k s e s' h (hgood [] e es s rfl rfl) hs with hdone | ⟨m, hm, hle⟩
      · exact .inl ⟨[e], s', ⟨es, rfl⟩, run_cons_iff.mpr ⟨s', hs, rfl⟩, hdone⟩
      · have hrest := ih hm hr fun pre e' post u hsplit hu =>
          hgood (e :: pre) e' post u (by rw [hsplit, List.cons_append])
            (run_cons_iff.mpr ⟨s', hs, hu⟩)
        rcases hrest with ⟨pre, u, hpre, hu, hdone⟩ | ⟨k', hk', hcount⟩
        · exact .inl ⟨e :: pre, u, List.cons_prefix_cons.mpr ⟨rfl, hpre⟩,
            run_cons_iff.mpr ⟨s', hs, hu⟩, hdone⟩
        · refine .inr ⟨k', hk', ?_⟩
          rw [List.countP_cons]
          omega

/-- The same for a property that speaks of the events so far. -/
theorem run_history {step : σ → ε → Option σ} (Bad : σ → ε → Prop) (I : List ε → σ → Prop) {s : σ}
    (keep : ∀ pre t e t', run step s pre = some t → I pre t → ¬ Bad t e → step t e = some t' →
      I (pre ++ [e]) t')
    {t : σ} {es : List ε} (h : I [] s) (hrun : run step s es = some t)
    (hgood : ∀ pre e post u, es = pre ++ e :: post → run step s pre = some u → ¬ Bad u e) : I es t := by
  induction es using List.reverseRecOn generalizing t with
  | nil => exact Option.some.inj hrun ▸ h
  | append_singleton es e ih =>
      obtain ⟨u, hu, hs⟩ := run_snoc_iff.mp hrun
      refine keep es u e t hu (ih hu fun pre e' post v hsplit hv => ?_) (hgood es e [] u rfl hu) hs
      exact hgood pre e' (post ++ [e]) v (by rw [hsplit, List.append_assoc, List.cons_append]) hv

/-- The invariant rule under an assumption about the last state that every earlier
state inherits, such as one about everything that was recorded. -/
theorem run_conditional {step : σ → ε → Option σ} (H I : σ → Prop)
    (inherit : ∀ s e s', step s e = some s' → H s' → H s)
    (keep : ∀ s e s', I s → step s e = some s' → H s' → I s') {s t : σ} {es : List ε}
    (h : I s) (hrun : run step s es = some t) (hend : H t) : I t := by
  induction es using List.reverseRecOn generalizing t with
  | nil => exact Option.some.inj hrun ▸ h
  | append_singleton es e ih =>
      obtain ⟨s', hr, hs⟩ := run_snoc_iff.mp hrun
      exact keep s' e t (ih hr (inherit s' e t hs hend)) hs hend

/-- A property that exactly the bad events break, and break for good, holds at the end of a run
without one. -/
theorem run_safe_iff {step : σ → ε → Option σ} (Bad : σ → ε → Prop) (I Safe : σ → Prop)
    (inv : ∀ s e s', I s → step s e = some s' → I s')
    (once : ∀ s e s', I s → step s e = some s' → (Safe s' ↔ Safe s ∧ ¬ Bad s e))
    {s t : σ} {es : List ε} (h : I s) (hrun : run step s es = some t) :
    Safe t ↔ Safe s ∧
      ∀ pre e post u, es = pre ++ e :: post → run step s pre = some u → ¬ Bad u e := by
  induction es generalizing s with
  | nil =>
      obtain rfl := Option.some.inj hrun
      simp
  | cons e es ih =>
      obtain ⟨s', hs, hr⟩ := run_cons_iff.mp hrun
      rw [ih (inv s e s' h hs) hr, once s e s' h hs, and_assoc, and_congr_right_iff]
      intro _
      constructor
      · rintro ⟨hgood, hrest⟩ pre e' post u hsplit hu
        cases pre with
        | nil =>
            obtain rfl := Option.some.inj hu
            obtain ⟨rfl, _⟩ := List.cons.inj hsplit
            exact hgood
        | cons e₀ pre =>
            obtain ⟨rfl, htail⟩ := List.cons.inj hsplit
            obtain ⟨v, hv, hu⟩ := run_cons_iff.mp hu
            obtain rfl := Option.some.inj (hs.symm.trans hv)
            exact hrest pre e' post u htail hu
      · intro hall
        refine ⟨hall [] e es s rfl rfl, fun pre e' post u hsplit hu => ?_⟩
        exact hall (e :: pre) e' post u (by rw [hsplit, List.cons_append])
          (run_cons_iff.mpr ⟨s', hs, hu⟩)

/-- A property that a step from a state that has it breaks exactly if the event is bad: it holds all
along a run without a bad event, and such a run only. The invariant that says so may need the property
to be kept. -/
theorem run_guarded_iff {step : σ → ε → Option σ} (Bad : σ → ε → Prop) (I Safe : σ → Prop)
    (inv : ∀ s e s', I s → Safe s → step s e = some s' → Safe s' → I s')
    (once : ∀ s e s', I s → Safe s → step s e = some s' → (Safe s' ↔ ¬ Bad s e))
    {s t : σ} {es : List ε} (h : I s) (hsafe : Safe s) (hrun : run step s es = some t) :
    (∀ pre u, pre <+: es → run step s pre = some u → Safe u) ↔
      ∀ pre e post u, es = pre ++ e :: post → run step s pre = some u → ¬ Bad u e := by
  constructor
  · intro hall
    have hinv : ∀ pre u, pre <+: es → run step s pre = some u → I u := by
      intro pre
      induction pre using List.reverseRecOn with
      | nil =>
          intro u _ hu
          obtain rfl := Option.some.inj hu
          exact h
      | append_singleton pre e ih =>
          intro u' hpre hu'
          obtain ⟨u, hu, hstep⟩ := run_snoc_iff.mp hu'
          have hbefore : pre <+: es := (List.prefix_append _ _).trans hpre
          exact inv u e u' (ih u hbefore hu) (hall pre u hbefore hu) hstep (hall _ u' hpre hu')
    rintro pre e post u rfl hu
    obtain ⟨v, hv, hrest⟩ := run_append_iff.mp hrun
    obtain rfl := Option.some.inj (hu.symm.trans hv)
    obtain ⟨u', hstep, _⟩ := run_cons_iff.mp hrest
    have hafter : run step s (pre ++ [e]) = some u' := run_snoc_iff.mpr ⟨u, hu, hstep⟩
    have hsub : pre ++ [e] <+: pre ++ e :: post := ⟨post, by simp⟩
    have hbefore : pre <+: pre ++ e :: post := List.prefix_append _ _
    exact (once u e u' (hinv pre u hbefore hu) (hall pre u hbefore hu) hstep).mp
      (hall (pre ++ [e]) u' hsub hafter)
  · intro hgood
    have hboth : ∀ pre u, pre <+: es → run step s pre = some u → I u ∧ Safe u := by
      intro pre
      induction pre using List.reverseRecOn with
      | nil =>
          intro u _ hu
          obtain rfl := Option.some.inj hu
          exact ⟨h, hsafe⟩
      | append_singleton pre e ih =>
          rintro u' ⟨post, rfl⟩ hu'
          obtain ⟨u, hu, hstep⟩ := run_snoc_iff.mp hu'
          rw [List.append_assoc, List.singleton_append] at hgood ih
          obtain ⟨hi, hbefore⟩ := ih u (List.prefix_append _ _) hu
          have hafter := (once u e u' hi hbefore hstep).mpr (hgood pre e post u rfl hu)
          exact ⟨inv u e u' hi hbefore hstep hafter, hafter⟩
    exact fun pre u hpre hu => (hboth pre u hpre hu).2

/-- Where an assumption holds all along, events run as if nothing else could happen. -/
theorem run_restrict {step : σ → ε → Option σ} (Fine : σ → ε → Prop)
    [∀ s e, Decidable (Fine s e)] {s : σ} {es : List ε}
    (h : ∀ pre e post u, es = pre ++ e :: post → run step s pre = some u → Fine u e) :
    run (fun s e => if Fine s e then step s e else none) s es = run step s es := by
  induction es generalizing s with
  | nil => rfl
  | cons e es ih =>
      rw [run, run, if_pos (h [] e es s rfl rfl)]
      cases hstep : step s e with
      | none => rfl
      | some s' =>
          refine ih fun pre e' post u hsplit hu => ?_
          exact h (e :: pre) e' post u (by rw [hsplit, List.cons_append])
            (run_cons_iff.mpr ⟨s', hstep, hu⟩)

/-- The guarded rule under an assumption that holds all along. -/
theorem run_guarded_iff_of {step : σ → ε → Option σ} (Fine : σ → ε → Prop)
    [∀ s e, Decidable (Fine s e)] (Bad : σ → ε → Prop) (I Safe : σ → Prop)
    (inv : ∀ s e s', Fine s e → I s → step s e = some s' → Safe s' → I s')
    (once : ∀ s e s', Fine s e → I s → step s e = some s' → (Safe s' ↔ ¬ Bad s e))
    {s t : σ} {es : List ε}
    (hfine : ∀ pre e post u, es = pre ++ e :: post → run step s pre = some u → Fine u e)
    (h : I s) (hsafe : Safe s) (hrun : run step s es = some t) :
    (∀ pre u, pre <+: es → run step s pre = some u → Safe u) ↔
      ∀ pre e post u, es = pre ++ e :: post → run step s pre = some u → ¬ Bad u e := by
  have happens : ∀ {s e s'}, (if Fine s e then step s e else none) = some s' →
      Fine s e ∧ step s e = some s' := by
    intro s e s' hs
    split at hs
    · rename_i he
      exact ⟨he, hs⟩
    · cases hs
  have hpart : ∀ pre, pre <+: es →
      run (fun s e => if Fine s e then step s e else none) s pre = run step s pre := by
    rintro pre ⟨rest, rfl⟩
    refine run_restrict Fine fun pre' e post u hsplit hu => ?_
    exact hfine pre' e (post ++ rest) u (by rw [hsplit, List.append_assoc, List.cons_append]) hu
  have hiff := @run_guarded_iff _ _ (fun s e => if Fine s e then step s e else none) Bad I Safe
    (fun s e s' hi _ hs => inv s e s' (happens hs).1 hi (happens hs).2)
    (fun s e s' hi _ hs => once s e s' (happens hs).1 hi (happens hs).2) s t es h hsafe
    ((hpart es List.prefix_rfl).trans hrun)
  constructor
  · intro hall pre e post u hsplit hu
    have hpre : pre <+: es := ⟨e :: post, hsplit.symm⟩
    refine hiff.mp (fun pre' u' hpre' hu' => ?_) pre e post u hsplit ((hpart pre hpre).trans hu)
    exact hall pre' u' hpre' ((hpart pre' hpre').symm.trans hu')
  · intro hgood pre u hpre hu
    refine hiff.mpr (fun pre' e post u' hsplit hu' => ?_) pre u hpre ((hpart pre hpre).trans hu)
    have hpre' : pre' <+: es := ⟨e :: post, hsplit.symm⟩
    exact hgood pre' e post u' hsplit ((hpart pre' hpre').symm.trans hu')

/-- The same with an invariant that every step keeps. -/
theorem run_always_iff {step : σ → ε → Option σ} (Bad : σ → ε → Prop) (I Safe : σ → Prop)
    (inv : ∀ s e s', I s → step s e = some s' → I s')
    (once : ∀ s e s', I s → Safe s → step s e = some s' → (Safe s' ↔ ¬ Bad s e))
    {s t : σ} {es : List ε} (h : I s) (hsafe : Safe s) (hrun : run step s es = some t) :
    (∀ pre u, pre <+: es → run step s pre = some u → Safe u) ↔
      ∀ pre e post u, es = pre ++ e :: post → run step s pre = some u → ¬ Bad u e :=
  run_guarded_iff Bad I Safe (fun s e s' hi _ hs _ => inv s e s' hi hs) once h hsafe hrun

/-- The conditional rule for chains of smaller steps. -/
theorem chain_conditional {R : σ → σ → Prop} (H I : σ → Prop)
    (inherit : ∀ s s', R s s' → H s' → H s)
    (keep : ∀ s s', R s s' → I s → H s' → I s') {s t : σ}
    (hchain : Relation.ReflTransGen R s t) (h : I s) (hend : H t) : I t := by
  induction hchain with
  | refl => exact h
  | tail _ hr ih => exact keep _ _ hr (ih (inherit _ _ hr hend)) hend

/-- Steps that decompose into chains make runs that do. -/
theorem run_reaches {step : σ → ε → Option σ} {R : σ → σ → Prop} (I : σ → Prop)
    (chain : ∀ s e s', I s → step s e = some s' → Relation.ReflTransGen R s s')
    (keep : ∀ s s', I s → R s s' → I s') {s t : σ} {es : List ε} (h : I s)
    (hrun : run step s es = some t) : Relation.ReflTransGen R s t := by
  induction es generalizing s with
  | nil => exact Option.some.inj hrun ▸ .refl
  | cons e es ih =>
      obtain ⟨s', hs, hr⟩ := run_cons_iff.mp hrun
      have hchain := chain s e s' h hs
      have hi : I s' := by
        clear hs hr ih
        induction hchain with
        | refl => exact h
        | tail _ hr ih => exact keep _ _ ih hr
      exact hchain.trans (ih hi hr)

/-- A run is gone through for a bad event. -/
def clean (step : σ → ε → Option σ) (Bad : σ → ε → Prop) [∀ s e, Decidable (Bad s e)] :
    σ → List ε → Bool
  | _, [] => true
  | s, e :: es =>
      !decide (Bad s e) && match step s e with
        | some s' => clean step Bad s' es
        | none => true

theorem not_bad_of_clean {step : σ → ε → Option σ} {Bad : σ → ε → Prop}
    [∀ s e, Decidable (Bad s e)] {s : σ} {es : List ε} (h : clean step Bad s es = true) :
    ∀ pre e post u, es = pre ++ e :: post → run step s pre = some u → ¬ Bad u e := by
  intro pre
  induction pre generalizing s es with
  | nil =>
      rintro e post u rfl hu
      obtain rfl := Option.some.inj hu
      rw [List.nil_append, clean, Bool.and_eq_true] at h
      simpa using h.1
  | cons e₀ pre ih =>
      rintro e post u rfl hu
      obtain ⟨s', hs, hr⟩ := run_cons_iff.mp hu
      rw [List.cons_append, clean, Bool.and_eq_true, hs] at h
      exact ih h.2 e post u rfl hr

theorem good_of_clean {step : σ → ε → Option σ} {Good : σ → ε → Prop}
    [∀ s e, Decidable (Good s e)] {s : σ} {es : List ε}
    (h : clean step (fun s e => ¬ Good s e) s es = true) :
    ∀ pre e post u, es = pre ++ e :: post → run step s pre = some u → Good u e :=
  fun pre e post u hsplit hu => not_not.mp (not_bad_of_clean h pre e post u hsplit hu)

/-! ## Runs that are recorded -/

section Recorded

variable {ρ : Type}

/-- A step that also brings a record up to date. -/
def recorded (step : σ → ε → Option σ) (note : σ → ε → ρ → ρ) (p : σ × ρ) (e : ε) :
    Option (σ × ρ) :=
  (step p.1 e).map fun s' => (s', note p.1 e p.2)

theorem recorded_eq_some {step : σ → ε → Option σ} {note : σ → ε → ρ → ρ} {p p' : σ × ρ} {e : ε} :
    recorded step note p e = some p' ↔ step p.1 e = some p'.1 ∧ p'.2 = note p.1 e p.2 := by
  rw [recorded, Option.map_eq_some_iff]
  constructor
  · rintro ⟨s', hstep, rfl⟩
    exact ⟨hstep, rfl⟩
  · rintro ⟨hstep, hnote⟩
    exact ⟨p'.1, hstep, by rw [← hnote]⟩

end Recorded

/-! ## Adding up along a run -/

/-- The sum of what the steps of a run weigh. -/
def tally (step : σ → ε → Option σ) (weigh : σ → σ → Nat) : σ → List ε → Nat
  | _, [] => 0
  | s, e :: es =>
      match step s e with
      | none => 0
      | some s' => weigh s s' + tally step weigh s' es

theorem tally_snoc {step : σ → ε → Option σ} (weigh : σ → σ → Nat) {s t t' : σ} {es : List ε}
    {e : ε} (hrun : run step s es = some t) (hstep : step t e = some t') :
    tally step weigh s (es ++ [e]) = tally step weigh s es + weigh t t' := by
  induction es generalizing s with
  | nil =>
      obtain rfl := Option.some.inj hrun
      simp [tally, hstep]
  | cons e₀ es ih =>
      obtain ⟨s', hs, hr⟩ := run_cons_iff.mp hrun
      simp only [List.cons_append, tally, hs]
      rw [ih hr, Nat.add_assoc]

/-! ## What a run puts out -/

/-- What the steps of a run put out, one after the other. -/
def outputs {α : Type} (step : σ → ε → Option σ) (out : σ → ε → List α) : σ → List ε → List α
  | _, [] => []
  | s, e :: es =>
      out s e ++ match step s e with
        | none => []
        | some s' => outputs step out s' es

theorem outputs_append {α : Type} {step : σ → ε → Option σ} (out : σ → ε → List α) {s t : σ}
    {es : List ε} (es' : List ε) (hrun : run step s es = some t) :
    outputs step out s (es ++ es') = outputs step out s es ++ outputs step out t es' := by
  induction es generalizing s with
  | nil =>
      obtain rfl := Option.some.inj hrun
      rfl
  | cons e es ih =>
      obtain ⟨s', hs, hr⟩ := run_cons_iff.mp hrun
      simp only [List.cons_append, outputs, hs]
      rw [ih hr, List.append_assoc]

theorem outputs_snoc {α : Type} {step : σ → ε → Option σ} (out : σ → ε → List α) {s t : σ}
    {es : List ε} (e : ε) (hrun : run step s es = some t) :
    outputs step out s (es ++ [e]) = outputs step out s es ++ out t e := by
  rw [outputs_append out [e] hrun, outputs]
  cases step t e <;> simp [outputs]

/-- The rule for invariants that speak of all that was put out, along a run without a bad event. -/
theorem run_outputs {α : Type} {step : σ → ε → Option σ} (out : σ → ε → List α)
    (Bad : σ → ε → Prop) (I : List α → σ → Prop)
    (keep : ∀ seen s e s', I seen s → ¬ Bad s e → step s e = some s' → I (seen ++ out s e) s')
    {seen : List α} {s t : σ} {es : List ε} (h : I seen s) (hrun : run step s es = some t)
    (hgood : ∀ pre e post u, es = pre ++ e :: post → run step s pre = some u → ¬ Bad u e) :
    I (seen ++ outputs step out s es) t := by
  induction es generalizing seen s with
  | nil =>
      obtain rfl := Option.some.inj hrun
      rw [outputs, List.append_nil]
      exact h
  | cons e es ih =>
      obtain ⟨s', hs, hr⟩ := run_cons_iff.mp hrun
      rw [outputs, hs, ← List.append_assoc]
      refine ih (keep seen s e s' h (hgood [] e es s rfl rfl) hs) hr ?_
      rintro pre e' post u rfl hu
      exact hgood (e :: pre) e' post u rfl (run_cons_iff.mpr ⟨s', hs, hu⟩)

/-! ## Runs of two systems -/

/-- Every step of one system is answered by steps of another that put out the same; so is every run. -/
theorem run_simulated {σ' ε' α : Type} {step : σ → ε → Option σ} {step' : σ' → ε' → Option σ'}
    (out : σ → ε → List α) (out' : σ' → ε' → List α) (R : σ → σ' → Prop)
    (answer : ∀ s a e s', R s a → step s e = some s' →
      ∃ es' a', run step' a es' = some a' ∧ outputs step' out' a es' = out s e ∧ R s' a')
    {s t : σ} {a : σ'} {es : List ε} (h : R s a) (hrun : run step s es = some t) :
    ∃ es' a', run step' a es' = some a' ∧
      outputs step' out' a es' = outputs step out s es ∧ R t a' := by
  induction es generalizing s a with
  | nil =>
      obtain rfl := Option.some.inj hrun
      exact ⟨[], a, rfl, rfl, h⟩
  | cons e es ih =>
      obtain ⟨s', hs, hr⟩ := run_cons_iff.mp hrun
      obtain ⟨es₁, a₁, hrun₁, hout₁, hR₁⟩ := answer s a e s' h hs
      obtain ⟨es₂, a₂, hrun₂, hout₂, hR₂⟩ := ih hR₁ hr
      refine ⟨es₁ ++ es₂, a₂, run_append_iff.mpr ⟨a₁, hrun₁, hrun₂⟩, ?_, hR₂⟩
      rw [outputs_append out' es₂ hrun₁, hout₁, hout₂, outputs, hs]

/-- A system whose steps are runs of another; the invariant may be needed to see it. -/
theorem run_refines {ε' : Type} {step : σ → ε → Option σ} {step' : σ → ε' → Option σ}
    (calls : ε → List ε') (I : σ → Prop)
    (answer : ∀ s e s', I s → step s e = some s' → run step' s (calls e) = some s' ∧ I s')
    {s t : σ} {es : List ε} (h : I s) (hrun : run step s es = some t) :
    run step' s (es.flatMap calls) = some t ∧ I t := by
  induction es generalizing s with
  | nil =>
      obtain rfl := Option.some.inj hrun
      exact ⟨rfl, h⟩
  | cons e es ih =>
      obtain ⟨s', hs, hr⟩ := run_cons_iff.mp hrun
      obtain ⟨hcalls, hi⟩ := answer s e s' h hs
      obtain ⟨hrest, ht⟩ := ih hi hr
      exact ⟨run_append_iff.mpr ⟨s', hcalls, hrest⟩, ht⟩

/-- Seen through an abstraction of its states, a system takes the steps that answer its events; the
invariant may be needed to see it. -/
theorem run_abstracted {σ' ε' : Type} {step : σ → ε → Option σ} {step' : σ' → ε' → Option σ'}
    (abstract : σ → σ') (answers : σ → ε → List ε') (I : σ → Prop)
    (answer : ∀ s e s', I s → step s e = some s' →
      run step' (abstract s) (answers s e) = some (abstract s') ∧ I s')
    {s t : σ} {es : List ε} (h : I s) (hrun : run step s es = some t) :
    run step' (abstract s) (outputs step answers s es) = some (abstract t) ∧ I t := by
  induction es generalizing s with
  | nil =>
      obtain rfl := Option.some.inj hrun
      exact ⟨rfl, h⟩
  | cons e es ih =>
      obtain ⟨s', hs, hr⟩ := run_cons_iff.mp hrun
      obtain ⟨hanswer, hi⟩ := answer s e s' h hs
      obtain ⟨hrest, ht⟩ := ih hi hr
      rw [outputs, hs]
      exact ⟨run_append_iff.mpr ⟨abstract s', hanswer, hrest⟩, ht⟩

/-- Every event of a run is met in a state that is right for it. -/
def Throughout (step : σ → ε → Option σ) (Good : σ → ε → Prop) (s : σ) (es : List ε) : Prop :=
  ∀ pre e post u, es = pre ++ e :: post → run step s pre = some u → Good u e

theorem throughout_cons_iff {step : σ → ε → Option σ} {Good : σ → ε → Prop} {s s' : σ} {e : ε}
    {es : List ε} (hs : step s e = some s') :
    Throughout step Good s (e :: es) ↔ Good s e ∧ Throughout step Good s' es := by
  constructor
  · intro h
    refine ⟨h [] e es s rfl rfl, fun pre e' post u hsplit hu => ?_⟩
    exact h (e :: pre) e' post u (by rw [hsplit, List.cons_append]) (run_cons_iff.mpr ⟨s', hs, hu⟩)
  · intro ⟨hgood, hrest⟩ pre e' post u hsplit hu
    cases pre with
    | nil =>
        obtain rfl := Option.some.inj hu
        obtain ⟨rfl, _⟩ := List.cons.inj hsplit
        exact hgood
    | cons e₀ pre =>
        obtain ⟨rfl, htail⟩ := List.cons.inj hsplit
        obtain ⟨v, hv, hu⟩ := run_cons_iff.mp hu
        obtain rfl := Option.some.inj (hs.symm.trans hv)
        exact hrest pre e' post u htail hu

/-- A system that does what another does, but only from states that are right, has the runs of
the other that meet such states only. -/
theorem run_restricted_iff {step step' : σ → ε → Option σ} {Good : σ → ε → Prop} (P : ε → Prop)
    (I : σ → Prop) (keep : ∀ s e s', I s → step' s e = some s' → I s')
    (agree : ∀ s e s', I s → P e → (step s e = some s' ↔ step' s e = some s' ∧ Good s e))
    {s t : σ} {es : List ε} (h : I s) (hP : ∀ e ∈ es, P e) :
    run step s es = some t ↔ run step' s es = some t ∧ Throughout step' Good s es := by
  induction es generalizing s with
  | nil => simp [Throughout]
  | cons e es ih =>
      have hrest : ∀ e' ∈ es, P e' := fun e' he' => hP e' (List.mem_cons_of_mem _ he')
      have he := fun s' => agree s e s' h (hP e List.mem_cons_self)
      constructor
      · intro hrun
        obtain ⟨s', hs, hr⟩ := run_cons_iff.mp hrun
        obtain ⟨hs', hgood⟩ := (he s').mp hs
        obtain ⟨hr', hall⟩ := (ih (keep s e s' h hs') hrest).mp hr
        exact ⟨run_cons_iff.mpr ⟨s', hs', hr'⟩, (throughout_cons_iff hs').mpr ⟨hgood, hall⟩⟩
      · intro ⟨hrun, hall⟩
        obtain ⟨s', hs', hr'⟩ := run_cons_iff.mp hrun
        obtain ⟨hgood, hrest'⟩ := (throughout_cons_iff hs').mp hall
        have hs := (he s').mpr ⟨hs', hgood⟩
        exact run_cons_iff.mpr ⟨s', hs, (ih (keep s e s' h hs') hrest).mpr ⟨hr', hrest'⟩⟩

/-- Where every step brings a measure down, it bounds the length of every run. -/
theorem run_length_le {step : σ → ε → Option σ} (rank : σ → Nat)
    (down : ∀ s e s', step s e = some s' → rank s' < rank s) {s t : σ} {es : List ε}
    (hrun : run step s es = some t) : es.length + rank t ≤ rank s := by
  induction es generalizing s with
  | nil =>
      obtain rfl := Option.some.inj hrun
      simp
  | cons e es ih =>
      obtain ⟨s', hs, hr⟩ := run_cons_iff.mp hrun
      have hrest := ih hr
      have hfirst := down s e s' hs
      rw [List.length_cons]
      omega

end EventRun
