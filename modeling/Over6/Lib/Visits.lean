import Mathlib.Data.List.Nodup

/-! # Passes over a table

A pass visits indices one after the other. Where a visit changes only what its own
index can see of the state, the whole pass does to every index what one visit does,
and whatever no visit touches stays.
-/

namespace Visits

variable {σ ι β : Type} {visit : σ → ι → σ}

/-- A visit does `change` to its own index and nothing to the others. -/
theorem foldl_local [DecidableEq ι] (I : σ → Prop) (view : σ → ι → β) (change : ι → β → β)
    (keep : ∀ s i, I s → I (visit s i))
    (own : ∀ s i, I s → view (visit s i) i = change i (view s i))
    (other : ∀ s i j, I s → j ≠ i → view (visit s i) j = view s j)
    {indices : List ι} (hnodup : indices.Nodup) {s : σ} (h : I s) (j : ι) :
    view (indices.foldl visit s) j = if j ∈ indices then change j (view s j) else view s j := by
  induction indices generalizing s with
  | nil => rfl
  | cons i indices ih =>
      obtain ⟨hnotin, hrest⟩ := List.nodup_cons.mp hnodup
      rw [List.foldl_cons, ih hrest (keep s i h)]
      by_cases hji : j = i
      · subst hji
        rw [if_neg hnotin, if_pos List.mem_cons_self, own s j h]
      · rw [other s i j h hji]
        simp only [List.mem_cons, hji, false_or]

/-- What no visit touches is the same after the pass. -/
theorem foldl_frame (I : σ → Prop) (aside : σ → β) (keep : ∀ s i, I s → I (visit s i))
    (same : ∀ s i, I s → aside (visit s i) = aside s) (indices : List ι) {s : σ} (h : I s) :
    aside (indices.foldl visit s) = aside s := by
  induction indices generalizing s with
  | nil => rfl
  | cons i indices ih => rw [List.foldl_cons, ih (keep s i h), same s i h]

end Visits
