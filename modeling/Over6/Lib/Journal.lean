import Mathlib.Data.List.Forall2
import Mathlib.Logic.Function.Basic

/-! # Reading a journal

A journal lists records, the newest first. A selection says what each record
contributes; what it gathers is in the order in which it was recorded.
-/

namespace Journal

variable {ρ α : Type}

def gather (pick : ρ → List α) : List ρ → List α
  | [] => []
  | r :: log => gather pick log ++ pick r

@[simp] theorem gather_nil (pick : ρ → List α) : gather pick [] = [] := rfl

@[simp] theorem gather_cons (pick : ρ → List α) (r : ρ) (log : List ρ) :
    gather pick (r :: log) = gather pick log ++ pick r := rfl

theorem gather_append (pick : ρ → List α) (new log : List ρ) :
    gather pick (new ++ log) = gather pick log ++ gather pick new := by
  induction new with
  | nil => simp
  | cons r new ih => simp [ih]

theorem mem_gather {pick : ρ → List α} {log : List ρ} {a : α} :
    a ∈ gather pick log ↔ ∃ r ∈ log, a ∈ pick r := by
  induction log with
  | nil => simp
  | cons r log ih => simp [ih, or_comm]

theorem gather_eq_nil {pick : ρ → List α} {log : List ρ} (h : ∀ r ∈ log, pick r = []) :
    gather pick log = [] := by
  apply List.eq_nil_iff_forall_not_mem.mpr
  intro a ha
  obtain ⟨r, hr, hpick⟩ := mem_gather.mp ha
  rw [h r hr] at hpick
  exact List.not_mem_nil hpick

/-- New records that contribute nothing. -/
theorem gather_of_nil {pick : ρ → List α} {new log : List ρ} (h : ∀ r ∈ new, pick r = []) :
    gather pick (new ++ log) = gather pick log := by
  rw [gather_append, gather_eq_nil h, List.append_nil]

/-- What was gathered stays in front of what is gathered later. -/
theorem gather_begun (pick : ρ → List α) {log log' : List ρ} (h : log <:+ log') :
    gather pick log <+: gather pick log' := by
  obtain ⟨new, rfl⟩ := h
  rw [gather_append]
  exact List.prefix_append _ _

/-- Where what was gathered splits, so does the journal. -/
theorem gather_split {pick : ρ → List α} (hone : ∀ r, (pick r).length ≤ 1) {log : List ρ}
    {pre post : List α} {a : α} (h : gather pick log = pre ++ a :: post) :
    ∃ later r older, log = later ++ r :: older ∧ pick r = [a] ∧ gather pick older = pre := by
  induction log generalizing post with
  | nil => simp at h
  | cons r log ih =>
      rw [gather_cons] at h
      cases hr : pick r with
      | nil =>
          rw [hr, List.append_nil] at h
          obtain ⟨later, r', older, hlog, hpick, hpre⟩ := ih h
          exact ⟨r :: later, r', older, by rw [hlog, List.cons_append], hpick, hpre⟩
      | cons b rest =>
          have hlen := hone r
          rw [hr, List.length_cons] at hlen
          obtain rfl := List.eq_nil_of_length_eq_zero (by omega : rest.length = 0)
          rw [hr] at h
          rcases List.eq_nil_or_concat post with rfl | ⟨post', b', rfl⟩
          · obtain ⟨hpre, hb⟩ := List.append_inj' h rfl
            exact ⟨[], r, log, rfl, hr.trans hb, hpre⟩
          · rw [List.concat_eq_append, ← List.cons_append, ← List.append_assoc] at h
            obtain ⟨later, r', older, hlog, hpick, hpre⟩ := ih (List.append_inj' h rfl).1
            exact ⟨r :: later, r', older, by rw [hlog, List.cons_append], hpick, hpre⟩

/-! ## Several journals in one -/

def part {ι : Type} [DecidableEq ι] (i : ι) (whole : List (ι × α)) : List α :=
  (whole.filter fun p => p.1 = i).map Prod.snd

section Parts

variable {ι : Type} [DecidableEq ι]

theorem part_cons_self (i : ι) (a : α) (whole : List (ι × α)) :
    part i ((i, a) :: whole) = a :: part i whole := by
  simp [part]

theorem part_cons_other {i j : ι} (h : j ≠ i) (a : α) (whole : List (ι × α)) :
    part i ((j, a) :: whole) = part i whole := by
  simp [part, h]

theorem part_append (i : ι) (whole more : List (ι × α)) :
    part i (whole ++ more) = part i whole ++ part i more := by
  simp [part]

theorem part_map_self (i : ι) (l : List α) : part i (l.map fun a => (i, a)) = l := by
  induction l with
  | nil => rfl
  | cons a l ih => rw [List.map_cons, part_cons_self, ih]

theorem part_map_other {i j : ι} (h : j ≠ i) (l : List α) :
    part i (l.map fun a => (j, a)) = [] := by
  induction l with
  | nil => rfl
  | cons a l ih => rw [List.map_cons, part_cons_other h, ih]

end Parts

end Journal
