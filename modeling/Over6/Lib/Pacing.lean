import Mathlib.Data.List.Induction
import Mathlib.Data.List.Infix
import Mathlib.Data.Nat.ModEq

/-! # A counter that is put back

A party counts seconds, and beats whenever the count is a multiple of `period`. A mark puts the
count back to zero, and so moves the beats. How long it goes without a beat depends
on the marks only.
-/

namespace Pacing

inductive Pulse where
  | second
  | mark
deriving DecidableEq, Repr

def count (n : Nat) : Pulse → Nat
  | .second => n + 1
  | .mark => 0

/-- The seconds since the last mark, or since the start. -/
def since (l : List Pulse) : Nat := l.foldl count 0

@[simp] theorem since_nil : since [] = 0 := rfl

@[simp] theorem since_second (l : List Pulse) : since (l ++ [.second]) = since l + 1 := by
  rw [since, List.foldl_append]
  rfl

@[simp] theorem since_mark (l : List Pulse) : since (l ++ [.mark]) = 0 := by
  rw [since, List.foldl_append]
  rfl

/-- The count, and the seconds since the last beat. -/
def pace (period : Nat) (p : Nat × Nat) : Pulse → Nat × Nat
  | .second => (p.1 + 1, if (p.1 + 1) % period = 0 then 0 else p.2 + 1)
  | .mark => (0, p.2)

theorem pace_fst (period : Nat) (l : List Pulse) (p : Nat × Nat) :
    (l.foldl (pace period) p).1 = l.foldl count p.1 := by
  induction l generalizing p with
  | nil => rfl
  | cons x l ih => cases x <;> exact ih _

/-- The seconds since the last beat, or since the start. -/
def quiet (period : Nat) (l : List Pulse) : Nat := (l.foldl (pace period) (0, 0)).2

@[simp] theorem quiet_nil (period : Nat) : quiet period [] = 0 := rfl

theorem quiet_second (period : Nat) (l : List Pulse) :
    quiet period (l ++ [.second]) =
      if (since l + 1) % period = 0 then 0 else quiet period l + 1 := by
  rw [quiet, List.foldl_append, List.foldl_cons, List.foldl_nil, pace, pace_fst]
  rfl

@[simp] theorem quiet_mark (period : Nat) (l : List Pulse) :
    quiet period (l ++ [.mark]) = quiet period l := by
  rw [quiet, List.foldl_append]
  rfl

/-- No `period` seconds pass without a mark. -/
def Crowded (period : Nat) (l : List Pulse) : Prop := ¬ List.replicate period .second <:+: l

section Crowded

variable {period : Nat}

theorem replicate_suffix_iff {n : Nat} {l : List Pulse} :
    List.replicate n .second <:+ l ↔ n ≤ since l := by
  induction l using List.reverseRecOn generalizing n with
  | nil => simp
  | append_singleton l x ih =>
      cases n with
      | zero => simp
      | succ n =>
          rw [List.replicate_succ', List.suffix_concat_iff]
          cases x with
          | second => simp [ih]
          | mark => simp

theorem Crowded.since_lt {l : List Pulse} (h : Crowded period l) : since l < period :=
  Nat.not_le.mp fun hle => h (replicate_suffix_iff.mpr hle).isInfix

theorem Crowded.front {l l' : List Pulse} (h : Crowded period (l ++ l')) : Crowded period l :=
  fun hin => h (hin.trans (List.prefix_append l l').isInfix)

theorem crowded_nil (hperiod : 0 < period) : Crowded period [] := by
  intro hin
  have hlen := hin.length_le
  rw [List.length_replicate, List.length_nil] at hlen
  omega

theorem Crowded.second {l : List Pulse} (h : Crowded period l) (hshort : since l + 1 < period) :
    Crowded period (l ++ [.second]) := by
  intro hin
  rcases List.infix_concat_iff.mp hin with hsuffix | hin
  · have hle := replicate_suffix_iff.mp hsuffix
    rw [since_second] at hle
    omega
  · exact h hin

theorem Crowded.mark {l : List Pulse} (h : Crowded period l) : Crowded period (l ++ [.mark]) := by
  intro hin
  rcases List.infix_concat_iff.mp hin with hsuffix | hin
  · have hle := replicate_suffix_iff.mp hsuffix
    rw [since_mark, Nat.le_zero] at hle
    exact h (by simp [hle])
  · exact h hin

/-- After a whole number of periods the count is as good as put back. -/
theorem since_append_mod {front : List Pulse} (h : since front % period = 0) (l : List Pulse) :
    since (front ++ l) % period = since l % period := by
  induction l using List.reverseRecOn with
  | nil => simp [h]
  | append_singleton l x ih =>
      rw [← List.append_assoc]
      cases x with
      | second =>
          rw [since_second, since_second]
          exact Nat.ModEq.add_right 1 ih
      | mark => rw [since_mark, since_mark]

/-- No beat falls into a crowded stretch. -/
theorem quiet_append {front l : List Pulse} (h : since front % period = 0)
    (hcrowded : Crowded period l) :
    quiet period (front ++ l) = quiet period front + l.count .second := by
  induction l using List.reverseRecOn with
  | nil => simp
  | append_singleton l x ih =>
      have hquiet := ih hcrowded.front
      rw [← List.append_assoc]
      cases x with
      | second =>
          have hshort := hcrowded.since_lt
          have hmod : (since (front ++ l) + 1) % period = since l + 1 := by
            rw [← since_second, List.append_assoc, since_append_mod h, Nat.mod_eq_of_lt hshort,
              since_second]
          rw [quiet_second, hmod, if_neg (Nat.succ_ne_zero _), hquiet, List.count_append]
          simp [Nat.add_assoc]
      | mark =>
          rw [quiet_mark, hquiet, List.count_append]
          rfl

/-- The stretch since the last beat is crowded. -/
theorem exists_crowded (hperiod : 0 < period) (l : List Pulse) :
    ∃ front w, l = front ++ w ∧ since front % period = 0 ∧ Crowded period w ∧
      w.count .second = quiet period l := by
  induction l using List.reverseRecOn with
  | nil => exact ⟨[], [], rfl, Nat.zero_mod _, crowded_nil hperiod, rfl⟩
  | append_singleton l x ih =>
      obtain ⟨front, w, rfl, hstart, hcrowded, hcount⟩ := ih
      cases x with
      | second =>
          rw [quiet_second]
          by_cases hdue : (since (front ++ w) + 1) % period = 0
          · refine ⟨front ++ w ++ [.second], [], (List.append_nil _).symm, ?_, crowded_nil hperiod, ?_⟩
            · rw [since_second]
              exact hdue
            · rw [if_pos hdue, List.count_nil]
          · have hne : since w + 1 ≠ period := by
              intro hfull
              have hmod : (since (front ++ w) + 1) % period = (since w + 1) % period :=
                Nat.ModEq.add_right 1 (since_append_mod hstart w)
              exact hdue (by rw [hmod, hfull, Nat.mod_self])
            have hshort := hcrowded.since_lt
            refine ⟨front, w ++ [.second], List.append_assoc .., hstart, hcrowded.second (by omega), ?_⟩
            rw [if_neg hdue, List.count_append, hcount]
            rfl
      | mark =>
          refine ⟨front, w ++ [.mark], List.append_assoc .., hstart, hcrowded.mark, ?_⟩
          rw [quiet_mark, ← hcount, List.count_append]
          rfl

/-- From no whole number of periods on do `limit` seconds pass, crowded with marks. -/
def Timely (period limit : Nat) (l : List Pulse) : Prop :=
  ∀ front w, l = front ++ w → since front % period = 0 → Crowded period w → w.count .second < limit

theorem quiet_lt_iff (hperiod : 0 < period) {limit : Nat} {l : List Pulse} :
    quiet period l < limit ↔ Timely period limit l := by
  constructor
  · rintro hlt front w rfl hstart hcrowded
    rw [quiet_append hstart hcrowded] at hlt
    omega
  · intro htimely
    obtain ⟨front, w, hl, hstart, hcrowded, hcount⟩ := exists_crowded hperiod l
    exact hcount ▸ htimely front w hl hstart hcrowded

end Crowded

end Pacing
