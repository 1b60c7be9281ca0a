import Mathlib.Algebra.BigOperators.Intervals
import TcpDuplex.Lib.Runs

/-!
# Ranked machines

A rank is a natural number that every step of a machine lowers, as long as an invariant holds. It
bounds the length of the runs, and so every run leads on to a state from which no step is left. Steps that
may raise the rank are paid for one by one. Where a machine is a family of threads its rank is a sum over
them, and a step changes one summand (`sum_update`).
-/

namespace Machine

variable {σ α : Type*} {step : σ → α → Option σ} {G : σ → α → Prop} {I : σ → Prop} {r : σ → ℕ}
  {s t : σ}

/-- No step that meets the guard is left. -/
def Halted (step : σ → α → Option σ) (G : σ → α → Prop) (s : σ) : Prop :=
  ∀ a, G s a → step s a = none

theorem exists_step_of_not_halted (h : ¬Halted step G s) : ∃ a t, G s a ∧ step s a = some t := by
  simp only [Halted, not_forall] at h
  obtain ⟨a, hG, ha⟩ := h
  obtain ⟨t, ht⟩ := Option.ne_none_iff_exists'.mp ha
  exact ⟨a, t, hG, ht⟩

/-- **The rank rule**: where an action that is `costly` raises the rank by less than `k` and every other one
lowers it, the actions of a run are at most as many as the rank falls by, and `k` more for each costly one. -/
theorem length_add_rank_le_cost (costly : α → Bool) (k : ℕ) (hI : ∀ s a t, I s → step s a = some t → I t)
    (hrank : ∀ s a t, I s → step s a = some t → r t < r s + if costly a then k else 0) {as : List α}
    (hs : I s) (h : exec step s as = some t) : as.length + r t ≤ r s + k * as.countP costly := by
  induction as generalizing s with
  | nil =>
    obtain rfl : s = t := by simpa [exec] using h
    simp
  | cons a as ih =>
    obtain ⟨u, hu, hrest⟩ := Option.bind_eq_some_iff.mp h
    have hlt := hrank s a u hs hu
    have hle := ih (hI s a u hs hu) hrest
    cases hcost : costly a with
    | true =>
      rw [List.length_cons, List.countP_cons_of_pos hcost, Nat.mul_succ]
      simp only [hcost, if_true] at hlt
      omega
    | false =>
      rw [List.length_cons, List.countP_cons_of_neg (by simp [hcost])]
      simp only [hcost, Bool.false_eq_true, if_false] at hlt
      omega

/-- Where every action lowers the rank, none is costly. -/
theorem length_add_rank_le (hI : ∀ s a t, I s → step s a = some t → I t)
    (hrank : ∀ s a t, I s → step s a = some t → r t < r s) {as : List α} (hs : I s)
    (h : exec step s as = some t) : as.length + r t ≤ r s := by
  simpa using length_add_rank_le_cost (fun _ => false) 0 hI hrank hs h

/-- Where the rank falls, a run can be continued until it halts. -/
theorem exists_halted (hI : ∀ s a t, I s → step s a = some t → I t)
    (hrank : ∀ s a t, I s → step s a = some t → r t < r s) (G : σ → α → Prop) (hs : I s) :
    ∃ t, GRun step G s t ∧ Halted step G t := by
  generalize hn : r s = n
  induction n using Nat.strong_induction_on generalizing s with
  | _ n ih =>
    by_cases hhalt : Halted step G s
    · exact ⟨s, GRun.refl s, hhalt⟩
    · obtain ⟨a, u, hG, hu⟩ := exists_step_of_not_halted hhalt
      have hlt := hrank s a u hs hu
      obtain ⟨t, hrun, ht⟩ := ih (r u) (by omega) (hI s a u hs hu) rfl
      exact ⟨t, ((GRun.refl s).snoc hG hu).trans hrun, ht⟩

open Finset in
/-- One member of a family changes, and the sum changes by as much. -/
theorem sum_update {α : Type*} (f : α → ℕ) (g : ℕ → α) {i n : ℕ} (hi : i < n) (x : α) :
    ∑ j ∈ range n, f (Function.update g i x j) + f (g i) = ∑ j ∈ range n, f (g j) + f x := by
  have hmem : i ∈ range n := mem_range.mpr hi
  have hrest : ∑ j ∈ (range n).erase i, f (Function.update g i x j) = ∑ j ∈ (range n).erase i, f (g j) := by
    refine sum_congr rfl fun j hj => ?_
    rw [Function.update_of_ne (ne_of_mem_erase hj)]
  rw [← add_sum_erase _ _ hmem, ← add_sum_erase (range n) (fun j => f (g j)) hmem, hrest,
    Function.update_self]
  omega

end Machine
