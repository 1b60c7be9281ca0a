import Mathlib.Logic.Basic
import Mathlib.Logic.Function.Basic

/-!
# Mutex ownership

A mutex is the name of its owner, if it has one. `Owned mu holds` ties it to the program: a thread
holds the mutex, by its program counter, exactly when it is the recorded owner. The three rules are
the three things a step can do to a mutex: take it while it is free, give it back, or leave it alone.
Mutual exclusion is `Owned.unique`.
-/

variable {τ : Type*}

/-- The recorded owner of `mu` is the one thread that holds it. -/
def Owned (mu : Option τ) (holds : τ → Bool) : Prop := ∀ t, holds t = true ↔ mu = some t

namespace Owned

variable {mu : Option τ} {holds holds' : τ → Bool} {t u : τ}

/-- A free mutex has no holder. -/
theorem not_holds (h : Owned none holds) (t : τ) : holds t = false := by
  have := h t
  simpa using this

/-- A mutex that some thread holds is not free. -/
theorem eq_some (h : Owned mu holds) (ht : holds t = true) : mu = some t := (h t).mp ht

/-- A thread that does not hold the mutex is not its owner. -/
theorem holds_of_eq (h : Owned mu holds) (hmu : mu = some t) : holds t = true := (h t).mpr hmu

/-- **Mutual exclusion.** -/
theorem unique (h : Owned mu holds) (ht : holds t = true) (hu : holds u = true) : t = u :=
  Option.some_inj.mp ((h.eq_some ht).symm.trans (h.eq_some hu))

/-- A step that changes no thread's hold. -/
theorem frame (h : Owned mu holds) (hsame : ∀ u, holds' u = holds u) : Owned mu holds' := by
  intro u
  rw [hsame u]
  exact h u

/-- Thread `t` takes a free mutex. -/
theorem acquire (h : Owned none holds) (ht : holds' t = true)
    (hrest : ∀ u, u ≠ t → holds' u = holds u) : Owned (some t) holds' := by
  intro u
  by_cases hut : u = t
  · subst hut
    simp [ht]
  · rw [hrest u hut, h.not_holds u]
    simp [Ne.symm hut]

/-- The owner gives the mutex back. -/
theorem release (h : Owned mu holds) (ht : holds t = true) (ht' : holds' t = false)
    (hrest : ∀ u, u ≠ t → holds' u = holds u) : Owned none holds' := by
  intro u
  by_cases hut : u = t
  · subst hut
    simp [ht']
  · have hu : holds u = false := by
      by_contra hc
      exact hut (h.unique (by simpa using hc) ht)
    rw [hrest u hut, hu]
    simp

end Owned
