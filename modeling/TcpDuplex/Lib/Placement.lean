import Mathlib.Data.Nat.Basic
import Mathlib.Logic.ExistsUnique
import Mathlib.Logic.Function.Basic

/-!
# Numbered tokens and the places they are in

Tokens get their numbers in the order of their arrival, and a place has room for one. `Placed f n` says
of `n` tokens that each is in exactly one place: none is lost, none is doubled. The two rules are the two
things that may happen to a token: it arrives, and it goes from one place to another.
-/

variable {π : Type*}

/-- Each of the first `n` tokens is in one place, and there are no others. -/
structure Placed (f : π → Option ℕ) (n : ℕ) : Prop where
  somewhere : ∀ m, m < n → ∃ p, f p = some m
  lt : ∀ p m, f p = some m → m < n
  unique : ∀ p q m, f p = some m → f q = some m → p = q

namespace Placed

variable {f : π → Option ℕ} {n m : ℕ} {p q : π}

theorem empty : Placed (fun _ : π => none) 0 := ⟨nofun, nofun, nofun⟩

theorem existsUnique (h : Placed f n) (hm : m < n) : ∃! p, f p = some m := by
  obtain ⟨p, hp⟩ := h.somewhere m hm
  exact ⟨p, hp, fun q hq => h.unique q p m hq hp⟩

variable [DecidableEq π]

/-- A token arrives in an empty place. -/
theorem arrive (h : Placed f n) (hp : f p = none) : Placed (Function.update f p (some n)) (n + 1) := by
  have hold : ∀ {q m}, f q = some m → Function.update f p (some n) q = some m := by
    intro q m hq
    have hqp : q ≠ p := by
      rintro rfl
      rw [hp] at hq
      cases hq
    rwa [Function.update_of_ne hqp]
  have hnew : ∀ {q m}, Function.update f p (some n) q = some m → q = p ∧ m = n ∨ f q = some m := by
    intro q m hq
    by_cases hqp : q = p
    · subst hqp
      rw [Function.update_self] at hq
      exact .inl ⟨rfl, (Option.some.inj hq).symm⟩
    · rw [Function.update_of_ne hqp] at hq
      exact .inr hq
  refine ⟨fun m hm => ?_, fun q m hq => ?_, fun q r m hq hr => ?_⟩
  · rcases Nat.lt_succ_iff_lt_or_eq.mp hm with hlt | rfl
    · obtain ⟨q, hq⟩ := h.somewhere m hlt
      exact ⟨q, hold hq⟩
    · exact ⟨p, Function.update_self ..⟩
  · rcases hnew hq with ⟨-, rfl⟩ | hq'
    · exact Nat.lt_succ_self m
    · exact Nat.lt_succ_of_lt (h.lt q m hq')
  · rcases hnew hq with ⟨rfl, rfl⟩ | hq' <;> rcases hnew hr with ⟨rfl, hmn⟩ | hr'
    · rfl
    · exact absurd (h.lt r _ hr') (lt_irrefl _)
    · exact absurd (h.lt q m hq') (by omega)
    · exact h.unique q r m hq' hr'

/-- A token goes from `p` to the empty place `q`. -/
theorem move (h : Placed f n) (hp : f p = some m) (hq : f q = none) :
    Placed (Function.update (Function.update f p none) q (some m)) n := by
  have hpq : p ≠ q := by
    rintro rfl
    rw [hp] at hq
    cases hq
  have hcase : ∀ {r k}, Function.update (Function.update f p none) q (some m) r = some k →
      r = q ∧ k = m ∨ r ≠ p ∧ f r = some k := by
    intro r k hr
    by_cases hrq : r = q
    · subst hrq
      rw [Function.update_self] at hr
      exact .inl ⟨rfl, (Option.some.inj hr).symm⟩
    · rw [Function.update_of_ne hrq] at hr
      by_cases hrp : r = p
      · subst hrp
        rw [Function.update_self] at hr
        cases hr
      · rw [Function.update_of_ne hrp] at hr
        exact .inr ⟨hrp, hr⟩
  refine ⟨fun k hk => ?_, fun r k hr => ?_, fun r r' k hr hr' => ?_⟩
  · obtain ⟨r, hr⟩ := h.somewhere k hk
    by_cases hrp : r = p
    · subst hrp
      refine ⟨q, ?_⟩
      rw [Function.update_self, ← hp]
      exact hr
    · have hrq : r ≠ q := by
        rintro rfl
        rw [hq] at hr
        cases hr
      exact ⟨r, by rwa [Function.update_of_ne hrq, Function.update_of_ne hrp]⟩
  · rcases hcase hr with ⟨-, rfl⟩ | ⟨-, hr₁⟩
    · exact h.lt p k hp
    · exact h.lt r k hr₁
  · rcases hcase hr with ⟨rfl, rfl⟩ | ⟨hne, hr₁⟩ <;> rcases hcase hr' with ⟨rfl, hk⟩ | ⟨hne', hr₂⟩
    · rfl
    · exact absurd (h.unique r' p k hr₂ hp) hne'
    · exact absurd (h.unique r p k hr₁ (hk ▸ hp)) hne
    · exact h.unique r r' k hr₁ hr₂

end Placed
