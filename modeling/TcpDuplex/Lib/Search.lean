import Mathlib.Data.List.Basic

/-!
# The first and the last position in a list

`List.findIdx?` gives the position of the first member with a property, and `findLast` that of the last
one. What a caller wants to know is how the list falls apart there: nothing like it before the first one,
nothing like it behind the last one.
-/

variable {α : Type*} {p : α → Bool} {l : List α} {i : ℕ}

/-- The position of the last member with the property. -/
def findLast (p : α → Bool) : List α → Option ℕ
  | [] => none
  | x :: l =>
    match findLast p l with
    | some i => some (i + 1)
    | none => if p x then some 0 else none

theorem findIdx?_split {a b : List α} {x : α} (ha : ∀ y ∈ a, p y = false) (hx : p x = true) :
    (a ++ x :: b).findIdx? p = some a.length := by
  rw [List.findIdx?_append, List.findIdx?_eq_none_iff.mpr ha, List.findIdx?_cons, if_pos hx]
  simp

theorem exists_of_findIdx? (h : l.findIdx? p = some i) :
    ∃ a x b, l = a ++ x :: b ∧ p x = true ∧ (∀ y ∈ a, p y = false) ∧ i = a.length := by
  obtain ⟨hi, hx, hbefore⟩ := List.findIdx?_eq_some_iff_getElem.mp h
  refine ⟨l.take i, l[i], l.drop (i + 1), ?_, hx, fun y hy => ?_, ?_⟩
  · rw [List.getElem_cons_drop, List.take_append_drop]
  · obtain ⟨j, hj, rfl⟩ := List.getElem_of_mem hy
    rw [List.length_take] at hj
    rw [List.getElem_take]
    simpa using hbefore j (by omega)
  · rw [List.length_take]
    omega

theorem findLast_eq_none (h : ∀ y ∈ l, p y = false) : findLast p l = none := by
  induction l with
  | nil => rfl
  | cons y l ih =>
    rw [findLast, ih fun z hz => h z (List.mem_cons_of_mem y hz)]
    simp [h y List.mem_cons_self]

theorem not_of_findLast_none (h : findLast p l = none) : ∀ y ∈ l, p y = false := by
  induction l with
  | nil => nofun
  | cons y l ih =>
    rw [findLast] at h
    split at h
    · cases h
    · rename_i hl
      intro z hz
      rcases List.mem_cons.mp hz with rfl | hz'
      · by_contra hz
        rw [if_pos (by simpa using hz)] at h
        cases h
      · exact ih hl z hz'

theorem findLast_append {a b : List α} {x : α} (hx : p x = true) (hb : ∀ y ∈ b, p y = false) :
    findLast p (a ++ x :: b) = some a.length := by
  induction a with
  | nil => simp [findLast, findLast_eq_none hb, hx]
  | cons y a ih =>
    rw [List.cons_append, findLast, ih]
    rfl

theorem exists_of_findLast (h : findLast p l = some i) :
    ∃ a x b, l = a ++ x :: b ∧ p x = true ∧ (∀ y ∈ b, p y = false) ∧ i = a.length := by
  induction l generalizing i with
  | nil => cases h
  | cons y l ih =>
    rw [findLast] at h
    split at h
    · rename_i j hj
      obtain ⟨a, x, b, rfl, hx, hb, rfl⟩ := ih hj
      exact ⟨y :: a, x, b, rfl, hx, hb, (Option.some.inj h).symm⟩
    · rename_i hl
      split at h
      · rename_i hy
        exact ⟨[], y, l, rfl, hy, not_of_findLast_none hl, (Option.some.inj h).symm⟩
      · cases h
