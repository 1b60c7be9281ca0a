import Mathlib.Data.List.Basic

/-!
# Interleavings that grow at the end

`Interleave l r m` says that `m` merges `l` and `r`, each in its own order. A history grows at its
end, so the constructors append: whoever moves adds its element to its own list and to the merge.
-/

/-- `m` is a merge of `l` and `r` that keeps the order of both. -/
inductive Interleave {α : Type*} : List α → List α → List α → Prop
  | nil : Interleave [] [] []
  | left {l r m : List α} (x : α) (h : Interleave l r m) : Interleave (l ++ [x]) r (m ++ [x])
  | right {l r m : List α} (x : α) (h : Interleave l r m) : Interleave l (r ++ [x]) (m ++ [x])

/-- Nothing is lost and nothing is repeated. -/
theorem Interleave.length_eq {α : Type*} {l r m : List α} (h : Interleave l r m) :
    m.length = l.length + r.length := by
  induction h with
  | nil => rfl
  | left x _ ih =>
      simp only [List.length_append, List.length_singleton]
      omega
  | right x _ ih =>
      simp only [List.length_append, List.length_singleton]
      omega
