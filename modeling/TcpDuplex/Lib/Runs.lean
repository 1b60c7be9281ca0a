import Mathlib.Logic.Relation

/-!
# Guarded runs of a partial step function

A machine is a step function `step : σ → α → Option σ`: `step s a` is the state after action `a`, and
`none` says that `a` is not enabled in `s`. A guard `G : σ → α → Prop` restricts which actions a run
may take, as a condition on the state *before* the step. `GRun step G` collects the finite runs that
respect `G`, and `Run step` the runs with no restriction.

The rules below are the only induction over runs that a development needs: an invariant that holds
at the start and is kept by every guarded step holds at the end (`GRun.invariant`), and a concrete
list of actions that executes is a run (`run_of_exec`).
-/

namespace Machine

variable {σ α : Type*} {step : σ → α → Option σ} {G H : σ → α → Prop} {s t u : σ}

/-- One enabled step whose action meets the guard in the state it starts from. -/
def GStep (step : σ → α → Option σ) (G : σ → α → Prop) (s t : σ) : Prop :=
  ∃ a, G s a ∧ step s a = some t

/-- Finite runs all of whose steps meet the guard. -/
def GRun (step : σ → α → Option σ) (G : σ → α → Prop) : σ → σ → Prop :=
  Relation.ReflTransGen (GStep step G)

/-- Finite runs with no restriction on their steps. -/
def Run (step : σ → α → Option σ) : σ → σ → Prop :=
  GRun step fun _ _ => True

theorem GRun.refl (s : σ) : GRun step G s s := Relation.ReflTransGen.refl

theorem GRun.trans (h : GRun step G s t) (h' : GRun step G t u) : GRun step G s u :=
  Relation.ReflTransGen.trans h h'

theorem GRun.snoc {a : α} (h : GRun step G s t) (hG : G t a) (ha : step t a = some u) :
    GRun step G s u :=
  Relation.ReflTransGen.tail h ⟨a, hG, ha⟩

theorem Run.refl (s : σ) : Run step s s := GRun.refl s

theorem Run.trans (h : Run step s t) (h' : Run step t u) : Run step s u :=
  GRun.trans h h'

theorem Run.snoc {a : α} (h : Run step s t) (ha : step t a = some u) : Run step s u :=
  GRun.snoc h trivial ha

/-- A guarded run is a run. -/
theorem GRun.run (h : GRun step G s t) : Run step s t :=
  Relation.ReflTransGen.mono (fun _ _ ⟨a, _, ha⟩ => ⟨a, trivial, ha⟩) _ _ h

/-- **The invariant rule**: what every guarded step keeps, every guarded run keeps. -/
theorem GRun.invariant {I : σ → Prop}
    (hstep : ∀ s a t, I s → G s a → step s a = some t → I t)
    (h : GRun step G s t) (hs : I s) : I t := by
  induction h with
  | refl => exact hs
  | tail _ hlast ih =>
      obtain ⟨a, hG, ha⟩ := hlast
      exact hstep _ a _ ih hG ha

/-- The invariant rule for unrestricted runs. -/
theorem Run.invariant {I : σ → Prop} (hstep : ∀ s a t, I s → step s a = some t → I t)
    (h : Run step s t) (hs : I s) : I t :=
  GRun.invariant (fun s a t hI _ ha => hstep s a t hI ha) h hs

/-- **The simulation rule**: when the other machine can answer every guarded step by a run of its own that
keeps the two related, it can answer every guarded run. -/
theorem GRun.simulates {σ' α' : Type*} {step' : σ' → α' → Option σ'} {G' : σ' → α' → Prop}
    {R : σ → σ' → Prop} {s' : σ'}
    (hstep : ∀ s a t s', R s s' → G s a → step s a = some t → ∃ t', GRun step' G' s' t' ∧ R t t')
    (h : GRun step G s t) (hs : R s s') : ∃ t', GRun step' G' s' t' ∧ R t t' := by
  refine GRun.invariant (I := fun t => ∃ t', GRun step' G' s' t' ∧ R t t') ?_ h ⟨s', GRun.refl s', hs⟩
  rintro t a u ⟨t', hrun, hR⟩ hG ha
  obtain ⟨u', hrun', hR'⟩ := hstep t a u t' hR hG ha
  exact ⟨u', hrun.trans hrun', hR'⟩

/-! ## Executing a concrete list of actions -/

/-- Take the actions of a list in order, failing on the first one that is not enabled. -/
def exec (step : σ → α → Option σ) : σ → List α → Option σ
  | s, [] => some s
  | s, a :: as => (step s a).bind fun t => exec step t as

/-- A list of actions that executes and meets the guard in every state is a guarded run. -/
theorem grun_of_exec {as : List α} (hG : ∀ a ∈ as, ∀ s, G s a) (h : exec step s as = some t) :
    GRun step G s t := by
  induction as generalizing s with
  | nil =>
      obtain rfl : s = t := by simpa [exec] using h
      exact GRun.refl s
  | cons a as ih =>
      obtain ⟨r, hr, hrest⟩ := Option.bind_eq_some_iff.mp h
      have hrun := ih (fun b hb => hG b (List.mem_cons_of_mem a hb)) hrest
      exact ((GRun.refl s).snoc (hG a List.mem_cons_self s) hr).trans hrun

/-- A list of actions that executes is a run. -/
theorem run_of_exec {as : List α} (h : exec step s as = some t) : Run step s t :=
  grun_of_exec (fun _ _ _ => trivial) h

/-- A list of actions that ends in a state satisfying `p` reaches one. -/
theorem exists_run_of_exec {p : σ → Prop} (as : List α)
    (h : ∃ t, exec step s as = some t ∧ p t) : ∃ t, Run step s t ∧ p t := by
  obtain ⟨t, ht, hp⟩ := h
  exact ⟨t, run_of_exec ht, hp⟩

/-- Take the actions of a list in order, failing on the first one that is not enabled or does not
pass the guard. -/
def gexec (step : σ → α → Option σ) (g : σ → α → Bool) : σ → List α → Option σ
  | s, [] => some s
  | s, a :: as => if g s a then (step s a).bind fun t => gexec step g t as else none

/-- A list of actions that executes under a guard is a guarded run. -/
theorem grun_of_gexec {g : σ → α → Bool} (as : List α) (h : gexec step g s as = some t) :
    GRun step (fun s a => g s a = true) s t := by
  induction as generalizing s with
  | nil =>
      obtain rfl : s = t := by simpa [gexec] using h
      exact GRun.refl s
  | cons a as ih =>
      unfold gexec at h
      split at h
      · rename_i hg
        obtain ⟨r, hr, hrest⟩ := Option.bind_eq_some_iff.mp h
        exact ((GRun.refl s).snoc hg hr).trans (ih hrest)
      · cases h

end Machine
