import Mathlib.Data.List.Induction
import Mathlib.Data.List.ReduceOption

/-!
# Retry loops

A loop makes attempts, each over a connection. The first connection is given; behind an attempt that is
worth repeating the loop dials for another one. `Loop P log phase` collects its histories: `log` holds
the attempts with their results and what each dial returned, in order. The limit is tested behind the
dial, so a loop whose last allowed attempt failed dials once more before it gives up. A limit that the
counter of the loop cannot pass is no limit: such a loop never gives up.

`Disciplined` is what one wants of a loop that has ended, `disciplined_iff` says which answers of the
outside give it: all those but the ones on which the loop gives up.
-/

namespace Retry

variable {κ ε : Type*}

/-- An attempt over a connection with its result, or what a dial returned. -/
inductive Entry (κ ε : Type*) where
  | attempted (c : κ) (r : ε)
  | dialed (c : Option κ)

/-- Where a loop stands: in an attempt, in a dial, or at its end. -/
inductive Phase (κ ε : Type*) where
  | trying (c : κ)
  | dialing
  | ended (r : ε)

/-- What a loop goes by: the given connection, the limit of attempts and whether the test of it never
fails, which results are worth another attempt, and the result when there is no connection for it. -/
structure Policy (κ ε : Type*) where
  first : κ
  limit : ℕ
  endless : Bool
  again : ε → Bool
  noConn : ε

/-- The attempts of a history. -/
def attempts (log : List (Entry κ ε)) : List (κ × ε) :=
  log.filterMap fun
    | .attempted c r => some (c, r)
    | .dialed _ => none

/-- What the dials of a history returned. -/
def dials (log : List (Entry κ ε)) : List (Option κ) :=
  log.filterMap fun
    | .attempted _ _ => none
    | .dialed c => some c

variable {P : Policy κ ε} {log l l' : List (Entry κ ε)} {c : κ} {r result : ε}

/-- The histories of the loop. -/
inductive Loop (P : Policy κ ε) : List (Entry κ ε) → Phase κ ε → Prop where
  | start : Loop P [] (.trying P.first)
  | stop {log : List (Entry κ ε)} {c : κ} {r : ε} (h : Loop P log (.trying c))
      (hr : P.again r = false) : Loop P (log ++ [.attempted c r]) (.ended r)
  | again {log : List (Entry κ ε)} {c : κ} {r : ε} (h : Loop P log (.trying c))
      (hr : P.again r = true) : Loop P (log ++ [.attempted c r]) .dialing
  | noConn {log : List (Entry κ ε)} (h : Loop P log .dialing) :
      Loop P (log ++ [.dialed none]) (.ended P.noConn)
  | redial {log : List (Entry κ ε)} {c : κ} (h : Loop P log .dialing)
      (hlimit : P.endless = true ∨ (attempts log).length < P.limit) :
      Loop P (log ++ [.dialed (some c)]) (.trying c)
  | giveUp {log : List (Entry κ ε)} {c c' : κ} {r : ε} (h : Loop P log .dialing)
      (hends : P.endless = false) (hlimit : P.limit ≤ (attempts log).length)
      (hlast : (attempts log).getLast? = some (c', r)) :
      Loop P (log ++ [.dialed (some c)]) (.ended r)

/-- What one wants of a loop that ended with this result: no more attempts than the limit; the first
result that is not worth another attempt is the result, and so is a dial that failed; the error of the
last attempt is the result when the attempts run out; and the connections dialed for are those of the
attempts behind the first, each of one attempt. -/
structure Disciplined (P : Policy κ ε) (log : List (Entry κ ε)) (result : ε) : Prop where
  few : (attempts log).length ≤ P.limit
  stops : ∀ l c r l', log = l ++ .attempted c r :: l' → P.again r = false → l' = [] ∧ result = r
  noConn : ∀ l l', log = l ++ .dialed none :: l' → l' = [] ∧ result = P.noConn
  runsOut : (attempts log).length = P.limit → (∀ a ∈ attempts log, P.again a.2 = true) →
    none ∉ dials log → ∃ c, (attempts log).getLast? = some (c, result)
  used : ((attempts log).map Prod.fst).tail = (dials log).reduceOption

/-! ## Histories entry by entry -/

@[simp]
theorem attempts_nil : attempts ([] : List (Entry κ ε)) = [] := rfl

@[simp]
theorem dials_nil : dials ([] : List (Entry κ ε)) = [] := rfl

@[simp]
theorem attempts_attempted (log : List (Entry κ ε)) (c : κ) (r : ε) :
    attempts (log ++ [.attempted c r]) = attempts log ++ [(c, r)] := by
  simp [attempts]

@[simp]
theorem attempts_dialed (log : List (Entry κ ε)) (d : Option κ) :
    attempts (log ++ [.dialed d]) = attempts log := by
  simp [attempts]

@[simp]
theorem dials_attempted (log : List (Entry κ ε)) (c : κ) (r : ε) :
    dials (log ++ [.attempted c r]) = dials log := by
  simp [dials]

@[simp]
theorem dials_dialed (log : List (Entry κ ε)) (d : Option κ) :
    dials (log ++ [.dialed d]) = dials log ++ [d] := by
  simp [dials]

theorem length_attempts_le (log l : List (Entry κ ε)) :
    (attempts log).length ≤ (attempts (log ++ l)).length := by
  simp [attempts, List.filterMap_append]

theorem mem_attempts : (c, r) ∈ attempts log ↔ .attempted c r ∈ log := by
  constructor
  · intro h
    obtain ⟨x, hx, heq⟩ := List.mem_filterMap.mp h
    cases x with
    | attempted c' r' =>
        cases heq
        exact hx
    | dialed d => cases heq
  · intro h
    exact List.mem_filterMap.mpr ⟨_, h, rfl⟩

theorem mem_dials {d : Option κ} : d ∈ dials log ↔ .dialed d ∈ log := by
  constructor
  · intro h
    obtain ⟨x, hx, heq⟩ := List.mem_filterMap.mp h
    cases x with
    | attempted c' r' => cases heq
    | dialed d =>
        cases heq
        exact hx
  · intro h
    exact List.mem_filterMap.mpr ⟨_, h, rfl⟩

/-- An entry of a history is its last one, or stands before that. -/
theorem last_or_mem {x y : Entry κ ε} (h : log ++ [x] = l ++ y :: l') : l' = [] ∧ x = y ∨ y ∈ log := by
  induction l' using List.reverseRecOn with
  | nil =>
      obtain ⟨-, hlast⟩ := List.append_inj' h rfl
      exact .inl ⟨rfl, List.cons.inj hlast |>.1⟩
  | append_singleton l' z _ =>
      have hcut : log ++ [x] = (l ++ y :: l') ++ [z] := by simpa using h
      obtain ⟨hlog, -⟩ := List.append_inj' hcut rfl
      right
      rw [hlog]
      simp

/-! ## What a history looks like -/

/-- A history up to an attempt over `c`, or up to a dial if there is none: every result so far was worth
another attempt, every dial brought a connection, and the attempts used them in order. -/
structure Going (P : Policy κ ε) (log : List (Entry κ ε)) (current : List κ) : Prop where
  few : P.endless = true ∨ (attempts log).length + current.length ≤ P.limit
  again : ∀ a ∈ attempts log, P.again a.2 = true
  dialed : none ∉ dials log
  used : (attempts log).map Prod.fst ++ current = P.first :: (dials log).reduceOption
  paired : (dials log).length + 1 = (attempts log).length + current.length

/-- How a history ends. -/
inductive Ended (P : Policy κ ε) (log : List (Entry κ ε)) (result : ε) : Prop where
  | stopped (l : List (Entry κ ε)) (c : κ) (hlog : log = l ++ [.attempted c result])
      (hl : Going P l [c]) (hr : P.again result = false)
  | noConn (l : List (Entry κ ε)) (hlog : log = l ++ [.dialed none]) (hl : Going P l [])
      (hr : result = P.noConn)
  | gaveUp (l : List (Entry κ ε)) (c c' : κ) (hlog : log = l ++ [.dialed (some c)])
      (hl : Going P l []) (hends : P.endless = false) (hlimit : P.limit ≤ (attempts l).length)
      (hr : (attempts l).getLast? = some (c', result))

/-- What a history looks like in each phase. -/
def Phase.Shape (P : Policy κ ε) (log : List (Entry κ ε)) : Phase κ ε → Prop
  | .trying c => Going P log [c]
  | .dialing => Going P log []
  | .ended r => Ended P log r

theorem Going.attempted (h : Going P log [c]) (hr : P.again r = true) :
    Going P (log ++ [.attempted c r]) [] where
  few := by
    have hfew := h.few
    simpa using hfew
  again := by
    intro a ha
    rw [attempts_attempted, List.mem_append, List.mem_singleton] at ha
    rcases ha with ha | rfl
    · exact h.again a ha
    · exact hr
  dialed := by
    rw [dials_attempted]
    exact h.dialed
  used := by
    have hused := h.used
    simpa using hused
  paired := by
    have hpaired := h.paired
    simpa using hpaired

theorem Going.redialed (h : Going P log []) (hlimit : P.endless = true ∨ (attempts log).length < P.limit)
    (c : κ) : Going P (log ++ [.dialed (some c)]) [c] where
  few := by
    rw [attempts_dialed]
    exact hlimit
  again := by
    rw [attempts_dialed]
    exact h.again
  dialed := by
    rw [dials_dialed]
    simpa using h.dialed
  used := by
    have hused := h.used
    rw [List.append_nil] at hused
    rw [attempts_dialed, dials_dialed, hused, List.reduceOption_append]
    rfl
  paired := by
    have hpaired := h.paired
    simp only [List.length_nil, Nat.add_zero] at hpaired
    simpa using hpaired

theorem Loop.shape {phase : Phase κ ε} (hpos : 0 < P.limit) (h : Loop P log phase) :
    phase.Shape P log := by
  induction h with
  | start => exact ⟨.inr hpos, by simp, by simp, rfl, rfl⟩
  | stop _ hr ih => exact .stopped _ _ rfl ih hr
  | again _ hr ih => exact Going.attempted ih hr
  | noConn _ ih => exact .noConn _ rfl ih rfl
  | redial _ hlimit ih => exact Going.redialed ih hlimit _
  | giveUp _ hends hlimit hlast ih => exact .gaveUp _ _ _ rfl ih hends hlimit hlast

/-! ## Loops that have ended -/

theorem Ended.few (h : Ended P log result) : P.endless = true ∨ (attempts log).length ≤ P.limit := by
  cases h with
  | stopped l c hlog hl _ =>
      have hfew := hl.few
      rw [hlog]
      simpa using hfew
  | noConn l hlog hl _ =>
      rw [hlog, attempts_dialed]
      exact hl.few
  | gaveUp l c c' hlog hl _ _ _ =>
      rw [hlog, attempts_dialed]
      exact hl.few

theorem Ended.stops (h : Ended P log result) (hlog : log = l ++ .attempted c r :: l')
    (hr : P.again r = false) : l' = [] ∧ result = r := by
  -- an entry before the last one belongs to a loop that went on
  have hgoing : ∀ {l₀ : List (Entry κ ε)} {current : List κ}, Going P l₀ current →
      Entry.attempted c r ∉ l₀ := by
    intro l₀ current hl₀ hmem
    have hagain := hl₀.again _ (mem_attempts.mpr hmem)
    rw [hr] at hagain
    cases hagain
  cases h with
  | stopped l₀ c₀ hlog₀ hl₀ _ =>
      rw [hlog₀] at hlog
      rcases last_or_mem hlog with ⟨hl', hx⟩ | hmem
      · cases hx
        exact ⟨hl', rfl⟩
      · exact absurd hmem (hgoing hl₀)
  | noConn l₀ hlog₀ hl₀ _ =>
      rw [hlog₀] at hlog
      rcases last_or_mem hlog with ⟨_, hx⟩ | hmem
      · cases hx
      · exact absurd hmem (hgoing hl₀)
  | gaveUp l₀ c₀ c' hlog₀ hl₀ _ _ _ =>
      rw [hlog₀] at hlog
      rcases last_or_mem hlog with ⟨_, hx⟩ | hmem
      · cases hx
      · exact absurd hmem (hgoing hl₀)

theorem Ended.of_noConn (h : Ended P log result) (hlog : log = l ++ .dialed none :: l') :
    l' = [] ∧ result = P.noConn := by
  have hgoing : ∀ {l₀ : List (Entry κ ε)} {current : List κ}, Going P l₀ current →
      Entry.dialed none ∉ l₀ := fun hl₀ hmem => hl₀.dialed (mem_dials.mpr hmem)
  cases h with
  | stopped l₀ c₀ hlog₀ hl₀ _ =>
      rw [hlog₀] at hlog
      rcases last_or_mem hlog with ⟨_, hx⟩ | hmem
      · cases hx
      · exact absurd hmem (hgoing hl₀)
  | noConn l₀ hlog₀ hl₀ hr =>
      rw [hlog₀] at hlog
      rcases last_or_mem hlog with ⟨hl', _⟩ | hmem
      · exact ⟨hl', hr⟩
      · exact absurd hmem (hgoing hl₀)
  | gaveUp l₀ c₀ c' hlog₀ hl₀ _ _ _ =>
      rw [hlog₀] at hlog
      rcases last_or_mem hlog with ⟨_, hx⟩ | hmem
      · cases hx
      · exact absurd hmem (hgoing hl₀)

/-- Only a loop that gives up has nothing but results worth another attempt and dials that brought a
connection. -/
theorem Ended.runsOut (h : Ended P log result) (hagain : ∀ a ∈ attempts log, P.again a.2 = true)
    (hdials : none ∉ dials log) : ∃ c, (attempts log).getLast? = some (c, result) := by
  cases h with
  | stopped l c hlog _ hr =>
      have hlast := hagain (c, result) (by rw [hlog]; simp)
      rw [hr] at hlast
      cases hlast
  | noConn l hlog _ _ => exact absurd (by rw [hlog]; simp) hdials
  | gaveUp l c c' hlog _ _ _ hr => exact ⟨c', by rw [hlog, attempts_dialed, hr]⟩

theorem Going.used_tail (h : Going P log []) :
    ((attempts log).map Prod.fst).tail = (dials log).reduceOption := by
  have hused := h.used
  rw [List.append_nil] at hused
  rw [hused, List.tail_cons]

theorem Ended.used_iff (h : Ended P log result) :
    ((attempts log).map Prod.fst).tail = (dials log).reduceOption ↔
      (∃ a ∈ attempts log, P.again a.2 = false) ∨ none ∈ dials log := by
  cases h with
  | stopped l c hlog hl hr =>
      have hused := hl.used
      refine iff_of_true ?_ (.inl ⟨(c, result), by rw [hlog]; simp, hr⟩)
      rw [hlog, attempts_attempted, dials_attempted, List.map_append, List.map_singleton, hused,
        List.tail_cons]
  | noConn l hlog hl _ =>
      refine iff_of_true ?_ (.inr (by rw [hlog]; simp))
      rw [hlog, attempts_dialed, dials_dialed, hl.used_tail, List.reduceOption_append]
      simp
  | gaveUp l c c' hlog hl _ _ _ =>
      refine iff_of_false ?_ ?_
      · -- the connection dialed for last is left over
        rw [hlog, attempts_dialed, dials_dialed, hl.used_tail, List.reduceOption_append]
        simp
      · rw [hlog, attempts_dialed, dials_dialed]
        rintro (⟨a, ha, hr⟩ | hnone)
        · rw [hl.again a ha] at hr
          cases hr
        · rw [List.mem_append] at hnone
          rcases hnone with hnone | hnone
          · exact hl.dialed hnone
          · simp at hnone

/-- A loop has all one wants of it unless it passed the limit or gave up. -/
theorem Ended.disciplined_iff_log (h : Ended P log result) :
    Disciplined P log result ↔
      (attempts log).length ≤ P.limit ∧ ((∃ a ∈ attempts log, P.again a.2 = false) ∨ none ∈ dials log) := by
  rw [← h.used_iff]
  constructor
  · intro hall
    exact ⟨hall.few, hall.used⟩
  · rintro ⟨hfew, hused⟩
    exact ⟨hfew, fun l c r l' hlog hr => h.stops hlog hr, fun l l' hlog => h.of_noConn hlog,
      fun _ hagain hdials => h.runsOut hagain hdials, hused⟩

/-- The history got its answers from these sequences: the results of the attempts and of the dials. -/
structure Answers (results : ℕ → ε) (conns : ℕ → Option κ) (log : List (Entry κ ε)) : Prop where
  attempts : ∀ i a, (attempts log)[i]? = some a → a.2 = results i
  dials : ∀ i d, (dials log)[i]? = some d → d = conns i

/-- An answer on which the loop would have ended has not been asked for yet. -/
theorem Going.length_le {results : ℕ → ε} {conns : ℕ → Option κ} {current : List κ} {l₀ : List (Entry κ ε)}
    (hl : Going P l₀ current) (hans : Answers results conns l₀) {i : ℕ} :
    (P.again (results i) = false → (attempts l₀).length ≤ i) ∧ (conns i = none → (dials l₀).length ≤ i) := by
  constructor
  · intro hr
    by_contra hlt
    have heq := hans.attempts i _ (List.getElem?_eq_getElem (Nat.lt_of_not_le hlt))
    have hagain := hl.again _ (List.getElem_mem (Nat.lt_of_not_le hlt))
    rw [heq, hr] at hagain
    cases hagain
  · intro hnone
    by_contra hlt
    have heq := hans.dials i _ (List.getElem?_eq_getElem (Nat.lt_of_not_le hlt))
    exact hl.dialed (hnone ▸ heq ▸ List.getElem_mem (Nat.lt_of_not_le hlt))

/-- A history is answered from the same sequences up to its last entry. -/
theorem answers_of_snoc {results : ℕ → ε} {conns : ℕ → Option κ} {x : Entry κ ε}
    (h : Answers results conns (log ++ [x])) : Answers results conns log := by
  have hattempts : attempts log <+: attempts (log ++ [x]) := by
    cases x with
    | attempted c r => exact ⟨_, (attempts_attempted log c r).symm⟩
    | dialed d => exact ⟨[], by rw [attempts_dialed, List.append_nil]⟩
  have hdials : dials log <+: dials (log ++ [x]) := by
    cases x with
    | attempted c r => exact ⟨[], by rw [dials_attempted, List.append_nil]⟩
    | dialed d => exact ⟨_, (dials_dialed log d).symm⟩
  constructor
  · intro i a ha
    obtain ⟨hlt, rfl⟩ := List.getElem?_eq_some_iff.mp ha
    exact h.attempts i _ (List.prefix_iff_getElem?.mp hattempts i hlt)
  · intro i d hd
    obtain ⟨hlt, rfl⟩ := List.getElem?_eq_some_iff.mp hd
    exact h.dials i _ (List.prefix_iff_getElem?.mp hdials i hlt)

/-- The same condition on the answers: a loop that goes up to the limit has asked for as many of both kinds
as the limit says. -/
theorem Ended.answers_iff {results : ℕ → ε} {conns : ℕ → Option κ} (h : Ended P log result)
    (hans : Answers results conns log) :
    ((attempts log).length ≤ P.limit ∧ ((∃ a ∈ attempts log, P.again a.2 = false) ∨ none ∈ dials log)) ↔
      (∃ i < P.limit, P.again (results i) = false) ∨ ∃ i < P.limit, conns i = none := by
  cases h with
  | stopped l c hlog hl hr =>
      subst hlog
      have hpaired := hl.paired
      have hlast : (attempts (l ++ [.attempted c result]))[(attempts l).length]? = some (c, result) := by
        rw [attempts_attempted, List.getElem?_concat_length]
      simp only [attempts_attempted, List.length_append, List.length_singleton] at hpaired ⊢
      constructor
      · rintro ⟨hfew, -⟩
        exact .inl ⟨(attempts l).length, by omega, by rw [← hans.attempts _ _ hlast, hr]⟩
      · intro hstop
        refine ⟨?_, .inl ⟨(c, result), by simp, hr⟩⟩
        rcases hstop with ⟨i, hi, hstop⟩ | ⟨i, hi, hstop⟩
        · have hle := (hl.length_le (answers_of_snoc hans)).1 hstop
          omega
        · have hle := (hl.length_le (answers_of_snoc hans)).2 hstop
          omega
  | noConn l hlog hl _ =>
      subst hlog
      have hpaired := hl.paired
      have hlast : (dials (l ++ [.dialed none]))[(dials l).length]? = some none := by
        rw [dials_dialed, List.getElem?_concat_length]
      simp only [attempts_dialed, List.length_nil, Nat.add_zero] at hpaired ⊢
      constructor
      · rintro ⟨hfew, -⟩
        exact .inr ⟨(dials l).length, by omega, (hans.dials _ _ hlast).symm⟩
      · intro hstop
        refine ⟨?_, .inr (by simp)⟩
        rcases hstop with ⟨i, hi, hstop⟩ | ⟨i, hi, hstop⟩
        · have hle := (hl.length_le (answers_of_snoc hans)).1 hstop
          omega
        · have hle := (hl.length_le (answers_of_snoc hans)).2 hstop
          omega
  | gaveUp l c c' hlog hl hends hlimit hr =>
      have hended : Ended P log result := .gaveUp l c c' hlog hl hends hlimit hr
      subst hlog
      have hpaired := hl.paired
      rw [List.length_nil, Nat.add_zero] at hpaired
      refine iff_of_false ?_ ?_
      · rintro ⟨-, hstop⟩
        have hused := hended.used_iff.mpr hstop
        rw [attempts_dialed, dials_dialed, hl.used_tail, List.reduceOption_append] at hused
        simp at hused
      · rintro (⟨i, hi, hstop⟩ | ⟨i, hi, hstop⟩)
        · have hle := (hl.length_le (answers_of_snoc hans)).1 hstop
          omega
        · have hle := (hl.length_le (answers_of_snoc hans)).2 hstop
          obtain rfl : i = (dials l).length := by omega
          have heq := hans.dials (dials l).length (some c) (by rw [dials_dialed, List.getElem?_concat_length])
          rw [hstop] at heq
          cases heq

/-- **Which answers a loop keeps its discipline on**: some attempt within the limit ends it, or some dial
within the limit fails. -/
theorem disciplined_iff {results : ℕ → ε} {conns : ℕ → Option κ} (hpos : 0 < P.limit)
    (h : Loop P log (.ended result)) (hans : Answers results conns log) :
    Disciplined P log result ↔
      (∃ i < P.limit, P.again (results i) = false) ∨ ∃ i < P.limit, conns i = none := by
  have hended : Ended P log result := h.shape hpos
  rw [hended.disciplined_iff_log, hended.answers_iff hans]

/-- How many attempts are under way. -/
def Phase.underWay : Phase κ ε → ℕ
  | .trying _ => 1
  | _ => 0

/-- The attempts made, with the one under way. -/
theorem Loop.few {phase : Phase κ ε} (hpos : 0 < P.limit) (hends : P.endless = false)
    (h : Loop P log phase) : (attempts log).length + phase.underWay ≤ P.limit := by
  have hshape := h.shape hpos
  have hnot : ¬P.endless = true := by simp [hends]
  cases phase with
  | trying c => exact (Going.few hshape).resolve_left hnot
  | dialing => exact (Going.few hshape).resolve_left hnot
  | ended r => exact (Ended.few hshape).resolve_left hnot

end Retry
