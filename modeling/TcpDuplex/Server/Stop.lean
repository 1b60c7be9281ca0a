import TcpDuplex.Lib.Ranking
import TcpDuplex.Server.Workers

/-!
# Stopping a server

`stop` and `close` only set `stopping_` and close the listener. What comes of it: a call that is between
the test of the flag and `emplace_back` still takes one socket on, and no call takes more; and when no new
calls are made, the calls and the threads come to their ends in a bounded number of steps, whatever the
schedule. The exception is a call that is blocked in `accept`: closing the descriptor does not wake it, so it
stays there until the kernel answers, which may take until one more client connects. Handshakes and callbacks
return.
-/

namespace TcpDuplex.Server

open Finset

variable {s t : State}

/-! ## At most one more socket for each call -/

/-- The call has seen that the server is not stopped, and may still take a socket on. -/
def ServePc.inFlight : ServePc → ℕ
  | .accept => 1
  | .blocked => 1
  | .spawn _ => 1
  | _ => 0

/-- How many threads a call has started. -/
def State.startedBy (s : State) (i : ℕ) : ℕ :=
  (List.range s.started).countP fun k => (s.threads k).any fun w => w.caller == i

theorem startedBy_congr {i : ℕ} (hstarted : t.started = s.started)
    (hcaller : ∀ k, (t.threads k).map Worker.caller = (s.threads k).map Worker.caller) :
    t.startedBy i = s.startedBy i := by
  rw [State.startedBy, State.startedBy, hstarted]
  refine List.countP_congr fun k _ => ?_
  have hany : ∀ o : Option Worker,
      (o.any fun w => w.caller == i) = ((o.map Worker.caller).any fun c => c == i) := by
    intro o
    cases o <;> rfl
  rw [hany, hany, hcaller k]

theorem startedBy_spawn {i j sock : ℕ} :
    (s.spawn j sock).startedBy i = s.startedBy i + if j = i then 1 else 0 := by
  have hold : (List.range s.started).countP
      (fun k => ((s.spawn j sock).threads k).any fun w => w.caller == i) = s.startedBy i := by
    refine List.countP_congr fun k hk => ?_
    have hne : k ≠ s.started := (List.mem_range.mp hk).ne
    simp [State.spawn, Function.update_of_ne hne]
  show (List.range (s.started + 1)).countP _ = _
  rw [List.range_succ, List.countP_append, hold]
  simp [State.spawn, List.countP_cons]

/-- A step takes on what was in flight, and sets nothing in flight once the server is stopped. -/
theorem startedBy_step {a : Act} (hstop : s.stopping = true) (h : step s a = some t) (i : ℕ) :
    t.startedBy i + (t.serves i).inFlight ≤ s.startedBy i + (s.serves i).inFlight := by
  have hcall : ∀ {j : ℕ} {pc : ServePc}, pc.inFlight ≤ (s.serves j).inFlight →
      (Function.update s.serves j pc i).inFlight ≤ (s.serves i).inFlight := by
    intro j pc hle
    by_cases hi : i = j
    · subst hi
      rwa [Function.update_self]
    · rw [Function.update_of_ne hi]
  cases step_inv h with
  | callServe _ => exact Nat.add_le_add_left (hcall (Nat.zero_le _)) _
  | callClose _ => exact le_rfl
  | callDtor _ _ => exact le_rfl
  | store _ => exact le_rfl
  | closeListener _ => exact le_rfl
  | dtor h => cases h <;> exact le_rfl
  | worker h =>
      have hsame : ∀ {k : ℕ} {w : Worker} {pc : WorkerPc} {u : State}, s.threads k = some w →
          u.started = s.started → u.serves = s.serves →
          u.threads = Function.update s.threads k (some { w with pc := pc }) →
          u.startedBy i + (u.serves i).inFlight ≤ s.startedBy i + (s.serves i).inFlight := by
        intro k w pc u hw hstarted hserves hthreads
        rw [hserves, startedBy_congr hstarted]
        intro j
        rw [hthreads]
        by_cases hj : j = k
        · subst hj
          simp [hw]
        · rw [Function.update_of_ne hj]
      cases h with
      | connected hw _ => exact hsame hw rfl rfl rfl
      | refused hw _ => exact hsame hw rfl rfl rfl
      | returned hw _ => exact hsame hw rfl rfl rfl
  | @serve j _ _ h =>
      cases h with
      | @spawn sock hpc _ =>
          show (s.spawn j sock).startedBy i + _ ≤ _
          rw [startedBy_spawn]
          by_cases hi : i = j
          · subst hi
            simp [State.setServe, hpc, ServePc.inFlight]
          · rw [if_neg (Ne.symm hi)]
            simp [State.setServe, State.spawn, Function.update_of_ne hi]
      | go hpc hgo =>
          rw [hstop] at hgo
          cases hgo
      | enter _ => exact Nat.add_le_add_left (hcall (Nat.zero_le _)) _
      | refuse _ => exact Nat.add_le_add_left (hcall (Nat.zero_le _)) _
      | stop _ _ => exact Nat.add_le_add_left (hcall (Nat.zero_le _)) _
      | block hpc _ => exact Nat.add_le_add_left (hcall (by rw [hpc]; exact le_rfl)) _
      | closed _ _ => exact Nat.add_le_add_left (hcall (Nat.zero_le _)) _
      | socket hpc => exact Nat.add_le_add_left (hcall (by rw [hpc]; exact le_rfl)) _
      | error _ _ => exact Nat.add_le_add_left (hcall (Nat.zero_le _)) _
      | canceled _ _ => exact Nat.add_le_add_left (hcall (Nat.zero_le _)) _
      | leave _ _ => exact Nat.add_le_add_left (hcall (Nat.zero_le _)) _
      | lock _ _ => exact Nat.add_le_add_left (hcall (Nat.zero_le _)) _
      | joined _ _ _ => exact Nat.add_le_add_left (hcall (Nat.zero_le _)) _
      | skip _ _ _ => exact Nat.add_le_add_left (hcall (Nat.zero_le _)) _
      | clear _ _ => exact Nat.add_le_add_left (hcall (Nat.zero_le _)) _

/-- Nobody takes `stopping_` back. -/
theorem stopping_step {a : Act} (hstop : s.stopping = true) (h : step s a = some t) :
    t.stopping = true := by
  cases step_inv h with
  | callServe _ => exact hstop
  | callClose _ => exact hstop
  | callDtor _ _ => exact hstop
  | store _ => rfl
  | closeListener _ => exact hstop
  | dtor h => cases h <;> first | rfl | exact hstop
  | worker h => cases h <;> exact hstop
  | serve h => cases h <;> exact hstop

/-- Behind `stop`, whatever happens: a call that was between its test of the flag and `emplace_back` starts
at most one more thread, and every other call, made before or after, starts none. -/
theorem at_most_one_after_stop (hstop : s.stopping = true) (h : Machine.Run step s t) (i : ℕ) :
    t.startedBy i ≤ s.startedBy i + (s.serves i).inFlight := by
  have hinv : t.stopping = true ∧
      t.startedBy i + (t.serves i).inFlight ≤ s.startedBy i + (s.serves i).inFlight := by
    refine Machine.Run.invariant (I := fun u => u.stopping = true ∧
      u.startedBy i + (u.serves i).inFlight ≤ s.startedBy i + (s.serves i).inFlight) ?_ h ⟨hstop, le_rfl⟩
    rintro u a v ⟨hu, hle⟩ ha
    exact ⟨stopping_step hu ha, (startedBy_step hu ha i).trans hle⟩
  exact (Nat.le_add_right _ _).trans hinv.2

/-- One call is blocked in `accept` when the server is stopped, and one is at its test of the flag. -/
def stopWhileBlocked : List Act :=
  [.callServe true, .callServe true, .callClose, .serve 0 .none, .serve 0 .none, .serve 0 .none,
   .serve 1 .none, .close 0]

theorem stopWhileBlocked_one_more : ∃ s t, Machine.exec step {} stopWhileBlocked = some s ∧
    s.startedBy 0 = 0 ∧ Machine.Run step s t ∧ t.startedBy 0 = 1 ∧
      t.startedBy 0 ≤ s.startedBy 0 + (s.serves 0).inFlight ∧
      t.startedBy 1 ≤ s.startedBy 1 + (s.serves 1).inFlight := by
  obtain ⟨s, t, hs, hstop, hzero, ht, hone⟩ : ∃ s t, Machine.exec step {} stopWhileBlocked = some s ∧
      s.stopping = true ∧ s.startedBy 0 = 0 ∧
      Machine.exec step s [.serve 0 .socket, .serve 0 .none, .serve 0 .none, .serve 1 .none] = some t ∧
      t.startedBy 0 = 1 :=
    ⟨_, _, rfl, rfl, rfl, rfl, rfl⟩
  have hrun : Machine.Run step s t := Machine.run_of_exec ht
  exact ⟨s, t, hs, hzero, hrun, hone, at_most_one_after_stop hstop hrun 0,
    at_most_one_after_stop hstop hrun 1⟩

/-! ## The way to rest -/

/-- The calls of a program, as against the steps of the calls and the threads that are there. -/
def Act.isCall : Act → Bool
  | .callServe _ => true
  | .callClose => true
  | .callDtor => true
  | _ => false

/-- A server to which no new calls are made. -/
def wind (s : State) (a : Act) : Option State := if a.isCall then none else step s a

theorem wind_inv {a : Act} (h : wind s a = some t) : a.isCall = false ∧ step s a = some t := by
  unfold wind at h
  split at h
  · cases h
  · rename_i hnot
    exact ⟨by simpa using hnot, h⟩

/-- The answer of the kernel to a call that is blocked in `accept`. -/
def Act.isAnswer : Act → Bool
  | .serve _ .socket => true
  | .serve _ (.error _) => true
  | _ => false

/-- Nobody can move without an answer of the kernel. -/
def Still (s : State) : Prop := Machine.Halted wind (fun _ a => a.isAnswer = false) s

/-- Everybody has come to the end, but for calls that are blocked in `accept`. -/
structure Waiting (s : State) : Prop where
  serves : ∀ i < s.serveCalls, (s.serves i).returned = true ∨ s.serves i = .blocked
  closes : ∀ i < s.closeCalls, s.closes i = .done
  threads : ∀ k w, s.threads k = some w → w.pc.isFinished = true
  dtor : s.dtor = .idle ∨ s.dtor = .done

/-- Everybody has come to the end. -/
structure AtRest (s : State) : Prop extends Waiting s where
  returned : ∀ i < s.serveCalls, (s.serves i).returned = true

theorem Waiting.atRest (h : Waiting s) (hblocked : ∀ i, s.serves i ≠ .blocked) : AtRest s :=
  ⟨h, fun i hi => (h.serves i hi).resolve_right (hblocked i)⟩

/-- The listener is closed, and no call is blocked in `accept`. -/
structure Unblocked (s : State) : Prop where
  closed : s.listening = false
  serves : ∀ i, s.serves i ≠ .blocked

/-- A call that comes to `accept` behind the close of the listener is not blocked there. -/
theorem Unblocked.step {a : Act} (hU : Unblocked s) (h : step s a = some t) : Unblocked t := by
  have hcall : ∀ {j : ℕ} {pc : ServePc}, pc ≠ .blocked → ∀ i,
      Function.update s.serves j pc i ≠ .blocked := by
    intro j pc hpc i
    by_cases hi : i = j
    · subst hi
      rwa [Function.update_self]
    · rw [Function.update_of_ne hi]
      exact hU.serves i
  cases step_inv h with
  | callServe _ => exact ⟨hU.closed, hcall nofun⟩
  | callClose _ => exact ⟨hU.closed, hU.serves⟩
  | callDtor _ _ => exact ⟨hU.closed, hU.serves⟩
  | store _ => exact ⟨hU.closed, hU.serves⟩
  | closeListener _ => exact ⟨rfl, hU.serves⟩
  | dtor h => cases h <;> first | exact ⟨hU.closed, hU.serves⟩ | exact ⟨rfl, hU.serves⟩
  | worker h => cases h <;> exact ⟨hU.closed, hU.serves⟩
  | serve h =>
      cases h with
      | block _ hln =>
          rw [hU.closed] at hln
          cases hln
      | socket hpc => exact absurd hpc (hU.serves _)
      | error hpc _ => exact absurd hpc (hU.serves _)
      | enter _ | refuse _ | stop _ _ | go _ _ | closed _ _ | canceled _ _ | leave _ _ | spawn _ _
      | lock _ _ | joined _ _ _ | skip _ _ _ | clear _ _ => exact ⟨hU.closed, hcall nofun⟩

/-- Handles belong to threads, and calls that were not made do nothing. -/
structure Filled (s : State) : Prop where
  thread : ∀ k < s.started, (s.threads k).isSome = true
  handle : ∀ h ∈ s.workers, h.thread < s.started
  length : s.workers.length ≤ s.started
  closes : ∀ i, s.closeCalls ≤ i → s.closes i = .idle

namespace Filled

theorem spawn (hF : Filled s) {i sock : ℕ} : Filled (s.spawn i sock) := by
  refine ⟨fun k hk => ?_, fun h hh => ?_, ?_, hF.closes⟩
  · show (Function.update s.threads s.started _ k).isSome = true
    rcases Nat.lt_succ_iff_lt_or_eq.mp hk with hold | rfl
    · rw [Function.update_of_ne hold.ne]
      exact hF.thread k hold
    · simp
  · rcases List.mem_append.mp hh with hold | hnew
    · exact Nat.lt_succ_of_lt (hF.handle h hold)
    · rw [List.mem_singleton.mp hnew]
      exact Nat.lt_succ_self _
  · show (s.workers ++ [_]).length ≤ s.started + 1
    rw [List.length_append, List.length_singleton]
    exact Nat.succ_le_succ hF.length

theorem joined (hF : Filled s) {pos : ℕ} {h : Handle} (hget : s.workers[pos]? = some h) :
    Filled (s.joined pos h) := by
  refine ⟨hF.thread, fun x hx => ?_, ?_, hF.closes⟩
  · rcases List.mem_or_eq_of_mem_set hx with hold | rfl
    · exact hF.handle x hold
    · exact hF.handle h (List.mem_of_getElem? hget)
  · show (s.workers.set pos _).length ≤ s.started
    rw [List.length_set]
    exact hF.length

theorem clear (hF : Filled s) : Filled s.clearWorkers := ⟨hF.thread, nofun, Nat.zero_le _, hF.closes⟩

theorem work (hF : Filled s) {k : ℕ} {w : Worker} {conn : List ℕ} :
    Filled { s with threads := Function.update s.threads k (some w), connected := conn } := by
  refine ⟨fun j hj => ?_, hF.handle, hF.length, hF.closes⟩
  show (Function.update s.threads k _ j).isSome = true
  by_cases hjk : j = k
  · subst hjk
    simp
  · rw [Function.update_of_ne hjk]
    exact hF.thread j hj

/-- A step that touches neither the threads nor the calls of `close`. -/
theorem frame (hF : Filled s) (hthreads : t.threads = s.threads) (hstarted : t.started = s.started)
    (hworkers : t.workers = s.workers) (hcalls : t.closeCalls = s.closeCalls)
    (hcloses : t.closes = s.closes) : Filled t := by
  refine ⟨?_, ?_, ?_, ?_⟩
  · rw [hthreads, hstarted]
    exact hF.thread
  · rw [hworkers, hstarted]
    exact hF.handle
  · rw [hworkers, hstarted]
    exact hF.length
  · rw [hcalls, hcloses]
    exact hF.closes

/-- A call of `close` that was made goes on. -/
theorem close (hF : Filled s) {i : ℕ} {pc : ClosePc} (hpc : s.closes i ≠ .idle) (j : ℕ)
    (hj : s.closeCalls ≤ j) : Function.update s.closes i pc j = .idle := by
  have hne : j ≠ i := fun hji => hpc (hji ▸ hF.closes j hj)
  rw [Function.update_of_ne hne]
  exact hF.closes j hj

theorem step {a : Act} (hF : Filled s) (h : step s a = some t) : Filled t := by
  cases step_inv h with
  | callServe _ => exact hF.frame rfl rfl rfl rfl rfl
  | callClose _ =>
      refine ⟨hF.thread, hF.handle, hF.length, fun i hi => ?_⟩
      have hi' : s.closeCalls + 1 ≤ i := hi
      show Function.update s.closes s.closeCalls _ i = .idle
      rw [Function.update_of_ne (by omega)]
      exact hF.closes i (by omega)
  | callDtor _ _ => exact hF.frame rfl rfl rfl rfl rfl
  | store hpc => exact ⟨hF.thread, hF.handle, hF.length, hF.close (by simp [hpc])⟩
  | closeListener hpc => exact ⟨hF.thread, hF.handle, hF.length, hF.close (by simp [hpc])⟩
  | serve h =>
      cases h with
      | spawn _ _ => exact hF.spawn.frame rfl rfl rfl rfl rfl
      | joined _ hget _ => exact (hF.joined hget).frame rfl rfl rfl rfl rfl
      | clear _ _ => exact hF.clear.frame rfl rfl rfl rfl rfl
      | _ => exact hF.frame rfl rfl rfl rfl rfl
  | dtor h =>
      cases h with
      | joined _ hget _ => exact (hF.joined hget).frame rfl rfl rfl rfl rfl
      | clear _ _ => exact hF.clear.frame rfl rfl rfl rfl rfl
      | _ => exact hF.frame rfl rfl rfl rfl rfl
  | worker h =>
      cases h with
      | connected _ _ => exact hF.work
      | refused _ _ => exact hF.work.frame rfl rfl rfl rfl rfl
      | returned _ _ => exact hF.work.frame rfl rfl rfl rfl rfl

end Filled

theorem Reachable.filled (h : Reachable s) : Filled s := by
  refine Machine.Run.invariant (fun _ _ _ hs ha => hs.step ha) h ?_
  exact ⟨nofun, nofun, le_rfl, fun _ _ => rfl⟩

/-- A call that was made is not idle. -/
structure Begun (s : State) : Prop where
  serves : ∀ i < s.serveCalls, s.serves i ≠ .idle
  closes : ∀ i < s.closeCalls, s.closes i ≠ .idle

theorem Begun.step {a : Act} (hB : Begun s) (h : step s a = some t) : Begun t := by
  have hclose : ∀ {i : ℕ} {pc : ClosePc}, pc ≠ .idle → ∀ j < s.closeCalls,
      Function.update s.closes i pc j ≠ .idle := by
    intro i pc hpc j hj
    by_cases hji : j = i
    · subst hji
      rwa [Function.update_self]
    · rw [Function.update_of_ne hji]
      exact hB.closes j hj
  cases step_inv h with
  | callServe _ =>
      refine ⟨fun i hi => ?_, hB.closes⟩
      show Function.update s.serves s.serveCalls _ i ≠ .idle
      rcases Nat.lt_succ_iff_lt_or_eq.mp hi with hold | rfl
      · rw [Function.update_of_ne hold.ne]
        exact hB.serves i hold
      · rw [Function.update_self]
        nofun
  | callClose _ =>
      refine ⟨hB.serves, fun i hi => ?_⟩
      show Function.update s.closes s.closeCalls _ i ≠ .idle
      rcases Nat.lt_succ_iff_lt_or_eq.mp hi with hold | rfl
      · rw [Function.update_of_ne hold.ne]
        exact hB.closes i hold
      · rw [Function.update_self]
        nofun
  | callDtor _ _ => exact ⟨hB.serves, hB.closes⟩
  | store _ => exact ⟨hB.serves, hclose nofun⟩
  | closeListener _ => exact ⟨hB.serves, hclose nofun⟩
  | @serve i _ _ h =>
      have hcalls : t.serveCalls = s.serveCalls ∧ t.closeCalls = s.closeCalls ∧ t.closes = s.closes := by
        cases h <;> exact ⟨rfl, rfl, rfl⟩
      obtain ⟨pc, hm⟩ := h.move
      refine ⟨fun j hj => ?_, ?_⟩
      · rw [hm.serves]
        by_cases hji : j = i
        · subst hji
          rw [Function.update_self]
          rintro rfl
          cases hm.entered
        · rw [Function.update_of_ne hji]
          exact hB.serves j (hcalls.1 ▸ hj)
      · rw [hcalls.2.1, hcalls.2.2]
        exact hB.closes
  | dtor h => cases h <;> exact ⟨hB.serves, hB.closes⟩
  | worker h => cases h <;> exact ⟨hB.serves, hB.closes⟩

theorem Reachable.begun (h : Reachable s) : Begun s :=
  Machine.Run.invariant (fun _ _ _ hs ha => hs.step ha) h ⟨nofun, nofun⟩

/-- Where nobody can move, everybody is at rest or in `accept`. The one that joins waits for a thread that can
go on, and the mutex is held by one that joins. -/
theorem waiting_of_still (hS : Sound s) (hF : Filled s) (hB : Begun s) (h : Still s) : Waiting s := by
  have halt : ∀ a, a.isAnswer = false → a.isCall = false → step s a = none := by
    intro a hanswer ha
    have hnone := h a hanswer
    rwa [wind, ha] at hnone
  have hthreads : ∀ k w, s.threads k = some w → w.pc.isFinished = true := by
    intro k w hw
    have hnone := halt (.worker k true) rfl rfl
    cases hpc : w.pc with
    | finished c => rfl
    | _ => simp [step, workerStep, hw, hpc] at hnone
  have hjoin : ∀ pos hd, s.workers[pos]? = some hd → (s.joinAt pos hd).isSome = true := by
    intro pos hd hget
    have hlt := hF.handle hd (List.mem_of_getElem? hget)
    obtain ⟨w, hw⟩ := Option.isSome_iff_exists.mp (hF.thread _ hlt)
    have hfin : s.isFinished hd.thread = true := by
      rw [State.isFinished, hw]
      exact hthreads _ w hw
    rw [State.joinAt, if_pos hfin]
    split <;> rfl
  -- nobody is in a join loop, so the mutex is free
  have hserve : ∀ i ec pos, s.serves i ≠ .join ec pos := by
    intro i ec pos hpc
    have hnone := halt (.serve i .none) rfl rfl
    simp only [step, serveStep, hpc] at hnone
    split at hnone
    · rename_i hd hget
      have hsome := hjoin pos hd hget
      rw [Option.map_eq_none_iff] at hnone
      rw [hnone] at hsome
      cases hsome
    · cases hnone
  have hdtor : ∀ pos, s.dtor ≠ .join pos := by
    intro pos hpc
    have hnone := halt .dtor rfl rfl
    simp only [step, dtorStep, hpc] at hnone
    split at hnone
    · rename_i hd hget
      have hsome := hjoin pos hd hget
      rw [Option.map_eq_none_iff] at hnone
      rw [hnone] at hsome
      cases hsome
    · cases hnone
  have hfree : s.workersMu = none := by
    by_contra hmu
    obtain ⟨u, hu⟩ := Option.ne_none_iff_exists'.mp hmu
    have hheld := Owned.holds_of_eq hS.locked hu
    cases u with
    | serve i =>
        cases hpc : s.serves i with
        | join ec pos => exact hserve i ec pos hpc
        | _ => simp [State.holds, hpc, ServePc.holds] at hheld
    | dtor =>
        cases hpc : s.dtor with
        | join pos => exact hdtor pos hpc
        | _ => simp [State.holds, hpc, DtorPc.holds] at hheld
  refine ⟨fun i hi => ?_, fun i hi => ?_, hthreads, ?_⟩
  · have hnone := halt (.serve i .none) rfl rfl
    cases hpc : s.serves i with
    | done ec => exact .inl rfl
    | idle => exact absurd hpc (hB.serves i hi)
    | join ec pos => exact absurd hpc (hserve i ec pos)
    | blocked => exact .inr rfl
    | _ => simp [step, serveStep, hpc, hfree] at hnone
  · have hnone := halt (.close i) rfl rfl
    cases hpc : s.closes i with
    | done => rfl
    | idle => exact absurd hpc (hB.closes i hi)
    | _ => simp [step, closeStep, hpc] at hnone
  · have hnone := halt .dtor rfl rfl
    cases hpc : s.dtor with
    | idle => exact .inl rfl
    | done => exact .inr rfl
    | join pos => exact absurd hpc (hdtor pos)
    | _ => simp [step, dtorStep, hpc, hfree] at hnone

/-- Where the kernel has answered as well, everybody is at rest. -/
theorem atRest_of_halted (hS : Sound s) (hF : Filled s) (hB : Begun s)
    (h : Machine.Halted wind (fun _ _ => True) s) : AtRest s := by
  refine (waiting_of_still hS hF hB fun a _ => h a trivial).atRest fun i hpc => ?_
  have hnone := h (.serve i .socket) trivial
  simp [wind, Act.isCall, step, serveStep, hpc] at hnone

/-! ## The length of the way -/

/-- How many handles there will be at most. -/
def State.load (s : State) : ℕ := s.started + ∑ i ∈ range s.serveCalls, (s.serves i).inFlight

/-- How many steps a call of `serve` has before it on a stopped server, where `m` bounds the handles. The
two steps of a thread that it starts count for the call until then. -/
def ServePc.rank (m : ℕ) : ServePc → ℕ
  | .idle => 0
  | .start _ => m + 4
  | .loop => m + 3
  | .accept => m + 8
  | .blocked => m + 7
  | .spawn _ => m + 6
  | .failed _ => m + 3
  | .lock _ => m + 2
  | .join _ pos => m - pos + 1
  | .done _ => 0

def ClosePc.rank : ClosePc → ℕ
  | .store => 2
  | .closeListener => 1
  | _ => 0

def DtorPc.rank (m : ℕ) : DtorPc → ℕ
  | .idle => 0
  | .store again => if again then m + 4 else m + 6
  | .closeListener again => if again then m + 3 else m + 5
  | .lock => m + 2
  | .join pos => m - pos + 1
  | .done => 0

def WorkerPc.rank : WorkerPc → ℕ
  | .handshake => 2
  | .callback => 1
  | .finished _ => 0

def threadRank (o : Option Worker) : ℕ := (o.map fun w => w.pc.rank).getD 0

def State.rank (s : State) : ℕ :=
  (∑ i ∈ range s.serveCalls, (s.serves i).rank s.load) + (∑ k ∈ range s.started, threadRank (s.threads k))
    + (∑ i ∈ range s.closeCalls, (s.closes i).rank) + s.dtor.rank s.load

theorem ServePc.rank_mono {m n : ℕ} (h : m ≤ n) (pc : ServePc) : pc.rank m ≤ pc.rank n := by
  cases pc <;> simp only [ServePc.rank] <;> omega

theorem DtorPc.rank_mono {m n : ℕ} (h : m ≤ n) (pc : DtorPc) : pc.rank m ≤ pc.rank n := by
  cases pc with
  | store again => cases again <;> simpa [DtorPc.rank] using h
  | closeListener again => cases again <;> simpa [DtorPc.rank] using h
  | _ =>
      simp only [DtorPc.rank]
      omega

/-- A call of `serve` takes a step: its own rank falls by more than the threads' rank grows. -/
theorem rank_serve {i : ℕ} {pc : ServePc} {d : ℕ} (hi : i < s.serveCalls) (hload : t.load ≤ s.load)
    (hcalls : t.serveCalls = s.serveCalls) (hserves : t.serves = Function.update s.serves i pc)
    (hthreads : ∑ k ∈ range t.started, threadRank (t.threads k) ≤
      ∑ k ∈ range s.started, threadRank (s.threads k) + d)
    (hcloses : t.closes = s.closes ∧ t.closeCalls = s.closeCalls) (hdtor : t.dtor = s.dtor)
    (hpc : pc.rank s.load + d < (s.serves i).rank s.load) : t.rank < s.rank := by
  have hsum : ∑ j ∈ range t.serveCalls, (t.serves j).rank t.load ≤
      ∑ j ∈ range s.serveCalls, (Function.update s.serves i pc j).rank s.load := by
    rw [hcalls, hserves]
    exact sum_le_sum fun j _ => ServePc.rank_mono hload _
  have hupdate := Machine.sum_update (ServePc.rank s.load) s.serves hi pc
  have hd : t.dtor.rank t.load ≤ s.dtor.rank s.load := by
    rw [hdtor]
    exact DtorPc.rank_mono hload _
  rw [State.rank, State.rank, hcloses.1, hcloses.2]
  omega

/-- The same for a call that starts no thread. -/
theorem rank_move {i : ℕ} {pc : ServePc} (hi : i < s.serveCalls) (hstarted : t.started = s.started)
    (hthreads : t.threads = s.threads) (hcalls : t.serveCalls = s.serveCalls)
    (hserves : t.serves = Function.update s.serves i pc)
    (hcloses : t.closes = s.closes ∧ t.closeCalls = s.closeCalls) (hdtor : t.dtor = s.dtor)
    (hflight : pc.inFlight ≤ (s.serves i).inFlight)
    (hpc : pc.rank s.load < (s.serves i).rank s.load) : t.rank < s.rank := by
  have hload : t.load ≤ s.load := by
    have hupdate := Machine.sum_update ServePc.inFlight s.serves hi pc
    rw [State.load, State.load, hstarted, hcalls, hserves]
    omega
  refine rank_serve (d := 0) hi hload hcalls hserves ?_ hcloses hdtor hpc
  rw [hstarted, hthreads]
  exact le_rfl

theorem rank_spawn {i sock : ℕ} (hi : i < s.serveCalls) (hpc : s.serves i = .spawn sock) :
    ((s.spawn i sock).setServe i .loop).rank < s.rank := by
  have hload : ((s.spawn i sock).setServe i .loop).load ≤ s.load := by
    have hupdate := Machine.sum_update ServePc.inFlight s.serves hi .loop
    rw [hpc] at hupdate
    show s.started + 1 + ∑ j ∈ range s.serveCalls, (Function.update s.serves i .loop j).inFlight ≤ _
    simp only [State.load, ServePc.inFlight] at hupdate ⊢
    omega
  refine rank_serve (d := 2) hi hload rfl rfl ?_ ⟨rfl, rfl⟩ rfl ?_
  · show ∑ k ∈ range (s.started + 1),
      threadRank (Function.update s.threads s.started (some ⟨sock, i, .handshake⟩) k) ≤ _
    rw [sum_range_succ, Function.update_self]
    refine Nat.add_le_add (sum_le_sum fun k hk => ?_) le_rfl
    rw [Function.update_of_ne (mem_range.mp hk).ne]
  · rw [hpc]
    simp [ServePc.rank]

theorem rank_serveTrans (hF : Filled s) (hN : Numbered s) (hstop : s.stopping = true) {i : ℕ}
    (h : ServeTrans s i t) : t.rank < s.rank := by
  have hi : i < s.serveCalls := by
    by_contra hge
    have hidle := hN i (Nat.le_of_not_lt hge)
    cases h <;> simp_all
  have hbound : s.workers.length ≤ s.load := hF.length.trans (Nat.le_add_right _ _)
  have hjoin : ∀ {ec : ErrorCode} {pos : ℕ} {hd : Handle}, s.workers[pos]? = some hd →
      (ServePc.join ec (pos + 1)).rank s.load < (ServePc.join ec pos).rank s.load := by
    intro ec pos hd hget
    have hlt := (List.getElem?_eq_some_iff.mp hget).1
    simp only [ServePc.rank]
    omega
  cases h with
  | spawn hpc _ => exact rank_spawn hi hpc
  | go _ hgo =>
      rw [hstop] at hgo
      cases hgo
  | joined hpc hget _ =>
      exact rank_move hi rfl rfl rfl rfl ⟨rfl, rfl⟩ rfl (Nat.zero_le _) (by rw [hpc]; exact hjoin hget)
  | skip hpc hget _ =>
      exact rank_move hi rfl rfl rfl rfl ⟨rfl, rfl⟩ rfl (Nat.zero_le _) (by rw [hpc]; exact hjoin hget)
  | block hpc _ =>
      exact rank_move hi rfl rfl rfl rfl ⟨rfl, rfl⟩ rfl (by rw [hpc]; exact le_rfl)
        (by simp [hpc, ServePc.rank])
  | socket hpc =>
      exact rank_move hi rfl rfl rfl rfl ⟨rfl, rfl⟩ rfl (by rw [hpc]; exact le_rfl)
        (by simp [hpc, ServePc.rank])
  | lock hpc _ =>
      exact rank_move hi rfl rfl rfl rfl ⟨rfl, rfl⟩ rfl (Nat.zero_le _) (by simp [hpc, ServePc.rank])
  | enter hpc | refuse hpc | stop hpc _ | closed hpc _ | error hpc _ | canceled hpc _ | leave hpc _
  | clear hpc _ =>
      exact rank_move hi rfl rfl rfl rfl ⟨rfl, rfl⟩ rfl (Nat.zero_le _) (by simp [hpc, ServePc.rank])

theorem rank_dtorTrans (hF : Filled s) (h : DtorTrans s t) : t.rank < s.rank := by
  have hload : t.load = s.load := by cases h <;> rfl
  have hrest : t.rank + s.dtor.rank s.load = s.rank + t.dtor.rank s.load := by
    have hparts : t.serveCalls = s.serveCalls ∧ t.serves = s.serves ∧ t.started = s.started ∧
        t.threads = s.threads ∧ t.closeCalls = s.closeCalls ∧ t.closes = s.closes := by
      cases h <;> exact ⟨rfl, rfl, rfl, rfl, rfl, rfl⟩
    obtain ⟨h₁, h₂, h₃, h₄, h₅, h₆⟩ := hparts
    rw [State.rank, State.rank, hload, h₁, h₂, h₃, h₄, h₅, h₆]
    omega
  have hbound : s.workers.length ≤ s.load := hF.length.trans (Nat.le_add_right _ _)
  suffices hdtor : t.dtor.rank s.load < s.dtor.rank s.load by omega
  cases h with
  | @store again hpc => cases again <;> simp [hpc, DtorPc.rank]
  | once hpc => simp [hpc, DtorPc.rank]
  | twice hpc => simp [hpc, DtorPc.rank]
  | lock hpc _ => simp [hpc, DtorPc.rank]
  | joined hpc hget _ =>
      have hlt := (List.getElem?_eq_some_iff.mp hget).1
      simp only [hpc, DtorPc.rank]
      omega
  | skip hpc hget _ =>
      have hlt := (List.getElem?_eq_some_iff.mp hget).1
      simp only [hpc, DtorPc.rank]
      omega
  | clear hpc _ => simp [hpc, DtorPc.rank]

theorem rank_workerTrans (hT : Tracked s) {k : ℕ} (h : WorkerTrans s k t) : t.rank < s.rank := by
  have hwork : ∀ {w : Worker} {pc : WorkerPc} {u : State}, s.threads k = some w → pc.rank < w.pc.rank →
      u.threads = Function.update s.threads k (some { w with pc := pc }) → u.started = s.started →
      u.serves = s.serves → u.serveCalls = s.serveCalls → u.closes = s.closes →
      u.closeCalls = s.closeCalls → u.dtor = s.dtor → u.rank < s.rank := by
    intro w pc u hw hpc hthreads hstarted hserves hcalls hcloses hcloseCalls hdtor
    have hk := hT.lt_started hw
    have hupdate := Machine.sum_update threadRank s.threads hk (some { w with pc := pc })
    rw [hw] at hupdate
    simp only [threadRank, Option.map_some, Option.getD_some] at hupdate
    have hload : u.load = s.load := by rw [State.load, State.load, hstarted, hserves, hcalls]
    rw [State.rank, State.rank, hload, hthreads, hstarted, hserves, hcalls, hcloses, hcloseCalls, hdtor]
    simp only [threadRank]
    omega
  cases h with
  | connected hw hpc => exact hwork hw (by rw [hpc]; decide) rfl rfl rfl rfl rfl rfl rfl
  | refused hw hpc => exact hwork hw (by rw [hpc]; decide) rfl rfl rfl rfl rfl rfl rfl
  | returned hw hpc => exact hwork hw (by rw [hpc]; decide) rfl rfl rfl rfl rfl rfl rfl

/-- On a stopped server every step leads on. -/
theorem rank_wind {a : Act} (hS : Sound s) (hF : Filled s) (hstop : s.stopping = true)
    (h : wind s a = some t) : t.rank < s.rank := by
  obtain ⟨hcall, h⟩ := wind_inv h
  have hclose : ∀ {i : ℕ} {pc : ClosePc} {u : State}, s.closes i ≠ .idle →
      pc.rank < (s.closes i).rank → u.closes = Function.update s.closes i pc →
      u.closeCalls = s.closeCalls → u.threads = s.threads → u.started = s.started →
      u.serves = s.serves → u.serveCalls = s.serveCalls → u.dtor = s.dtor → u.rank < s.rank := by
    intro i pc u hidle hpc hcloses hcloseCalls hthreads hstarted hserves hcalls hdtor
    have hi : i < s.closeCalls := by
      by_contra hge
      exact hidle (hF.closes i (Nat.le_of_not_lt hge))
    have hupdate := Machine.sum_update ClosePc.rank s.closes hi pc
    have hload : u.load = s.load := by rw [State.load, State.load, hstarted, hserves, hcalls]
    rw [State.rank, State.rank, hload, hthreads, hstarted, hserves, hcalls, hcloses, hcloseCalls, hdtor]
    omega
  cases step_inv h with
  | callServe _ => cases hcall
  | callClose _ => cases hcall
  | callDtor _ _ => cases hcall
  | store hpc =>
      exact hclose (by simp [hpc]) (by rw [hpc]; decide) rfl rfl rfl rfl rfl rfl rfl
  | closeListener hpc =>
      exact hclose (by simp [hpc]) (by rw [hpc]; decide) rfl rfl rfl rfl rfl rfl rfl
  | serve h => exact rank_serveTrans hF hS.numbered hstop h
  | dtor h => exact rank_dtorTrans hF h
  | worker h => exact rank_workerTrans hS.tracked h

/-- The bound in terms of the calls, the threads and the sockets that may still be taken on. -/
theorem rank_le (s : State) :
    s.rank ≤ (s.serveCalls + 1) * (s.load + 8) + 2 * s.started + 2 * s.closeCalls := by
  have hserves : ∑ i ∈ range s.serveCalls, (s.serves i).rank s.load ≤ s.serveCalls * (s.load + 8) := by
    refine (sum_le_card_nsmul _ _ (s.load + 8) fun i _ => ?_).trans (by simp)
    cases s.serves i <;> simp only [ServePc.rank] <;> omega
  have hthreads : ∑ k ∈ range s.started, threadRank (s.threads k) ≤ s.started * 2 := by
    refine (sum_le_card_nsmul _ _ 2 fun k _ => ?_).trans (by simp)
    cases s.threads k with
    | none => exact Nat.zero_le _
    | some w => cases hpc : w.pc <;> simp [threadRank, hpc, WorkerPc.rank]
  have hcloses : ∑ i ∈ range s.closeCalls, (s.closes i).rank ≤ s.closeCalls * 2 := by
    refine (sum_le_card_nsmul _ _ 2 fun i _ => ?_).trans (by simp)
    cases s.closes i <;> simp [ClosePc.rank]
  have hdtor : s.dtor.rank s.load ≤ s.load + 8 := by
    cases s.dtor with
    | store again => cases again <;> simp [DtorPc.rank]
    | closeListener again => cases again <;> simp [DtorPc.rank]
    | _ =>
        simp only [DtorPc.rank]
        omega
  rw [State.rank, Nat.add_mul, Nat.one_mul]
  omega

/-- A stopped server comes to rest, but for calls that are blocked in `accept`. When no new calls are made, a
run has a bounded number of steps, whatever the schedule and whatever `accept`, the handshakes and the
callbacks come to. Without any answer of the kernel it can always be continued until all threads have ended
and all calls have returned or are blocked in `accept`, and it gets stuck nowhere else; no call is blocked
there if none was when the listener was closed. Where the kernel answers, all calls return. -/
theorem stopped_server_comes_to_rest (h : Reachable s) (hstop : s.stopping = true) {as : List Act}
    (hrun : Machine.exec wind s as = some t) :
    as.length ≤ (s.serveCalls + 1) * (s.load + 8) + 2 * s.started + 2 * s.closeCalls ∧
      (∃ u, Machine.GRun wind (fun _ a => a.isAnswer = false) t u ∧ Still u ∧ Waiting u) ∧
      (Still t → Waiting t ∧ (Unblocked s → AtRest t)) ∧
      ∃ u, Machine.Run wind t u ∧ AtRest u := by
  let I : State → Prop := fun u => Reachable u ∧ u.stopping = true
  have hI : ∀ u a v, I u → wind u a = some v → I v := by
    rintro u a v ⟨hu, hstopu⟩ ha
    have hstep := (wind_inv ha).2
    exact ⟨Machine.Run.snoc hu hstep, stopping_step hstopu hstep⟩
  have hrank : ∀ u a v, I u → wind u a = some v → v.rank < u.rank := by
    rintro u a v ⟨hu, hstopu⟩ ha
    exact rank_wind hu.sound hu.filled hstopu ha
  have ht : I t := Machine.Run.invariant hI (Machine.run_of_exec hrun) ⟨h, hstop⟩
  have hwait : ∀ u, I u → Still u → Waiting u := by
    intro u hu hstill
    exact waiting_of_still hu.1.sound hu.1.filled hu.1.begun hstill
  refine ⟨?_, ?_, fun hstill => ⟨hwait t ht hstill, fun hU => ?_⟩, ?_⟩
  · have hlen := Machine.length_add_rank_le hI hrank ⟨h, hstop⟩ hrun
    have hbound := rank_le s
    omega
  · obtain ⟨u, hu, hstill⟩ := Machine.exists_halted hI hrank (fun _ a => a.isAnswer = false) ht
    exact ⟨u, hu, hstill, hwait u (Machine.Run.invariant hI hu.run ht) hstill⟩
  · have hUt : Unblocked t := Machine.Run.invariant (I := Unblocked)
      (fun _ _ _ hu ha => hu.step (wind_inv ha).2) (Machine.run_of_exec hrun) hU
    exact (hwait t ht hstill).atRest hUt.serves
  · obtain ⟨u, hu, hhalt⟩ := Machine.exists_halted hI hrank (fun _ _ => True) ht
    have hIu := Machine.Run.invariant hI hu ht
    exact ⟨u, hu, atRest_of_halted hIu.1.sound hIu.1.filled hIu.1.begun hhalt⟩

/-- The call that was blocked when the server was stopped keeps waiting; one more client, and all returns. -/
theorem stopWhileBlocked_comes_to_rest : ∃ s t, Reachable s ∧
    Machine.exec wind s [.close 0, .serve 1 .none, .serve 1 .none, .serve 1 .none] = some t ∧
      t.serves 0 = .blocked ∧ (t.serves 1).returned = true ∧ (Still t → Waiting t) ∧
      ∃ u, Machine.Run wind t u ∧ AtRest u := by
  obtain ⟨s, t, hs, hstop, ht, hblocked, hreturned⟩ :
      ∃ s t, Machine.exec step {} stopWhileBlocked = some s ∧ s.stopping = true ∧
        Machine.exec wind s [.close 0, .serve 1 .none, .serve 1 .none, .serve 1 .none] = some t ∧
        t.serves 0 = .blocked ∧ (t.serves 1).returned = true :=
    ⟨_, _, rfl, rfl, rfl, rfl, rfl⟩
  have hreach : Reachable s := Machine.run_of_exec hs
  obtain ⟨-, -, hstill, hrest⟩ := stopped_server_comes_to_rest hreach hstop ht
  exact ⟨s, t, hreach, ht, hblocked, hreturned, fun h => (hstill h).1, hrest⟩

/-! ## What `serve` returns -/

/-- Why `accept` delivered nothing: the listener was closed, or the system call left this in `errno`. -/
inductive Refusal where
  | closed
  | errno (e : Int32)

def Refusal.code : Refusal → ErrorCode
  | .closed => Errc.closed.code
  | .errno e => lastSocketError e

/-- A server with what happened in its calls of `serve`. -/
structure Journal where
  now : State := {}
  /-- Was the call given a callback? -/
  given : ℕ → Option Bool := fun _ => none
  /-- How `accept` failed in the call. -/
  refused : ℕ → Option Refusal := fun _ => none

def Journal.refuse (j : Journal) (t : State) (i : ℕ) (r : Refusal) : Journal :=
  { j with now := t, refused := Function.update j.refused i (some r) }

/-- The server goes on to `t`, and what the action did in a call of `serve` is written down. -/
def Journal.note (j : Journal) (t : State) : Act → Journal
  | .callServe onConnect =>
    { j with now := t, given := Function.update j.given j.now.serveCalls (some onConnect) }
  | .serve i .none =>
    if j.now.serves i = .accept ∧ j.now.listening = false then j.refuse t i .closed
    else { j with now := t }
  | .serve i (.error e) => j.refuse t i (.errno e)
  | _ => { j with now := t }

def journalStep (j : Journal) (a : Act) : Option Journal := (step j.now a).map fun t => j.note t a

/-- The history of a server from `listen` on. -/
def Recorded (j : Journal) : Prop := Machine.Run journalStep {} j

/-- A call that was let in leaves its loop: it saw that the server is stopped, or `accept` had failed. -/
structure Left (stopping : Bool) (given : Option Bool) (refused : Option Refusal) (ec : ErrorCode) :
    Prop where
  given : given = some true
  why : refused = none ∧ stopping = true ∧ ec = .success ∨
    ∃ r, refused = some r ∧ SocketError r.code ∧
      (stopping = true ∧ ec = Errc.canceled.code ∨ ec = r.code)

/-- The history of a call, by where it is. -/
def Explained (stopping : Bool) (given : Option Bool) (refused : Option Refusal) : ServePc → Prop
  | .idle => refused = none
  | .start onConnect => given = some onConnect ∧ refused = none
  | .loop | .accept | .blocked | .spawn _ => given = some true ∧ refused = none
  | .failed ec => given = some true ∧ ∃ r, refused = some r ∧ SocketError r.code ∧ ec = r.code
  | .lock ec => Left stopping given refused ec
  | .join ec _ => Left stopping given refused ec
  | .done ec =>
    given = some false ∧ refused = none ∧ ec = Errc.other.code ∨ Left stopping given refused ec

section Explained

variable {stopping stopping' : Bool} {given : Option Bool} {refused : Option Refusal}

theorem Left.mono {ec : ErrorCode} (hstop : stopping = true → stopping' = true)
    (h : Left stopping given refused ec) : Left stopping' given refused ec := by
  refine ⟨h.given, h.why.imp ?_ ?_⟩
  · rintro ⟨hnone, hs, hec⟩
    exact ⟨hnone, hstop hs, hec⟩
  · rintro ⟨r, hr, hsock, hec⟩
    exact ⟨r, hr, hsock, hec.imp_left fun ⟨hs, hec⟩ => ⟨hstop hs, hec⟩⟩

theorem Explained.mono {pc : ServePc} (hstop : stopping = true → stopping' = true)
    (h : Explained stopping given refused pc) : Explained stopping' given refused pc := by
  cases pc with
  | lock ec => exact Left.mono hstop h
  | join ec pos => exact Left.mono hstop h
  | done ec => exact Or.imp_right (Left.mono hstop) h
  | _ => exact h

end Explained

variable {j k : Journal}

/-- The history of every call explains where it is. -/
def Journal.Explains (j : Journal) : Prop :=
  ∀ i, Explained j.now.stopping (j.given i) (j.refused i) (j.now.serves i)

/-- Nothing is written down about a call that does not move. -/
theorem explained_of_same {t : State} {i : ℕ} (hE : j.Explains)
    (hstop : j.now.stopping = true → t.stopping = true) (hserves : t.serves i = j.now.serves i) :
    Explained t.stopping (j.given i) (j.refused i) (t.serves i) := by
  rw [hserves]
  exact (hE i).mono hstop

/-- No call moves. -/
theorem explained_frame {t : State} (hE : j.Explains)
    (hstop : j.now.stopping = true → t.stopping = true) (hserves : t.serves = j.now.serves) :
    Journal.Explains { j with now := t } :=
  fun i => explained_of_same (j := j) hE hstop (congrFun hserves i)

/-- A call moves, and `accept` has not failed in the step. -/
theorem explained_move {t : State} {i : ℕ} {pc : ServePc} (hE : j.Explains)
    (hstop : j.now.stopping = true → t.stopping = true)
    (hserves : t.serves = Function.update j.now.serves i pc)
    (hpc : Explained t.stopping (j.given i) (j.refused i) pc) :
    Journal.Explains { j with now := t } := by
  intro i'
  by_cases hi : i' = i
  · subst hi
    show Explained t.stopping (j.given i') (j.refused i') (t.serves i')
    rwa [hserves, Function.update_self]
  · refine explained_of_same (j := j) hE hstop ?_
    rw [hserves, Function.update_of_ne hi]

/-- `accept` fails in a call. -/
theorem explained_refuse {t : State} {i : ℕ} {r : Refusal} (hE : j.Explains)
    (hgiven : j.given i = some true) (hsock : SocketError r.code)
    (hstop : j.now.stopping = true → t.stopping = true)
    (hserves : t.serves = Function.update j.now.serves i (.failed r.code)) :
    (j.refuse t i r).Explains := by
  intro i'
  by_cases hi : i' = i
  · subst hi
    simp only [Journal.refuse, hserves, Function.update_self]
    exact ⟨hgiven, r, rfl, hsock, rfl⟩
  · simp only [Journal.refuse, Function.update_of_ne hi]
    refine explained_of_same hE hstop ?_
    rw [hserves, Function.update_of_ne hi]

/-- The step of a call of `serve`. -/
theorem explained_serve {i : ℕ} {io : AcceptIo} {t : State} (hE : j.Explains)
    (h : serveStep j.now i io = some t) : (j.note t (.serve i io)).Explains := by
  have hi := hE i
  cases io with
  | error e =>
      simp only [serveStep] at h
      split at h
      · rename_i hpc
        split at h
        · cases h
        · rename_i he
          cases h
          rw [hpc] at hi
          exact explained_refuse hE hi.1 (socketError_lastSocketError he) id rfl
      · cases h
  | socket =>
      simp only [serveStep] at h
      split at h
      · rename_i hpc
        cases h
        rw [hpc] at hi
        exact explained_move (t := { j.now.setServe i (.spawn j.now.sockets) with
          sockets := j.now.sockets + 1 }) hE id rfl hi
      · cases h
  | none =>
      simp only [Journal.note]
      have htrans := serveStep_inv h
      split_ifs with haccept
      · -- the listener is closed in front of the system call
        obtain ⟨hpc, hln⟩ := haccept
        rw [hpc] at hi
        simp only [serveStep, hpc, hln, Bool.false_eq_true, if_false, Option.some.injEq] at h
        subst h
        exact explained_refuse hE hi.1 socketError_closed id rfl
      · cases htrans with
        | enter hpc =>
            rw [hpc] at hi
            exact explained_move hE id rfl hi
        | refuse hpc =>
            rw [hpc] at hi
            exact explained_move hE id rfl (.inl ⟨hi.1, hi.2, rfl⟩)
        | stop hpc hstop =>
            rw [hpc] at hi
            exact explained_move hE id rfl ⟨hi.1, .inl ⟨hi.2, hstop, rfl⟩⟩
        | go hpc _ | block hpc _ =>
            rw [hpc] at hi
            exact explained_move hE id rfl hi
        | closed hpc hln => exact absurd ⟨hpc, hln⟩ haccept
        | socket hpc => simp [serveStep, hpc] at h
        | error hpc _ => simp [serveStep, hpc] at h
        | spawn hpc _ =>
            rw [hpc] at hi
            exact explained_move hE id rfl hi
        | canceled hpc hstop =>
            rw [hpc] at hi
            obtain ⟨hgiven, r, hr, hsock, -⟩ := hi
            exact explained_move hE id rfl ⟨hgiven, .inr ⟨r, hr, hsock, .inl ⟨hstop, rfl⟩⟩⟩
        | leave hpc _ =>
            rw [hpc] at hi
            obtain ⟨hgiven, r, hr, hsock, hec⟩ := hi
            exact explained_move hE id rfl ⟨hgiven, .inr ⟨r, hr, hsock, .inr hec⟩⟩
        | lock hpc _ | joined hpc _ _ | skip hpc _ _ =>
            rw [hpc] at hi
            exact explained_move hE id rfl hi
        | clear hpc _ =>
            rw [hpc] at hi
            exact explained_move hE id rfl (.inr hi)

theorem Journal.Explains.step {a : Act} (hE : j.Explains) (hN : Numbered j.now)
    (h : journalStep j a = some k) : k.Explains := by
  obtain ⟨t, ht, rfl⟩ := Option.map_eq_some_iff.mp h
  have hstop : j.now.stopping = true → t.stopping = true := fun hs => stopping_step hs ht
  cases a with
  | serve i io => exact explained_serve hE ht
  | callServe onConnect =>
      cases step_inv ht with
      | callServe _ =>
          intro i
          by_cases hi : i = j.now.serveCalls
          · subst hi
            have hidle := hE j.now.serveCalls
            rw [hN _ le_rfl] at hidle
            simp only [Journal.note, State.setServe, Function.update_self]
            exact ⟨rfl, hidle⟩
          · simp only [Journal.note, State.setServe, Function.update_of_ne hi]
            exact hE i
  | callClose =>
      cases step_inv ht with
      | callClose _ => exact explained_frame hE hstop rfl
  | callDtor =>
      cases step_inv ht with
      | callDtor _ _ => exact explained_frame hE hstop rfl
  | close i =>
      cases step_inv ht with
      | store _ => exact explained_frame hE hstop rfl
      | closeListener _ => exact explained_frame hE hstop rfl
  | dtor =>
      cases step_inv ht with
      | dtor h => cases h <;> exact explained_frame hE hstop rfl
  | worker k ok =>
      cases step_inv ht with
      | worker h => cases h <;> exact explained_frame hE hstop rfl

/-- The states of a recorded run are those of the runs without a record. -/
theorem Recorded.reachable (h : Recorded j) : Reachable j.now := by
  have hstart : Reachable ({} : Journal).now := Machine.Run.refl _
  refine Machine.Run.invariant (I := fun k => Reachable k.now) ?_ h hstart
  intro k a l hk ha
  obtain ⟨t, ht, rfl⟩ := Option.map_eq_some_iff.mp ha
  have hnow : (k.note t a).now = t := by
    unfold Journal.note
    split <;> try rfl
    split <;> rfl
  rw [hnow]
  exact Machine.Run.snoc hk ht

theorem Recorded.explains (h : Recorded j) : j.Explains := by
  have hinv : Recorded j ∧ j.Explains := by
    refine Machine.Run.invariant (I := fun k => Recorded k ∧ k.Explains) ?_ h
      ⟨Machine.Run.refl _, fun _ => rfl⟩
    rintro k a l ⟨hk, hE⟩ ha
    exact ⟨Machine.Run.snoc hk ha, hE.step hk.reachable.sound.numbered ha⟩
  exact hinv.2

/-- `serve(on_connect)` throws what `serve(on_connect, ec)` returned; it reads `stopping_` again for that. -/
def serveThrows (stopping : Bool) (ec : ErrorCode) : Bool :=
  ec.failed && (ec != Errc.closed.code) && !stopping

theorem run_stopping (h : Machine.Run step s t) (hstop : s.stopping = true) : t.stopping = true :=
  Machine.Run.invariant (I := fun u => u.stopping = true) (fun _ _ _ hs ha => stopping_step hs ha) h hstop

theorem ne_other_of_socketError {ec : ErrorCode} (h : SocketError ec) : ec ≠ Errc.other.code := by
  rintro rfl
  rcases h.2 with h | h | h
  · exact absurd h (by decide)
  · exact absurd h (by decide)
  · exact absurd h (by decide)

/-- A call of `serve` returns `other` if and only if it was given no callback. A call with a callback returns
success if it saw the server stopped before `accept` had failed in it; if `accept` has failed, it returns that
very error, or `canceled`, and this on a stopped server only. Whenever the other overload reads the flag after
that, it throws for want of a callback and for errors of `accept` but `closed`, and never on a stopped server:
`canceled` is not thrown. -/
theorem serve_result (h : Recorded j) {i : ℕ} {ec : ErrorCode} (hdone : j.now.serves i = .done ec)
    (hrun : Machine.Run step j.now t) :
    (ec = Errc.other.code ↔ j.given i = some false) ∧
      (j.given i = some true →
        j.refused i = none ∧ j.now.stopping = true ∧ ec = .success ∨
          ∃ r, j.refused i = some r ∧
            (j.now.stopping = true ∧ ec = Errc.canceled.code ∨ ec = r.code)) ∧
      (serveThrows t.stopping ec = true ↔
        t.stopping = false ∧
          (j.given i = some false ∨ ∃ r, j.refused i = some r ∧ r.code ≠ Errc.closed.code)) := by
  have hE : j.given i = some false ∧ j.refused i = none ∧ ec = Errc.other.code ∨
      Left j.now.stopping (j.given i) (j.refused i) ec := by
    have hexpl := h.explains i
    rwa [hdone] at hexpl
  have hthrows : serveThrows t.stopping ec = true ↔
      t.stopping = false ∧ ec.failed = true ∧ ec ≠ Errc.closed.code := by
    simp only [serveThrows, Bool.and_eq_true, bne_iff_ne, Bool.not_eq_true']
    exact and_comm
  rw [hthrows]
  rcases hE with ⟨hgiven, hnone, rfl⟩ | ⟨hgiven, hwhy⟩
  · refine ⟨iff_of_true rfl hgiven, fun htrue => ?_, and_congr_right fun _ => ?_⟩
    · rw [hgiven] at htrue
      cases htrue
    · exact iff_of_true ⟨by decide, by decide⟩ (.inl hgiven)
  · have hnot : j.given i ≠ some false := by simp [hgiven]
    have hgo : t.stopping = false → j.now.stopping = false := by
      intro ht
      by_contra hs
      rw [run_stopping hrun (by simpa using hs)] at ht
      cases ht
    rcases hwhy with ⟨hnone, hstop, rfl⟩ | ⟨r, hr, hsock, hec⟩
    · refine ⟨iff_of_false (by decide) hnot, fun _ => .inl ⟨hnone, hstop, rfl⟩, ?_⟩
      refine and_congr_right fun _ => iff_of_false (fun hfail => by cases hfail.1) ?_
      rintro (hfalse | ⟨r, hr, -⟩)
      · exact hnot hfalse
      · rw [hnone] at hr
        cases hr
    · refine ⟨iff_of_false ?_ hnot, fun _ => .inr ⟨r, hr, hec⟩, and_congr_right fun ht => ?_⟩
      · rcases hec with ⟨-, rfl⟩ | rfl
        · decide
        · exact ne_other_of_socketError hsock
      · obtain rfl : ec = r.code := by
          rcases hec with ⟨hs, -⟩ | hec
          · rw [hgo ht] at hs
            cases hs
          · exact hec
        constructor
        · rintro ⟨-, hclosed⟩
          exact .inr ⟨r, hr, hclosed⟩
        · rintro (hfalse | ⟨r', hr', hclosed⟩)
          · exact absurd hfalse hnot
          · obtain rfl : r = r' := Option.some.inj (hr.symm.trans hr')
            exact ⟨hsock.1, hclosed⟩

/-- `accept` fails with `EMFILE`, and nobody has stopped the server. -/
theorem accept_emfile_throws : ∃ j, Recorded j ∧ j.now.serves 0 = .done ⟨24, .generic⟩ ∧
    j.refused 0 = some (.errno 24) ∧ serveThrows j.now.stopping ⟨24, .generic⟩ = true := by
  obtain ⟨j, hj, hdone, hstop, hrefused⟩ : ∃ j, Machine.exec journalStep {}
      [.callServe true, .serve 0 .none, .serve 0 .none, .serve 0 .none, .serve 0 (.error 24),
       .serve 0 .none, .serve 0 .none, .serve 0 .none] = some j ∧
      j.now.serves 0 = .done ⟨24, .generic⟩ ∧ j.now.stopping = false ∧
      j.refused 0 = some (.errno 24) :=
    ⟨_, rfl, rfl, rfl, rfl⟩
  have hrun : Recorded j := Machine.run_of_exec hj
  refine ⟨j, hrun, hdone, hrefused,
    (serve_result hrun hdone (Machine.Run.refl j.now)).2.2.mpr ⟨hstop, .inr ?_⟩⟩
  exact ⟨.errno 24, hrefused, by decide⟩

end TcpDuplex.Server
