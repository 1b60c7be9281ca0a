import TcpDuplex.Lib.Ownership
import TcpDuplex.Server.State

/-!
# The threads of a server

Two questions about every interleaving. Who has a socket: from `accept` on it is in one pair of hands,
first those of the call of `serve` and then those of one thread, and `on_connect` is called for it once
if its handshake succeeded and else not at all. And who waits for whom: a call of `serve` returns when
all threads it started have returned, and no handle is ever destroyed while its thread may run.
-/

namespace TcpDuplex.Server

variable {s t : State}

/-! ## `workers_mu_` -/

def ServePc.holds : ServePc → Bool
  | .join _ _ => true
  | _ => false

def DtorPc.holds : DtorPc → Bool
  | .join _ => true
  | _ => false

/-- Who holds `workers_mu_`, by its counter. -/
def State.holds (s : State) : Tid → Bool
  | .serve i => (s.serves i).holds
  | .dtor => s.dtor.holds

/-- A call moves on without touching the mutex. -/
theorem holds_setServe {i : ℕ} {pc : ServePc} (h : pc.holds = (s.serves i).holds) (u : Tid) :
    (s.setServe i pc).holds u = s.holds u := by
  cases u with
  | serve j =>
      by_cases hj : j = i
      · subst hj
        simpa [State.holds, State.setServe] using h
      · simp [State.holds, State.setServe, hj]
  | dtor => rfl

theorem holds_setServe_of_ne {i : ℕ} {pc : ServePc} {u : Tid} (hu : u ≠ .serve i) :
    (s.setServe i pc).holds u = s.holds u := by
  cases u with
  | serve j =>
      have hj : j ≠ i := fun hj => hu (by rw [hj])
      simp [State.holds, State.setServe, hj]
  | dtor => rfl

/-- The recorded owner is the one that is in a join loop. -/
def Locked (s : State) : Prop := Owned s.workersMu s.holds

theorem Locked.serve {i : ℕ} (hL : Locked s) (h : ServeTrans s i t) : Locked t := by
  -- the call keeps the mutex, or has nothing to do with it
  have move : ∀ {c : ServePc} {u : State}, c.holds = (s.serves i).holds →
      u.workersMu = s.workersMu → u.serves = (s.setServe i c).serves → u.dtor = s.dtor →
      Locked u := by
    intro c u hpc hmu hserves hdtor
    rw [Locked, hmu]
    refine hL.frame fun v => ?_
    rw [← holds_setServe hpc v]
    cases v with
    | serve j => simp only [State.holds, hserves]
    | dtor => simp only [State.holds, hdtor]; rfl
  cases h with
  | lock hpc hmu =>
      rw [Locked, hmu] at hL
      refine hL.acquire (t := .serve i) ?_ fun u hu => ?_
      · simp [State.holds, State.setServe, ServePc.holds]
      · exact holds_setServe_of_ne hu
  | clear hpc hend =>
      refine Owned.release (t := .serve i) hL ?_ ?_ fun u hu => ?_
      · simp [State.holds, hpc, ServePc.holds]
      · simp [State.holds, State.setServe, ServePc.holds]
      · exact (holds_setServe_of_ne hu).trans rfl
  | enter hpc => exact move (c := .loop) (by rw [hpc]; rfl) rfl rfl rfl
  | refuse hpc => exact move (c := .done _) (by rw [hpc]; rfl) rfl rfl rfl
  | stop hpc => exact move (c := .lock _) (by rw [hpc]; rfl) rfl rfl rfl
  | go hpc => exact move (c := .accept) (by rw [hpc]; rfl) rfl rfl rfl
  | block hpc => exact move (c := .blocked) (by rw [hpc]; rfl) rfl rfl rfl
  | closed hpc => exact move (c := .failed _) (by rw [hpc]; rfl) rfl rfl rfl
  | socket hpc => exact move (c := .spawn _) (by rw [hpc]; rfl) rfl rfl rfl
  | error hpc => exact move (c := .failed _) (by rw [hpc]; rfl) rfl rfl rfl
  | canceled hpc => exact move (c := .lock _) (by rw [hpc]; rfl) rfl rfl rfl
  | leave hpc => exact move (c := .lock _) (by rw [hpc]; rfl) rfl rfl rfl
  | spawn hpc => exact move (c := .loop) (by rw [hpc]; rfl) rfl rfl rfl
  | joined hpc => exact move (c := .join _ _) (by rw [hpc]; rfl) rfl rfl rfl
  | skip hpc => exact move (c := .join _ _) (by rw [hpc]; rfl) rfl rfl rfl

theorem Locked.dtor (hL : Locked s) (h : DtorTrans s t) : Locked t := by
  have move : ∀ {u : State}, u.dtor.holds = s.dtor.holds → u.workersMu = s.workersMu →
      u.serves = s.serves → Locked u := by
    intro u hdtor hmu hserves
    rw [Locked, hmu]
    refine hL.frame fun v => ?_
    cases v with
    | serve j => simp only [State.holds, hserves]
    | dtor => exact hdtor
  cases h with
  | lock hpc hmu =>
      rw [Locked, hmu] at hL
      refine hL.acquire (t := .dtor) ?_ fun u hu => ?_
      · rfl
      · cases u with
        | serve j => rfl
        | dtor => exact absurd rfl hu
  | clear hpc hend =>
      refine Owned.release (t := .dtor) hL ?_ rfl fun u hu => ?_
      · simp [State.holds, hpc, DtorPc.holds]
      · cases u with
        | serve j => rfl
        | dtor => exact absurd rfl hu
  | store hpc => exact move (by rw [hpc]; rfl) rfl rfl
  | once hpc => exact move (by rw [hpc]; rfl) rfl rfl
  | twice hpc => exact move (by rw [hpc]; rfl) rfl rfl
  | joined hpc => exact move (by rw [hpc]; rfl) rfl rfl
  | skip hpc => exact move (by rw [hpc]; rfl) rfl rfl

/-- A call has a number that no call had before. -/
def Numbered (s : State) : Prop := ∀ i, s.serveCalls ≤ i → s.serves i = .idle

theorem Numbered.step {a : Act} (hN : Numbered s) (h : step s a = some t) : Numbered t := by
  have hset : ∀ {i : ℕ} {pc : ServePc}, s.serves i ≠ .idle → ∀ j, s.serveCalls ≤ j →
      Function.update s.serves i pc j = .idle := by
    intro i pc hi j hj
    have hne : j ≠ i := fun hji => hi (hji ▸ hN j hj)
    rw [Function.update_of_ne hne]
    exact hN j hj
  cases step_inv h with
  | callServe hd =>
      intro i hi
      have hne : i ≠ s.serveCalls := fun heq => absurd hi (by simp [heq])
      show Function.update s.serves s.serveCalls _ i = .idle
      rw [Function.update_of_ne hne]
      exact hN i (Nat.le_of_succ_le hi)
  | serve h => cases h <;> exact hset (by simp [*])
  | callClose => exact hN
  | callDtor => exact hN
  | store => exact hN
  | closeListener => exact hN
  | dtor h => cases h <;> exact hN
  | worker h => cases h <;> exact hN

theorem Locked.step {a : Act} (hL : Locked s) (hN : Numbered s) (h : step s a = some t) : Locked t := by
  cases step_inv h with
  | callServe hd =>
      refine hL.frame fun u => holds_setServe ?_ u
      rw [hN _ le_rfl]
      rfl
  | callClose hd => exact hL
  | callDtor hd _ =>
      refine hL.frame fun u => ?_
      cases u with
      | serve j => rfl
      | dtor => simp [State.holds, hd, DtorPc.holds]
  | serve h => exact hL.serve h
  | store _ => exact hL
  | closeListener _ => exact hL
  | dtor h => exact hL.dtor h
  | worker h => cases h <;> exact hL

/-! ## Handles and threads -/

def ServePc.joinPos : ServePc → Option ℕ
  | .join _ pos => some pos
  | _ => none

def DtorPc.joinPos : DtorPc → Option ℕ
  | .join pos => some pos
  | _ => none

/-- How far a join loop has come. -/
def State.joinPos (s : State) : Tid → Option ℕ
  | .serve i => (s.serves i).joinPos
  | .dtor => s.dtor.joinPos

theorem holds_of_joinPos {u : Tid} {pos : ℕ} (h : s.joinPos u = some pos) : s.holds u = true := by
  cases u with
  | serve i =>
      simp only [State.joinPos] at h
      simp only [State.holds]
      cases hpc : s.serves i <;> rw [hpc] at h <;> first | rfl | cases h
  | dtor =>
      simp only [State.joinPos] at h
      simp only [State.holds]
      cases hpc : s.dtor <;> rw [hpc] at h <;> first | rfl | cases h

/-- A thread has a handle in `workers_` until it is joined, and it is joined when it has returned. -/
structure Tracked (s : State) : Prop where
  fresh : ∀ k, s.started ≤ k → s.threads k = none
  tracked : ∀ k < s.started, s.isFinished k = true ∨ ⟨k, true⟩ ∈ s.workers
  joined : ∀ h ∈ s.workers, h.joinable = false → s.isFinished h.thread = true
  /-- A join loop has joined what is behind it. -/
  behind : ∀ u pos, s.joinPos u = some pos → ∀ h ∈ s.workers.take pos, h.joinable = false
  terminated : s.terminated = false

/-- A thread that is there was started. -/
theorem Tracked.lt_started (hT : Tracked s) {k : ℕ} {w : Worker} (hw : s.threads k = some w) :
    k < s.started := by
  by_contra hge
  rw [hT.fresh k (Nat.le_of_not_lt hge)] at hw
  cases hw

theorem mem_take_set {α : Type*} {l : List α} {n : ℕ} {a x : α} (h : x ∈ (l.set n a).take (n + 1)) :
    x = a ∨ x ∈ l.take n := by
  rw [List.take_add_one, List.take_set_of_le le_rfl] at h
  rcases List.mem_append.mp h with hold | hnew
  · exact .inr hold
  · by_cases hn : n < l.length
    · rw [List.getElem?_set_self hn] at hnew
      exact .inl (by simpa using hnew)
    · rw [List.getElem?_eq_none (by simpa using hn)] at hnew
      cases hnew

theorem mem_set_of_ne {α : Type*} {l : List α} {n : ℕ} {a b x : α} (hx : x ∈ l)
    (hget : l[n]? = some b) (hne : x ≠ b) : x ∈ l.set n a := by
  obtain ⟨j, hj⟩ := List.mem_iff_getElem?.mp hx
  have hjn : n ≠ j := by
    rintro rfl
    exact hne (Option.some.inj (hj.symm.trans hget))
  exact List.mem_of_getElem? ((List.getElem?_set_ne hjn).trans hj)

namespace Tracked

/-- At the end of a join loop all handles are joined. -/
theorem all_joined (hT : Tracked s) {u : Tid} {pos : ℕ} (hpos : s.joinPos u = some pos)
    (hend : s.workers[pos]? = none) : ∀ h ∈ s.workers, h.joinable = false := by
  have hall := hT.behind u pos hpos
  rwa [List.take_of_length_le (List.getElem?_eq_none_iff.mp hend)] at hall

/-- So all threads have returned. -/
theorem all_finished (hT : Tracked s) {u : Tid} {pos : ℕ} (hpos : s.joinPos u = some pos)
    (hend : s.workers[pos]? = none) : ∀ k < s.started, s.isFinished k = true := by
  intro k hk
  rcases hT.tracked k hk with hfin | hmem
  · exact hfin
  · exact absurd (hT.all_joined hpos hend _ hmem) (by simp)

/-- A step that leaves handles and threads alone, and lets no join loop go further. -/
theorem frame (hT : Tracked s) (hthreads : t.threads = s.threads) (hstarted : t.started = s.started)
    (hworkers : t.workers = s.workers) (hterm : t.terminated = s.terminated)
    (hpos : ∀ u pos, t.joinPos u = some pos → s.joinPos u = some pos ∨ pos = 0) : Tracked t := by
  have hfin : ∀ k, t.isFinished k = s.isFinished k := fun k => by
    simp only [State.isFinished, hthreads]
  refine ⟨?_, ?_, ?_, ?_, hterm.trans hT.terminated⟩
  · rw [hstarted, hthreads]
    exact hT.fresh
  · simp only [hstarted, hworkers, hfin]
    exact hT.tracked
  · simp only [hworkers, hfin]
    exact hT.joined
  · intro u pos hu h hh
    rcases hpos u pos hu with hold | rfl
    · rw [hworkers] at hh
      exact hT.behind u pos hold h hh
    · simp at hh

/-- A call of `serve` moves on outside its join loop, or to the start of it. -/
theorem move (hT : Tracked s) {i : ℕ} {c : ServePc} (hpc : c.joinPos = none ∨ c.joinPos = some 0) :
    Tracked (s.setServe i c) := by
  refine hT.frame rfl rfl rfl rfl fun u pos hu => ?_
  cases u with
  | dtor => exact .inl hu
  | serve j =>
      by_cases hj : j = i
      · subst hj
        simp only [State.joinPos, State.setServe, Function.update_self] at hu
        rcases hpc with hnone | hzero
        · rw [hnone] at hu
          cases hu
        · rw [hzero] at hu
          exact .inr (Option.some.inj hu).symm
      · simp only [State.joinPos, State.setServe, Function.update_of_ne hj] at hu
        exact .inl hu

/-- A join loop takes one handle further. -/
theorem joinNext (hT : Tracked s) (hL : Locked s) {u : Tid} {pos : ℕ} {w : List Handle}
    (hu : s.joinPos u = some pos) (ht : t.joinPos u = some (pos + 1))
    (hrest : ∀ v, v ≠ u → t.joinPos v = s.joinPos v) (hthreads : t.threads = s.threads)
    (hstarted : t.started = s.started) (hworkers : t.workers = w) (hterm : t.terminated = s.terminated)
    (hkeep : ∀ k, ⟨k, true⟩ ∈ s.workers → s.isFinished k = true ∨ ⟨k, true⟩ ∈ w)
    (hjoined : ∀ h ∈ w, h.joinable = false → s.isFinished h.thread = true)
    (htake : ∀ x ∈ w.take (pos + 1), x.joinable = false) : Tracked t := by
  have hfin : ∀ k, t.isFinished k = s.isFinished k := fun k => by
    simp only [State.isFinished, hthreads]
  subst hworkers
  refine ⟨?_, ?_, ?_, ?_, hterm.trans hT.terminated⟩
  · rw [hstarted, hthreads]
    exact hT.fresh
  · intro k hk
    rw [hstarted] at hk
    rw [hfin]
    exact (hT.tracked k hk).elim .inl (hkeep k)
  · simp only [hfin]
    exact hjoined
  · intro v pos' hv
    -- only one loop runs
    by_cases hvu : v = u
    · subst hvu
      obtain rfl := Option.some.inj (ht.symm.trans hv)
      exact htake
    · rw [hrest v hvu] at hv
      exact absurd (Owned.unique hL (holds_of_joinPos hv) (holds_of_joinPos hu)) hvu

/-- The handle at `pos` is joined. -/
theorem joinOne (hT : Tracked s) (hL : Locked s) {u : Tid} {pos : ℕ} {h : Handle}
    (hu : s.joinPos u = some pos) (hget : s.workers[pos]? = some h)
    (hfin : s.isFinished h.thread = true) (ht : t.joinPos u = some (pos + 1))
    (hrest : ∀ v, v ≠ u → t.joinPos v = s.joinPos v) (hthreads : t.threads = s.threads)
    (hstarted : t.started = s.started)
    (hworkers : t.workers = s.workers.set pos { h with joinable := false })
    (hterm : t.terminated = s.terminated) : Tracked t := by
  refine hT.joinNext hL hu ht hrest hthreads hstarted hworkers hterm ?_ ?_ ?_
  · intro k hk
    by_cases hkh : (⟨k, true⟩ : Handle) = h
    · subst hkh
      exact .inl hfin
    · exact .inr (mem_set_of_ne hk hget hkh)
  · intro x hx hnot
    rcases List.mem_or_eq_of_mem_set hx with hold | rfl
    · exact hT.joined x hold hnot
    · exact hfin
  · intro x hx
    rcases mem_take_set hx with rfl | hold
    · rfl
    · exact hT.behind u pos hu x hold

/-- The handle at `pos` was joined before. -/
theorem joinSkip (hT : Tracked s) (hL : Locked s) {u : Tid} {pos : ℕ} {h : Handle}
    (hu : s.joinPos u = some pos) (hget : s.workers[pos]? = some h) (hnot : h.joinable = false)
    (ht : t.joinPos u = some (pos + 1)) (hrest : ∀ v, v ≠ u → t.joinPos v = s.joinPos v)
    (hthreads : t.threads = s.threads) (hstarted : t.started = s.started)
    (hworkers : t.workers = s.workers) (hterm : t.terminated = s.terminated) : Tracked t := by
  refine hT.joinNext hL hu ht hrest hthreads hstarted hworkers hterm (fun k => .inr) hT.joined ?_
  intro x hx
  rw [List.take_add_one, hget] at hx
  rcases List.mem_append.mp hx with hold | hnew
  · exact hT.behind u pos hu x hold
  · rw [List.mem_singleton.mp hnew]
    exact hnot

/-- The handles are destroyed, all of them joined. -/
theorem clear (hT : Tracked s) (hL : Locked s) {u : Tid} {pos : ℕ} (hu : s.joinPos u = some pos)
    (hend : s.workers[pos]? = none) (ht : t.joinPos u = none)
    (hrest : ∀ v, v ≠ u → t.joinPos v = s.joinPos v) (hthreads : t.threads = s.threads)
    (hstarted : t.started = s.started) (hworkers : t.workers = [])
    (hterm : t.terminated = (s.terminated || s.workers.any Handle.joinable)) : Tracked t := by
  have hfin : ∀ k, t.isFinished k = s.isFinished k := fun k => by
    simp only [State.isFinished, hthreads]
  refine ⟨?_, ?_, ?_, ?_, ?_⟩
  · rw [hstarted, hthreads]
    exact hT.fresh
  · intro k hk
    rw [hstarted] at hk
    rw [hfin]
    exact .inl (hT.all_finished hu hend k hk)
  · rw [hworkers]
    nofun
  · intro v pos' hv
    by_cases hvu : v = u
    · subst hvu
      rw [ht] at hv
      cases hv
    · rw [hrest v hvu] at hv
      exact absurd (Owned.unique hL (holds_of_joinPos hv) (holds_of_joinPos hu)) hvu
  · rw [hterm, hT.terminated, Bool.false_or, List.any_eq_false]
    intro h hh
    simp [hT.all_joined hu hend h hh]

/-- A thread is started. Nobody is in a join loop then. -/
theorem spawn (hT : Tracked s) (hL : Locked s) {i sock : ℕ} (hmu : s.workersMu = none) :
    Tracked (s.spawn i sock) := by
  have hfin : ∀ k < s.started, (s.spawn i sock).isFinished k = s.isFinished k := by
    intro k hk
    simp only [State.isFinished, State.spawn, Function.update_of_ne hk.ne]
  refine ⟨?_, ?_, ?_, ?_, hT.terminated⟩
  · intro k hk
    have hk' : s.started + 1 ≤ k := hk
    show Function.update s.threads s.started _ k = none
    rw [Function.update_of_ne (by omega)]
    exact hT.fresh k (by omega)
  · intro k hk
    rcases Nat.lt_succ_iff_lt_or_eq.mp hk with hold | rfl
    · rw [hfin k hold]
      exact (hT.tracked k hold).imp id fun hmem => List.mem_append_left _ hmem
    · exact .inr (List.mem_append_right _ List.mem_cons_self)
  · intro h hh hnot
    rcases List.mem_append.mp hh with hold | hnew
    · have hlt : h.thread < s.started := by
        by_contra hge
        have := hT.joined h hold hnot
        rw [State.isFinished, hT.fresh _ (Nat.le_of_not_lt hge)] at this
        cases this
      rw [hfin _ hlt]
      exact hT.joined h hold hnot
    · rw [List.mem_singleton.mp hnew] at hnot
      cases hnot
  · intro u pos hu
    rw [Locked, hmu] at hL
    have hheld : s.holds u = true := holds_of_joinPos (by
      cases u with
      | serve j => exact hu
      | dtor => exact hu)
    rw [hL.not_holds u] at hheld
    cases hheld

/-- A worker goes on; one that has returned stays so. -/
theorem work (hT : Tracked s) {k : ℕ} {w : Worker} {pc : WorkerPc} {conn : List ℕ}
    (hw : s.threads k = some w) (hpc : w.pc.isFinished = false) :
    Tracked { s with
      threads := Function.update s.threads k (some { w with pc := pc }), connected := conn } := by
  have hk := hT.lt_started hw
  have hfin : ∀ j, s.isFinished j = true →
      State.isFinished { s with
        threads := Function.update s.threads k (some { w with pc := pc }), connected := conn } j = true := by
    intro j hj
    by_cases hjk : j = k
    · subst hjk
      simp [State.isFinished, hw, hpc] at hj
    · simpa [State.isFinished, Function.update_of_ne hjk] using hj
  refine ⟨?_, ?_, ?_, hT.behind, hT.terminated⟩
  · intro j hj
    have hjk : j ≠ k := by
      have : s.started ≤ j := hj
      omega
    show Function.update s.threads k _ j = none
    rw [Function.update_of_ne hjk]
    exact hT.fresh j hj
  · intro j hj
    exact (hT.tracked j hj).imp (hfin j) id
  · intro h hh hnot
    exact hfin _ (hT.joined h hh hnot)

theorem serve (hT : Tracked s) (hL : Locked s) {i : ℕ} (h : ServeTrans s i t) : Tracked t := by
  have rest : ∀ {pc : ServePc} {u : State}, u.serves = (s.setServe i pc).serves → u.dtor = s.dtor →
      ∀ v, v ≠ .serve i → u.joinPos v = s.joinPos v := by
    intro pc u hserves hdtor v hv
    cases v with
    | serve j =>
        have hj : j ≠ i := fun hj => hv (by rw [hj])
        simp [State.joinPos, hserves, State.setServe, hj]
    | dtor => simp [State.joinPos, hdtor]
  have self : ∀ {pc : ServePc}, (s.setServe i pc).serves i = pc := by simp [State.setServe]
  cases h with
  | enter _ => exact hT.move (.inl rfl)
  | refuse _ => exact hT.move (.inl rfl)
  | stop _ _ => exact hT.move (.inl rfl)
  | go _ _ => exact hT.move (.inl rfl)
  | block _ _ => exact hT.move (.inl rfl)
  | closed _ _ => exact hT.move (.inl rfl)
  | error _ _ => exact hT.move (.inl rfl)
  | canceled _ _ => exact hT.move (.inl rfl)
  | leave _ _ => exact hT.move (.inl rfl)
  | socket _ => exact (hT.move (i := i) (.inl rfl)).frame rfl rfl rfl rfl fun u pos hu => .inl hu
  | spawn _ hmu => exact (hT.spawn hL hmu).move (.inl rfl)
  | @lock ec _ _ =>
      exact (hT.move (i := i) (c := .join ec 0) (.inr rfl)).frame rfl rfl rfl rfl
        fun u pos hu => .inl hu
  | @joined ec pos h hpc hget hfin =>
      exact hT.joinOne (u := .serve i) hL (by simp [State.joinPos, hpc, ServePc.joinPos]) hget hfin
        (congrArg ServePc.joinPos self) (rest rfl rfl) rfl rfl rfl rfl
  | @skip ec pos h hpc hget hnot =>
      exact hT.joinSkip (u := .serve i) hL (by simp [State.joinPos, hpc, ServePc.joinPos]) hget hnot
        (congrArg ServePc.joinPos self) (rest rfl rfl) rfl rfl rfl rfl
  | @clear ec pos hpc hend =>
      exact hT.clear (u := .serve i) hL (by simp [State.joinPos, hpc, ServePc.joinPos]) hend
        (congrArg ServePc.joinPos self) (rest rfl rfl) rfl rfl rfl rfl

theorem dtor (hT : Tracked s) (hL : Locked s) (h : DtorTrans s t) : Tracked t := by
  have move : ∀ {u : State}, u.threads = s.threads → u.started = s.started → u.workers = s.workers →
      u.terminated = s.terminated → u.serves = s.serves →
      (u.dtor.joinPos = none ∨ u.dtor.joinPos = some 0) → Tracked u := by
    intro u hthreads hstarted hworkers hterm hserves hpos
    refine hT.frame hthreads hstarted hworkers hterm fun v pos hv => ?_
    cases v with
    | serve j => exact .inl (by simpa only [State.joinPos, hserves] using hv)
    | dtor =>
        have hv' : u.dtor.joinPos = some pos := hv
        rcases hpos with hnone | hzero
        · rw [hnone] at hv'
          cases hv'
        · rw [hzero] at hv'
          exact .inr (Option.some.inj hv').symm
  have rest : ∀ {u : State}, u.serves = s.serves → ∀ v, v ≠ .dtor → u.joinPos v = s.joinPos v := by
    intro u hserves v hv
    cases v with
    | serve j => simp only [State.joinPos, hserves]
    | dtor => exact absurd rfl hv
  cases h with
  | store _ => exact move rfl rfl rfl rfl rfl (.inl rfl)
  | once _ => exact move rfl rfl rfl rfl rfl (.inl rfl)
  | twice _ => exact move rfl rfl rfl rfl rfl (.inl rfl)
  | lock _ _ => exact move rfl rfl rfl rfl rfl (.inr rfl)
  | @joined pos h hpc hget hfin =>
      exact hT.joinOne (u := .dtor) hL (by simp [State.joinPos, hpc, DtorPc.joinPos]) hget hfin rfl
        (rest rfl) rfl rfl rfl rfl
  | @skip pos h hpc hget hnot =>
      exact hT.joinSkip (u := .dtor) hL (by simp [State.joinPos, hpc, DtorPc.joinPos]) hget hnot rfl
        (rest rfl) rfl rfl rfl rfl
  | @clear pos hpc hend =>
      exact hT.clear (u := .dtor) hL (by simp [State.joinPos, hpc, DtorPc.joinPos]) hend rfl
        (rest rfl) rfl rfl rfl rfl

theorem step {a : Act} (hT : Tracked s) (hL : Locked s) (h : step s a = some t) : Tracked t := by
  cases step_inv h with
  | callServe _ =>
      exact (hT.move (i := s.serveCalls) (.inl rfl)).frame rfl rfl rfl rfl fun u pos hu => .inl hu
  | callClose _ => exact hT.frame rfl rfl rfl rfl fun u pos hu => .inl hu
  | callDtor hd _ =>
      refine hT.frame rfl rfl rfl rfl fun u pos hu => ?_
      cases u with
      | serve j => exact .inl hu
      | dtor => cases hu
  | serve h => exact hT.serve hL h
  | store _ => exact hT.frame rfl rfl rfl rfl fun u pos hu => .inl hu
  | closeListener _ => exact hT.frame rfl rfl rfl rfl fun u pos hu => .inl hu
  | dtor h => exact hT.dtor hL h
  | worker h =>
      cases h with
      | connected hw hpc => exact hT.work hw (by rw [hpc]; rfl)
      | refused hw hpc => exact hT.work hw (by rw [hpc]; rfl)
      | returned hw hpc => exact hT.work hw (by rw [hpc]; rfl)

end Tracked

/-! ## What a call leaves behind -/

/-- The call is past its first statement. -/
def ServePc.entered : ServePc → Bool
  | .idle => false
  | .start _ => false
  | _ => true

/-- A step of a call, seen by the threads: it enters, it may return, it may start one of them. -/
structure ServeMove (s : State) (i : ℕ) (pc : ServePc) (t : State) : Prop where
  serves : t.serves = Function.update s.serves i pc
  dtor : t.dtor = s.dtor
  entered : pc.entered = true
  /-- It returns for want of a callback, or from the join loop. -/
  returned : pc.returned = true → s.serves i = .start false ∨
    ∃ pos, s.joinPos (.serve i) = some pos ∧ s.workers[pos]? = none
  threads : t.threads = s.threads ∨ pc = .loop ∧ ∃ sock, s.serves i = .spawn sock ∧
    t.threads = Function.update s.threads s.started (some ⟨sock, i, .handshake⟩)

theorem ServeTrans.move {i : ℕ} (h : ServeTrans s i t) : ∃ pc, ServeMove s i pc t := by
  cases h with
  | refuse hpc => exact ⟨_, rfl, rfl, rfl, fun _ => .inl hpc, .inl rfl⟩
  | @clear ec pos hpc hend =>
      refine ⟨_, rfl, rfl, rfl, fun _ => .inr ⟨pos, ?_, hend⟩, .inl rfl⟩
      simp [State.joinPos, hpc, ServePc.joinPos]
  | @spawn sock hpc hmu => exact ⟨_, rfl, rfl, rfl, nofun, .inr ⟨rfl, sock, hpc, rfl⟩⟩
  | enter _ => exact ⟨_, rfl, rfl, rfl, nofun, .inl rfl⟩
  | stop _ _ => exact ⟨_, rfl, rfl, rfl, nofun, .inl rfl⟩
  | go _ _ => exact ⟨_, rfl, rfl, rfl, nofun, .inl rfl⟩
  | block _ _ => exact ⟨_, rfl, rfl, rfl, nofun, .inl rfl⟩
  | closed _ _ => exact ⟨_, rfl, rfl, rfl, nofun, .inl rfl⟩
  | socket _ => exact ⟨_, rfl, rfl, rfl, nofun, .inl rfl⟩
  | error _ _ => exact ⟨_, rfl, rfl, rfl, nofun, .inl rfl⟩
  | canceled _ _ => exact ⟨_, rfl, rfl, rfl, nofun, .inl rfl⟩
  | leave _ _ => exact ⟨_, rfl, rfl, rfl, nofun, .inl rfl⟩
  | lock _ _ => exact ⟨_, rfl, rfl, rfl, nofun, .inl rfl⟩
  | joined _ _ _ => exact ⟨_, rfl, rfl, rfl, nofun, .inl rfl⟩
  | skip _ _ _ => exact ⟨_, rfl, rfl, rfl, nofun, .inl rfl⟩

/-- The calls that have returned have left no thread of theirs running, and the destructor none at all. -/
structure Waited (s : State) : Prop where
  entered : ∀ k w, s.threads k = some w → (s.serves w.caller).entered = true
  finished : ∀ k w, s.threads k = some w → (s.serves w.caller).returned = true → w.pc.isFinished = true
  /-- The destructor runs alone. -/
  alone : s.dtor ≠ .idle → ∀ i < s.serveCalls, (s.serves i).returned = true
  last : s.dtor = .done → ∀ k w, s.threads k = some w → w.pc.isFinished = true

namespace Waited

theorem isFinished_of_thread {k : ℕ} {w : Worker} (hw : s.threads k = some w)
    (h : s.isFinished k = true) : w.pc.isFinished = true := by
  rwa [State.isFinished, hw] at h

/-- A call that has not returned is made before the destructor. -/
theorem dtor_idle (hW : Waited s) (hN : Numbered s) {i : ℕ} (hidle : s.serves i ≠ .idle)
    (hret : (s.serves i).returned = false) : s.dtor = .idle := by
  by_contra hd
  have hlt : i < s.serveCalls := by
    by_contra hge
    exact hidle (hN i (Nat.le_of_not_lt hge))
  rw [hW.alone hd i hlt] at hret
  cases hret

/-- Nothing of the calls and the threads changes. -/
theorem frame (hW : Waited s) (hthreads : t.threads = s.threads) (hserves : t.serves = s.serves)
    (hcalls : t.serveCalls = s.serveCalls)
    (halone : t.dtor ≠ .idle → s.dtor ≠ .idle ∨ s.quiet = true)
    (hlast : t.dtor = .done → ∀ k w, s.threads k = some w → w.pc.isFinished = true) : Waited t := by
  refine ⟨?_, ?_, ?_, ?_⟩
  · rw [hthreads, hserves]
    exact hW.entered
  · rw [hthreads, hserves]
    exact hW.finished
  · intro hd
    rw [hserves, hcalls]
    rcases halone hd with hold | hquiet
    · exact hW.alone hold
    · exact (of_decide_eq_true hquiet).1
  · rw [hthreads]
    exact hlast

theorem serve (hW : Waited s) (hN : Numbered s) (hT : Tracked s) {i : ℕ} (h : ServeTrans s i t) :
    Waited t := by
  have hpending : s.serves i ≠ .idle ∧ (s.serves i).returned = false := by
    cases h <;> simp [*, ServePc.returned]
  have hidle : s.dtor = .idle := hW.dtor_idle hN hpending.1 hpending.2
  obtain ⟨pc, hm⟩ := h.move
  have hserves : ∀ j, j ≠ i → t.serves j = s.serves j := by
    intro j hj
    rw [hm.serves, Function.update_of_ne hj]
  have hself : t.serves i = pc := by rw [hm.serves, Function.update_self]
  refine ⟨?_, ?_, ?_, ?_⟩
  · intro k w hw
    by_cases hcaller : w.caller = i
    · rw [hcaller, hself]
      exact hm.entered
    · rw [hserves _ hcaller]
      rcases hm.threads with hsame | ⟨-, sock, -, hnew⟩
      · exact hW.entered k w (hsame ▸ hw)
      · by_cases hk : k = s.started
        · subst hk
          rw [hnew, Function.update_self] at hw
          exact absurd (congrArg Worker.caller (Option.some.inj hw)).symm hcaller
        · rw [hnew, Function.update_of_ne hk] at hw
          exact hW.entered k w hw
  · intro k w hw hret
    rcases hm.threads with hsame | ⟨hloop, sock, -, hnew⟩
    · rw [hsame] at hw
      by_cases hcaller : w.caller = i
      · rw [hcaller, hself] at hret
        -- the call returns with this step: it had no thread, or has joined them all
        rcases hm.returned hret with hstart | ⟨pos, hpos, hend⟩
        · have hentered := hW.entered k w hw
          rw [hcaller, hstart] at hentered
          cases hentered
        · have hk := hT.lt_started hw
          exact isFinished_of_thread hw (hT.all_finished hpos hend k hk)
      · rw [hserves _ hcaller] at hret
        exact hW.finished k w hw hret
    · have hcaller : w.caller ≠ i := by
        intro hcaller
        rw [hcaller, hself, hloop] at hret
        cases hret
      have hk : k ≠ s.started := by
        rintro rfl
        rw [hnew, Function.update_self] at hw
        exact hcaller (congrArg Worker.caller (Option.some.inj hw)).symm
      rw [hnew, Function.update_of_ne hk] at hw
      rw [hserves _ hcaller] at hret
      exact hW.finished k w hw hret
  · intro hd
    exact absurd (hm.dtor.trans hidle) hd
  · intro hd
    rw [hm.dtor, hidle] at hd
    cases hd

theorem work (hW : Waited s) {k : ℕ} {w : Worker} {pc : WorkerPc} {conn : List ℕ}
    (hw : s.threads k = some w) (hpc : w.pc.isFinished = false) :
    Waited { s with
      threads := Function.update s.threads k (some { w with pc := pc }), connected := conn } := by
  have hcase : ∀ {j : ℕ} {v : Worker}, Function.update s.threads k (some { w with pc := pc }) j = some v →
      v = { w with pc := pc } ∨ s.threads j = some v := by
    intro j v hv
    by_cases hj : j = k
    · subst hj
      rw [Function.update_self] at hv
      exact .inl (Option.some.inj hv).symm
    · rw [Function.update_of_ne hj] at hv
      exact .inr hv
  refine ⟨?_, ?_, hW.alone, ?_⟩
  · intro j v hv
    rcases hcase hv with rfl | hold
    · exact hW.entered k w hw
    · exact hW.entered j v hold
  · intro j v hv hret
    rcases hcase hv with rfl | hold
    · rw [hW.finished k w hw hret] at hpc
      cases hpc
    · exact hW.finished j v hold hret
  · intro hd j v hv
    rw [hW.last hd k w hw] at hpc
    cases hpc

theorem dtor (hW : Waited s) (hT : Tracked s) (h : DtorTrans s t) : Waited t := by
  have halone : s.dtor ≠ .idle := by cases h <;> simp [*]
  cases h with
  | store _ => exact hW.frame rfl rfl rfl (fun _ => .inl halone) nofun
  | once _ => exact hW.frame rfl rfl rfl (fun _ => .inl halone) nofun
  | twice _ => exact hW.frame rfl rfl rfl (fun _ => .inl halone) nofun
  | lock _ _ => exact hW.frame rfl rfl rfl (fun _ => .inl halone) nofun
  | joined _ _ _ => exact hW.frame rfl rfl rfl (fun _ => .inl halone) nofun
  | skip _ _ _ => exact hW.frame rfl rfl rfl (fun _ => .inl halone) nofun
  | @clear pos hpc hend =>
      refine hW.frame rfl rfl rfl (fun _ => .inl halone) fun _ k w hw => ?_
      have hk := hT.lt_started hw
      have hpos : s.joinPos .dtor = some pos := by simp [State.joinPos, hpc, DtorPc.joinPos]
      exact isFinished_of_thread hw (hT.all_finished hpos hend k hk)

theorem step {a : Act} (hW : Waited s) (hN : Numbered s) (hT : Tracked s) (h : step s a = some t) :
    Waited t := by
  cases step_inv h with
  | callServe hd =>
      have hfree : ∀ k w, s.threads k = some w → w.caller ≠ s.serveCalls := by
        intro k w hw hcaller
        have hentered := hW.entered k w hw
        rw [hcaller, hN _ le_rfl] at hentered
        cases hentered
      refine ⟨?_, ?_, fun hd' => absurd hd hd', fun hd' => ?_⟩
      · intro k w hw
        show (Function.update s.serves s.serveCalls _ w.caller).entered = true
        rw [Function.update_of_ne (hfree k w hw)]
        exact hW.entered k w hw
      · intro k w hw hret
        replace hret : (Function.update s.serves s.serveCalls _ w.caller).returned = true := hret
        rw [Function.update_of_ne (hfree k w hw)] at hret
        exact hW.finished k w hw hret
      · exact absurd (hd.symm.trans hd') nofun
  | callClose _ => exact hW.frame rfl rfl rfl .inl hW.last
  | callDtor _ hquiet => exact hW.frame rfl rfl rfl (fun _ => .inr hquiet) nofun
  | serve h => exact hW.serve hN hT h
  | store _ => exact hW.frame rfl rfl rfl .inl hW.last
  | closeListener _ => exact hW.frame rfl rfl rfl .inl hW.last
  | dtor h => exact hW.dtor hT h
  | worker h =>
      cases h with
      | connected hw hpc => exact hW.work hw (by rw [hpc]; rfl)
      | refused hw hpc => exact hW.work hw (by rw [hpc]; rfl)
      | returned hw hpc => exact hW.work hw (by rw [hpc]; rfl)

end Waited

/-- What holds of a server's locks and threads in every state. -/
structure Sound (s : State) : Prop where
  numbered : Numbered s
  locked : Locked s
  tracked : Tracked s
  waited : Waited s

theorem Sound.init : Sound {} where
  numbered _ _ := rfl
  locked u := by cases u <;> simp [State.holds, ServePc.holds, DtorPc.holds]
  tracked := by
    refine ⟨fun _ _ => rfl, nofun, nofun, fun u pos hu => ?_, rfl⟩
    cases u <;> cases hu
  waited := ⟨nofun, nofun, fun hd => absurd rfl hd, nofun⟩

theorem Sound.step {a : Act} (h : Sound s) (ha : step s a = some t) : Sound t where
  numbered := h.numbered.step ha
  locked := h.locked.step h.numbered ha
  tracked := h.tracked.step h.locked ha
  waited := h.waited.step h.numbered h.tracked ha

theorem Reachable.sound (h : Reachable s) : Sound s :=
  Machine.Run.invariant (fun _ _ _ hs ha => hs.step ha) h Sound.init

/-- However the calls of `serve`, `close` and `stop` and the threads interleave: no handle is destroyed
while it is joinable, a call of `serve` that has returned has left none of its threads running, and
behind the destructor no thread runs. -/
theorem threads_joined (h : Reachable s) :
    s.terminated = false ∧
      (∀ i, (s.serves i).returned = true →
        ∀ k w, s.threads k = some w → w.caller = i → w.pc.isFinished = true) ∧
      (s.dtor = .done → ∀ k w, s.threads k = some w → w.pc.isFinished = true) := by
  refine ⟨h.sound.tracked.terminated, ?_, h.sound.waited.last⟩
  rintro i hret k w hw rfl
  exact h.sound.waited.finished k w hw hret

/-- Two calls of `serve`, one thread each; the second call joins both threads and returns. -/
def twoServes : List Act :=
  [.callServe true, .callServe true, .callClose,
   .serve 0 .none, .serve 0 .none, .serve 0 .none, .serve 0 .socket,
   .serve 1 .none, .serve 1 .none, .serve 1 .none, .serve 1 .socket,
   .serve 1 .none, .serve 0 .none, .close 0, .close 0,
   .worker 0 true, .worker 0 true, .worker 1 false,
   .serve 1 .none, .serve 1 .none, .serve 1 .none, .serve 1 .none, .serve 1 .none]

theorem twoServes_joined : ∃ s, Reachable s ∧ s.started = 2 ∧ s.serves 1 = .done .success ∧
    s.serves 0 = .loop ∧ s.connected = [1] ∧ s.terminated = false ∧
      ∀ k w, s.threads k = some w → w.caller = 1 → w.pc.isFinished = true := by
  obtain ⟨s, hs, hstarted, h1, h0, hconn⟩ : ∃ s, Machine.exec step {} twoServes = some s ∧
      s.started = 2 ∧ s.serves 1 = .done .success ∧ s.serves 0 = .loop ∧ s.connected = [1] :=
    ⟨_, rfl, rfl, rfl, rfl, rfl⟩
  have hreach : Reachable s := Machine.run_of_exec hs
  obtain ⟨hterm, hfin, -⟩ := threads_joined hreach
  exact ⟨s, hreach, hstarted, h1, h0, hconn, hterm, hfin 1 (by rw [h1]; rfl)⟩

end TcpDuplex.Server
