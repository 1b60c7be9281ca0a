import TcpDuplex.Conn.Locks

/-!
# Back-pressure on the receive queue

A text record that finds `recv_q_` full parks `read_loop` on `recv_cv_`. `Stalled` is the state the
design must exclude: `read_loop` is parked, nobody has notified it, and there is room in the queue.

`receive_for` pops without a notify, so a pop behind a parked reader stalls it for good
(`stalled_of_pop`). That is the only way in: in every run in which no message is taken from `recv_q_`
while `read_loop` is parked, no state is stalled.
-/

namespace TcpDuplex.Conn

open Protocol

variable {e : Env} {s t : State}

/-- `read_loop` is parked on `recv_cv_`, with no notify pending, although `recv_q_` has room. -/
def Stalled (e : Env) (s : State) : Prop :=
  (∃ pt, s.reader = .textParked pt) ∧ (s.recvQ.length : ℤ) < e.cfg.receiveQueueDepth.toInt

/-! ## The receive queue in every reachable state -/

/-- The queue never exceeds its depth, and `read_loop` gets past its wait only for a reason that
still holds. -/
structure RecvQueue (e : Env) (s : State) : Prop where
  bound : (s.recvQ.length : ℤ) ≤ e.cfg.receiveQueueDepth.toInt
  reason : ∀ pt, s.reader = .textStop pt →
    s.recvClosed = true ∨ s.stopSend = true ∨ recvRoom e.cfg s = true

theorem RecvQueue.room_iff (hQ : RecvQueue e s) :
    recvRoom e.cfg s = true ↔ (s.recvQ.length : ℤ) < e.cfg.receiveQueueDepth.toInt := by
  rw [recvRoom, decide_eq_true_iff, castInt_lt_iff hQ.bound]

@[simp]
theorem ReaderPc.wakeSend_eq_textStop {pc : ReaderPc} {pt : Bytes} :
    pc.wakeSend = .textStop pt ↔ pc = .textStop pt := by
  cases pc <;> simp [ReaderPc.wakeSend]

@[simp]
theorem ReaderPc.wakeSend_eq_textPark {pc : ReaderPc} {pt : Bytes} :
    pc.wakeSend = .textPark pt ↔ pc = .textPark pt := by
  cases pc <;> simp [ReaderPc.wakeSend]

@[simp]
theorem ReaderPc.wakeSend_eq_textParked {pc : ReaderPc} {pt : Bytes} :
    pc.wakeSend = .textParked pt ↔ pc = .textParked pt := by
  cases pc <;> simp [ReaderPc.wakeSend]

/-- `send_cv_.notify_all()` is not seen by the receive side. -/
theorem RecvQueue.notifySendCv (hQ : RecvQueue e s) : RecvQueue e s.notifySendCv where
  bound := hQ.bound
  reason pt h := hQ.reason pt (ReaderPc.wakeSend_eq_textStop.mp h)

theorem RecvQueue.receiver {i : ℕ} (hQ : RecvQueue e s) (hL : Locks s)
    (h : ReceiverTrans e s i t) : RecvQueue e t := by
  cases h with
  | @pop _ _ p rest _ hmu hq =>
      have hlen : s.recvQ.length = rest.length + 1 := by rw [hq, List.length_cons]
      have hbound := hQ.bound
      refine ⟨by simp only; omega, ?_⟩
      -- `read_loop` cannot be past its wait: it would hold `recv_mu_`
      intro pt hpt
      have hheld : s.holdsRecv .reader = true := by
        have hreader : s.reader = .textStop pt := hpt
        simp [State.holdsRecv, hreader, ReaderPc.holdsRecv]
      rw [hL.recv.eq_some hheld] at hmu
      cases hmu
  | _ => exact { hQ with }

theorem RecvQueue.reader {io : ReadIo} (hQ : RecvQueue e s) (h : ReaderTrans e s io t) :
    RecvQueue e t := by
  cases h with
  | textGo _ _ hgo =>
      refine ⟨hQ.bound, fun pt _ => ?_⟩
      simp only [Bool.or_eq_true, or_assoc] at hgo
      exact hgo
  | @textPush pt hpc _ hgo hclosed =>
      have hroom : recvRoom e.cfg s = true := by
        rcases hQ.reason pt hpc with h | h | h
        · rw [hclosed] at h
          cases h
        · rcases hgo with h' | h'
          · rw [h'] at h
            cases h
          · exact h'
        · exact h
      refine ⟨?_, fun pt' h => by cases h⟩
      have hlt := hQ.room_iff.mp hroom
      simp only [State.notifyRecvCv, List.length_append, List.length_singleton]
      omega
  | @leave held _ => cases held <;> exact ⟨hQ.bound, fun pt h => by cases h⟩
  | _ => exact ⟨hQ.bound, fun pt h => by cases h⟩

theorem RecvQueue.step {a : Act} (hQ : RecvQueue e s) (hL : Locks s) (h : step e s a = some t) :
    RecvQueue e t := by
  cases step_inv h with
  | sender h =>
      cases h with
      | push _ _ _ _ => exact { hQ.notifySendCv with }
      | _ => exact { hQ with }
  | receiver h => exact hQ.receiver hL h
  | shutdown h =>
      cases h with
      | setStop _ _ => exact ⟨hQ.bound, fun pt h => Or.inr (Or.inl rfl)⟩
      | notifySend _ => exact { hQ.notifySendCv with }
      | _ => exact { hQ with }
  | writer h =>
      cases h with
      | pop _ _ _ => exact { hQ.notifySendCv with }
      | _ => exact { hQ with }
  | reader h => exact hQ.reader h
  | deliver h => cases h <;> exact { hQ with }
  | _ => exact { hQ with }

theorem recvQueue_init (e : Env) : RecvQueue e (init e.cfg) where
  bound := by
    have := Int32.lt_iff_toInt_lt.mp e.cfg.receiveQueueDepth_pos
    simp only [init, List.length_nil]
    exact_mod_cast this.le
  reason pt h := by cases h

theorem recvQueue_reachable (h : Reachable e s) : RecvQueue e s :=
  (Machine.Run.invariant (I := fun s => (Unstarted s ∧ Locks s) ∧ RecvQueue e s)
    (fun _ _ _ hI hstep =>
      ⟨⟨hI.1.1.step hstep, hI.1.2.step hI.1.1 hstep⟩, hI.2.step hI.1.2 hstep⟩) h
    ⟨⟨unstarted_init e.cfg, locks_init e.cfg⟩, recvQueue_init e⟩).2

/-! ## Runs without a pop behind a parked reader -/

/-- The step takes a message from `recv_q_` while `read_loop` is parked on `recv_cv_`. -/
def popsPastParked (s : State) : Act → Bool
  | .receiver i =>
    match s.receivers i, s.reader with
    | .acquire _ _, .textParked _ => !s.recvQ.isEmpty
    | _, _ => false
  | _ => false

/-- The condition on a step: no pop behind a parked reader. -/
def keepsParked (s : State) (a : Act) : Bool := !popsPastParked s a

/-- A reader that decided to park, or has parked, did so on a queue that is still full. -/
def ParkedFull (e : Env) (s : State) : Prop :=
  ∀ pt, s.reader = .textPark pt ∨ s.reader = .textParked pt → recvRoom e.cfg s = false

theorem ParkedFull.notifySendCv (hF : ParkedFull e s) : ParkedFull e s.notifySendCv := by
  intro pt h
  exact hF pt (h.imp ReaderPc.wakeSend_eq_textPark.mp ReaderPc.wakeSend_eq_textParked.mp)

theorem ParkedFull.receiver {i : ℕ} (hF : ParkedFull e s) (hL : Locks s)
    (hG : keepsParked s (.receiver i) = true) (h : ReceiverTrans e s i t) : ParkedFull e t := by
  cases h with
  | @pop timed expired p rest hpc hmu hq =>
      intro pt hpt
      rcases hpt with hpark | hparked
      · -- between the test and the wait `read_loop` holds `recv_mu_`
        have hreader : s.reader = .textPark pt := hpark
        have hheld : s.holdsRecv .reader = true := by
          simp [State.holdsRecv, hreader, ReaderPc.holdsRecv]
        rw [hL.recv.eq_some hheld] at hmu
        cases hmu
      · have hreader : s.reader = .textParked pt := hparked
        simp [keepsParked, popsPastParked, hpc, hreader, hq] at hG
  | _ => exact hF

theorem ParkedFull.reader {io : ReadIo} (hF : ParkedFull e s) (h : ReaderTrans e s io t) :
    ParkedFull e t := by
  intro pt hpt
  cases h with
  | textFull _ _ _ _ hroom => exact hroom
  | textPark hpc => exact hF _ (Or.inl hpc)
  | @leave held _ => cases held <;> rcases hpt with h | h <;> cases h
  | _ => rcases hpt with h | h <;> cases h

theorem ParkedFull.step {a : Act} (hF : ParkedFull e s) (hL : Locks s)
    (hG : keepsParked s a = true) (h : step e s a = some t) : ParkedFull e t := by
  cases step_inv h with
  | sender h =>
      cases h with
      | push _ _ _ _ => exact hF.notifySendCv
      | _ => exact hF
  | receiver h => exact hF.receiver hL hG h
  | shutdown h =>
      cases h with
      | notifySend _ => exact hF.notifySendCv
      | _ => exact hF
  | writer h =>
      cases h with
      | pop _ _ _ => exact hF.notifySendCv
      | _ => exact hF
  | reader h => exact hF.reader h
  | deliver h => cases h <;> exact hF
  | _ => exact hF

theorem parkedFull_grun
    (h : Machine.GRun (step e) (fun s a => keepsParked s a = true) (init e.cfg) s) :
    ParkedFull e s :=
  (Machine.GRun.invariant (I := fun s => (Unstarted s ∧ Locks s) ∧ ParkedFull e s)
    (fun _ _ _ hI hG hstep =>
      ⟨⟨hI.1.1.step hstep, hI.1.2.step hI.1.1 hstep⟩, hI.2.step hI.1.2 hG hstep⟩) h
    ⟨⟨unstarted_init e.cfg, locks_init e.cfg⟩, fun pt h => by rcases h with h | h <;> cases h⟩).2

/-- A pop behind a parked reader stalls it: the pop makes room and notifies nobody. -/
theorem stalled_of_pop {a : Act} (hs : Reachable e s) (ha : step e s a = some t)
    (hpop : keepsParked s a = false) : Stalled e t := by
  have hQ := recvQueue_reachable hs
  cases a with
  | receiver i =>
      simp only [keepsParked, popsPastParked, Bool.not_eq_false'] at hpop
      split at hpop
      · rename_i timed expired pt hrecv hreader
        cases receiverStep_inv ha with
        | @pop _ _ p rest _ _ hq =>
            have hlen : s.recvQ.length = rest.length + 1 := by rw [hq, List.length_cons]
            have hbound := hQ.bound
            exact ⟨⟨pt, hreader⟩, by simp only; omega⟩
        | disabled hpc _ => simp [hrecv] at hpc
        | enter hpc _ => simp [hrecv] at hpc
        | park hpc => simp [hrecv] at hpc
        | fail _ _ hq _ => simp [hq] at hpop
        | timeout _ _ hq _ => simp [hq] at hpop
        | empty _ _ hq _ => simp [hq] at hpop
      · cases hpop
  | _ => simp [keepsParked, popsPastParked] at hpop

/-- **Back-pressure**: in every run in which nobody pops behind a parked reader, no state is stalled,
and in particular no consumer waits on an empty queue beside a parked reader. A step keeps it so
exactly when it is no such pop. -/
theorem not_stalled_iff_keepsParked
    (h : Machine.GRun (step e) (fun s a => keepsParked s a = true) (init e.cfg) s) :
    ¬ Stalled e s ∧
      (∀ pt i timed, s.reader = .textParked pt → s.receivers i = .parked timed → s.recvQ ≠ []) ∧
      ∀ a t, step e s a = some t → (¬ Stalled e t ↔ keepsParked s a = true) := by
  have hclean : ∀ {r}, Machine.GRun (step e) (fun s a => keepsParked s a = true) (init e.cfg) r →
      ¬ Stalled e r := by
    rintro r hr ⟨⟨pt, hpt⟩, hlt⟩
    have hfull := parkedFull_grun hr pt (Or.inr hpt)
    rw [(recvQueue_reachable hr.run).room_iff.mpr hlt] at hfull
    cases hfull
  refine ⟨hclean h, ?_, ?_⟩
  · intro pt i timed hreader _ hempty
    have hpos := Int32.lt_iff_toInt_lt.mp e.cfg.receiveQueueDepth_pos
    refine hclean h ⟨⟨pt, hreader⟩, ?_⟩
    rw [hempty]
    exact_mod_cast hpos
  · intro a t ha
    constructor
    · intro hns
      by_contra hpop
      exact hns (stalled_of_pop h.run ha (by simpa using hpop))
    · intro hG
      exact hclean (h.snoc hG ha)

/-! ## A stalled connection -/

/-- A connection with room for one received message. -/
def tightEnv : Env where
  cfg := freezeConfig (some { defaultConfig with receiveQueueDepth := 1 })
  gcm := shortGcm
  sess := ⟨List.replicate 32 0⟩

/-- `read_loop` takes up a text record, finds room and appends it. -/
def readText (pt : Bytes) : List Act :=
  [.reader (.record kMsgText (shortSealed pt)), .reader .none, .reader .none]

/-- Two text records with nobody receiving: the second one parks `read_loop`. Then one `receive_for`
empties the queue. -/
def stallTrace : List Act :=
  readText [1] ++ readText [2] ++ [.callReceive 0 false, .receiver 0, .receiver 0]

theorem stallTrace_stalls : ¬ ∀ (e : Env) (s : State), Reachable e s → ¬ Stalled e s := by
  intro h
  obtain ⟨s, hrun, hstall⟩ : ∃ s, Reachable tightEnv s ∧ Stalled tightEnv s :=
    Machine.exists_run_of_exec stallTrace ⟨_, rfl, ⟨[2], rfl⟩, by decide⟩
  exact h tightEnv s hrun hstall

/-- One message is received and the queue fills up again: `read_loop` parks with a third one, and as long as
nobody pops behind it nothing is stalled. -/
theorem not_stalled_after_one_message :
    ∃ s, Machine.GRun (step tightEnv) (fun s a => keepsParked s a = true) (init tightEnv.cfg) s ∧
      s.hist.popped = [[1]] ∧ s.recvQ = [[2]] ∧ s.reader = .textParked [3] ∧ ¬ Stalled tightEnv s := by
  obtain ⟨s, hexec, hpopped, hqueue, hreader⟩ : ∃ s, Machine.gexec (step tightEnv) keepsParked
      (init tightEnv.cfg) (readText [1] ++ [.callReceive 0 false, .receiver 0, .receiver 0] ++
        readText [2] ++ readText [3]) = some s ∧
        s.hist.popped = [[1]] ∧ s.recvQ = [[2]] ∧ s.reader = .textParked [3] := ⟨_, rfl, rfl, rfl, rfl⟩
  have hrun := Machine.grun_of_gexec _ hexec
  exact ⟨s, hrun, hpopped, hqueue, hreader, (not_stalled_iff_keepsParked hrun).1⟩

end TcpDuplex.Conn
