import TcpDuplex.Conn.Flags

/-!
# The monitor of the send queue

`send_q_` and `stop_send_` live under `send_mu_`. Three kinds of threads wait on `send_cv_`: the calls
of `send_for` and the pong of `read_loop` for room, `write_loop` for something to write. Every step
that makes one of these predicates true also notifies, with one exception at each end: `shutdown` sets
`stop_send_` and notifies only behind the unlock, and the drain loop of `write_loop` pops without a
notify. `NoLostWakeup` is the invariant that carries over both.

What a call of `send_for` does to the queue is read off a log of all steps, with the queue before and
behind each of them.
-/

namespace TcpDuplex.Conn

open Protocol

variable {e : Env} {s t : State}

/-! ## Who waits, and for what -/

/-- Parked on `send_cv_`, with no notify since. -/
def SendPc.isParked : SendPc → Bool
  | .parked _ _ => true
  | _ => false

/-- Parked on `send_cv_`, with no notify since. -/
def WriterPc.isParked : WriterPc → Bool
  | .parked => true
  | _ => false

/-- About to park on `send_cv_`, with `send_mu_` held. -/
def ReaderPc.isPingPark : ReaderPc → Bool
  | .pingPark _ => true
  | _ => false

/-- Parked on `send_cv_`, with no notify since. -/
def ReaderPc.isPingParked : ReaderPc → Bool
  | .pingParked _ => true
  | _ => false

/-- The thread has tested its predicate and is about to park on `send_cv_`. -/
def State.parkingSend (s : State) : Tid → Bool
  | .sender i => (s.senders i).holds
  | .writer => s.writer.holds
  | .reader => s.reader.isPingPark
  | _ => false

/-- The thread is parked on `send_cv_`. -/
def State.parkedSend (s : State) : Tid → Bool
  | .sender i => (s.senders i).isParked
  | .writer => s.writer.isParked
  | .reader => s.reader.isPingParked
  | _ => false

/-- The predicate with which the thread waits on `send_cv_`. -/
def State.sendPred (e : Env) (s : State) : Tid → Bool
  | .writer => s.stopSend || !s.sendQ.isEmpty
  | _ => s.stopSend || sendRoom e.cfg s

/-- The notify of `shutdown` is still to come. -/
def State.notifyPending (s : State) : Bool :=
  match s.shutdown with
  | .notifySend _ => true
  | _ => false

/-- Whoever parks has found its predicate false, and it stays false until a notify is due. -/
structure NoLostWakeup (e : Env) (s : State) : Prop where
  parking : ∀ u, s.parkingSend u = true → s.sendPred e u = false
  parked : ∀ u, s.parkedSend u = true → s.sendPred e u = false ∨ s.notifyPending = true

/-! ## Steps that leave the queue alone -/

theorem sendPred_congr (hq : t.sendQ = s.sendQ) (hstop : t.stopSend = s.stopSend) (u : Tid) :
    t.sendPred e u = s.sendPred e u := by
  cases u <;> simp only [State.sendPred, sendRoom, hq, hstop]

/-- A step of thread `u` alone that leaves the queue: if it comes to wait, its predicate is false. -/
theorem NoLostWakeup.of_thread (hW : NoLostWakeup e s) (u : Tid) (hq : t.sendQ = s.sendQ)
    (hstop : t.stopSend = s.stopSend) (hnotify : s.notifyPending = true → t.notifyPending = true)
    (hparking : ∀ v, v ≠ u → t.parkingSend v = s.parkingSend v)
    (hparked : ∀ v, v ≠ u → t.parkedSend v = s.parkedSend v)
    (hwait : t.parkingSend u = true ∨ t.parkedSend u = true → s.sendPred e u = false) :
    NoLostWakeup e t where
  parking v hv := by
    rw [sendPred_congr hq hstop]
    by_cases huv : v = u
    · subst huv
      exact hwait (.inl hv)
    · exact hW.parking v (hparking v huv ▸ hv)
  parked v hv := by
    rw [sendPred_congr hq hstop]
    by_cases huv : v = u
    · subst huv
      exact .inl (hwait (.inr hv))
    · exact (hW.parked v (hparked v huv ▸ hv)).imp id hnotify

/-- Nobody waits at all. -/
theorem NoLostWakeup.of_nobody (hparking : ∀ u, t.parkingSend u = false)
    (hparked : ∀ u, t.parkedSend u = false) : NoLostWakeup e t where
  parking u hu := by
    rw [hparking u] at hu
    cases hu
  parked u hu := by
    rw [hparked u] at hu
    cases hu

/-- While `send_mu_` is free nobody is between its test and its wait. -/
theorem not_parkingSend (hL : Locks s) (hmu : s.sendMu = none) (u : Tid) :
    s.parkingSend u = false := by
  have hfree := (hmu ▸ hL.send).not_holds u
  cases u with
  | reader =>
      cases hpc : s.reader with
      | pingPark pt => simp [State.holdsSend, hpc, ReaderPc.holdsSend] at hfree
      | _ => simp only [State.parkingSend, hpc, ReaderPc.isPingPark]
  | sender i => simpa [State.holdsSend, State.parkingSend] using hfree
  | writer => simpa [State.holdsSend, State.parkingSend] using hfree
  | _ => rfl

@[simp]
theorem SendPc.isParked_wake (pc : SendPc) : pc.wake.isParked = false := by
  cases pc <;> rfl

@[simp]
theorem WriterPc.isParked_wake (pc : WriterPc) : pc.wake.isParked = false := by
  cases pc <;> rfl

@[simp]
theorem ReaderPc.isPingParked_wakeSend (pc : ReaderPc) : pc.wakeSend.isPingParked = false := by
  cases pc <;> rfl

@[simp]
theorem ReaderPc.isPingPark_wakeSend (pc : ReaderPc) : pc.wakeSend.isPingPark = pc.isPingPark := by
  cases pc <;> rfl

/-- `send_cv_.notify_all()` leaves nobody parked. -/
theorem not_parkedSend_notifySendCv (s : State) (u : Tid) : s.notifySendCv.parkedSend u = false := by
  cases u <;> simp [State.notifySendCv, State.parkedSend]

theorem parkingSend_notifySendCv (s : State) (u : Tid) :
    s.notifySendCv.parkingSend u = s.parkingSend u := by
  cases u <;> simp [State.notifySendCv, State.parkingSend]

/-- A step that notifies while nobody is about to park. -/
theorem NoLostWakeup.notified (h : ∀ u, s.parkingSend u = false) : NoLostWakeup e s.notifySendCv :=
  .of_nobody (fun u => (parkingSend_notifySendCv s u).trans (h u)) (not_parkedSend_notifySendCv s)

section Threads

variable (hW : NoLostWakeup e s) (hq : t.sendQ = s.sendQ) (hstop : t.stopSend = s.stopSend)
include hW hq hstop

/-- A step that moves no thread that could wait. -/
theorem NoLostWakeup.of_eq
    (hnotify : s.notifyPending = true → t.notifyPending = true) (hs : t.senders = s.senders)
    (hw : t.writer = s.writer) (hr : t.reader = s.reader) : NoLostWakeup e t := by
  refine hW.of_thread .deliver hq hstop hnotify (fun v _ => ?_) (fun v _ => ?_) (fun h => ?_)
  · cases v <;> simp only [State.parkingSend, hs, hw, hr]
  · cases v <;> simp only [State.parkedSend, hs, hw, hr]
  · rcases h with h | h <;> cases h

theorem NoLostWakeup.of_sender (hshut : t.shutdown = s.shutdown) {i : ℕ}
    {pc : SendPc} (hs : t.senders = Function.update s.senders i pc) (hw : t.writer = s.writer)
    (hr : t.reader = s.reader)
    (hwait : pc.holds = true ∨ pc.isParked = true → s.sendPred e (.sender i) = false) :
    NoLostWakeup e t := by
  refine hW.of_thread (.sender i) hq hstop (by simp only [State.notifyPending, hshut, imp_self])
    (fun v hv => ?_) (fun v hv => ?_) (fun h => hwait ?_)
  · cases v with
    | sender j =>
        have hj : j ≠ i := fun heq => hv (by rw [heq])
        simp only [State.parkingSend, hs, Function.update_of_ne hj]
    | _ => simp only [State.parkingSend, hw, hr]
  · cases v with
    | sender j =>
        have hj : j ≠ i := fun heq => hv (by rw [heq])
        simp only [State.parkedSend, hs, Function.update_of_ne hj]
    | _ => simp only [State.parkedSend, hw, hr]
  · simpa only [State.parkingSend, State.parkedSend, hs, Function.update_self] using h

theorem NoLostWakeup.of_writer
    (hnotify : s.notifyPending = true → t.notifyPending = true) (hs : t.senders = s.senders)
    (hr : t.reader = s.reader)
    (hwait : t.writer.holds = true ∨ t.writer.isParked = true → s.sendPred e .writer = false) :
    NoLostWakeup e t := by
  refine hW.of_thread .writer hq hstop hnotify (fun v hv => ?_) (fun v hv => ?_) hwait
  · cases v with
    | writer => exact absurd rfl hv
    | _ => simp only [State.parkingSend, hs, hr]
  · cases v with
    | writer => exact absurd rfl hv
    | _ => simp only [State.parkedSend, hs, hr]

theorem NoLostWakeup.of_reader
    (hnotify : s.notifyPending = true → t.notifyPending = true) (hs : t.senders = s.senders)
    (hw : t.writer = s.writer)
    (hwait : t.reader.isPingPark = true ∨ t.reader.isPingParked = true →
      s.sendPred e .reader = false) :
    NoLostWakeup e t := by
  refine hW.of_thread .reader hq hstop hnotify (fun v hv => ?_) (fun v hv => ?_) hwait
  · cases v with
    | reader => exact absurd rfl hv
    | _ => simp only [State.parkingSend, hs, hw]
  · cases v with
    | reader => exact absurd rfl hv
    | _ => simp only [State.parkedSend, hs, hw]

end Threads

/-! ## Every step -/

theorem notifyPending_notifyDoneCv (h : s.notifyPending = true) :
    s.notifyDoneCv.notifyPending = true := by
  cases hpc : s.shutdown <;> simp_all [State.notifyPending, State.notifyDoneCv, ShutPc.wake]

theorem NoLostWakeup.sender {i : ℕ} (hW : NoLostWakeup e s) (hL : Locks s)
    (h : SenderTrans e s i t) : NoLostWakeup e t := by
  cases h with
  | @push p _ _ hpc hmu _ _ =>
      -- the call was not parked, so that moving it behind the notify parks nobody
      have hnotified : NoLostWakeup e (pushSend s ⟨kMsgText, p⟩) :=
        .notified (fun u => (by cases u <;> rfl : _ = s.parkingSend u).trans
          (not_parkingSend hL hmu u))
      exact hnotified.of_sender rfl rfl rfl rfl rfl rfl (fun h => by rcases h with h | h <;> cases h)
  | full hpc _ hstop hroom =>
      refine hW.of_sender rfl rfl rfl rfl rfl rfl (fun _ => ?_)
      simp only [State.sendPred, hstop, hroom, Bool.or_self]
  | park hpc =>
      refine hW.of_sender rfl rfl rfl rfl rfl rfl (fun _ => hW.parking _ ?_)
      simp only [State.parkingSend, hpc, SendPc.holds]
  | _ => exact hW.of_sender rfl rfl rfl rfl rfl rfl (fun h => by rcases h with h | h <;> cases h)

/-- `stop_send_` is set with `send_mu_` free, and the notify is due from then on; it finds nobody
between its test and its wait. -/
theorem NoLostWakeup.shutdown (hW : NoLostWakeup e s) (hL : Locks s) (hF : Flags s)
    (h : ShutdownTrans s t) : NoLostWakeup e t := by
  cases h with
  | setStop hpc hmu =>
      refine ⟨fun u hu => ?_, fun u _ => .inr rfl⟩
      have hnone : s.parkingSend u = true := by cases u <;> exact hu
      rw [not_parkingSend hL hmu u] at hnone
      cases hnone
  | notifySend hpc =>
      have hstop : s.stopSend = true := by rw [hF.stopSend, hpc]; rfl
      have hnone : ∀ u, s.parkingSend u = false := by
        intro u
        by_contra hu
        have hpred := hW.parking u (by simpa using hu)
        cases u <;> simp [State.sendPred, hstop] at hpred
      refine .of_nobody (fun u => ?_) (fun u => ?_)
      · have hold := (parkingSend_notifySendCv s u).trans (hnone u)
        cases u <;> exact hold
      · have hold := not_parkedSend_notifySendCv s u
        cases u <;> exact hold
  | markClosed hpc => exact hW.of_eq rfl rfl (by simp [State.notifyPending, hpc]) rfl rfl rfl
  | flagSet hpc _ _ => exact hW.of_eq rfl rfl (by simp [State.notifyPending, hpc]) rfl rfl rfl
  | timeout hpc _ _ => exact hW.of_eq rfl rfl (by simp [State.notifyPending, hpc]) rfl rfl rfl
  | flagUnset hpc _ _ => exact hW.of_eq rfl rfl (by simp [State.notifyPending, hpc]) rfl rfl rfl
  | park hpc => exact hW.of_eq rfl rfl (by simp [State.notifyPending, hpc]) rfl rfl rfl
  | setDeliverStop hpc _ => exact hW.of_eq rfl rfl (by simp [State.notifyPending, hpc]) rfl rfl rfl
  | notifyJobs hpc => exact hW.of_eq rfl rfl (by simp [State.notifyPending, hpc]) rfl rfl rfl
  | closeSock hpc => exact hW.of_eq rfl rfl (by simp [State.notifyPending, hpc]) rfl rfl rfl

/-- A pop of the drain loop makes room and notifies nobody; but `stop_send_` is set by then, so that
the predicates of those who wait for room were true before. -/
theorem NoLostWakeup.writer {io : WriteIo} (hW : NoLostWakeup e s) (hL : Locks s) (hF : Flags s)
    (h : WriterTrans e s io t) : NoLostWakeup e t := by
  cases h with
  | @pop out rest hpc hmu hq =>
      refine .notified (fun u => ?_)
      rw [← not_parkingSend hL hmu u]
      cases u with
      | writer => simp only [State.parkingSend, hpc, WriterPc.holds]
      | _ => rfl
  | empty hpc _ hq hstop =>
      refine hW.of_writer rfl rfl id rfl rfl (fun _ => ?_)
      simp only [State.sendPred, hstop, hq, List.isEmpty_nil, Bool.not_true, Bool.or_self]
  | park hpc =>
      refine hW.of_writer rfl rfl id rfl rfl (fun _ => hW.parking _ ?_)
      simp only [State.parkingSend, hpc, WriterPc.holds]
  | @drainPop out rest hpc hmu hq =>
      have hstop : s.stopSend = true := hF.flushing (by rw [hpc]; rfl)
      have hpred : ∀ u, s.sendPred e u = true := by
        intro u
        cases u <;> simp [State.sendPred, hstop]
      refine ⟨fun u hu => ?_, fun u hu => .inr ?_⟩
      · have hold : s.parkingSend u = true := by
          cases u with
          | writer => cases hu
          | _ => exact hu
        rw [not_parkingSend hL hmu u] at hold
        cases hold
      · have hold : s.parkedSend u = true := by
          cases u with
          | writer => cases hu
          | _ => exact hu
        exact (hW.parked u hold).resolve_left (by simp [hpred u])
  | notifyDone hpc =>
      exact hW.of_writer rfl rfl notifyPending_notifyDoneCv rfl rfl
        (fun h => by rcases h with h | h <;> cases h)
  | @sentAll site _ _ _ =>
      exact hW.of_writer rfl rfl id rfl rfl
        (fun h => by cases site <;> rcases h with h | h <;> cases h)
  | _ => exact hW.of_writer rfl rfl id rfl rfl (fun h => by rcases h with h | h <;> cases h)

theorem NoLostWakeup.reader {io : ReadIo} (hW : NoLostWakeup e s) (hL : Locks s)
    (h : ReaderTrans e s io t) : NoLostWakeup e t := by
  cases h with
  | @pingPush pt hpc hmu _ _ =>
      refine .notified (fun u => ?_)
      rw [← not_parkingSend hL hmu u]
      cases u with
      | reader => simp only [State.parkingSend, hpc, ReaderPc.isPingPark]
      | _ => rfl
  | pingFull hpc _ hstop hroom =>
      refine hW.of_reader rfl rfl id rfl rfl (fun _ => ?_)
      simp only [State.sendPred, hstop, hroom, Bool.or_self]
  | pingPark hpc =>
      refine hW.of_reader rfl rfl id rfl rfl (fun _ => hW.parking _ ?_)
      simp only [State.parkingSend, hpc, ReaderPc.isPingPark]
  | notifyDone hpc =>
      exact hW.of_reader rfl rfl notifyPending_notifyDoneCv rfl rfl
        (fun h => by rcases h with h | h <;> cases h)
  | @leave held hpc =>
      cases held <;> exact hW.of_reader rfl rfl id rfl rfl
        (fun h => by rcases h with h | h <;> cases h)
  | _ => exact hW.of_reader rfl rfl id rfl rfl (fun h => by rcases h with h | h <;> cases h)

theorem NoLostWakeup.step {a : Act} (hW : NoLostWakeup e s) (hU : Unstarted s) (hL : Locks s)
    (hF : Flags s) (h : step e s a = some t) : NoLostWakeup e t := by
  cases step_inv h with
  | callSend hpc =>
      exact hW.of_sender rfl rfl rfl rfl rfl rfl (fun h => by rcases h with h | h <;> cases h)
  | expireSend hpc =>
      exact hW.of_sender rfl rfl rfl rfl rfl rfl (fun h => by rcases h with h | h <;> cases h)
  | callShutdown hstarted =>
      exact hW.of_eq rfl rfl (by simp [State.notifyPending, hU hstarted]) rfl rfl rfl
  | expireShutdown hpc =>
      exact hW.of_eq rfl rfl (by simp [State.notifyPending, hpc]) rfl rfl rfl
  | callShutdownAgain _ => exact hW
  | sender h => exact hW.sender hL h
  | shutdown h => exact hW.shutdown hL hF h
  | writer h => exact hW.writer hL hF h
  | reader h => exact hW.reader hL h
  | receiver h => cases h <;> exact hW.of_eq rfl rfl id rfl rfl rfl
  | deliver h => cases h <;> exact hW.of_eq rfl rfl id rfl rfl rfl
  | _ => exact hW.of_eq rfl rfl id rfl rfl rfl

/-! ## What a step does to the queue -/

/-- The queue behind a step: as before, without its head, or with one entry appended. -/
inductive QueueEffect (e : Env) (s : State) : Act → List Outbound → Prop
  | keep (a : Act) : QueueEffect e s a s.sendQ
  | pop {io out rest} (hq : s.sendQ = out :: rest) : QueueEffect e s (.writer io) rest
  | push {a out} (hstop : s.stopSend = false) (hroom : sendRoom e.cfg s = true) :
      QueueEffect e s a (s.sendQ ++ [out])

theorem queueEffect_of_step {a : Act} (h : step e s a = some t) : QueueEffect e s a t.sendQ := by
  cases step_inv h with
  | sender h =>
      cases h with
      | push _ _ hstop hroom => exact .push hstop hroom
      | _ => exact .keep _
  | receiver h => cases h <;> exact .keep _
  | shutdown h => cases h <;> exact .keep _
  | writer h =>
      cases h with
      | pop _ _ hq => exact .pop hq
      | drainPop _ _ hq => exact .pop hq
      | _ => exact .keep _
  | reader h =>
      cases h with
      | pingPush _ _ hstop hroom => exact .push hstop hroom
      | @leave held _ => cases held <;> exact .keep _
      | _ => exact .keep _
  | deliver h => cases h <;> exact .keep _
  | _ => exact .keep _

/-- `send_q_` never exceeds `send_queue_depth`. -/
def SendBound (e : Env) (s : State) : Prop :=
  (s.sendQ.length : ℤ) ≤ e.cfg.sendQueueDepth.toInt

theorem SendBound.step {a : Act} (hB : SendBound e s) (h : step e s a = some t) :
    SendBound e t := by
  have heffect := queueEffect_of_step h
  unfold SendBound at hB ⊢
  generalize t.sendQ = queue at heffect ⊢
  cases heffect with
  | keep => exact hB
  | pop hq =>
      rw [hq, List.length_cons] at hB
      omega
  | push _ hroom =>
      rw [sendRoom, decide_eq_true_iff, castInt_lt_iff hB] at hroom
      rw [List.length_append, List.length_singleton]
      omega

theorem sendBound_init (e : Env) : SendBound e (init e.cfg) := by
  have hpos := Int32.lt_iff_toInt_lt.mp e.cfg.sendQueueDepth_pos
  simp only [SendBound, init, List.length_nil]
  exact_mod_cast hpos.le

/-- What holds of the send side in every reachable state. -/
structure SendMonitor (e : Env) (s : State) : Prop where
  unstarted : Unstarted s
  locks : Locks s
  flags : Flags s
  bound : SendBound e s
  awake : NoLostWakeup e s

theorem SendMonitor.step {a : Act} (hM : SendMonitor e s) (h : step e s a = some t) :
    SendMonitor e t where
  unstarted := hM.unstarted.step h
  locks := hM.locks.step hM.unstarted h
  flags := hM.flags.step hM.unstarted h
  bound := hM.bound.step h
  awake := hM.awake.step hM.unstarted hM.locks hM.flags h

theorem sendMonitor_init (e : Env) : SendMonitor e (init e.cfg) where
  unstarted := unstarted_init e.cfg
  locks := locks_init e.cfg
  flags := flags_init e.cfg
  bound := sendBound_init e
  awake := .of_nobody (fun u => by cases u <;> rfl) (fun u => by cases u <;> rfl)

/-! ## A log of all steps -/

/-- One step, with `stop_send_` before it and the queue before and behind it. -/
structure QueueStep where
  act : Act
  stopped : Bool
  before : List Outbound
  after : List Outbound

/-- A connection and the log of its steps. -/
structure Watched where
  state : State
  log : List QueueStep := []

/-- One action, logged. -/
def watchedStep (e : Env) (w : Watched) (a : Act) : Option Watched := do
  let t ← step e w.state a
  some { state := t, log := w.log ++ [⟨a, w.state.stopSend, w.state.sendQ, t.sendQ⟩] }

/-- A new connection, with nothing logged. -/
def Watched.start (e : Env) : Watched := { state := init e.cfg }

/-- The call of `send_for` that makes the step. -/
def Act.sendCall : Act → Option ℕ
  | .callSend i _ _ | .expireSend i | .sender i => some i
  | _ => none

/-- The payload with which the step begins the call `i`. -/
def Act.payload (i : ℕ) : Act → Option Bytes
  | .callSend j p _ => if j = i then some p else none
  | _ => none

/-- The payloads with which the call `i` was begun. -/
def payloads (i : ℕ) (log : List QueueStep) : List Bytes := log.filterMap fun q => q.act.payload i

/-- What the call `i` has changed in the queue: the queue before and behind each such step. -/
def changes (i : ℕ) (log : List QueueStep) : List (List Outbound × List Outbound) :=
  log.filterMap fun q =>
    if q.act.sendCall = some i ∧ q.before ≠ q.after then some (q.before, q.after) else none

/-! ## The calls of `send_for` -/

/-- The errors that `send_for` returns. -/
def sendErrors : List ErrorCode :=
  [Errc.closed.code, Errc.messageTooLarge.code, Errc.timedOut.code]

/-- What the call `i` has done to the queue when it stands at its counter. -/
def CallOk (i : ℕ) (log : List QueueStep) : SendPc → Prop
  | .idle => payloads i log = [] ∧ changes i log = []
  | .start p _ | .acquire p _ _ | .park p _ | .parked p _ =>
    payloads i log = [p] ∧ changes i log = []
  | .done ec =>
    ∃ p, payloads i log = [p] ∧
      (ec = .success ∧ (∃ before, changes i log = [(before, before ++ [⟨kMsgText, p⟩])]) ∨
        ec ∈ sendErrors ∧ changes i log = [])

theorem CallOk.wake {i : ℕ} {log : List QueueStep} {pc : SendPc} (h : CallOk i log pc) :
    CallOk i log pc.wake := by
  cases pc <;> exact h

section Log

variable {i : ℕ} {log : List QueueStep} {q : QueueStep}

theorem payloads_snoc : payloads i (log ++ [q]) = payloads i log ++ (q.act.payload i).toList := by
  rw [payloads, List.filterMap_append, ← payloads]
  cases h : q.act.payload i <;> simp [h]

theorem payloads_snoc_other (h : q.act.sendCall ≠ some i) :
    payloads i (log ++ [q]) = payloads i log := by
  have hnone : q.act.payload i = none := by
    cases hact : q.act with
    | callSend j p timed =>
        have hj : j ≠ i := by
          intro heq
          simp [hact, Act.sendCall, heq] at h
        simp [Act.payload, hj]
    | _ => rfl
  simp [payloads_snoc, hnone]

theorem changes_snoc_other (h : q.act.sendCall ≠ some i) :
    changes i (log ++ [q]) = changes i log := by
  simp [changes, List.filterMap_append, h]

theorem changes_snoc_same (h : q.after = q.before) : changes i (log ++ [q]) = changes i log := by
  simp [changes, List.filterMap_append, h]

/-- A step that is no call's does not touch what is known of the call `i`. -/
theorem CallOk.other {pc : SendPc} (hC : CallOk i log pc) (h : q.act.sendCall ≠ some i) :
    CallOk i (log ++ [q]) pc := by
  cases pc <;> simpa only [CallOk, payloads_snoc_other h, changes_snoc_other h] using hC

end Log

/-- The other steps leave the call `i`, or wake it. -/
theorem senders_of_step {a : Act} (h : step e s a = some t) {i : ℕ} (hne : a.sendCall ≠ some i) :
    t.senders i = s.senders i ∨ t.senders i = (s.senders i).wake := by
  cases step_inv h with
  | @callSend j =>
      have hj : i ≠ j := fun heq => hne (by rw [heq]; rfl)
      exact .inl (Function.update_of_ne hj _ _)
  | @expireSend j =>
      have hj : i ≠ j := fun heq => hne (by rw [heq]; rfl)
      exact .inl (Function.update_of_ne hj _ _)
  | @sender j _ h =>
      have hj : i ≠ j := fun heq => hne (by rw [heq]; rfl)
      cases h with
      | push => exact .inr (Function.update_of_ne hj _ _)
      | _ => exact .inl (Function.update_of_ne hj _ _)
  | receiver h => cases h <;> exact .inl rfl
  | shutdown h =>
      cases h with
      | notifySend _ => exact .inr rfl
      | _ => exact .inl rfl
  | writer h =>
      cases h with
      | pop => exact .inr rfl
      | _ => exact .inl rfl
  | reader h =>
      cases h with
      | pingPush => exact .inr rfl
      | @leave held _ => cases held <;> exact .inl rfl
      | _ => exact .inl rfl
  | deliver h => cases h <;> exact .inl rfl
  | _ => exact .inl rfl

/-- A step of the call `i` itself: it appends its payload as it returns success, and else nothing. -/
theorem CallOk.sender {i : ℕ} {log : List QueueStep} (hC : CallOk i log (s.senders i))
    (h : SenderTrans e s i t) :
    CallOk i (log ++ [⟨.sender i, s.stopSend, s.sendQ, t.sendQ⟩]) (t.senders i) := by
  have hpay : ∀ queue, payloads i (log ++ [⟨.sender i, s.stopSend, s.sendQ, queue⟩]) =
      payloads i log := by
    intro queue
    simp [payloads_snoc, Act.payload]
  -- the queue is left: the call goes on, or returns an error
  have hgo : ∀ {p}, payloads i log = [p] ∧ changes i log = [] →
      payloads i (log ++ [⟨.sender i, s.stopSend, s.sendQ, s.sendQ⟩]) = [p] ∧
        changes i (log ++ [⟨.sender i, s.stopSend, s.sendQ, s.sendQ⟩]) = [] :=
    fun h => ⟨(hpay _).trans h.1, (changes_snoc_same rfl).trans h.2⟩
  have hfail : ∀ {p ec}, ec ∈ sendErrors → payloads i log = [p] ∧ changes i log = [] →
      CallOk i (log ++ [⟨.sender i, s.stopSend, s.sendQ, s.sendQ⟩]) (.done ec) :=
    fun hec h => ⟨_, (hgo h).1, .inr ⟨hec, (hgo h).2⟩⟩
  cases h with
  | @push p _ _ hpc _ _ _ =>
      rw [hpc] at hC
      have hold : changes i log = [] := hC.2
      have hnew : changes i (log ++ [⟨.sender i, s.stopSend, s.sendQ, s.sendQ ++ [⟨kMsgText, p⟩]⟩]) =
          [(s.sendQ, s.sendQ ++ [⟨kMsgText, p⟩])] := by
        rw [changes, List.filterMap_append, ← changes, hold]
        simp [Act.sendCall]
      simp only [State.setSender, Function.update_self]
      exact ⟨p, (hpay _).trans hC.1, .inl ⟨rfl, s.sendQ, hnew⟩⟩
  | refuseClosed hpc _ =>
      rw [hpc] at hC
      simp only [State.setSender, Function.update_self]
      exact hfail (by simp [sendErrors]) hC
  | refuseLarge hpc _ _ =>
      rw [hpc] at hC
      simp only [State.setSender, Function.update_self]
      exact hfail (by simp [sendErrors]) hC
  | refuseStop hpc _ _ =>
      rw [hpc] at hC
      simp only [State.setSender, Function.update_self]
      exact hfail (by simp [sendErrors]) hC
  | timeout hpc _ _ _ =>
      rw [hpc] at hC
      simp only [State.setSender, Function.update_self]
      exact hfail (by simp [sendErrors]) hC
  | enter hpc _ _ =>
      rw [hpc] at hC
      simp only [State.setSender, Function.update_self]
      exact hgo hC
  | full hpc _ _ _ =>
      rw [hpc] at hC
      simp only [State.setSender, Function.update_self]
      exact hgo hC
  | park hpc =>
      rw [hpc] at hC
      simp only [State.setSender, Function.update_self]
      exact hgo hC

theorem CallOk.step {a : Act} {i : ℕ} {log : List QueueStep} (hC : CallOk i log (s.senders i))
    (h : step e s a = some t) :
    CallOk i (log ++ [⟨a, s.stopSend, s.sendQ, t.sendQ⟩]) (t.senders i) := by
  by_cases hcall : a.sendCall = some i
  · cases step_inv h with
    | @callSend j p timed hpc =>
        obtain rfl : j = i := Option.some.inj hcall
        rw [hpc] at hC
        simp only [State.setSender, Function.update_self]
        refine ⟨?_, (changes_snoc_same rfl).trans hC.2⟩
        rw [payloads_snoc, hC.1]
        simp [Act.payload]
    | @expireSend j p hpc =>
        obtain rfl : j = i := Option.some.inj hcall
        rw [hpc] at hC
        simp only [State.setSender, Function.update_self]
        refine ⟨?_, (changes_snoc_same rfl).trans hC.2⟩
        rw [payloads_snoc, hC.1]
        simp [Act.payload]
    | @sender j _ h =>
        obtain rfl : j = i := Option.some.inj hcall
        exact hC.sender h
    | _ => cases hcall
  · rcases senders_of_step h hcall with heq | heq
    · rw [heq]
      exact hC.other hcall
    · rw [heq]
      exact hC.wake.other hcall

/-! ## Whole runs -/

/-- What holds of a connection and its log. -/
structure WatchedOk (e : Env) (w : Watched) : Prop where
  monitor : SendMonitor e w.state
  calls : ∀ i, CallOk i w.log (w.state.senders i)
  stopped : ∀ q ∈ w.log, q.stopped = true → q.after <:+ q.before

theorem watchedOk_start (e : Env) : WatchedOk e (Watched.start e) where
  monitor := sendMonitor_init e
  calls _ := ⟨rfl, rfl⟩
  stopped q hq := by simp [Watched.start] at hq

theorem WatchedOk.step {w v : Watched} {a : Act} (h : WatchedOk e w)
    (hstep : watchedStep e w a = some v) : WatchedOk e v := by
  obtain ⟨t, ht, hv⟩ := Option.bind_eq_some_iff.mp hstep
  obtain rfl := Option.some.inj hv
  refine ⟨h.monitor.step ht, fun i => (h.calls i).step ht, fun q hq hstop => ?_⟩
  rcases List.mem_append.mp hq with hold | hnew
  · exact h.stopped q hold hstop
  · obtain rfl := List.mem_singleton.mp hnew
    have heffect := queueEffect_of_step ht
    generalize t.sendQ = queue at heffect ⊢
    cases heffect with
    | keep => exact List.suffix_refl _
    | pop hq => exact ⟨[_], hq.symm⟩
    | push hopen _ =>
        rw [hopen] at hstop
        cases hstop

theorem watchedOk_run {w : Watched} (h : Machine.Run (watchedStep e) (Watched.start e) w) :
    WatchedOk e w :=
  Machine.Run.invariant (I := WatchedOk e) (fun _ _ _ hI hstep => hI.step hstep) h
    (watchedOk_start e)

/-- **The send queue is a correct monitor.** In every run: the queue keeps its depth; a `send_for` that
returned success has changed the queue in one step, which appended its payload, and one that returned
an error in none; no step made with `stop_send_` set appended anything; and no thread is parked on
`send_cv_` whose predicate is true, unless the notify of `shutdown` is still to come. -/
theorem send_monitor_correct (e : Env) (w : Watched)
    (h : Machine.Run (watchedStep e) (Watched.start e) w) :
    (w.state.sendQ.length : ℤ) ≤ e.cfg.sendQueueDepth.toInt ∧
      (∀ i ec, w.state.senders i = .done ec → ∃ p, payloads i w.log = [p] ∧
        (ec = .success ∧ (∃ before, changes i w.log = [(before, before ++ [⟨kMsgText, p⟩])]) ∨
          ec ∈ sendErrors ∧ changes i w.log = [])) ∧
      (∀ q ∈ w.log, q.stopped = true → q.after <:+ q.before) ∧
      ∀ u, w.state.parkedSend u = true → w.state.notifyPending = false →
        w.state.sendPred e u = false := by
  obtain ⟨hmonitor, hcalls, hstopped⟩ := watchedOk_run h
  refine ⟨hmonitor.bound, fun i ec hdone => ?_, hstopped, fun u hu hnone => ?_⟩
  · have hcall := hcalls i
    rw [hdone] at hcall
    exact hcall
  · refine (hmonitor.awake.parked u hu).resolve_right ?_
    rw [hnone]
    exact Bool.false_ne_true

/-! ### A queue of one -/

/-- A connection with room for one message to send. -/
def narrowEnv : Env where
  cfg := freezeConfig (some { defaultConfig with sendQueueDepth := 1 })
  gcm := shortGcm
  sess := ⟨List.replicate 32 0⟩

/-- One call fills the queue, the next one parks, and a third one gives up. -/
def narrowTrace : List Act :=
  [.callSend 0 [1] false, .sender 0, .sender 0, .callSend 1 [2] false, .sender 1, .sender 1,
    .sender 1, .callSend 2 [3] true, .sender 2, .sender 2, .sender 2, .expireSend 2, .sender 2]

theorem narrowTrace_correct :
    ∃ w, Machine.Run (watchedStep narrowEnv) (Watched.start narrowEnv) w ∧
      w.state.senders 0 = .done .success ∧ w.state.senders 1 = .parked [2] false ∧
      w.state.senders 2 = .done Errc.timedOut.code ∧
      w.state.sendPred narrowEnv (.sender 1) = false ∧
      (w.state.sendQ.length : ℤ) ≤ narrowEnv.cfg.sendQueueDepth.toInt := by
  obtain ⟨w, hrun, h0, h1, h2, hnotify⟩ :
      ∃ w, Machine.Run (watchedStep narrowEnv) (Watched.start narrowEnv) w ∧
        w.state.senders 0 = .done .success ∧ w.state.senders 1 = .parked [2] false ∧
        w.state.senders 2 = .done Errc.timedOut.code ∧ w.state.notifyPending = false :=
    Machine.exists_run_of_exec narrowTrace ⟨_, rfl, rfl, rfl, rfl, rfl⟩
  obtain ⟨hbound, _, _, hawake⟩ := send_monitor_correct narrowEnv w hrun
  refine ⟨w, hrun, h0, h1, h2, hawake (.sender 1) ?_ hnotify, hbound⟩
  simp only [State.parkedSend, h1, SendPc.isParked]

end TcpDuplex.Conn
