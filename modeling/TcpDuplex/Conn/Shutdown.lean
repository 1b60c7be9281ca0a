import TcpDuplex.Conn.Backpressure
import TcpDuplex.Conn.WriterExit

/-!
# Shutdown and deadlock

`Stuck` is the state that `shutdown` must never get into: it runs, and no thread of the connection can
take a step. A thread in `recv` counts as able to step only once the socket is closed, which is taken to
make the call return (`Rest` has what holds without this), and neither a new call nor an expired deadline
counts at all.

Three races lead there. A text record that finds `recv_q_` full parks `read_loop` on `recv_cv_`, which
`shutdown` never notifies; if `stop_send_` is already set the same branch calls `abort_recv` with
`recv_mu_` held. And `write_done_` and `read_done_` are stored and notified without `done_mu_`, so a
notify can fall between the test and the wait of `wait_flag`. `shutdownSafe` excludes exactly these
steps, and then no state of the run is stuck.
-/

namespace TcpDuplex.Conn

open Protocol

variable {e : Env} {s t : State}

/-- A step that a thread takes by itself; a `recv` is taken to return only once the socket is closed. -/
def threadStep (s : State) : Act → Bool
  | .sender _ => true
  | .receiver _ => true
  | .shutdown => true
  | .writer _ => true
  | .deliver => true
  | .reader .none => true
  | .reader _ => s.sockClosed
  | _ => false

/-- Some thread can take a step. -/
def CanMove (e : Env) (s : State) : Prop :=
  ∃ a, threadStep s a = true ∧ (step e s a).isSome = true

/-- `shutdown` has been called and has not returned, and no thread can take a step. -/
structure Stuck (e : Env) (s : State) : Prop where
  called : s.shutdown ≠ .idle
  running : ∀ ec, s.shutdown ≠ .done ec
  frozen : ¬ CanMove e s

/-! ## The condition -/

/-- `wait_flag` has tested the flag and is about to park. -/
def ShutPc.aboutToPark (pc : ShutPc) (f : Flag) : Bool :=
  match pc with
  | .park flag _ _ => flag == f
  | _ => false

/-- The condition on a step: `read_loop` takes a text record to `recv_q_` only when there is room,
and neither loop notifies `done_cv_` while `shutdown` is between its test and its wait. -/
def shutdownSafe (e : Env) (s : State) : Act → Bool
  | .reader .none =>
    match s.reader with
    | .text _ => recvRoom e.cfg s
    | .notifyDone _ => !s.shutdown.aboutToPark .readDone
    | _ => true
  | .writer .none =>
    match s.writer with
    | .notifyDone => !s.shutdown.aboutToPark .writeDone
    | _ => true
  | _ => true

/-! ## Text records never wait -/

/-- `read_loop` neither parks on `recv_cv_` nor gives up with `recv_mu_` held. -/
def ReaderPc.textSafe : ReaderPc → Bool
  | .textPark _ => false
  | .textParked _ => false
  | pc => pc.held != .recvSend

/-- Past the test of a text record there is room, and `recv_mu_` keeps it. -/
structure TextFits (e : Env) (s : State) : Prop where
  safe : s.reader.textSafe = true
  room : ∀ pt, s.reader = .textStop pt → recvRoom e.cfg s = true

@[simp]
theorem ReaderPc.textSafe_wakeSend (pc : ReaderPc) : pc.wakeSend.textSafe = pc.textSafe := by
  cases pc <;> rfl

theorem TextFits.notifySendCv (hT : TextFits e s) : TextFits e s.notifySendCv where
  safe := by simpa [State.notifySendCv] using hT.safe
  room pt h := by
    refine hT.room pt ?_
    revert h
    simp only [State.notifySendCv]
    cases s.reader <;> simp [ReaderPc.wakeSend]

theorem TextFits.reader {io : ReadIo} (hT : TextFits e s)
    (hG : shutdownSafe e s (.reader io) = true) (h : ReaderTrans e s io t) : TextFits e t := by
  -- what `read_loop` holds while it gives up, it took before
  have hkeep : ∀ {pc pc' : ReaderPc}, s.reader = pc → pc.textSafe = pc'.textSafe →
      pc'.textSafe = true := by
    intro pc pc' hpc heq
    rw [← heq, ← hpc]
    exact hT.safe
  cases h with
  | textGo hpc _ _ =>
      have hroom : recvRoom e.cfg s = true := by simpa [shutdownSafe, hpc] using hG
      exact ⟨rfl, fun _ _ => hroom⟩
  | textFull hpc _ _ _ hroom =>
      have hroom' : recvRoom e.cfg s = true := by simpa [shutdownSafe, hpc] using hG
      rw [hroom] at hroom'
      cases hroom'
  | textPark hpc =>
      have hsafe := hT.safe
      rw [hpc] at hsafe
      cases hsafe
  | textGiveUp hpc _ _ hroom =>
      rw [hT.room _ hpc] at hroom
      cases hroom
  | abortAgain hpc _ _ => exact ⟨hkeep hpc rfl, fun _ h => by cases h⟩
  | abortFirst hpc _ _ => exact ⟨hkeep hpc rfl, fun _ h => by cases h⟩
  | storeDone hpc => exact ⟨hkeep hpc rfl, fun _ h => by cases h⟩
  | notifyDone hpc => exact ⟨hkeep hpc rfl, fun _ h => by cases h⟩
  | @leave held _ => cases held <;> exact ⟨rfl, fun _ h => by cases h⟩
  | _ => exact ⟨rfl, fun _ h => by cases h⟩

theorem TextFits.step {a : Act} (hT : TextFits e s) (hL : Locks s)
    (hG : shutdownSafe e s a = true) (h : step e s a = some t) : TextFits e t := by
  cases step_inv h with
  | sender h =>
      cases h with
      | push _ _ _ _ => exact { hT.notifySendCv with }
      | _ => exact { hT with }
  | receiver h =>
      cases h with
      | pop _ hmu _ =>
          refine ⟨hT.safe, fun pt hpt => ?_⟩
          have hreader : s.reader = .textStop pt := hpt
          have hheld : s.holdsRecv .reader = true := by
            simp [State.holdsRecv, hreader, ReaderPc.holdsRecv]
          rw [hL.recv.eq_some hheld] at hmu
          cases hmu
      | _ => exact { hT with }
  | shutdown h =>
      cases h with
      | notifySend _ => exact { hT.notifySendCv with }
      | _ => exact { hT with }
  | writer h =>
      cases h with
      | pop _ _ _ => exact { hT.notifySendCv with }
      | _ => exact { hT with }
  | reader h => exact hT.reader hG h
  | deliver h => cases h <;> exact { hT with }
  | _ => exact { hT with }

/-! ## Nobody sleeps through the notify of `send_cv_` -/

/-- Once `stop_send_` is set no loop is about to park on `send_cv_`, and behind the notify no loop is
parked there. -/
structure SendAwake (s : State) : Prop where
  writerPark : s.stopSend = true → s.writer ≠ .park
  pingPark : s.stopSend = true → ∀ pt, s.reader ≠ .pingPark pt
  writerParked : 4 ≤ s.shutdown.phase → s.writer ≠ .parked
  pingParked : 4 ≤ s.shutdown.phase → ∀ pt, s.reader ≠ .pingParked pt

theorem WriterPc.wake_ne_parked (pc : WriterPc) : pc.wake ≠ .parked := by
  cases pc <;> simp [WriterPc.wake]

theorem ReaderPc.wakeSend_ne_pingParked (pc : ReaderPc) (pt : Bytes) :
    pc.wakeSend ≠ .pingParked pt := by
  cases pc <;> simp [ReaderPc.wakeSend]

theorem WriterPc.wake_eq_park {pc : WriterPc} (h : pc.wake = .park) : pc = .park := by
  cases pc <;> simp [WriterPc.wake] at h ⊢

theorem ReaderPc.wakeSend_eq_pingPark {pc : ReaderPc} {pt : Bytes} (h : pc.wakeSend = .pingPark pt) :
    pc = .pingPark pt := by
  cases pc <;> simp_all [ReaderPc.wakeSend]

theorem SendAwake.notifySendCv (hA : SendAwake s) : SendAwake s.notifySendCv where
  writerPark hstop h := hA.writerPark hstop (WriterPc.wake_eq_park h)
  pingPark hstop pt h := hA.pingPark hstop pt (ReaderPc.wakeSend_eq_pingPark h)
  writerParked _ := WriterPc.wake_ne_parked _
  pingParked _ pt := ReaderPc.wakeSend_ne_pingParked _ pt

/-- `setStop` finds `send_mu_` free, so nobody is about to park then. -/
theorem SendAwake.setStop (hL : Locks s) (hmu : s.sendMu = none) (pc : ShutPc)
    (hpc : pc.phase = 3) : SendAwake { s with stopSend := true, shutdown := pc } := by
  have hfree := (hmu ▸ hL.send).not_holds
  refine ⟨fun _ h => ?_, fun _ pt h => ?_, fun h => ?_, fun h => ?_⟩
  · have := hfree .writer
    simp [State.holdsSend, show s.writer = .park from h, WriterPc.holds] at this
  · have := hfree .reader
    simp [State.holdsSend, show s.reader = .pingPark pt from h, ReaderPc.holdsSend] at this
  · simp [hpc] at h
  · simp [hpc] at h

theorem SendAwake.shutdown (hA : SendAwake s) (hL : Locks s) (h : ShutdownTrans s t) :
    SendAwake t := by
  -- the steps that do not reach phase 4 from below
  have hlate : ∀ {r : State}, r.stopSend = s.stopSend → r.writer = s.writer →
      r.reader = s.reader → (4 ≤ r.shutdown.phase → 4 ≤ s.shutdown.phase) → SendAwake r := by
    intro r hstop hw hr hphase
    refine ⟨?_, ?_, ?_, ?_⟩
    · rw [hstop, hw]
      exact hA.writerPark
    · rw [hstop, hr]
      exact hA.pingPark
    · rw [hw]
      exact fun h => hA.writerParked (hphase h)
    · rw [hr]
      exact fun h => hA.pingParked (hphase h)
  cases h with
  | markClosed hpc => exact hlate rfl rfl rfl (by simp [ShutPc.phase])
  | setStop hpc hmu => exact .setStop hL hmu _ rfl
  | notifySend hpc =>
      exact ⟨hA.notifySendCv.writerPark, hA.notifySendCv.pingPark,
        fun _ => WriterPc.wake_ne_parked _, fun _ pt => ReaderPc.wakeSend_ne_pingParked _ pt⟩
  | @flagSet flag _ _ _ hpc _ _ => exact hlate rfl rfl rfl (by cases flag <;> simp [hpc, ShutPc.phase])
  | @timeout flag _ _ hpc _ _ => exact hlate rfl rfl rfl (by cases flag <;> simp [hpc, ShutPc.phase])
  | @flagUnset flag _ _ hpc _ _ =>
      exact hlate rfl rfl rfl (by cases flag <;> simp [hpc, ShutPc.phase])
  | @park flag _ _ hpc => exact hlate rfl rfl rfl (by cases flag <;> simp [hpc, ShutPc.phase])
  | setDeliverStop hpc _ => exact hlate rfl rfl rfl (by simp [hpc, ShutPc.phase])
  | notifyJobs hpc => exact hlate rfl rfl rfl (by simp [hpc, ShutPc.phase])
  | closeSock hpc => exact hlate rfl rfl rfl (by simp [hpc, ShutPc.phase])

theorem SendAwake.writer {io : WriteIo} (hA : SendAwake s) (hF : Flags s)
    (h : WriterTrans e s io t) : SendAwake t := by
  cases h with
  | pop _ _ _ =>
      exact notifySendCv { hA with
        writerPark := fun _ h => by cases h
        writerParked := fun _ h => by cases h }
  | empty _ _ _ hstop =>
      exact { hA with
        writerPark := fun h => by rw [hstop] at h; cases h
        writerParked := fun _ h => by cases h }
  | park hpc =>
      -- from `park` only before `stop_send_`, so far from phase 4
      refine { hA with
        writerPark := fun _ h => by cases h
        writerParked := fun hphase => ?_ }
      exact absurd hpc (hA.writerPark (hF.stopSend_of_phase (le_trans (by omega) hphase)))
  | notifyDone _ =>
      exact { hA with
        writerPark := fun _ h => by cases h
        writerParked := fun _ h => by cases h
        pingParked := by simpa [State.notifyDoneCv] using hA.pingParked }
  | @sentAll site _ _ _ =>
      exact { hA with
        writerPark := fun _ h => by cases site <;> cases h
        writerParked := fun _ h => by cases site <;> cases h }
  | _ =>
      exact { hA with
        writerPark := fun _ h => by cases h
        writerParked := fun _ h => by cases h }

theorem SendAwake.reader {io : ReadIo} (hA : SendAwake s) (hF : Flags s)
    (h : ReaderTrans e s io t) : SendAwake t := by
  cases h with
  | pingPush _ _ _ _ =>
      exact notifySendCv { hA with
        pingPark := fun _ _ h => by cases h
        pingParked := fun _ _ h => by cases h }
  | pingFull _ _ hstop _ =>
      exact { hA with
        pingPark := fun h => by rw [hstop] at h; cases h
        pingParked := fun _ _ h => by cases h }
  | pingPark hpc =>
      refine { hA with
        pingPark := fun _ _ h => by cases h
        pingParked := fun hphase => ?_ }
      exact absurd hpc (hA.pingPark (hF.stopSend_of_phase (le_trans (by omega) hphase)) _)
  | notifyDone _ =>
      exact { hA with
        pingPark := fun _ _ h => by cases h
        pingParked := fun _ _ h => by cases h
        writerParked := by simpa [State.notifyDoneCv] using hA.writerParked }
  | @leave held _ =>
      cases held <;> exact { hA with
        pingPark := fun _ _ h => by cases h
        pingParked := fun _ _ h => by cases h }
  | _ =>
      exact { hA with
        pingPark := fun _ _ h => by cases h
        pingParked := fun _ _ h => by cases h }

theorem SendAwake.step {a : Act} (hA : SendAwake s) (hL : Locks s) (hF : Flags s)
    (h : step e s a = some t) : SendAwake t := by
  cases step_inv h with
  | sender h =>
      cases h with
      | push _ _ _ _ => exact { hA.notifySendCv with }
      | _ => exact { hA with }
  | receiver h => cases h <;> exact { hA with }
  | shutdown h => exact hA.shutdown hL h
  | writer h => exact hA.writer hF h
  | reader h => exact hA.reader hF h
  | deliver h => cases h <;> exact { hA with }
  | callShutdown _ =>
      exact { hA with
        writerParked := fun h => by simp [ShutPc.phase] at h
        pingParked := fun h => by simp [ShutPc.phase] at h }
  | @expireShutdown flag ec hpc =>
      have hphase : ShutPc.phase (.await flag true true ec) = s.shutdown.phase := by
        rw [hpc]
        cases flag <;> rfl
      exact { hA with
        writerParked := fun h => hA.writerParked (hphase ▸ h)
        pingParked := fun h => hA.pingParked (hphase ▸ h) }
  | _ => exact { hA with }

/-! ## Nobody notifies `done_cv_` too early -/

/-- `shutdown` is waiting for the flag, or about to. -/
def ShutPc.awaits (pc : ShutPc) (f : Flag) : Bool :=
  match pc with
  | .park flag _ _ => flag == f
  | .parked flag _ _ => flag == f
  | _ => false

/-- `read_loop` is past its notify of `done_cv_`. -/
def ReaderPc.notified : ReaderPc → Bool
  | .leave _ => true
  | .exited => true
  | _ => false

/-- The loop that `shutdown` waits for has its notify still to come. -/
structure NotifyPending (s : State) : Prop where
  writer : s.shutdown.awaits .writeDone = true → s.writer ≠ .exited
  reader : s.shutdown.awaits .readDone = true → s.reader.notified = false

/-- A notify leaves nobody waiting, except a `shutdown` that has not parked yet. -/
theorem ShutPc.awaits_wake (pc : ShutPc) (f : Flag) : pc.wake.awaits f = pc.aboutToPark f := by
  cases pc <;> rfl

/-- A `shutdown` that does not wait needs no notify. -/
theorem NotifyPending.of_not_awaits (h : ∀ f, s.shutdown.awaits f = false) : NotifyPending s where
  writer hw := by
    rw [h] at hw
    cases hw
  reader hr := by
    rw [h] at hr
    cases hr

theorem NotifyPending.notifySendCv (hN : NotifyPending s) : NotifyPending s.notifySendCv where
  writer h := by
    have := hN.writer h
    simp only [State.notifySendCv]
    cases hw : s.writer <;> simp_all [WriterPc.wake]
  reader h := by
    have := hN.reader h
    simp only [State.notifySendCv]
    cases hr : s.reader <;> simp_all [ReaderPc.wakeSend, ReaderPc.notified]

theorem NotifyPending.shutdown (hN : NotifyPending s) (hF : Flags s) (h : ShutdownTrans s t) :
    NotifyPending t := by
  cases h with
  | @flagUnset flag _ _ _ _ hflag =>
      cases flag with
      | writeDone =>
          have hdone : s.writer.isDone = false := hF.writeDone ▸ hflag
          refine ⟨fun _ hexit => ?_, nofun⟩
          rw [show s.writer = .exited from hexit] at hdone
          cases hdone
      | readDone =>
          have hdone : s.reader.isDone = false := hF.readDone ▸ hflag
          refine ⟨nofun, fun _ => ?_⟩
          revert hdone
          simp only
          cases s.reader <;> simp [ReaderPc.isDone, ReaderPc.notified]
  | park hpc =>
      exact ⟨fun h => hN.writer (by rw [hpc]; exact h), fun h => hN.reader (by rw [hpc]; exact h)⟩
  | @flagSet flag _ _ _ _ _ _ => cases flag <;> exact .of_not_awaits fun _ => rfl
  | @timeout flag _ _ _ _ _ => cases flag <;> exact .of_not_awaits fun _ => rfl
  | _ => exact .of_not_awaits fun _ => rfl

theorem NotifyPending.writer_step {io : WriteIo} (hN : NotifyPending s)
    (hG : shutdownSafe e s (.writer io) = true) (h : WriterTrans e s io t) : NotifyPending t := by
  cases h with
  | pop _ _ _ => exact notifySendCv { hN with writer := fun _ h => by cases h }
  | notifyDone hpc =>
      have hsafe : s.shutdown.aboutToPark .writeDone = false := by
        simpa [shutdownSafe, hpc] using hG
      refine ⟨fun h => ?_, fun h => ?_⟩
      · simp only [State.notifyDoneCv, ShutPc.awaits_wake, hsafe] at h
        cases h
      · refine hN.reader ?_
        simp only [State.notifyDoneCv, ShutPc.awaits_wake] at h
        cases hs : s.shutdown <;> simp_all [ShutPc.aboutToPark, ShutPc.awaits]
  | @sentAll site _ _ _ => exact { hN with writer := fun _ h => by cases site <;> cases h }
  | _ => exact { hN with writer := fun _ h => by cases h }

theorem NotifyPending.reader_step {io : ReadIo} (hN : NotifyPending s)
    (hG : shutdownSafe e s (.reader io) = true) (h : ReaderTrans e s io t) : NotifyPending t := by
  cases h with
  | pingPush _ _ _ _ => exact notifySendCv { hN with reader := fun _ => rfl }
  | notifyDone hpc =>
      have hsafe : s.shutdown.aboutToPark .readDone = false := by
        simpa [shutdownSafe, hpc] using hG
      refine ⟨fun h => ?_, fun h => ?_⟩
      · refine hN.writer ?_
        simp only [State.notifyDoneCv, ShutPc.awaits_wake] at h
        cases hs : s.shutdown <;> simp_all [ShutPc.aboutToPark, ShutPc.awaits]
      · simp only [State.notifyDoneCv, ShutPc.awaits_wake, hsafe] at h
        cases h
  | @leave held hpc =>
      have hnot : s.shutdown.awaits .readDone = true → ReaderPc.exited.notified = false := by
        intro h
        have := hN.reader h
        rw [hpc] at this
        cases this
      cases held <;> exact { hN with reader := hnot }
  | _ => exact { hN with reader := fun _ => rfl }

theorem NotifyPending.step {a : Act} (hN : NotifyPending s) (hF : Flags s)
    (hG : shutdownSafe e s a = true) (h : step e s a = some t) : NotifyPending t := by
  cases step_inv h with
  | sender h =>
      cases h with
      | push _ _ _ _ => exact { hN.notifySendCv with }
      | _ => exact { hN with }
  | receiver h => cases h <;> exact { hN with }
  | shutdown h => exact hN.shutdown hF h
  | writer h => exact hN.writer_step hG h
  | reader h => exact hN.reader_step hG h
  | deliver h => cases h <;> exact { hN with }
  | callShutdown _ => exact .of_not_awaits fun _ => rfl
  | expireShutdown _ => exact .of_not_awaits fun _ => rfl
  | _ => exact { hN with }

/-! ## The invariant of a safe run -/

/-- Everything the deadlock argument needs, kept by every safe step. -/
structure SafeInv (e : Env) (s : State) : Prop where
  unstarted : Unstarted s
  locks : Locks s
  flags : Flags s
  text : TextFits e s
  awake : SendAwake s
  pending : NotifyPending s

theorem SafeInv.step {a : Act} (hI : SafeInv e s) (hG : shutdownSafe e s a = true)
    (h : step e s a = some t) : SafeInv e t where
  unstarted := hI.unstarted.step h
  locks := hI.locks.step hI.unstarted h
  flags := hI.flags.step hI.unstarted h
  text := hI.text.step hI.locks hG h
  awake := hI.awake.step hI.locks hI.flags h
  pending := hI.pending.step hI.flags hG h

theorem safeInv_init (e : Env) : SafeInv e (init e.cfg) where
  unstarted := unstarted_init e.cfg
  locks := locks_init e.cfg
  flags := flags_init e.cfg
  text := ⟨rfl, nofun⟩
  awake := ⟨nofun, nofun, nofun, nofun⟩
  pending := .of_not_awaits fun _ => rfl

theorem safeInv_grun
    (h : Machine.GRun (step e) (fun s a => shutdownSafe e s a = true) (init e.cfg) s) :
    SafeInv e s :=
  Machine.GRun.invariant (I := SafeInv e) (fun _ _ _ hI hG ha => hI.step hG ha) h (safeInv_init e)

/-! ## Progress

A thread that holds a mutex is on its way to release it, so in a state where nothing moves every
mutex is free; and with every mutex free the thread that `shutdown` waits for can move. Only `read_loop`
can hold a mutex for good, in `abort_recv` with `recv_mu_` held. -/

/-- A call of `recv` or `send` returns. -/
def Act.isSocket : Act → Bool
  | .reader (.record _ _) => true
  | .reader (.error _) => true
  | .writer (.sent _) => true
  | .writer .failed => true
  | _ => false

/-- No thread can take a step, but for the calls of `recv` and `send` that have not returned. -/
def Still (e : Env) (s : State) : Prop :=
  ∀ a, threadStep s a = true → a.isSocket = false → step e s a = none

theorem still_of_frozen (hfrozen : ¬CanMove e s) : Still e s := by
  intro a hthread _
  by_contra hsome
  exact hfrozen ⟨a, hthread, Option.isSome_iff_ne_none.mpr hsome⟩

/-- While `read_loop` gives up, only `abort_recv` can make it wait. -/
theorem abort_of_held (hstill : Still e s) {held : Held} (hheld : s.reader.held = held)
    (hne : held ≠ .nothing) : ∃ err, s.reader = .abort err held := by
  have hnone := hstill (.reader .none) rfl rfl
  cases hr : s.reader with
  | abort err h =>
      rw [hr] at hheld
      exact ⟨err, by rw [show h = held from hheld]⟩
  | storeDone h => simp [step, readerStep, hr] at hnone
  | notifyDone h => simp [step, readerStep, hr] at hnone
  | leave h => simp [step, readerStep, hr] at hnone
  | _ =>
      rw [hr] at hheld
      exact absurd hheld.symm hne

section Mutexes

variable (hL : Locks s) (hself : ∀ err, s.reader ≠ .abort err .recvSend) (hstill : Still e s)

include hL hself hstill

/-- Only `read_loop` holds `recv_mu_` without moving, while it wants `send_mu_` as well. -/
theorem textStop_of_recvMu (hmu : s.recvMu ≠ none) : ∃ pt, s.reader = .textStop pt := by
  obtain ⟨u, hu⟩ := Option.ne_none_iff_exists'.mp hmu
  have hheld := hL.recv.holds_of_eq hu
  cases u with
  | receiver i =>
      have hnone := hstill (.receiver i) rfl rfl
      cases hi : s.receivers i with
      | park timed => simp [step, receiverStep, hi] at hnone
      | _ => simp [State.holdsRecv, hi, RecvPc.holds] at hheld
  | reader =>
      have hnone := hstill (.reader .none) rfl rfl
      by_cases hboth : s.reader.held = .recvSend
      · obtain ⟨err, hr⟩ := abort_of_held hstill hboth (by decide)
        exact absurd hr (hself err)
      · cases hr : s.reader with
        | textStop pt => exact ⟨pt, rfl⟩
        | textPark pt => simp [step, readerStep, hr] at hnone
        | _ =>
            simp only [State.holdsRecv, hr, ReaderPc.holdsRecv, beq_iff_eq] at hheld
            rw [hr] at hboth
            exact absurd hheld hboth
  | _ => simp [State.holdsRecv] at hheld

/-- Whoever holds `send_mu_` can move, or waits for someone who can. -/
theorem sendMu_free : s.sendMu = none := by
  by_contra hmu
  obtain ⟨u, hu⟩ := Option.ne_none_iff_exists'.mp hmu
  have hheld := hL.send.holds_of_eq hu
  cases u with
  | sender i =>
      have hnone := hstill (.sender i) rfl rfl
      cases hi : s.senders i with
      | park p timed => simp [step, senderStep, hi] at hnone
      | _ => simp [State.holdsSend, hi, SendPc.holds] at hheld
  | writer =>
      have hnone := hstill (.writer .none) rfl rfl
      cases hw : s.writer with
      | park => simp [step, writerStep, hw] at hnone
      | _ => simp [State.holdsSend, hw, WriterPc.holds] at hheld
  | reader =>
      have hnone := hstill (.reader .none) rfl rfl
      have hgive : s.reader.held = .send ∨ s.reader.held = .recvSend := by
        simp only [State.holdsSend] at hheld
        cases hr : s.reader with
        | pingPark pt => simp [step, readerStep, hr] at hnone
        | _ => simpa [hr, ReaderPc.holdsSend] using hheld
      rcases hgive with hsend | hboth
      · -- in `abort_recv`, and whoever holds `recv_mu_` moves
        obtain ⟨err, hr⟩ := abort_of_held hstill hsend (by decide)
        have hrecv : s.recvMu = none := by
          by_contra hmu
          obtain ⟨pt, hstop⟩ := textStop_of_recvMu hL hself hstill hmu
          cases hr.symm.trans hstop
        simp only [step, readerStep, hr, hrecv, if_true] at hnone
        cases hnone
      · obtain ⟨err, hr⟩ := abort_of_held hstill hboth (by decide)
        exact hself err hr
  | _ => simp [State.holdsSend] at hheld

theorem recvMu_free : s.recvMu = none := by
  by_contra hmu
  obtain ⟨pt, hr⟩ := textStop_of_recvMu hL hself hstill hmu
  have hnone := hstill (.reader .none) rfl rfl
  simp only [step, readerStep, hr, sendMu_free hL hself hstill, if_true] at hnone
  cases hnone

omit hself in
theorem jobsMu_free : s.jobsMu = none := by
  by_contra hmu
  obtain ⟨u, hu⟩ := Option.ne_none_iff_exists'.mp hmu
  have hheld := hL.jobs.holds_of_eq hu
  cases u with
  | deliver =>
      have hnone := hstill .deliver rfl rfl
      cases hd : s.deliver with
      | park => simp [step, deliverStep, hd] at hnone
      | drain => simp [step, deliverStep, hd] at hnone
      | _ => simp [State.holdsJobs, hd, DeliverPc.holds] at hheld
  | reader =>
      have hjobs : s.reader.held = .jobs := by
        simpa [State.holdsJobs, ReaderPc.holdsJobs] using hheld
      obtain ⟨err, hr⟩ := abort_of_held hstill hjobs (by decide)
      have hself : ∀ err', s.reader ≠ .abort err' .recvSend := by
        rw [hr]
        simp
      have hnone := hstill (.reader .none) rfl rfl
      simp only [step, readerStep, hr, recvMu_free hL hself hstill, if_true] at hnone
      cases hnone
  | _ => simp [State.holdsJobs] at hheld

omit hself in
theorem doneMu_free : s.doneMu = none := by
  by_contra hmu
  obtain ⟨u, hu⟩ := Option.ne_none_iff_exists'.mp hmu
  have hheld := hL.done.holds_of_eq hu
  cases u with
  | shutdown =>
      have hnone := hstill .shutdown rfl rfl
      cases hpc : s.shutdown with
      | park flag timed ec => simp [step, shutdownStep, hpc] at hnone
      | _ => simp [State.holdsDone, hpc, ShutPc.holds] at hheld
  | _ => simp [State.holdsDone] at hheld

end Mutexes

/-- With its mutex free, `write_loop` has ended or is in `send`, unless it is parked. -/
theorem writer_of_still (hstill : Still e s) (hsend : s.sendMu = none) (hparked : s.writer ≠ .parked) :
    s.writer = .exited ∨ ∃ site rest, s.writer = .send site rest := by
  have hnone := hstill (.writer .none) rfl rfl
  cases hw : s.writer with
  | parked => exact absurd hw hparked
  | exited => exact .inl rfl
  | send site rest => exact .inr ⟨site, rest, rfl⟩
  | write site out =>
      have hwrite := hstill (.writer (.nonce none)) rfl rfl
      simp [step, writerStep, hw] at hwrite
  | _ =>
      simp only [step, writerStep, hw, hsend, if_true] at hnone
      cases hnone

/-- With its mutexes free, `read_loop` has ended or is in `recv`, unless it is parked. -/
theorem reader_of_still (hstill : Still e s) (hsend : s.sendMu = none) (hrecv : s.recvMu = none)
    (hjobs : s.jobsMu = none) (htext : ∀ pt, s.reader ≠ .textParked pt)
    (hping : ∀ pt, s.reader ≠ .pingParked pt) : s.reader = .exited ∨ s.reader = .recv := by
  have hnone := hstill (.reader .none) rfl rfl
  cases hr : s.reader with
  | recv => exact .inr rfl
  | exited => exact .inl rfl
  | textParked pt => exact absurd hr (htext pt)
  | pingParked pt => exact absurd hr (hping pt)
  | _ =>
      simp only [step, readerStep, hr, hsend, hrecv, hjobs, if_true] at hnone
      cases hnone

theorem SafeInv.ne_abort (hI : SafeInv e s) (err : ErrorCode) : s.reader ≠ .abort err .recvSend := by
  intro hr
  have hsafe := hI.text.safe
  simp [hr, ReaderPc.textSafe, ReaderPc.held] at hsafe

theorem SafeInv.ne_textParked (hI : SafeInv e s) (pt : Bytes) : s.reader ≠ .textParked pt := by
  intro hr
  have hsafe := hI.text.safe
  simp [hr, ReaderPc.textSafe] at hsafe

/-- A `shutdown` that runs waits for a loop that is in its call of the socket. -/
theorem SafeInv.shutdown_waits (hI : SafeInv e s) (hstill : Still e s) (hcalled : s.shutdown ≠ .idle)
    (hrunning : ∀ ec, s.shutdown ≠ .done ec) :
    (s.sockClosed = false ∧ ∃ site rest, s.writer = .send site rest) ∨
      s.sockClosed = true ∧ s.reader = .recv := by
  have hsend := sendMu_free hI.locks hI.ne_abort hstill
  have hrecv := recvMu_free hI.locks hI.ne_abort hstill
  have hjobs := jobsMu_free hI.locks hstill
  have hdone := doneMu_free hI.locks hstill
  have hnone := hstill .shutdown rfl rfl
  cases hpc : s.shutdown with
  | idle => exact absurd hpc hcalled
  | done ec => exact absurd hpc (hrunning ec)
  | parked flag timed ec =>
      have hphase : 4 ≤ s.shutdown.phase := by cases flag <;> simp [hpc, ShutPc.phase]
      cases flag with
      | writeDone =>
          have hlive := hI.pending.writer (by simp [hpc, ShutPc.awaits])
          have hsock : s.sockClosed = false := by simp [hI.flags.sockClosed, hpc, ShutPc.phase]
          have hwriter := writer_of_still hstill hsend (hI.awake.writerParked hphase)
          exact .inl ⟨hsock, hwriter.resolve_left hlive⟩
      | readDone =>
          have hlive : s.reader ≠ .exited := by
            intro hexit
            have hnot := hI.pending.reader (by simp [hpc, ShutPc.awaits])
            rw [hexit] at hnot
            cases hnot
          have hsock : s.sockClosed = true := by simp [hI.flags.sockClosed, hpc, ShutPc.phase]
          have hreader := reader_of_still hstill hsend hrecv hjobs hI.ne_textParked
            (hI.awake.pingParked hphase)
          exact .inr ⟨hsock, hreader.resolve_left hlive⟩
  | await flag timed expired ec =>
      simp only [Conn.step, shutdownStep, hpc, hdone, if_true] at hnone
      split_ifs at hnone
  | _ =>
      simp only [Conn.step, shutdownStep, hpc, hsend, hjobs, if_true] at hnone
      cases hnone

/-- A running `shutdown` never leaves the connection without a step to take. -/
theorem SafeInv.canMove (hI : SafeInv e s) (hcalled : s.shutdown ≠ .idle)
    (hrunning : ∀ ec, s.shutdown ≠ .done ec) : CanMove e s := by
  by_contra hfrozen
  rcases hI.shutdown_waits (still_of_frozen hfrozen) hcalled hrunning with
    ⟨-, site, rest, hw⟩ | ⟨hsock, hr⟩
  · exact hfrozen ⟨.writer .failed, rfl, by simp only [Conn.step, writerStep, hw, Option.isSome_some]⟩
  · have hfailed : Errc.closed.code.failed = true := by decide
    refine hfrozen ⟨.reader (.error Errc.closed.code), hsock, ?_⟩
    simp only [Conn.step, readerStep, hr, hfailed, if_true, Option.isSome_some]

/-- **Shutdown does not deadlock**: in every run in which text records find room and no notify of
`done_cv_` falls between the test and the wait of `shutdown`, no state is stuck. -/
theorem not_stuck_of_shutdownSafe
    (h : Machine.GRun (step e) (fun s a => shutdownSafe e s a = true) (init e.cfg) s) :
    ¬ Stuck e s := by
  rintro ⟨hcalled, hrunning, hfrozen⟩
  exact hfrozen ((safeInv_grun h).canMove hcalled hrunning)

/-- Two text records with nobody receiving park `read_loop`; then `shutdown` closes the socket and
parks as well. -/
def deadlockTrace : List Act :=
  readText [1] ++ readText [2] ++ closeTrace ++ List.replicate 6 .shutdown

theorem deadlockTrace_stuck : ¬ ∀ (e : Env) (s : State), Reachable e s → ¬ Stuck e s := by
  intro h
  obtain ⟨s, hrun, hshut, hreader, hwriter, hdeliver, hsend, hrecv⟩ :
      ∃ s, Reachable tightEnv s ∧ s.shutdown = .parked .readDone false .success ∧
        s.reader = .textParked [2] ∧ s.writer = .exited ∧ s.deliver = .absent ∧
        (∀ i, s.senders i = .idle) ∧ ∀ i, s.receivers i = .idle :=
    Machine.exists_run_of_exec deadlockTrace
      ⟨_, rfl, rfl, rfl, rfl, rfl, fun _ => rfl, fun _ => rfl⟩
  refine h tightEnv s hrun ⟨by simp [hshut], by simp [hshut], ?_⟩
  rintro ⟨a, ha, hsome⟩
  cases a with
  | sender i => simp [step, senderStep, hsend] at hsome
  | receiver i => simp [step, receiverStep, hrecv] at hsome
  | shutdown => simp [step, shutdownStep, hshut] at hsome
  | writer io => cases io <;> simp [step, writerStep, hwriter] at hsome
  | reader io => cases io <;> simp [step, readerStep, hreader] at hsome
  | deliver => simp [step, deliverStep, hdeliver] at hsome
  | _ => cases ha

/-- One text record that finds room, then a shutdown that has just closed the socket. -/
theorem not_stuck_at_close :
    ∃ s, Machine.GRun (step tightEnv) (fun s a => shutdownSafe tightEnv s a = true)
        (init tightEnv.cfg) s ∧ s.shutdown = .parked .readDone false .success ∧
      ¬ Stuck tightEnv s := by
  obtain ⟨s, hexec, hshut⟩ : ∃ s, Machine.gexec (step tightEnv) (shutdownSafe tightEnv)
      (init tightEnv.cfg) (readText [1] ++ closeTrace ++ List.replicate 6 .shutdown) = some s ∧
        s.shutdown = .parked .readDone false .success := ⟨_, rfl, rfl⟩
  have hrun := Machine.grun_of_gexec _ hexec
  exact ⟨s, hrun, hshut, not_stuck_of_shutdownSafe hrun⟩

end TcpDuplex.Conn
