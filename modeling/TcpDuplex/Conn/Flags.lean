import TcpDuplex.Conn.Locks

/-!
# The flags of a connection and the counters behind them

Every flag of a connection is set by one thread at one place, so its value can be read off that
thread's counter: the four flags of `shutdown` off how far it has got, `write_done_` and `read_done_`
off the exits of the two loops. `Flags` states this for every reachable state. It also records what a
thread had seen when it took a branch that depends on `stop_send_`, which is never cleared.
-/

namespace TcpDuplex.Conn

open Protocol

variable {e : Env} {s t : State}

/-! ## How far a thread has got -/

/-- How far `shutdown` has got; a wait counts as one phase. -/
def ShutPc.phase : ShutPc → ℕ
  | .idle => 0
  | .markClosed _ => 1
  | .setStop _ => 2
  | .notifySend _ => 3
  | .await .writeDone _ _ _ => 4
  | .park .writeDone _ _ => 4
  | .parked .writeDone _ _ => 4
  | .setDeliverStop _ _ => 5
  | .notifyJobs _ _ => 6
  | .closeSock _ _ => 7
  | .await .readDone _ _ _ => 8
  | .park .readDone _ _ => 8
  | .parked .readDone _ _ => 8
  | .done _ => 9

/-- `write_loop` has stored `write_done_`. -/
def WriterPc.isDone : WriterPc → Bool
  | .notifyDone => true
  | .exited => true
  | _ => false

/-- `write_loop` is past the test that decided to flush. -/
def WriterPc.flushing : WriterPc → Bool
  | .drain => true
  | .write .drain _ => true
  | .write .close _ => true
  | .send .drain _ => true
  | .send .close _ => true
  | _ => false

/-- `read_loop` has stored `read_done_`. -/
def ReaderPc.isDone : ReaderPc → Bool
  | .notifyDone _ => true
  | .leave _ => true
  | .exited => true
  | _ => false

@[simp]
theorem ShutPc.phase_wake (pc : ShutPc) : pc.wake.phase = pc.phase := by
  cases pc with
  | parked flag _ _ => cases flag <;> rfl
  | _ => rfl

@[simp]
theorem ShutPc.phase_after_writeDone (timed : Bool) (ec ec2 : ErrorCode) :
    (ShutPc.after .writeDone timed ec ec2).phase = 5 := rfl

@[simp]
theorem ShutPc.phase_after_readDone (timed : Bool) (ec ec2 : ErrorCode) :
    (ShutPc.after .readDone timed ec ec2).phase = 9 := rfl

@[simp]
theorem WriterPc.isDone_wake (pc : WriterPc) : pc.wake.isDone = pc.isDone := by
  cases pc <;> rfl

@[simp]
theorem WriterPc.flushing_wake (pc : WriterPc) : pc.wake.flushing = pc.flushing := by
  cases pc <;> rfl

@[simp]
theorem ReaderPc.isDone_wakeSend (pc : ReaderPc) : pc.wakeSend.isDone = pc.isDone := by
  cases pc <;> rfl

@[simp]
theorem ReaderPc.held_wakeSend (pc : ReaderPc) : pc.wakeSend.held = pc.held := by
  cases pc <;> rfl

/-! ## The flags -/

/-- The value of every flag, read off the thread that sets it, and what the branches taken on
`stop_send_` still imply. -/
structure Flags (s : State) : Prop where
  closed : s.closed = decide (2 ≤ s.shutdown.phase)
  stopSend : s.stopSend = decide (3 ≤ s.shutdown.phase)
  deliverStop : s.deliverStop = decide (6 ≤ s.shutdown.phase)
  sockClosed : s.sockClosed = decide (8 ≤ s.shutdown.phase)
  writeDone : s.writeDone = s.writer.isDone
  readDone : s.readDone = s.reader.isDone
  held : s.reader.held = .send ∨ s.reader.held = .recvSend → s.stopSend = true
  flushing : s.writer.flushing = true → s.stopSend = true

namespace Flags

/-- The four flags of `shutdown` move with its phase. -/
theorem setShutdown {pc : ShutPc} (hF : Flags s) (h : pc.phase = s.shutdown.phase) :
    Flags { s with shutdown := pc } :=
  { hF with
    closed := by rw [hF.closed, h]
    stopSend := by rw [hF.stopSend, h]
    deliverStop := by rw [hF.deliverStop, h]
    sockClosed := by rw [hF.sockClosed, h] }

theorem notifyDoneCv (hF : Flags s) : Flags s.notifyDoneCv := hF.setShutdown (by simp)

theorem notifySendCv (hF : Flags s) : Flags s.notifySendCv :=
  { hF with
    writeDone := by simp [State.notifySendCv, hF.writeDone]
    readDone := by simp [State.notifySendCv, hF.readDone]
    held := by simpa [State.notifySendCv] using hF.held
    flushing := by simpa [State.notifySendCv] using hF.flushing }

/-- `recv_cv_` wakes `read_loop` only before it gives up. -/
theorem notifyRecvCv (hF : Flags s) : Flags s.notifyRecvCv := by
  have hdone : s.reader.wakeRecv.isDone = s.reader.isDone := by
    cases s.reader <;> rfl
  have hheld : s.reader.wakeRecv.held = s.reader.held := by
    cases s.reader <;> rfl
  exact { hF with
    readDone := by simp only [State.notifyRecvCv, hF.readDone, hdone]
    held := by simpa only [State.notifyRecvCv, hheld] using hF.held }

/-- `stop_send_` is set exactly from one phase of `shutdown` on. -/
theorem stopSend_of_phase (hF : Flags s) (h : 3 ≤ s.shutdown.phase) : s.stopSend = true := by
  rw [hF.stopSend]
  simpa using h

/-- `stop_send_` is set only behind `closed_`. -/
theorem closed_of_stopSend (hF : Flags s) (h : s.stopSend = true) : s.closed = true := by
  rw [hF.stopSend, decide_eq_true_iff] at h
  rw [hF.closed, decide_eq_true_iff]
  omega

theorem shutdown (hF : Flags s) (h : ShutdownTrans s t) : Flags t := by
  obtain ⟨h₁, h₂, h₃, h₄, h₅, h₆, h₇, h₈⟩ := hF
  cases h with
  | markClosed hpc =>
      simp only [hpc, ShutPc.phase] at h₁ h₂ h₃ h₄
      exact ⟨rfl, h₂, h₃, h₄, h₅, h₆, h₇, h₈⟩
  | setStop hpc _ =>
      simp only [hpc, ShutPc.phase] at h₁ h₂ h₃ h₄
      exact ⟨h₁, rfl, h₃, h₄, h₅, h₆, fun _ => rfl, fun _ => rfl⟩
  | notifySend hpc =>
      have hwoken := notifySendCv ⟨h₁, h₂, h₃, h₄, h₅, h₆, h₇, h₈⟩
      simp only [hpc, ShutPc.phase] at h₁ h₂ h₃ h₄
      exact ⟨h₁, h₂, h₃, h₄, hwoken.writeDone, hwoken.readDone, hwoken.held, hwoken.flushing⟩
  | @flagSet flag _ _ _ hpc _ _ =>
      cases flag <;> simp only [hpc, ShutPc.phase] at h₁ h₂ h₃ h₄ <;>
        exact ⟨h₁, h₂, h₃, h₄, h₅, h₆, h₇, h₈⟩
  | @timeout flag _ _ hpc _ _ =>
      cases flag <;> simp only [hpc, ShutPc.phase] at h₁ h₂ h₃ h₄ <;>
        exact ⟨h₁, h₂, h₃, h₄, h₅, h₆, h₇, h₈⟩
  | @flagUnset flag _ _ hpc _ _ =>
      cases flag <;> simp only [hpc, ShutPc.phase] at h₁ h₂ h₃ h₄ <;>
        exact ⟨h₁, h₂, h₃, h₄, h₅, h₆, h₇, h₈⟩
  | @park flag _ _ hpc =>
      cases flag <;> simp only [hpc, ShutPc.phase] at h₁ h₂ h₃ h₄ <;>
        exact ⟨h₁, h₂, h₃, h₄, h₅, h₆, h₇, h₈⟩
  | setDeliverStop hpc _ =>
      simp only [hpc, ShutPc.phase] at h₁ h₂ h₃ h₄
      exact ⟨h₁, h₂, rfl, h₄, h₅, h₆, h₇, h₈⟩
  | notifyJobs hpc =>
      simp only [hpc, ShutPc.phase] at h₁ h₂ h₃ h₄
      exact ⟨h₁, h₂, h₃, h₄, h₅, h₆, h₇, h₈⟩
  | closeSock hpc =>
      simp only [hpc, ShutPc.phase] at h₁ h₂ h₃ h₄
      exact ⟨h₁, h₂, h₃, rfl, h₅, h₆, h₇, h₈⟩

/-- `write_loop` moves between counters before `write_done_`, without starting to flush. -/
theorem setWriter {pc : WriterPc} (hF : Flags s) (pc' : WriterPc) (hpc : s.writer = pc)
    (hdone : pc'.isDone = pc.isDone) (hflush : pc'.flushing = true → s.stopSend = true) :
    Flags { s with writer := pc' } :=
  { hF with
    writeDone := by rw [hF.writeDone, hpc, hdone]
    flushing := hflush }

theorem writer {io : WriteIo} (hF : Flags s) (h : WriterTrans e s io t) : Flags t := by
  cases h with
  | @pop out _ hpc _ _ =>
      have hmid : Flags { s with writer := .write .loop out } :=
        hF.setWriter _ hpc rfl (fun h => by cases h)
      exact notifySendCv { hmid with }
  | flush hpc _ _ hstop => exact hF.setWriter _ hpc rfl (fun _ => hstop)
  | empty hpc _ _ _ => exact { hF.setWriter .park hpc rfl (fun h => by cases h) with }
  | park hpc => exact { hF.setWriter .parked hpc rfl (fun h => by cases h) with }
  | @drainPop out _ hpc _ _ =>
      exact { hF.setWriter (.write .drain out) hpc rfl
        (fun _ => hF.flushing (by rw [hpc]; rfl)) with }
  | drainEnd hpc _ _ => exact hF.setWriter _ hpc rfl (fun _ => hF.flushing (by rw [hpc]; rfl))
  | storeDone hpc => exact { hF with writeDone := rfl, flushing := fun h => by cases h }
  | notifyDone hpc => exact hF.notifyDoneCv.setWriter _ hpc rfl (fun h => by cases h)
  | @sealFail site _ _ hpc => exact hF.setWriter _ hpc rfl (fun h => by cases h)
  | @begin site out _ sealed hpc _ _ =>
      refine { hF.setWriter (.send site (recordBytes out.typ sealed)) hpc rfl
        (fun h => hF.flushing ?_) with }
      rw [hpc]
      cases site <;> exact h
  | @sent site rest k hpc _ _ =>
      refine { hF.setWriter (.send site (rest.drop k)) hpc rfl (fun h => hF.flushing ?_) with }
      rw [hpc]
      cases site <;> exact h
  | @sentAll site rest hpc _ =>
      refine { hF.setWriter (.after site) hpc (by cases site <;> rfl)
        (fun h => hF.flushing ?_) with }
      rw [hpc]
      cases site <;> first | exact h | rfl
  | sendFail hpc => exact hF.setWriter _ hpc rfl (fun h => by cases h)

/-- `read_loop` moves between counters that agree about `read_done_` and hold the same, or hold no
`send_mu_` afterwards. -/
theorem setReader {pc : ReaderPc} (hF : Flags s) (pc' : ReaderPc) (hpc : s.reader = pc)
    (hdone : pc'.isDone = pc.isDone)
    (hheld : pc'.held = .send ∨ pc'.held = .recvSend → s.stopSend = true) :
    Flags { s with reader := pc' } :=
  { hF with
    readDone := by rw [hF.readDone, hpc, hdone]
    held := hheld }

theorem reader {io : ReadIo} (hF : Flags s) (h : ReaderTrans e s io t) : Flags t := by
  -- counters that hold nothing while giving up
  have hfree : ∀ {pc : ReaderPc} (pc' : ReaderPc), s.reader = pc → pc'.isDone = pc.isDone →
      pc'.held = .nothing → Flags { s with reader := pc' } := by
    intro pc pc' hpc hdone hnothing
    exact hF.setReader pc' hpc hdone (by rw [hnothing]; rintro (h | h) <;> cases h)
  -- counters that pass on what is held
  have hkeep : ∀ {pc pc' : ReaderPc}, s.reader = pc → pc'.held = pc.held →
      pc'.held = .send ∨ pc'.held = .recvSend → s.stopSend = true := by
    intro pc pc' hpc heq h
    exact hF.held (by rwa [hpc, ← heq])
  cases h with
  | @textGo pt hpc _ _ => exact { hfree (.textStop pt) hpc rfl rfl with }
  | @textFull pt hpc _ _ _ _ => exact { hfree (.textPark pt) hpc rfl rfl with }
  | @textPark pt hpc => exact { hfree (.textParked pt) hpc rfl rfl with }
  | textGiveUp hpc _ hstop _ =>
      exact { hF.setReader (.abort Errc.closed.code .recvSend) hpc rfl (fun _ => hstop) with }
  | textSkip hpc _ _ => exact { hfree .recv hpc rfl rfl with }
  | textPush hpc _ _ _ =>
      have hmid : Flags { s with reader := .recv } := hfree _ hpc rfl rfl
      exact notifyRecvCv { hmid with }
  | jobPush hpc _ _ => exact { hfree .recv hpc rfl rfl with }
  | jobSlow hpc _ _ _ =>
      exact { hF.setReader (.abort Errc.slowConsumer.code .jobs) hpc rfl
        (by rintro (h | h) <;> cases h) with }
  | jobDrop hpc _ _ _ => exact { hfree .recv hpc rfl rfl with }
  | pingGiveUp hpc _ hstop =>
      exact { hF.setReader (.abort Errc.closed.code .send) hpc rfl (fun _ => hstop) with }
  | pingPush hpc _ _ _ =>
      have hmid : Flags { s with reader := .recv } := hfree _ hpc rfl rfl
      exact notifySendCv { hmid with }
  | @pingFull pt hpc _ _ _ => exact { hfree (.pingPark pt) hpc rfl rfl with }
  | @pingPark pt hpc => exact { hfree (.pingParked pt) hpc rfl rfl with }
  | abortAgain hpc _ _ => exact hF.setReader _ hpc rfl (hkeep hpc rfl)
  | @abortFirst _ held hpc _ _ =>
      have hmid : Flags { s with reader := .storeDone held } := hF.setReader _ hpc rfl (hkeep hpc rfl)
      exact notifyRecvCv { hmid with }
  | storeDone hpc => exact { hF with readDone := rfl, held := hkeep hpc rfl }
  | notifyDone hpc => exact hF.notifyDoneCv.setReader _ hpc rfl (hkeep hpc rfl)
  | @leave held hpc =>
      have hmid : Flags { s with reader := .exited } := hfree _ hpc rfl rfl
      cases held <;> exact { hmid with }
  | gotClose hpc _ =>
      exact { hfree (.abort Errc.closed.code .nothing) hpc rfl rfl with }
  | recvFail hpc _ => exact hfree _ hpc rfl rfl
  | openFail hpc _ => exact hfree _ hpc rfl rfl
  | gotText hpc _ _ _ => exact hfree _ hpc rfl rfl
  | gotJob hpc _ _ _ => exact hfree _ hpc rfl rfl
  | gotLarge hpc _ _ => exact hfree _ hpc rfl rfl
  | gotPing hpc _ => exact hfree _ hpc rfl rfl
  | gotPong hpc _ => exact hfree _ hpc rfl rfl
  | gotBad hpc _ _ _ _ _ => exact hfree _ hpc rfl rfl

theorem step {a : Act} (hF : Flags s) (hU : Unstarted s) (h : step e s a = some t) : Flags t := by
  cases step_inv h with
  | sender h =>
      cases h with
      | push _ _ _ _ => exact { hF.notifySendCv with }
      | _ => exact { hF with }
  | receiver h => cases h <;> exact { hF with }
  | shutdown h => exact hF.shutdown h
  | writer h => exact hF.writer h
  | reader h => exact hF.reader h
  | deliver h => cases h <;> exact { hF with }
  | callShutdown hstarted =>
      obtain ⟨h₁, h₂, h₃, h₄, h₅, h₆, h₇, h₈⟩ := hF
      simp only [hU hstarted, ShutPc.phase] at h₁ h₂ h₃ h₄
      exact ⟨h₁, h₂, h₃, h₄, h₅, h₆, h₇, h₈⟩
  | @expireShutdown flag ec hpc =>
      exact hF.setShutdown (by rw [hpc]; cases flag <;> rfl)
  | _ => exact { hF with }

end Flags

theorem flags_init (cfg : FrozenConfig) : Flags (init cfg) where
  closed := rfl
  stopSend := rfl
  deliverStop := rfl
  sockClosed := rfl
  writeDone := rfl
  readDone := rfl
  held h := by rcases h with h | h <;> cases h
  flushing h := by cases h

/-- The mutexes and the flags agree with the counters in every state of every interleaving. -/
theorem flags_reachable (h : Reachable e s) : Flags s :=
  (Machine.Run.invariant (I := fun s => Unstarted s ∧ Flags s)
    (fun _ _ _ hI hstep => ⟨hI.1.step hstep, hI.2.step hI.1 hstep⟩) h
    ⟨unstarted_init e.cfg, flags_init e.cfg⟩).2

end TcpDuplex.Conn
