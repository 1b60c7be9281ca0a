import TcpDuplex.Lib.Ownership
import TcpDuplex.Conn.Trans

/-!
# Who holds which mutex

`Locks` ties the four mutexes of a connection to the program counters: a thread holds a mutex, by its
counter, exactly when it is the recorded owner. It holds in every reachable state (`locks_reachable`),
for any number of callers and every interleaving.
-/

namespace TcpDuplex.Conn

open Protocol

variable {e : Env} {s t : State}

/-! ## The counters at which a mutex is held -/

/-- `send_for` holds `send_mu_` between a failed test and the wait. -/
def SendPc.holds : SendPc → Bool
  | .park _ _ => true
  | _ => false

/-- `receive_for` holds `recv_mu_` between a failed test and the wait. -/
def RecvPc.holds : RecvPc → Bool
  | .park _ => true
  | _ => false

/-- `write_loop` holds `send_mu_` between a failed test and the wait. -/
def WriterPc.holds : WriterPc → Bool
  | .park => true
  | _ => false

/-- `deliver_loop` holds `jobs_mu_` between a failed test and the wait, and in its drain loop. -/
def DeliverPc.holds : DeliverPc → Bool
  | .park => true
  | .drain => true
  | _ => false

/-- `shutdown` holds `done_mu_` between a failed test and the wait. -/
def ShutPc.holds : ShutPc → Bool
  | .park _ _ _ => true
  | _ => false

/-- What `read_loop` holds while it gives up. -/
def ReaderPc.held : ReaderPc → Held
  | .abort _ held => held
  | .storeDone held => held
  | .notifyDone held => held
  | .leave held => held
  | _ => .nothing

def ReaderPc.holdsSend : ReaderPc → Bool
  | .pingPark _ => true
  | pc => pc.held == .send || pc.held == .recvSend

def ReaderPc.holdsRecv : ReaderPc → Bool
  | .textPark _ => true
  | .textStop _ => true
  | pc => pc.held == .recvSend

def ReaderPc.holdsJobs (pc : ReaderPc) : Bool := pc.held == .jobs

/-- The thread holds `send_mu_`. -/
def State.holdsSend (s : State) : Tid → Bool
  | .sender i => (s.senders i).holds
  | .writer => s.writer.holds
  | .reader => s.reader.holdsSend
  | _ => false

/-- The thread holds `recv_mu_`. -/
def State.holdsRecv (s : State) : Tid → Bool
  | .receiver i => (s.receivers i).holds
  | .reader => s.reader.holdsRecv
  | _ => false

/-- The thread holds `jobs_mu_`. -/
def State.holdsJobs (s : State) : Tid → Bool
  | .deliver => s.deliver.holds
  | .reader => s.reader.holdsJobs
  | _ => false

/-- The thread holds `done_mu_`. -/
def State.holdsDone (s : State) : Tid → Bool
  | .shutdown => s.shutdown.holds
  | _ => false

/-- Every mutex is owned by the thread whose counter says so. -/
structure Locks (s : State) : Prop where
  send : Owned s.sendMu s.holdsSend
  recv : Owned s.recvMu s.holdsRecv
  jobs : Owned s.jobsMu s.holdsJobs
  done : Owned s.doneMu s.holdsDone

/-! ## Steps that leave a mutex alone

A mutex keeps its owner when every thread that could hold it holds it as before. -/

theorem holdsSend_frame (hs : ∀ i, (t.senders i).holds = (s.senders i).holds)
    (hw : t.writer.holds = s.writer.holds) (hr : t.reader.holdsSend = s.reader.holdsSend) (u : Tid) :
    t.holdsSend u = s.holdsSend u := by
  cases u with
  | sender i => exact hs i
  | writer => exact hw
  | reader => exact hr
  | _ => rfl

theorem holdsRecv_frame (hs : ∀ i, (t.receivers i).holds = (s.receivers i).holds)
    (hr : t.reader.holdsRecv = s.reader.holdsRecv) (u : Tid) : t.holdsRecv u = s.holdsRecv u := by
  cases u with
  | receiver i => exact hs i
  | reader => exact hr
  | _ => rfl

theorem holdsJobs_frame (hd : t.deliver.holds = s.deliver.holds)
    (hr : t.reader.holdsJobs = s.reader.holdsJobs) (u : Tid) : t.holdsJobs u = s.holdsJobs u := by
  cases u with
  | deliver => exact hd
  | reader => exact hr
  | _ => rfl

theorem holdsDone_frame (hd : t.shutdown.holds = s.shutdown.holds) (u : Tid) :
    t.holdsDone u = s.holdsDone u := by
  cases u with
  | shutdown => exact hd
  | _ => rfl

/-- Moving one call between counters that hold the same leaves all calls holding the same. -/
theorem update_holds {pc : SendPc} {i : ℕ} (h : pc.holds = (s.senders i).holds) (j : ℕ) :
    (Function.update s.senders i pc j).holds = (s.senders j).holds := by
  by_cases hj : j = i
  · subst hj
    rw [Function.update_self, h]
  · rw [Function.update_of_ne hj]

theorem update_holds_receivers {pc : RecvPc} {i : ℕ} (h : pc.holds = (s.receivers i).holds) (j : ℕ) :
    (Function.update s.receivers i pc j).holds = (s.receivers j).holds := by
  by_cases hj : j = i
  · subst hj
    rw [Function.update_self, h]
  · rw [Function.update_of_ne hj]

/-! A notify moves parked threads only, and those hold nothing before or after. -/

@[simp] theorem SendPc.holds_wake (pc : SendPc) : pc.wake.holds = pc.holds := by cases pc <;> rfl

@[simp] theorem RecvPc.holds_wake (pc : RecvPc) : pc.wake.holds = pc.holds := by cases pc <;> rfl

@[simp] theorem WriterPc.holds_wake (pc : WriterPc) : pc.wake.holds = pc.holds := by cases pc <;> rfl

@[simp] theorem DeliverPc.holds_wake (pc : DeliverPc) : pc.wake.holds = pc.holds := by
  cases pc <;> rfl

@[simp] theorem ShutPc.holds_wake (pc : ShutPc) : pc.wake.holds = pc.holds := by cases pc <;> rfl

@[simp] theorem ReaderPc.holdsSend_wakeSend (pc : ReaderPc) :
    pc.wakeSend.holdsSend = pc.holdsSend := by cases pc <;> rfl

@[simp] theorem ReaderPc.holdsRecv_wakeSend (pc : ReaderPc) :
    pc.wakeSend.holdsRecv = pc.holdsRecv := by cases pc <;> rfl

@[simp] theorem ReaderPc.holdsJobs_wakeSend (pc : ReaderPc) :
    pc.wakeSend.holdsJobs = pc.holdsJobs := by cases pc <;> rfl

@[simp] theorem ReaderPc.holdsSend_wakeRecv (pc : ReaderPc) :
    pc.wakeRecv.holdsSend = pc.holdsSend := by cases pc <;> rfl

@[simp] theorem ReaderPc.holdsRecv_wakeRecv (pc : ReaderPc) :
    pc.wakeRecv.holdsRecv = pc.holdsRecv := by cases pc <;> rfl

@[simp] theorem ReaderPc.holdsJobs_wakeRecv (pc : ReaderPc) :
    pc.wakeRecv.holdsJobs = pc.holdsJobs := by cases pc <;> rfl

namespace Locks

theorem notifySendCv (hL : Locks s) : Locks s.notifySendCv where
  send := hL.send.frame (holdsSend_frame (fun _ => by simp [State.notifySendCv])
    (by simp [State.notifySendCv]) (by simp [State.notifySendCv]))
  recv := hL.recv.frame (holdsRecv_frame (fun _ => rfl) (by simp [State.notifySendCv]))
  jobs := hL.jobs.frame (holdsJobs_frame rfl (by simp [State.notifySendCv]))
  done := hL.done

theorem notifyRecvCv (hL : Locks s) : Locks s.notifyRecvCv where
  send := hL.send.frame (holdsSend_frame (fun _ => rfl) rfl (by simp [State.notifyRecvCv]))
  recv := hL.recv.frame (holdsRecv_frame (fun _ => by simp [State.notifyRecvCv])
    (by simp [State.notifyRecvCv]))
  jobs := hL.jobs.frame (holdsJobs_frame rfl (by simp [State.notifyRecvCv]))
  done := hL.done

theorem notifyJobsCv (hL : Locks s) : Locks s.notifyJobsCv :=
  { hL with jobs := hL.jobs.frame (holdsJobs_frame (by simp [State.notifyJobsCv]) rfl) }

theorem notifyDoneCv (hL : Locks s) : Locks s.notifyDoneCv :=
  { hL with done := hL.done.frame (holdsDone_frame (by simp [State.notifyDoneCv])) }

theorem setSender {i : ℕ} {pc : SendPc} (hL : Locks s) (h : pc.holds = (s.senders i).holds) :
    Locks (s.setSender i pc) :=
  { hL with send := hL.send.frame (holdsSend_frame (update_holds h) rfl rfl) }

theorem setReceiver {i : ℕ} {pc : RecvPc} (hL : Locks s) (h : pc.holds = (s.receivers i).holds) :
    Locks (s.setReceiver i pc) :=
  { hL with recv := hL.recv.frame (holdsRecv_frame (update_holds_receivers h) rfl) }

/-! ## The threads -/

theorem sender {i : ℕ} (hL : Locks s) (h : SenderTrans e s i t) : Locks t := by
  have hother : ∀ pc u, u ≠ .sender i → (s.setSender i pc).holdsSend u = s.holdsSend u := by
    intro pc u hu
    cases u with
    | sender j =>
        have hj : j ≠ i := fun h => hu (by rw [h])
        simp [State.holdsSend, State.setSender, Function.update_of_ne hj]
    | _ => rfl
  cases h with
  | refuseClosed hpc _ => exact hL.setSender (by rw [hpc]; rfl)
  | refuseLarge hpc _ _ => exact hL.setSender (by rw [hpc]; rfl)
  | enter hpc _ _ => exact hL.setSender (by rw [hpc]; rfl)
  | refuseStop hpc _ _ => exact hL.setSender (by rw [hpc]; rfl)
  | @push p timed expired hpc _ _ _ =>
      have hmid : Locks (pushSend s ⟨kMsgText, p⟩) := notifySendCv { hL with }
      have hcall : SendPc.holds (.done .success) = ((pushSend s ⟨kMsgText, p⟩).senders i).holds := by
        simp only [pushSend, State.notifySendCv, SendPc.holds_wake, hpc]
        rfl
      exact { hmid.setSender hcall with }
  | timeout hpc _ _ _ => exact hL.setSender (by rw [hpc]; rfl)
  | full hpc hmu _ _ =>
      exact { hL with
        send := (hmu ▸ hL.send).acquire
          (by simp [State.holdsSend, State.setSender, SendPc.holds]) (hother _) }
  | park hpc =>
      exact { hL with
        send := hL.send.release (t := .sender i) (by simp [State.holdsSend, hpc, SendPc.holds])
          (by simp [State.holdsSend, State.setSender, SendPc.holds]) (hother _) }

theorem receiver {i : ℕ} (hL : Locks s) (h : ReceiverTrans e s i t) : Locks t := by
  have hother : ∀ pc u, u ≠ .receiver i → (s.setReceiver i pc).holdsRecv u = s.holdsRecv u := by
    intro pc u hu
    cases u with
    | receiver j =>
        have hj : j ≠ i := fun h => hu (by rw [h])
        simp [State.holdsRecv, State.setReceiver, Function.update_of_ne hj]
    | _ => rfl
  -- returning changes the counter and the history of the call only
  have hfinish : ∀ r, (s.receivers i).holds = false → Locks (s.finishReceive i r) := by
    intro r hpc
    have hcall : RecvPc.holds (.done r) = (s.receivers i).holds := by rw [hpc]; rfl
    exact { hL.setReceiver hcall with }
  cases h with
  | disabled hpc _ => exact hfinish _ (by rw [hpc]; rfl)
  | enter hpc _ => exact hL.setReceiver (by rw [hpc]; rfl)
  | @pop _ _ p _ hpc _ _ => exact { hfinish (.ok p) (by rw [hpc]; rfl) with }
  | fail hpc _ _ _ => exact hfinish _ (by rw [hpc]; rfl)
  | timeout hpc _ _ _ => exact hfinish _ (by rw [hpc]; rfl)
  | empty hpc hmu _ _ =>
      exact { hL with
        recv := (hmu ▸ hL.recv).acquire
          (by simp [State.holdsRecv, State.setReceiver, RecvPc.holds]) (hother _) }
  | park hpc =>
      exact { hL with
        recv := hL.recv.release (t := .receiver i) (by simp [State.holdsRecv, hpc, RecvPc.holds])
          (by simp [State.holdsRecv, State.setReceiver, RecvPc.holds]) (hother _) }

theorem shutdown (hL : Locks s) (h : ShutdownTrans s t) : Locks t := by
  have hother : ∀ (r : State) (u : Tid), u ≠ .shutdown → r.holdsDone u = s.holdsDone u := by
    intro r u hu
    cases u with
    | shutdown => exact absurd rfl hu
    | _ => rfl
  cases h with
  | markClosed hpc => exact { hL with done := hL.done.frame (holdsDone_frame (by rw [hpc]; rfl)) }
  | setStop hpc _ => exact { hL with done := hL.done.frame (holdsDone_frame (by rw [hpc]; rfl)) }
  | notifySend hpc =>
      exact { hL.notifySendCv with done := hL.done.frame (holdsDone_frame (by rw [hpc]; rfl)) }
  | @flagSet flag _ _ _ hpc _ _ =>
      exact { hL with done := hL.done.frame (holdsDone_frame (by rw [hpc]; cases flag <;> rfl)) }
  | @timeout flag _ _ hpc _ _ =>
      exact { hL with done := hL.done.frame (holdsDone_frame (by rw [hpc]; cases flag <;> rfl)) }
  | flagUnset hpc hmu _ => exact { hL with done := (hmu ▸ hL.done).acquire rfl (hother _) }
  | park hpc =>
      exact { hL with
        done := hL.done.release (t := .shutdown) (by simp [State.holdsDone, hpc, ShutPc.holds]) rfl
          (hother _) }
  | setDeliverStop hpc _ =>
      exact { hL with done := hL.done.frame (holdsDone_frame (by rw [hpc]; rfl)) }
  | notifyJobs hpc =>
      exact { hL.notifyJobsCv with done := hL.done.frame (holdsDone_frame (by rw [hpc]; rfl)) }
  | closeSock hpc => exact { hL with done := hL.done.frame (holdsDone_frame (by rw [hpc]; rfl)) }

/-- `write_loop` moves without touching a mutex. -/
theorem setWriter (hL : Locks s) (pc : WriterPc) (h : pc.holds = s.writer.holds) :
    Locks { s with writer := pc } :=
  { hL with send := hL.send.frame (holdsSend_frame (fun _ => rfl) h rfl) }

theorem writer {io : WriteIo} (hL : Locks s) (h : WriterTrans e s io t) : Locks t := by
  have hother : ∀ mu pc u, u ≠ .writer →
      State.holdsSend { s with sendMu := mu, writer := pc } u = s.holdsSend u := by
    intro mu pc u hu
    cases u with
    | writer => exact absurd rfl hu
    | _ => rfl
  cases h with
  | @pop out rest hpc _ _ =>
      have hmid : Locks { s with writer := .write .loop out } := hL.setWriter _ (by rw [hpc]; rfl)
      exact notifySendCv { hmid with }
  | flush hpc _ _ _ => exact hL.setWriter _ (by rw [hpc]; rfl)
  | empty hpc hmu _ _ => exact { hL with send := (hmu ▸ hL.send).acquire rfl (hother _ _) }
  | park hpc =>
      exact { hL with
        send := hL.send.release (t := .writer) (by simp [State.holdsSend, hpc, WriterPc.holds]) rfl
          (hother _ _) }
  | @drainPop out _ hpc _ _ =>
      exact { hL.setWriter (.write .drain out) (by rw [hpc]; rfl) with }
  | drainEnd hpc _ _ => exact hL.setWriter _ (by rw [hpc]; rfl)
  | storeDone hpc => exact { hL.setWriter (.notifyDone) (by rw [hpc]; rfl) with }
  | notifyDone hpc => exact hL.notifyDoneCv.setWriter _ (by simp [State.notifyDoneCv, hpc, WriterPc.holds])
  | sealFail hpc => exact hL.setWriter _ (by rw [hpc]; rfl)
  | @begin site out _ sealed hpc _ _ =>
      exact { hL.setWriter (.send site (recordBytes out.typ sealed)) (by rw [hpc]; rfl) with }
  | @sent site rest k hpc _ _ =>
      exact { hL.setWriter (.send site (rest.drop k)) (by rw [hpc]; rfl) with }
  | @sentAll site rest hpc _ =>
      exact { hL.setWriter (.after site) (by rw [hpc]; cases site <;> rfl) with }
  | sendFail hpc => exact hL.setWriter _ (by rw [hpc]; rfl)

/-- `read_loop` moves without touching a mutex. -/
theorem setReader (hL : Locks s) (pc : ReaderPc) (hs : pc.holdsSend = s.reader.holdsSend)
    (hr : pc.holdsRecv = s.reader.holdsRecv) (hj : pc.holdsJobs = s.reader.holdsJobs) :
    Locks { s with reader := pc } where
  send := hL.send.frame (holdsSend_frame (fun _ => rfl) rfl hs)
  recv := hL.recv.frame (holdsRecv_frame (fun _ => rfl) hr)
  jobs := hL.jobs.frame (holdsJobs_frame rfl hj)
  done := hL.done

/-- `read_loop` moves between two counters at which it holds nothing. -/
theorem setReader_free {pc : ReaderPc} (hL : Locks s) (pc' : ReaderPc) (hpc : s.reader = pc)
    (h : (pc.holdsSend, pc.holdsRecv, pc.holdsJobs) = (false, false, false))
    (h' : (pc'.holdsSend, pc'.holdsRecv, pc'.holdsJobs) = (false, false, false)) :
    Locks { s with reader := pc' } := by
  simp only [Prod.mk.injEq] at h h'
  subst hpc
  exact hL.setReader _ (by rw [h.1, h'.1]) (by rw [h.2.1, h'.2.1]) (by rw [h.2.2, h'.2.2])

/-! `read_loop` takes or gives back one mutex, and holds the others as before. -/

theorem holdsSend_of_ne_reader (s t : State) {u : Tid} (hu : u ≠ .reader)
    (hs : t.senders = s.senders) (hw : t.writer = s.writer) : t.holdsSend u = s.holdsSend u := by
  cases u with
  | reader => exact absurd rfl hu
  | sender i => simp only [State.holdsSend, hs]
  | writer => simp only [State.holdsSend, hw]
  | _ => rfl

theorem holdsRecv_of_ne_reader (s t : State) {u : Tid} (hu : u ≠ .reader)
    (hr : t.receivers = s.receivers) : t.holdsRecv u = s.holdsRecv u := by
  cases u with
  | reader => exact absurd rfl hu
  | receiver i => simp only [State.holdsRecv, hr]
  | _ => rfl

theorem holdsJobs_of_ne_reader (s t : State) {u : Tid} (hu : u ≠ .reader)
    (hd : t.deliver = s.deliver) : t.holdsJobs u = s.holdsJobs u := by
  cases u with
  | reader => exact absurd rfl hu
  | deliver => simp only [State.holdsJobs, hd]
  | _ => rfl

section ReaderMutex

variable (hL : Locks s) (pc : ReaderPc)
include hL

theorem reader_acquireSend (hmu : s.sendMu = none) (hs : pc.holdsSend = true)
    (hr : pc.holdsRecv = s.reader.holdsRecv) (hj : pc.holdsJobs = s.reader.holdsJobs) :
    Locks { s with sendMu := some .reader, reader := pc } where
  send := (hmu ▸ hL.send).acquire hs fun _ hu => holdsSend_of_ne_reader s _ hu rfl rfl
  recv := hL.recv.frame (holdsRecv_frame (fun _ => rfl) hr)
  jobs := hL.jobs.frame (holdsJobs_frame rfl hj)
  done := hL.done

theorem reader_releaseSend (hheld : s.reader.holdsSend = true) (hs : pc.holdsSend = false)
    (hr : pc.holdsRecv = s.reader.holdsRecv) (hj : pc.holdsJobs = s.reader.holdsJobs) :
    Locks { s with sendMu := none, reader := pc } where
  send := hL.send.release (t := .reader) hheld hs fun _ hu => holdsSend_of_ne_reader s _ hu rfl rfl
  recv := hL.recv.frame (holdsRecv_frame (fun _ => rfl) hr)
  jobs := hL.jobs.frame (holdsJobs_frame rfl hj)
  done := hL.done

theorem reader_acquireRecv (hmu : s.recvMu = none) (hr : pc.holdsRecv = true)
    (hs : pc.holdsSend = s.reader.holdsSend) (hj : pc.holdsJobs = s.reader.holdsJobs) :
    Locks { s with recvMu := some .reader, reader := pc } where
  send := hL.send.frame (holdsSend_frame (fun _ => rfl) rfl hs)
  recv := (hmu ▸ hL.recv).acquire hr fun _ hu => holdsRecv_of_ne_reader s _ hu rfl
  jobs := hL.jobs.frame (holdsJobs_frame rfl hj)
  done := hL.done

theorem reader_releaseRecv (hheld : s.reader.holdsRecv = true) (hr : pc.holdsRecv = false)
    (hs : pc.holdsSend = s.reader.holdsSend) (hj : pc.holdsJobs = s.reader.holdsJobs) :
    Locks { s with recvMu := none, reader := pc } where
  send := hL.send.frame (holdsSend_frame (fun _ => rfl) rfl hs)
  recv := hL.recv.release (t := .reader) hheld hr fun _ hu => holdsRecv_of_ne_reader s _ hu rfl
  jobs := hL.jobs.frame (holdsJobs_frame rfl hj)
  done := hL.done

theorem reader_acquireJobs (hmu : s.jobsMu = none) (hj : pc.holdsJobs = true)
    (hs : pc.holdsSend = s.reader.holdsSend) (hr : pc.holdsRecv = s.reader.holdsRecv) :
    Locks { s with jobsMu := some .reader, reader := pc } where
  send := hL.send.frame (holdsSend_frame (fun _ => rfl) rfl hs)
  recv := hL.recv.frame (holdsRecv_frame (fun _ => rfl) hr)
  jobs := (hmu ▸ hL.jobs).acquire hj fun _ hu => holdsJobs_of_ne_reader s _ hu rfl
  done := hL.done

theorem reader_releaseJobs (hheld : s.reader.holdsJobs = true) (hj : pc.holdsJobs = false)
    (hs : pc.holdsSend = s.reader.holdsSend) (hr : pc.holdsRecv = s.reader.holdsRecv) :
    Locks { s with jobsMu := none, reader := pc } where
  send := hL.send.frame (holdsSend_frame (fun _ => rfl) rfl hs)
  recv := hL.recv.frame (holdsRecv_frame (fun _ => rfl) hr)
  jobs := hL.jobs.release (t := .reader) hheld hj fun _ hu => holdsJobs_of_ne_reader s _ hu rfl
  done := hL.done

end ReaderMutex

theorem reader {io : ReadIo} (hL : Locks s) (h : ReaderTrans e s io t) : Locks t := by
  cases h with
  | recvFail hpc _ => exact hL.setReader_free _ hpc rfl rfl
  | openFail hpc _ => exact hL.setReader_free _ hpc rfl rfl
  | gotText hpc _ _ _ => exact hL.setReader_free _ hpc rfl rfl
  | gotJob hpc _ _ _ => exact hL.setReader_free _ hpc rfl rfl
  | gotLarge hpc _ _ => exact hL.setReader_free _ hpc rfl rfl
  | gotPing hpc _ => exact hL.setReader_free _ hpc rfl rfl
  | gotPong hpc _ => exact hL.setReader_free _ hpc rfl rfl
  | gotClose hpc _ =>
      exact { hL.setReader_free (.abort Errc.closed.code .nothing) hpc rfl rfl with }
  | gotBad hpc _ _ _ _ _ => exact hL.setReader_free _ hpc rfl rfl
  | textGo hpc hmu _ =>
      exact hL.reader_acquireRecv _ hmu rfl (by rw [hpc]; rfl) (by rw [hpc]; rfl)
  | textFull hpc hmu _ _ _ =>
      exact hL.reader_acquireRecv _ hmu rfl (by rw [hpc]; rfl) (by rw [hpc]; rfl)
  | textPark hpc =>
      exact hL.reader_releaseRecv _ (by rw [hpc]; rfl) rfl (by rw [hpc]; rfl) (by rw [hpc]; rfl)
  | textGiveUp hpc hmu _ _ =>
      exact hL.reader_acquireSend _ hmu rfl (by rw [hpc]; rfl) (by rw [hpc]; rfl)
  | textSkip hpc _ _ =>
      exact hL.reader_releaseRecv _ (by rw [hpc]; rfl) rfl (by rw [hpc]; rfl) (by rw [hpc]; rfl)
  | textPush hpc _ _ _ =>
      have hfree := hL.reader_releaseRecv .recv (by rw [hpc]; rfl) rfl (by rw [hpc]; rfl)
        (by rw [hpc]; rfl)
      exact notifyRecvCv { hfree with }
  | jobPush hpc _ _ =>
      exact notifyJobsCv { hL.setReader_free (.recv) hpc rfl rfl with }
  | jobSlow hpc hmu _ _ =>
      exact hL.reader_acquireJobs _ hmu rfl (by rw [hpc]; rfl) (by rw [hpc]; rfl)
  | jobDrop hpc _ _ _ => exact { hL.setReader_free (.recv) hpc rfl rfl with }
  | pingGiveUp hpc hmu _ =>
      exact hL.reader_acquireSend _ hmu rfl (by rw [hpc]; rfl) (by rw [hpc]; rfl)
  | pingPush hpc _ _ _ =>
      exact notifySendCv { hL.setReader_free (.recv) hpc rfl rfl with }
  | pingFull hpc hmu _ _ =>
      exact hL.reader_acquireSend _ hmu rfl (by rw [hpc]; rfl) (by rw [hpc]; rfl)
  | pingPark hpc =>
      exact hL.reader_releaseSend _ (by rw [hpc]; rfl) rfl (by rw [hpc]; rfl) (by rw [hpc]; rfl)
  | @abortAgain _ held hpc _ _ =>
      exact hL.setReader _ (by rw [hpc]; rfl) (by rw [hpc]; rfl) (by rw [hpc]; rfl)
  | @abortFirst _ held hpc _ _ =>
      exact notifyRecvCv { hL.setReader (.storeDone held) (by rw [hpc]; rfl) (by rw [hpc]; rfl)
        (by rw [hpc]; rfl) with }
  | @storeDone held hpc =>
      exact { hL.setReader (.notifyDone held) (by rw [hpc]; rfl) (by rw [hpc]; rfl)
        (by rw [hpc]; rfl) with }
  | @notifyDone held hpc =>
      have hmid := hL.setReader (.leave held) (by rw [hpc]; rfl) (by rw [hpc]; rfl)
        (by rw [hpc]; rfl)
      exact hmid.notifyDoneCv
  | @leave held hpc =>
      cases held with
      | nothing => exact hL.setReader_free _ hpc rfl rfl
      | jobs =>
          exact hL.reader_releaseJobs _ (by rw [hpc]; rfl) rfl (by rw [hpc]; rfl) (by rw [hpc]; rfl)
      | send =>
          exact hL.reader_releaseSend _ (by rw [hpc]; rfl) rfl (by rw [hpc]; rfl) (by rw [hpc]; rfl)
      | recvSend =>
          -- the only place where two mutexes are given back at once
          have hrecv := hL.reader_releaseRecv (.leave .send) (by rw [hpc]; rfl) rfl (by rw [hpc]; rfl)
            (by rw [hpc]; rfl)
          exact hrecv.reader_releaseSend _ rfl rfl rfl rfl

theorem deliver (hL : Locks s) (h : DeliverTrans s t) : Locks t := by
  have hother : ∀ (r : State) u, u ≠ .deliver → r.reader = s.reader →
      r.holdsJobs u = s.holdsJobs u := by
    intro r u hu hs
    cases u with
    | deliver => exact absurd rfl hu
    | reader => simp only [State.holdsJobs, hs]
    | _ => rfl
  cases h with
  | pop hpc _ _ => exact { hL with jobs := hL.jobs.frame (holdsJobs_frame (by rw [hpc]; rfl) rfl) }
  | stop hpc hmu _ _ =>
      exact { hL with jobs := (hmu ▸ hL.jobs).acquire rfl fun u hu => hother _ u hu rfl }
  | empty hpc hmu _ _ =>
      exact { hL with jobs := (hmu ▸ hL.jobs).acquire rfl fun u hu => hother _ u hu rfl }
  | park hpc =>
      exact { hL with
        jobs := hL.jobs.release (t := .deliver) (by simp [State.holdsJobs, hpc, DeliverPc.holds]) rfl
          fun u hu => hother _ u hu rfl }
  | call hpc => exact { hL with jobs := hL.jobs.frame (holdsJobs_frame (by rw [hpc]; rfl) rfl) }
  | drainPop hpc _ =>
      exact { hL with
        jobs := hL.jobs.release (t := .deliver) (by simp [State.holdsJobs, hpc, DeliverPc.holds]) rfl
          fun u hu => hother _ u hu rfl }
  | drainEnd hpc _ =>
      exact { hL with
        jobs := hL.jobs.release (t := .deliver) (by simp [State.holdsJobs, hpc, DeliverPc.holds]) rfl
          fun u hu => hother _ u hu rfl }
  | drainCall hpc =>
      exact { hL with jobs := hL.jobs.frame (holdsJobs_frame (by rw [hpc]; rfl) rfl) }
  | drainRelock hpc hmu =>
      exact { hL with jobs := (hmu ▸ hL.jobs).acquire rfl fun u hu => hother _ u hu rfl }

end Locks

/-! ## Reachable states -/

/-- Before the exchange of `shutdown_started_` there is no running `shutdown`. -/
def Unstarted (s : State) : Prop := s.shutdownStarted = false → s.shutdown = .idle

theorem Unstarted.step {a : Act} (hU : Unstarted s) (h : step e s a = some t) : Unstarted t := by
  have hwake : s.shutdownStarted = false → s.shutdown.wake = .idle := by
    intro h0
    rw [hU h0]
    rfl
  cases step_inv h with
  | callShutdown _ =>
      intro h0
      cases h0
  | expireShutdown hpc =>
      intro h0
      rw [hU h0] at hpc
      cases hpc
  | shutdown h =>
      -- a running `shutdown` is not idle, so the exchange has happened
      intro h0
      cases h <;> exact absurd (hU h0) (by simp [*])
  | writer h =>
      cases h with
      | notifyDone _ => exact hwake
      | _ => exact hU
  | reader h =>
      cases h with
      | notifyDone _ => exact hwake
      | @leave held _ => cases held <;> exact hU
      | _ => exact hU
  | sender h => cases h <;> exact hU
  | receiver h => cases h <;> exact hU
  | deliver h => cases h <;> exact hU
  | _ => exact hU

/-- Every step of a connection keeps the mutexes and the counters together. -/
theorem Locks.step {a : Act} (hL : Locks s) (hU : Unstarted s) (h : step e s a = some t) :
    Locks t := by
  cases step_inv h with
  | callSend hpc => exact hL.setSender (by rw [hpc]; rfl)
  | callReceive hpc => exact hL.setReceiver (by rw [hpc]; rfl)
  | callShutdownAgain _ => exact hL
  | callShutdown hstarted =>
      exact { hL with done := hL.done.frame (holdsDone_frame (by rw [hU hstarted]; rfl)) }
  | expireSend hpc => exact hL.setSender (by rw [hpc]; rfl)
  | expireReceive hpc => exact hL.setReceiver (by rw [hpc]; rfl)
  | expireShutdown hpc =>
      exact { hL with done := hL.done.frame (holdsDone_frame (by rw [hpc]; rfl)) }
  | sender h => exact hL.sender h
  | receiver h => exact hL.receiver h
  | shutdown h => exact hL.shutdown h
  | writer h => exact hL.writer h
  | reader h => exact hL.reader h
  | deliver h => exact hL.deliver h

theorem unstarted_init (cfg : FrozenConfig) : Unstarted (init cfg) := fun _ => rfl

theorem locks_init (cfg : FrozenConfig) : Locks (init cfg) := by
  have hdeliver : (init cfg).deliver.holds = false := by
    unfold init
    split <;> rfl
  refine ⟨?_, ?_, ?_, ?_⟩ <;> intro u <;> cases u <;>
    simp [State.holdsSend, State.holdsRecv, State.holdsJobs, State.holdsDone, hdeliver] <;>
    simp [init, SendPc.holds, RecvPc.holds, WriterPc.holds, ShutPc.holds, ReaderPc.holdsSend,
      ReaderPc.holdsRecv, ReaderPc.holdsJobs, ReaderPc.held]

/-- The mutexes agree with the counters in every state of every interleaving. -/
theorem locks_reachable (h : Reachable e s) : Unstarted s ∧ Locks s :=
  Machine.Run.invariant (I := fun s => Unstarted s ∧ Locks s)
    (fun _ _ _ hI hstep => ⟨hI.1.step hstep, hI.2.step hI.1 hstep⟩) h
    ⟨unstarted_init e.cfg, locks_init e.cfg⟩

end TcpDuplex.Conn
