import TcpDuplex.Lib.Ranking
import TcpDuplex.Conn.Incoming
import TcpDuplex.Conn.SendMonitor
import TcpDuplex.Conn.Shutdown

/-!
# A connection that is shut down comes to rest

Once `shutdown` has closed the socket and no new calls are made, every thread has a bounded number of steps
left, whatever the schedule: `State.rank` bounds them. A thread that waits on a condition variable is woken
and tests again, so its share of the rank counts the notifies that are still to come: two of `recv_cv_` (a
text record that is being taken to the queue, and `abort_recv`), and two of `done_cv_`. A `recv` or `send`
that is blocked while `::close` runs may still succeed; then `read_loop` has a record more to handle, or
`write_loop` goes on, and the bound counts it.

That no steps are left does not say that the threads have ended. `::close` does not wake a blocked `recv`, so
with a silent peer `read_loop` stays in it. But in a run that is `shutdownSafe` nothing else is left waiting:
once the calls of the socket have returned, so have `shutdown` and all calls, and the threads have ended.
-/

namespace TcpDuplex.Conn

open Finset Machine Protocol

variable {e : Env} {s t : State} {n : ℕ}

/-! ## Without new calls -/

/-- A new call by the application. -/
def Act.isNew : Act → Bool
  | .callSend _ _ _ => true
  | .callReceive _ _ => true
  | .callShutdown _ => true
  | _ => false

/-- One action of a connection on which no new calls are made. -/
def wind (e : Env) (s : State) (a : Act) : Option State := if a.isNew then none else step e s a

theorem wind_inv {a : Act} (h : wind e s a = some t) : a.isNew = false ∧ step e s a = some t := by
  unfold wind at h
  split at h
  · cases h
  · rename_i hnew
    exact ⟨Bool.eq_false_iff.mpr hnew, h⟩

/-- `recv` brings a record, or `send` takes bytes. On a closed socket that is a call which was blocked in the
kernel when `::close` ran, and which goes on. -/
def Act.served : Act → Bool
  | .reader (.record _ _) => true
  | .writer (.sent _) => true
  | _ => false

/-- The calls of the application have numbers below `n`. -/
def CallsBelow (n : ℕ) (s : State) : Prop :=
  ∀ i, n ≤ i → s.senders i = .idle ∧ s.receivers i = .idle

theorem CallsBelow.notifySendCv (h : CallsBelow n s) : CallsBelow n s.notifySendCv := by
  intro i hi
  obtain ⟨hsend, hrecv⟩ := h i hi
  exact ⟨by simp only [State.notifySendCv, hsend, SendPc.wake], hrecv⟩

theorem CallsBelow.notifyRecvCv (h : CallsBelow n s) : CallsBelow n s.notifyRecvCv := by
  intro i hi
  obtain ⟨hsend, hrecv⟩ := h i hi
  exact ⟨hsend, by simp only [State.notifyRecvCv, hrecv, RecvPc.wake]⟩

/-- The call `i` has a number below `n`, for it is not idle. -/
theorem CallsBelow.sender_lt (h : CallsBelow n s) {i : ℕ} (hpc : s.senders i ≠ .idle) : i < n := by
  by_contra hge
  exact hpc (h i (not_lt.mp hge)).1

theorem CallsBelow.receiver_lt (h : CallsBelow n s) {i : ℕ} (hpc : s.receivers i ≠ .idle) : i < n := by
  by_contra hge
  exact hpc (h i (not_lt.mp hge)).2

theorem CallsBelow.setSender (h : CallsBelow n s) {i : ℕ} (hpc : s.senders i ≠ .idle) (pc : SendPc) :
    CallsBelow n (s.setSender i pc) := by
  have hlt := h.sender_lt hpc
  intro j hj
  obtain ⟨hsend, hrecv⟩ := h j hj
  have hne : j ≠ i := by omega
  exact ⟨by simp only [State.setSender, Function.update_of_ne hne, hsend], hrecv⟩

theorem CallsBelow.setReceiver (h : CallsBelow n s) {i : ℕ} (hpc : s.receivers i ≠ .idle)
    (pc : RecvPc) : CallsBelow n (s.setReceiver i pc) := by
  have hlt := h.receiver_lt hpc
  intro j hj
  obtain ⟨hsend, hrecv⟩ := h j hj
  have hne : j ≠ i := by omega
  exact ⟨hsend, by simp only [State.setReceiver, Function.update_of_ne hne, hrecv]⟩

/-! ## What is left to do -/

/-- The steps left to a `send_for` call on a connection that is stopped. -/
@[simp]
def SendPc.rank : SendPc → ℕ
  | .idle | .done _ => 0
  | .acquire _ _ _ => 1
  | .start _ _ | .parked _ _ => 2
  | .park _ _ => 3

/-- The steps left to a `receive_for` call with `w` notifies of `recv_cv_` to come. -/
@[simp]
def RecvPc.rank (w : ℕ) : RecvPc → ℕ
  | .idle | .done _ => 0
  | .acquire _ true => 1
  | .parked _ => 3 * w + 2
  | .park _ => 3 * w + 3
  | .acquire _ false => 3 * w + 4
  | .start _ => 3 * w + 5

/-- The steps left to `read_loop` on a closed socket; a job it still takes on is worth three more. -/
@[simp]
def ReaderPc.rank : ReaderPc → ℕ
  | .exited => 0
  | .leave _ => 1
  | .notifyDone _ => 2
  | .storeDone _ => 3
  | .abort _ _ => 4
  | .recv => 5
  | .ping _ | .textStop _ => 6
  | .text _ | .pingParked _ => 7
  | .textParked _ | .pingPark _ => 8
  | .textPark _ | .jobs _ => 9

/-- The notifies of `recv_cv_` that `read_loop` still gives. -/
@[simp]
def ReaderPc.recvNotifies : ReaderPc → ℕ
  | .text _ | .textPark _ | .textParked _ | .textStop _ => 2
  | .recv | .jobs _ | .ping _ | .pingPark _ | .pingParked _ | .abort _ _ => 1
  | .storeDone _ | .notifyDone _ | .leave _ | .exited => 0

/-- The notifies of `done_cv_` that `read_loop` still gives. -/
@[simp]
def ReaderPc.doneNotifies : ReaderPc → ℕ
  | .leave _ | .exited => 0
  | _ => 1

/-- The steps left to `write_loop` on a closed socket. -/
@[simp]
def WriterPc.rank : WriterPc → ℕ
  | .exited => 0
  | .notifyDone => 1
  | .storeDone => 2
  | .send _ _ => 3
  | .write _ _ => 4
  | .drain => 5
  | .acquire => 6
  | .parked => 7
  | .park => 8

/-- The notifies of `done_cv_` that `write_loop` still gives. -/
@[simp]
def WriterPc.doneNotifies : WriterPc → ℕ
  | .exited => 0
  | _ => 1

/-- The steps left to `deliver_loop` with `k` jobs in the queue. -/
@[simp]
def DeliverPc.rank (k : ℕ) : DeliverPc → ℕ
  | .absent | .exited => 0
  | .drain => 3 * k + 3
  | .acquire | .drainRelock => 3 * k + 4
  | .parked | .call _ | .drainCall _ => 3 * k + 5
  | .park => 3 * k + 6

/-- The steps left to `shutdown` behind the close, with `d` notifies of `done_cv_` to come. -/
@[simp]
def ShutPc.rank (d : ℕ) : ShutPc → ℕ
  | .await _ _ true _ => 1
  | .parked _ _ _ => 3 * d + 2
  | .park _ _ _ => 3 * d + 3
  | .await _ _ false _ => 3 * d + 4
  | _ => 0

/-- The steps left to a connection whose calls have numbers below `n`. -/
def State.rank (n : ℕ) (s : State) : ℕ :=
  ∑ i ∈ range n, (s.senders i).rank + ∑ i ∈ range n, (s.receivers i).rank s.reader.recvNotifies +
    s.reader.rank + s.writer.rank + s.deliver.rank s.msgJobs.length +
    s.shutdown.rank (s.writer.doneNotifies + s.reader.doneNotifies)

theorem SendPc.rank_wake (pc : SendPc) : pc.wake.rank ≤ pc.rank := by
  cases pc <;> simp [SendPc.wake]

theorem RecvPc.rank_mono {w w' : ℕ} (h : w ≤ w') (pc : RecvPc) : pc.rank w ≤ pc.rank w' := by
  cases pc with
  | acquire timed expired => cases expired <;> simp only [RecvPc.rank] <;> omega
  | _ => simp only [RecvPc.rank]; omega

theorem RecvPc.rank_succ_le (w : ℕ) (pc : RecvPc) : pc.rank (w + 1) ≤ pc.rank w + 3 := by
  cases pc with
  | acquire timed expired => cases expired <;> simp only [RecvPc.rank] <;> omega
  | _ => simp only [RecvPc.rank]; omega

/-- A notify is one less to come. -/
theorem RecvPc.rank_wake (w : ℕ) (pc : RecvPc) : pc.wake.rank w ≤ pc.rank (w + 1) := by
  cases pc with
  | parked timed =>
    simp only [RecvPc.wake, RecvPc.rank]
    omega
  | _ => exact RecvPc.rank_mono (Nat.le_succ w) _

theorem ShutPc.rank_wake (d : ℕ) (pc : ShutPc) : pc.wake.rank d ≤ pc.rank (d + 1) := by
  cases pc with
  | await flag timed expired ec => cases expired <;> simp only [ShutPc.wake, ShutPc.rank] <;> omega
  | _ => simp only [ShutPc.wake, ShutPc.rank]; omega

theorem DeliverPc.rank_wake (k : ℕ) (pc : DeliverPc) : pc.wake.rank k ≤ pc.rank k := by
  cases pc <;> simp [DeliverPc.wake]

theorem DeliverPc.rank_succ_le (k : ℕ) (pc : DeliverPc) : pc.rank (k + 1) ≤ pc.rank k + 3 := by
  cases pc <;> simp only [DeliverPc.rank] <;> omega

theorem WriterPc.rank_wake (pc : WriterPc) : pc.wake.rank ≤ pc.rank := by
  cases pc <;> simp [WriterPc.wake]

theorem WriterPc.doneNotifies_wake (pc : WriterPc) : pc.wake.doneNotifies = pc.doneNotifies := by
  cases pc <;> rfl

theorem ReaderPc.rank_wakeSend (pc : ReaderPc) : pc.wakeSend.rank ≤ pc.rank := by
  cases pc <;> simp [ReaderPc.wakeSend]

theorem ReaderPc.recvNotifies_wakeSend (pc : ReaderPc) : pc.wakeSend.recvNotifies = pc.recvNotifies := by
  cases pc <;> rfl

theorem ReaderPc.doneNotifies_wakeSend (pc : ReaderPc) : pc.wakeSend.doneNotifies = pc.doneNotifies := by
  cases pc <;> rfl

/-- Waking the threads on `send_cv_` costs nothing. -/
theorem rank_notifySendCv (n : ℕ) (s : State) : s.notifySendCv.rank n ≤ s.rank n := by
  have hsenders : ∑ i ∈ range n, (s.senders i).wake.rank ≤ ∑ i ∈ range n, (s.senders i).rank :=
    sum_le_sum fun i _ => (s.senders i).rank_wake
  have hreader := s.reader.rank_wakeSend
  have hwriter := s.writer.rank_wake
  simp only [State.rank, State.notifySendCv, ReaderPc.recvNotifies_wakeSend,
    ReaderPc.doneNotifies_wakeSend, WriterPc.doneNotifies_wake]
  omega

/-! ### The rank falls -/

/-- One `send_for` call moves to a counter of lower rank. -/
theorem rank_setSender (hbelow : CallsBelow n s) {i : ℕ} (pc : SendPc)
    (hlt : pc.rank < (s.senders i).rank) :
    (s.setSender i pc).rank n < s.rank n ∧ CallsBelow n (s.setSender i pc) := by
  have hne : s.senders i ≠ .idle := by
    intro hidle
    rw [hidle] at hlt
    cases hlt
  have hsum := sum_update SendPc.rank s.senders (hbelow.sender_lt hne) pc
  refine ⟨?_, hbelow.setSender hne pc⟩
  simp only [State.rank, State.setSender]
  omega

/-- One `receive_for` call moves to a counter of lower rank. -/
theorem rank_setReceiver (hbelow : CallsBelow n s) {i : ℕ} (pc : RecvPc)
    (hlt : pc.rank s.reader.recvNotifies < (s.receivers i).rank s.reader.recvNotifies) :
    (s.setReceiver i pc).rank n < s.rank n ∧ CallsBelow n (s.setReceiver i pc) := by
  have hne : s.receivers i ≠ .idle := by
    intro hidle
    rw [hidle] at hlt
    cases hlt
  have hsum := sum_update (RecvPc.rank s.reader.recvNotifies) s.receivers (hbelow.receiver_lt hne) pc
  refine ⟨?_, hbelow.setReceiver hne pc⟩
  simp only [State.rank, State.setReceiver]
  omega

theorem rank_receiver (hbelow : CallsBelow n s) {i : ℕ} (h : ReceiverTrans e s i t) :
    t.rank n < s.rank n ∧ CallsBelow n t := by
  have hdone : ∀ r, 0 < (s.receivers i).rank s.reader.recvNotifies →
      State.rank n (s.setReceiver i (.done r)) < s.rank n ∧ CallsBelow n (s.setReceiver i (.done r)) :=
    fun r hpos => rank_setReceiver hbelow (.done r) hpos
  cases h with
  | disabled hpc _ => exact hdone _ (by simp [hpc])
  | enter hpc _ => exact rank_setReceiver hbelow _ (by simp [hpc])
  | @pop timed expired p rest hpc _ _ => exact hdone (.ok p) (by cases expired <;> simp [hpc])
  | @fail timed expired hpc _ _ _ => exact hdone _ (by cases expired <;> simp [hpc])
  | timeout hpc _ _ _ => exact hdone _ (by simp [hpc])
  | @empty timed hpc _ _ _ => exact rank_setReceiver hbelow (.park timed) (by simp [hpc])
  | @park timed hpc => exact rank_setReceiver hbelow (.parked timed) (by simp [hpc])

section Rank

variable (hF : Flags s) (hsock : s.sockClosed = true)

include hF hsock

theorem phase_of_sockClosed : 8 ≤ s.shutdown.phase := by
  rw [hF.sockClosed] at hsock
  exact of_decide_eq_true hsock

theorem stopSend_of_sockClosed : s.stopSend = true :=
  hF.stopSend_of_phase (by have := phase_of_sockClosed hF hsock; omega)

theorem deliverStop_of_sockClosed : s.deliverStop = true := by
  have hphase := phase_of_sockClosed hF hsock
  rw [hF.deliverStop]
  exact decide_eq_true (by omega)

theorem rank_sender (hbelow : CallsBelow n s) {i : ℕ} (h : SenderTrans e s i t) :
    t.rank n < s.rank n ∧ CallsBelow n t := by
  have hstop := stopSend_of_sockClosed hF hsock
  have hclosed := hF.closed_of_stopSend hstop
  cases h with
  | refuseClosed hpc _ => exact rank_setSender hbelow _ (by simp [hpc])
  | refuseLarge hpc hopen _ => cases hclosed.symm.trans hopen
  | enter hpc hopen _ => cases hclosed.symm.trans hopen
  | refuseStop hpc _ _ => exact rank_setSender hbelow _ (by simp [hpc])
  | push _ _ hnot _ => cases hstop.symm.trans hnot
  | timeout _ _ hnot _ => cases hstop.symm.trans hnot
  | full _ _ hnot _ => cases hstop.symm.trans hnot
  | @park p timed hpc => exact rank_setSender hbelow (.parked p timed) (by simp [hpc])

theorem rank_shutdown (hbelow : CallsBelow n s) (h : ShutdownTrans s t) :
    t.rank n < s.rank n ∧ CallsBelow n t := by
  have hphase := phase_of_sockClosed hF hsock
  have hmove : ∀ pc : ShutPc, (∀ d, pc.rank d < s.shutdown.rank d) →
      State.rank n { s with shutdown := pc } < s.rank n := by
    intro pc hlt
    have hless := hlt (s.writer.doneNotifies + s.reader.doneNotifies)
    simp only [State.rank]
    omega
  cases h with
  | markClosed hpc => simp [hpc, ShutPc.phase] at hphase
  | setStop hpc _ => simp [hpc, ShutPc.phase] at hphase
  | notifySend hpc => simp [hpc, ShutPc.phase] at hphase
  | @flagSet flag timed expired ec hpc _ _ =>
    cases flag with
    | writeDone => simp [hpc, ShutPc.phase] at hphase
    | readDone =>
      refine ⟨hmove _ fun d => ?_, hbelow⟩
      cases expired <;> simp [hpc, ShutPc.after]
  | @timeout flag timed ec hpc _ _ =>
    cases flag with
    | writeDone => simp [hpc, ShutPc.phase] at hphase
    | readDone => exact ⟨hmove _ fun d => by simp [hpc, ShutPc.after], hbelow⟩
  | @flagUnset flag timed ec hpc _ _ =>
    exact ⟨hmove (.park flag timed ec) fun d => by simp [hpc], hbelow⟩
  | @park flag timed ec hpc =>
    exact ⟨hmove (.parked flag timed ec) fun d => by simp [hpc], hbelow⟩
  | setDeliverStop hpc _ => simp [hpc, ShutPc.phase] at hphase
  | notifyJobs hpc => simp [hpc, ShutPc.phase] at hphase
  | closeSock hpc => simp [hpc, ShutPc.phase] at hphase

theorem rank_deliver (hbelow : CallsBelow n s) (h : DeliverTrans s t) :
    t.rank n < s.rank n ∧ CallsBelow n t := by
  have hstop := deliverStop_of_sockClosed hF hsock
  have hmove : ∀ (pc : DeliverPc) (jobs : List Bytes),
      pc.rank jobs.length < s.deliver.rank s.msgJobs.length →
      State.rank n { s with deliver := pc, msgJobs := jobs } < s.rank n := by
    intro pc jobs hlt
    simp only [State.rank]
    omega
  cases h with
  | @pop p rest hpc _ hq =>
    refine ⟨hmove (.call p) rest ?_, hbelow⟩
    simp only [hpc, hq, DeliverPc.rank, List.length_cons]
    omega
  | stop hpc _ _ _ => exact ⟨hmove .drain s.msgJobs (by simp [hpc]), hbelow⟩
  | empty _ _ _ hnot => cases hstop.symm.trans hnot
  | park hpc => exact ⟨hmove .parked s.msgJobs (by simp [hpc]), hbelow⟩
  | call hpc => exact ⟨hmove .acquire s.msgJobs (by simp [hpc]), hbelow⟩
  | @drainPop p rest hpc hq =>
    refine ⟨hmove (.drainCall p) rest ?_, hbelow⟩
    simp only [hpc, hq, DeliverPc.rank, List.length_cons]
    omega
  | drainEnd hpc _ => exact ⟨hmove .exited s.msgJobs (by simp [hpc]), hbelow⟩
  | drainCall hpc => exact ⟨hmove .drainRelock s.msgJobs (by simp [hpc]), hbelow⟩
  | drainRelock hpc _ => exact ⟨hmove .drain s.msgJobs (by simp [hpc]), hbelow⟩

theorem rank_writer (hbelow : CallsBelow n s) {io : WriteIo} (hio : (Act.writer io).served = false)
    (h : WriterTrans e s io t) : t.rank n < s.rank n ∧ CallsBelow n t := by
  have hstop := stopSend_of_sockClosed hF hsock
  have hmove : ∀ pc : WriterPc, pc.rank < s.writer.rank ∧ pc.doneNotifies = s.writer.doneNotifies →
      State.rank n { s with writer := pc } < s.rank n := by
    rintro pc ⟨hlt, hsame⟩
    simp only [State.rank, hsame]
    omega
  cases h with
  | @pop out rest hpc _ _ =>
    have hlt := hmove (.write .loop out) (by simp [hpc])
    exact ⟨lt_of_le_of_lt (rank_notifySendCv n _) hlt, hbelow.notifySendCv⟩
  | flush hpc _ _ _ =>
    exact ⟨hmove .drain (by simp [hpc]), hbelow⟩
  | empty _ _ _ hnot => cases hstop.symm.trans hnot
  | park hpc =>
    exact ⟨hmove .parked (by simp [hpc]), hbelow⟩
  | @drainPop out rest hpc _ _ =>
    exact ⟨hmove (.write .drain out) (by simp [hpc]),
      hbelow⟩
  | drainEnd hpc _ _ =>
    exact ⟨hmove _ (by simp [hpc]), hbelow⟩
  | storeDone hpc =>
    exact ⟨hmove .notifyDone (by simp [hpc]), hbelow⟩
  | notifyDone hpc =>
    refine ⟨?_, hbelow⟩
    have hwake := s.shutdown.rank_wake s.reader.doneNotifies
    simp only [State.rank, State.notifyDoneCv, hpc, WriterPc.rank, WriterPc.doneNotifies, Nat.zero_add,
      Nat.add_comm 1]
    omega
  | sealFail hpc =>
    exact ⟨hmove _ (by simp [hpc]), hbelow⟩
  | @begin site out nonce sealed hpc _ _ =>
    exact ⟨hmove (.send site (recordBytes out.typ sealed)) (by simp [hpc]), hbelow⟩
  | sent => cases hio
  | sentAll => cases hio
  | sendFail hpc =>
    exact ⟨hmove _ (by simp [hpc]), hbelow⟩

theorem rank_reader (hbelow : CallsBelow n s) {io : ReadIo} (hio : (Act.reader io).served = false)
    (h : ReaderTrans e s io t) : t.rank n < s.rank n ∧ CallsBelow n t := by
  have hstop := stopSend_of_sockClosed hF hsock
  have hmove : ∀ pc : ReaderPc, pc.rank < s.reader.rank ∧ pc.doneNotifies = s.reader.doneNotifies ∧
      pc.recvNotifies ≤ s.reader.recvNotifies → State.rank n { s with reader := pc } < s.rank n := by
    rintro pc ⟨hlt, hsame, hle⟩
    have hreceivers : ∑ i ∈ range n, (s.receivers i).rank pc.recvNotifies ≤
        ∑ i ∈ range n, (s.receivers i).rank s.reader.recvNotifies :=
      sum_le_sum fun i _ => (s.receivers i).rank_mono hle
    simp only [State.rank, hsame]
    omega
  -- with a notify of `recv_cv_`
  have hnotify : ∀ pc : ReaderPc, pc.rank < s.reader.rank ∧ pc.doneNotifies = s.reader.doneNotifies ∧
      pc.recvNotifies + 1 = s.reader.recvNotifies →
      State.rank n { s with receivers := fun i => (s.receivers i).wake, reader := pc } < s.rank n := by
    rintro pc ⟨hlt, hsame, hnext⟩
    have hreceivers : ∑ i ∈ range n, (s.receivers i).wake.rank pc.recvNotifies ≤
        ∑ i ∈ range n, (s.receivers i).rank s.reader.recvNotifies := by
      rw [← hnext]
      exact sum_le_sum fun i _ => (s.receivers i).rank_wake _
    simp only [State.rank, hsame]
    omega
  cases h with
  | @recvFail ec hpc _ =>
    exact ⟨hmove _ (by simp [hpc]), hbelow⟩
  | openFail => cases hio
  | gotText => cases hio
  | gotJob => cases hio
  | gotLarge => cases hio
  | gotPing => cases hio
  | gotPong => cases hio
  | gotClose => cases hio
  | gotBad => cases hio
  | @textGo pt hpc _ _ =>
    exact ⟨hmove (.textStop pt) (by simp [hpc]), hbelow⟩
  | textFull _ _ _ hnot _ => cases hstop.symm.trans hnot
  | @textPark pt hpc =>
    exact ⟨hmove (.textParked pt) (by simp [hpc]), hbelow⟩
  | textGiveUp hpc _ _ _ =>
    exact ⟨hmove (.abort Errc.closed.code .recvSend) (by simp [hpc]), hbelow⟩
  | textSkip hpc _ _ =>
    exact ⟨hmove .recv (by simp [hpc]), hbelow⟩
  | textPush hpc _ _ _ =>
    exact ⟨hnotify .recv (by simp [hpc]), hbelow.notifyRecvCv⟩
  | @jobPush pt hpc _ _ =>
    refine ⟨?_, hbelow⟩
    have hwake := s.deliver.rank_wake (s.msgJobs.length + 1)
    have hmore := s.deliver.rank_succ_le s.msgJobs.length
    simp only [State.rank, State.notifyJobsCv, hpc, ReaderPc.rank, ReaderPc.recvNotifies,
      ReaderPc.doneNotifies, List.length_append, List.length_singleton]
    omega
  | jobSlow hpc _ _ _ =>
    exact ⟨hmove (.abort Errc.slowConsumer.code .jobs) (by simp [hpc]), hbelow⟩
  | jobDrop hpc _ _ _ =>
    exact ⟨hmove .recv (by simp [hpc]), hbelow⟩
  | pingGiveUp hpc _ _ =>
    exact ⟨hmove (.abort Errc.closed.code .send) (by simp [hpc]), hbelow⟩
  | pingPush _ _ hnot _ => cases hstop.symm.trans hnot
  | pingFull _ _ hnot _ => cases hstop.symm.trans hnot
  | @pingPark pt hpc =>
    exact ⟨hmove (.pingParked pt) (by simp [hpc]), hbelow⟩
  | @abortAgain err held hpc _ _ =>
    exact ⟨hmove (.storeDone held) (by simp [hpc]), hbelow⟩
  | @abortFirst err held hpc _ _ =>
    exact ⟨hnotify (.storeDone held) (by simp [hpc]), hbelow.notifyRecvCv⟩
  | @storeDone held hpc =>
    exact ⟨hmove (.notifyDone held) (by simp [hpc]), hbelow⟩
  | notifyDone hpc =>
    refine ⟨?_, hbelow⟩
    have hwake := s.shutdown.rank_wake s.writer.doneNotifies
    simp only [State.rank, State.notifyDoneCv, hpc, ReaderPc.rank, ReaderPc.recvNotifies,
      ReaderPc.doneNotifies, Nat.add_zero]
    omega
  | @leave held hpc =>
    cases held <;> exact ⟨hmove .exited (by simp [hpc]), hbelow⟩

end Rank

/-- A `send` that has taken bytes. -/
theorem rank_sent (hbelow : CallsBelow n s) {k : ℕ} (h : WriterTrans e s (.sent k) t) :
    t.rank n ≤ s.rank n + 3 ∧ CallsBelow n t := by
  have hmove : ∀ pc : WriterPc, s.writer.rank = 3 ∧ s.writer.doneNotifies = 1 →
      pc.rank ≤ 6 ∧ pc.doneNotifies = 1 → State.rank n { s with writer := pc } ≤ s.rank n + 3 := by
    rintro pc ⟨hthree, hone⟩ ⟨hle, hsame⟩
    simp only [State.rank, hone, hsame]
    omega
  cases h with
  | @sent site rest _ hpc => exact ⟨hmove (.send site (rest.drop k)) (by simp [hpc]) (by simp), hbelow⟩
  | @sentAll site rest hpc =>
    exact ⟨hmove (.after site) (by simp [hpc]) (by cases site <;> simp [WriterPc.after]), hbelow⟩

/-- A `recv` that has brought a record. -/
theorem rank_record (hbelow : CallsBelow n s) {typ : UInt8} {sealed : Bytes}
    (h : ReaderTrans e s (.record typ sealed) t) : t.rank n ≤ s.rank n + (3 * n + 4) ∧ CallsBelow n t := by
  have hmove : ∀ pc : ReaderPc, s.reader = .recv →
      pc.rank ≤ 9 ∧ pc.recvNotifies ≤ 2 ∧ pc.doneNotifies = 1 →
      State.rank n { s with reader := pc } ≤ s.rank n + (3 * n + 4) := by
    rintro pc hpc ⟨hle, hnotifies, hdone⟩
    have hreceivers : ∑ i ∈ range n, (s.receivers i).rank pc.recvNotifies ≤
        ∑ i ∈ range n, (s.receivers i).rank 1 + n * 3 := by
      calc ∑ i ∈ range n, (s.receivers i).rank pc.recvNotifies
          ≤ ∑ i ∈ range n, ((s.receivers i).rank 1 + 3) :=
            sum_le_sum fun i _ => ((s.receivers i).rank_mono hnotifies).trans ((s.receivers i).rank_succ_le 1)
        _ = ∑ i ∈ range n, (s.receivers i).rank 1 + n * 3 := by simp [sum_add_distrib]
    have hrecv : s.reader.rank = 5 ∧ s.reader.recvNotifies = 1 ∧ s.reader.doneNotifies = 1 := by simp [hpc]
    obtain ⟨hfive, hone, hlast⟩ := hrecv
    simp only [State.rank, hdone, hone, hlast]
    omega
  cases h with
  | openFail hpc => exact ⟨hmove _ hpc (by simp), hbelow⟩
  | gotText hpc => exact ⟨hmove _ hpc (by simp), hbelow⟩
  | gotJob hpc => exact ⟨hmove _ hpc (by simp), hbelow⟩
  | gotLarge hpc => exact ⟨hmove _ hpc (by simp), hbelow⟩
  | gotPing hpc => exact ⟨hmove _ hpc (by simp), hbelow⟩
  | gotPong hpc => exact ⟨hmove _ hpc (by simp), hbelow⟩
  | gotClose hpc => exact ⟨hmove (.abort Errc.closed.code .nothing) hpc (by simp), hbelow⟩
  | gotBad hpc => exact ⟨hmove _ hpc (by simp), hbelow⟩

theorem rank_of_unserved {a : Act} (hserved : a.served = false) (h : t.rank n < s.rank n ∧ CallsBelow n t) :
    t.rank n < s.rank n + (if a.served then 3 * n + 5 else 0) ∧ CallsBelow n t := by
  rwa [hserved, if_neg Bool.false_ne_true, Nat.add_zero]

/-- A step behind the close of the socket lowers the rank, unless it is a call of the socket that goes on. -/
theorem rank_wind (hF : Flags s) (hsock : s.sockClosed = true) (hbelow : CallsBelow n s) {a : Act}
    (h : wind e s a = some t) :
    t.rank n < s.rank n + (if a.served then 3 * n + 5 else 0) ∧ CallsBelow n t := by
  obtain ⟨hnew, hstep⟩ := wind_inv h
  cases step_inv hstep with
  | callSend => cases hnew
  | callReceive => cases hnew
  | callShutdownAgain => cases hnew
  | callShutdown => cases hnew
  | expireSend hpc => exact rank_of_unserved rfl (rank_setSender hbelow _ (by simp [hpc]))
  | expireReceive hpc => exact rank_of_unserved rfl (rank_setReceiver hbelow _ (by simp [hpc]))
  | expireShutdown hpc =>
    refine rank_of_unserved rfl ⟨?_, hbelow⟩
    simp only [State.rank, hpc, ShutPc.rank]
    omega
  | sender hs => exact rank_of_unserved rfl (rank_sender hF hsock hbelow hs)
  | receiver hs => exact rank_of_unserved rfl (rank_receiver hbelow hs)
  | shutdown hs => exact rank_of_unserved rfl (rank_shutdown hF hsock hbelow hs)
  | @writer io _ hs =>
    cases io with
    | sent k =>
      obtain ⟨hle, hbelow'⟩ := rank_sent hbelow hs
      refine ⟨?_, hbelow'⟩
      simp only [Act.served, if_true]
      omega
    | _ => exact rank_of_unserved rfl (rank_writer hF hsock hbelow rfl hs)
  | @reader io _ hs =>
    cases io with
    | record typ sealed =>
      obtain ⟨hle, hbelow'⟩ := rank_record hbelow hs
      refine ⟨?_, hbelow'⟩
      simp only [Act.served, if_true]
      omega
    | _ => exact rank_of_unserved rfl (rank_reader hF hsock hbelow rfl hs)
  | deliver hs => exact rank_of_unserved rfl (rank_deliver hF hsock hbelow hs)

/-- A socket that is closed stays closed. -/
theorem sockClosed_step {a : Act} (hsock : s.sockClosed = true) (h : step e s a = some t) :
    t.sockClosed = true := by
  cases step_inv h with
  | sender hs => cases hs <;> exact hsock
  | receiver hs => cases hs <;> exact hsock
  | shutdown hs =>
    cases hs with
    | closeSock => rfl
    | _ => exact hsock
  | writer hs => cases hs <;> exact hsock
  | reader hs =>
    cases hs with
    | @leave held _ => cases held <;> exact hsock
    | _ => exact hsock
  | deliver hs => cases hs <;> exact hsock
  | _ => exact hsock

/-- The rank in numbers. -/
theorem rank_le (n : ℕ) (s : State) : s.rank n ≤ 14 * n + 3 * s.msgJobs.length + 33 := by
  have hnotifies : s.reader.recvNotifies ≤ 2 := by
    cases s.reader <;> simp
  have hsenders : ∑ i ∈ range n, (s.senders i).rank ≤ n * 3 := by
    refine (sum_le_card_nsmul _ _ 3 fun i _ => ?_).trans (by simp)
    cases s.senders i <;> simp
  have hreceivers : ∑ i ∈ range n, (s.receivers i).rank s.reader.recvNotifies ≤ n * 11 := by
    refine (sum_le_card_nsmul _ _ 11 fun i _ => ?_).trans (by simp)
    refine ((s.receivers i).rank_mono hnotifies).trans ?_
    cases s.receivers i with
    | acquire timed expired => cases expired <;> simp
    | _ => simp
  have hreader : s.reader.rank ≤ 9 := by
    cases s.reader <;> simp
  have hwriter : s.writer.rank ≤ 8 := by
    cases s.writer <;> simp
  have hdeliver : s.deliver.rank s.msgJobs.length ≤ 3 * s.msgJobs.length + 6 := by
    cases s.deliver <;> simp
  have hdone : s.writer.doneNotifies + s.reader.doneNotifies ≤ 2 := by
    cases s.writer <;> cases s.reader <;> simp
  have hshutdown : s.shutdown.rank (s.writer.doneNotifies + s.reader.doneNotifies) ≤ 10 := by
    cases s.shutdown with
    | await flag timed expired ec => cases expired <;> simp only [ShutPc.rank] <;> omega
    | _ => simp only [ShutPc.rank]; omega
  rw [State.rank]
  omega

/-! ## Nobody is left waiting -/

/-- The call is parked on `recv_cv_`, or about to be. -/
def RecvPc.waits : RecvPc → Bool
  | .park _ => true
  | .parked _ => true
  | _ => false

/-- Behind `abort_recv` nobody waits on `recv_cv_`, and behind its stop nor does `deliver_loop` on
`jobs_cv_`. -/
structure Woken (s : State) : Prop where
  receivers : s.recvClosed = true → ∀ i, (s.receivers i).waits = false
  parking : s.deliverStop = true → s.deliver ≠ .park
  parked : 7 ≤ s.shutdown.phase → s.deliver ≠ .parked

theorem RecvPc.waits_wake {pc : RecvPc} (h : pc.holds = false) : pc.wake.waits = false := by
  cases pc with
  | park timed => cases h
  | _ => rfl

theorem DeliverPc.wake_ne_parked (pc : DeliverPc) : pc.wake ≠ .parked := by
  cases pc <;> simp [DeliverPc.wake]

theorem DeliverPc.wake_eq_park {pc : DeliverPc} (h : pc.wake = .park) : pc = .park := by
  cases pc <;> simp_all [DeliverPc.wake]

/-- A `receive_for` call that does not come to wait. -/
theorem Woken.setReceiver (h : Woken s) {i : ℕ} (pc : RecvPc) (hpc : pc.waits = false) :
    Woken (s.setReceiver i pc) where
  receivers hclosed j := by
    by_cases hj : j = i
    · subst hj
      simp only [State.setReceiver, Function.update_self, hpc]
    · simp only [State.setReceiver, Function.update_of_ne hj]
      exact h.receivers hclosed j
  parking := h.parking
  parked := h.parked

/-- While `recv_closed_` is not set, the calls of `receive_for` do not matter. -/
theorem Woken.of_open (h : Woken s) (hopen : t.recvClosed = false) (hdeliver : t.deliver = s.deliver)
    (hstop : t.deliverStop = s.deliverStop) (hshut : t.shutdown = s.shutdown) : Woken t where
  receivers hclosed := by cases hopen.symm.trans hclosed
  parking := by
    rw [hdeliver, hstop]
    exact h.parking
  parked := by
    rw [hdeliver, hshut]
    exact h.parked

theorem Woken.receiver {i : ℕ} (h : Woken s) (hs : ReceiverTrans e s i t) : Woken t := by
  cases hs with
  | disabled => exact { h.setReceiver (.done _) rfl with }
  | enter => exact h.setReceiver _ rfl
  | pop => exact { h.setReceiver (.done _) rfl with }
  | fail => exact { h.setReceiver (.done _) rfl with }
  | timeout => exact { h.setReceiver (.done _) rfl with }
  | empty _ _ _ hopen => exact h.of_open hopen rfl rfl rfl
  | park hpc =>
    cases hopen : s.recvClosed with
    | false => exact h.of_open hopen rfl rfl rfl
    | true =>
      have hwaits := h.receivers hopen i
      rw [hpc] at hwaits
      cases hwaits

theorem Woken.shutdown (h : Woken s) (hL : Locks s) (hs : ShutdownTrans s t) : Woken t := by
  -- a step that does not pass the notify of `jobs_cv_`
  have hstay : ∀ pc : ShutPc, (7 ≤ pc.phase → 7 ≤ s.shutdown.phase) →
      Woken { s with shutdown := pc } :=
    fun pc hle => ⟨h.receivers, h.parking, fun hlate => h.parked (hle hlate)⟩
  cases hs with
  | markClosed => exact { hstay (.setStop _) (by simp [ShutPc.phase]) with }
  | setStop => exact { hstay (.notifySend _) (by simp [ShutPc.phase]) with }
  | notifySend => exact { hstay (.await .writeDone _ false .success) (by simp [ShutPc.phase]) with }
  | @flagSet flag timed expired ec hpc =>
    exact hstay _ (by cases flag <;> simp [hpc, ShutPc.phase, ShutPc.after])
  | @timeout flag timed ec hpc => exact hstay _ (by cases flag <;> simp [hpc, ShutPc.phase, ShutPc.after])
  | @flagUnset flag timed ec hpc =>
    exact { hstay (.park flag timed ec) (by cases flag <;> simp [hpc, ShutPc.phase]) with }
  | @park flag timed ec hpc =>
    exact { hstay (.parked flag timed ec) (by cases flag <;> simp [hpc, ShutPc.phase]) with }
  | setDeliverStop hpc hmu =>
    refine ⟨h.receivers, fun _ hpark => ?_, fun hlate => by simp [ShutPc.phase] at hlate⟩
    have hfree := (hmu ▸ hL.jobs).not_holds .deliver
    have hpark' : s.deliver = .park := hpark
    rw [State.holdsJobs, hpark'] at hfree
    cases hfree
  | notifyJobs hpc =>
    exact ⟨h.receivers, fun hstop hpark => h.parking hstop (DeliverPc.wake_eq_park hpark),
      fun _ => s.deliver.wake_ne_parked⟩
  | @closeSock timed ec hpc =>
    exact { hstay (.await .readDone timed false ec) (by simp [hpc, ShutPc.phase]) with }

theorem Woken.notifySendCv (h : Woken s) : Woken s.notifySendCv where
  receivers := h.receivers
  parking := h.parking
  parked := h.parked

theorem Woken.notifyDoneCv (h : Woken s) : Woken s.notifyDoneCv where
  receivers := h.receivers
  parking := h.parking
  parked := by
    simp only [State.notifyDoneCv, ShutPc.phase_wake]
    exact h.parked

theorem Woken.writer {io : WriteIo} (h : Woken s) (hs : WriterTrans e s io t) : Woken t := by
  cases hs with
  | pop => exact { h.notifySendCv with }
  | notifyDone => exact { h.notifyDoneCv with }
  | _ => exact { h with }

theorem Woken.deliver (h : Woken s) (hF : Flags s) (hs : DeliverTrans s t) : Woken t := by
  have hmove : ∀ pc : DeliverPc, pc ≠ .park → pc ≠ .parked → Woken { s with deliver := pc } :=
    fun pc hpark hparked => ⟨h.receivers, fun _ => hpark, fun _ => hparked⟩
  cases hs with
  | pop => exact { hmove (.call _) (by simp) (by simp) with }
  | stop => exact { hmove .drain (by simp) (by simp) with }
  | empty _ _ _ hnot =>
    exact ⟨h.receivers, fun hstop => absurd (hnot.symm.trans hstop) Bool.false_ne_true,
      fun _ => by simp⟩
  | park hpc =>
    -- behind the stop `deliver_loop` does not park
    have hearly : ¬7 ≤ s.shutdown.phase := by
      intro hlate
      have hstop : s.deliverStop = true := by
        rw [hF.deliverStop]
        exact decide_eq_true (by omega)
      exact h.parking hstop hpc
    exact ⟨h.receivers, fun _ => by simp, fun hlate => absurd hlate hearly⟩
  | call => exact { hmove .acquire (by simp) (by simp) with }
  | drainPop => exact { hmove (.drainCall _) (by simp) (by simp) with }
  | drainEnd => exact { hmove .exited (by simp) (by simp) with }
  | drainCall => exact { hmove .drainRelock (by simp) (by simp) with }
  | drainRelock => exact { hmove .drain (by simp) (by simp) with }

theorem Woken.reader {io : ReadIo} (h : Woken s) (hL : Locks s) (hs : ReaderTrans e s io t) :
    Woken t := by
  cases hs with
  | textPush _ _ _ hopen => exact h.of_open hopen rfl rfl rfl
  | jobPush =>
    exact ⟨h.receivers, fun hstop hpark => h.parking hstop (DeliverPc.wake_eq_park hpark),
      fun _ => s.deliver.wake_ne_parked⟩
  | pingPush => exact { h.notifySendCv with }
  | abortFirst hpc hmu =>
    -- `abort_recv` sets `recv_closed_` under `recv_mu_`, so no call stands between its test and its wait
    refine ⟨fun _ i => RecvPc.waits_wake ?_, h.parking, h.parked⟩
    exact (hmu ▸ hL.recv).not_holds (.receiver i)
  | notifyDone => exact { h.notifyDoneCv with }
  | @leave held => cases held <;> exact { h with }
  | _ => exact { h with }

theorem Woken.step {a : Act} (h : Woken s) (hL : Locks s) (hF : Flags s)
    (hstep : step e s a = some t) : Woken t := by
  cases step_inv hstep with
  | callSend => exact { h with }
  | callReceive => exact h.setReceiver _ rfl
  | callShutdownAgain => exact h
  | callShutdown =>
    exact ⟨h.receivers, h.parking, fun hlate => by simp [ShutPc.phase] at hlate⟩
  | expireSend => exact { h with }
  | expireReceive => exact h.setReceiver _ rfl
  | @expireShutdown flag ec hpc =>
    have hsame : (ShutPc.await flag true true ec).phase = s.shutdown.phase := by
      rw [hpc]
      cases flag <;> rfl
    exact ⟨h.receivers, h.parking, fun hlate => h.parked (hsame ▸ hlate)⟩
  | sender hs =>
    cases hs with
    | push => exact { h.notifySendCv with }
    | _ => exact { h with }
  | receiver hs => exact h.receiver hs
  | shutdown hs => exact h.shutdown hL hs
  | writer hs => exact h.writer hs
  | reader hs => exact h.reader hL hs
  | deliver hs => exact h.deliver hF hs

theorem woken_init (cfg : FrozenConfig) : Woken (init cfg) where
  receivers _ _ := rfl
  parking hstop := absurd hstop Bool.false_ne_true
  parked hlate := by simp [init, ShutPc.phase] at hlate

/-- What holds in every reachable state. -/
theorem woken_reachable (h : Reachable e s) : SendMonitor e s ∧ SendAwake s ∧ Woken s := by
  refine Run.invariant (I := fun s => SendMonitor e s ∧ SendAwake s ∧ Woken s) ?_ h
    ⟨sendMonitor_init e, (safeInv_init e).awake, woken_init e.cfg⟩
  rintro s a t ⟨hM, hA, hW⟩ ha
  exact ⟨hM.step ha, hA.step hM.locks hM.flags ha, hW.step hM.locks hM.flags ha⟩

/-! ## Where nothing moves

As in `Shutdown`, but for every run. A text record that finds `recv_q_` full can hang `read_loop`; otherwise
each loop has ended or is in its call of the socket. -/

/-- `read_loop` waits for good: on `recv_cv_`, which nobody else notifies, or in `abort_recv` for the
`recv_mu_` that it holds itself. -/
def ReaderPc.hung : ReaderPc → Bool
  | .textParked _ => true
  | .abort _ .recvSend => true
  | _ => false

theorem ReaderPc.ne_abort_of_not_hung {pc : ReaderPc} (h : pc.hung = false) (err : ErrorCode) :
    pc ≠ .abort err .recvSend := by
  rintro rfl
  cases h

theorem ReaderPc.ne_textParked_of_not_hung {pc : ReaderPc} (h : pc.hung = false) (pt : Bytes) :
    pc ≠ .textParked pt := by
  rintro rfl
  cases h

theorem ReaderPc.not_hung_of_textSafe {pc : ReaderPc} (h : pc.textSafe = true) : pc.hung = false := by
  cases pc with
  | textParked pt => cases h
  | abort err held =>
    cases held with
    | recvSend => cases h
    | _ => rfl
  | _ => rfl

/-- With `jobs_mu_` free, `deliver_loop` can move unless it is parked or gone. -/
theorem deliver_of_still (hstill : Still e s) (hjobs : s.jobsMu = none) (hparked : s.deliver ≠ .parked) :
    s.deliver = .absent ∨ s.deliver = .exited := by
  have hnone := hstill .deliver rfl rfl
  cases hd : s.deliver with
  | absent => exact .inl rfl
  | exited => exact .inr rfl
  | parked => exact absurd hd hparked
  | _ =>
    simp only [step, deliverStep, hd, hjobs, if_true] at hnone
    cases hnone

/-- With `send_mu_` free, a `send_for` call can move unless it is parked or has returned. -/
theorem sender_of_still (hstill : Still e s) (hsend : s.sendMu = none) {i : ℕ}
    (hparked : (s.senders i).isParked = false) : s.senders i = .idle ∨ ∃ ec, s.senders i = .done ec := by
  have hnone := hstill (.sender i) rfl rfl
  cases hpc : s.senders i with
  | idle => exact .inl rfl
  | done ec => exact .inr ⟨ec, rfl⟩
  | parked => rw [hpc] at hparked; cases hparked
  | start p timed =>
    simp only [step, senderStep, hpc] at hnone
    split_ifs at hnone
  | _ =>
    simp only [step, senderStep, hpc, hsend, if_true] at hnone
    cases hnone

/-- With `recv_mu_` free, a `receive_for` call can move unless it waits or has returned. -/
theorem receiver_of_still (hstill : Still e s) (hrecv : s.recvMu = none) {i : ℕ}
    (hwaits : (s.receivers i).waits = false) :
    s.receivers i = .idle ∨ ∃ r, s.receivers i = .done r := by
  have hnone := hstill (.receiver i) rfl rfl
  cases hpc : s.receivers i with
  | idle => exact .inl rfl
  | done r => exact .inr ⟨r, rfl⟩
  | park => rw [hpc] at hwaits; cases hwaits
  | parked => rw [hpc] at hwaits; cases hwaits
  | start timed =>
    simp only [step, receiverStep, hpc] at hnone
    split_ifs at hnone
  | acquire timed expired =>
    simp only [step, receiverStep, hpc, hrecv, if_true] at hnone
    cases hnone

/-! ## At rest -/

/-- `shutdown` and all calls have returned, and the threads have ended. -/
structure AtRest (s : State) : Prop where
  shutdown : ∃ ec, s.shutdown = .done ec
  writer : s.writer = .exited
  reader : s.reader = .exited
  deliver : s.deliver = .absent ∨ s.deliver = .exited
  senders : ∀ i, s.senders i = .idle ∨ ∃ ec, s.senders i = .done ec
  receivers : ∀ i, s.receivers i = .idle ∨ ∃ r, s.receivers i = .done r

/-- At rest but for the network: each loop has ended or is in its call of the socket, and what has not
returned waits for `read_loop`. -/
structure Settled (s : State) : Prop where
  writer : s.writer = .exited ∨ ∃ site rest, s.writer = .send site rest
  reader : s.reader = .exited ∨ s.reader = .recv
  deliver : s.deliver = .absent ∨ s.deliver = .exited
  senders : ∀ i, s.senders i = .idle ∨ ∃ ec, s.senders i = .done ec
  shutdown : s.reader = .exited → ∃ ec, s.shutdown = .done ec
  receivers : s.reader = .exited → ∀ i, s.receivers i = .idle ∨ ∃ r, s.receivers i = .done r

theorem Settled.atRest (h : Settled s) (hwriter : ∀ site rest, s.writer ≠ .send site rest)
    (hreader : s.reader ≠ .recv) : AtRest s := by
  have hexited := h.reader.resolve_right hreader
  refine ⟨h.shutdown hexited, h.writer.resolve_right ?_, hexited, h.deliver, h.senders, h.receivers hexited⟩
  rintro ⟨site, rest, hw⟩
  exact hwriter site rest hw

theorem notifyPending_of_phase (h : 4 ≤ s.shutdown.phase) : s.notifyPending = false := by
  unfold State.notifyPending
  split
  · rename_i timed hpc
    simp [hpc, ShutPc.phase] at h
  · rfl

/-- Behind the close of the socket, where no thread can move and `read_loop` does not hang. -/
theorem settled_of_still (h : Reachable e s) (hphase : 8 ≤ s.shutdown.phase)
    (hshut : s.reader = .exited → ∃ ec, s.shutdown = .done ec) (hhung : s.reader.hung = false)
    (hstill : Still e s) : Settled s := by
  obtain ⟨hM, hA, hW⟩ := woken_reachable h
  have hself := ReaderPc.ne_abort_of_not_hung hhung
  have hsend := sendMu_free hM.locks hself hstill
  have hrecv := recvMu_free hM.locks hself hstill
  have hjobs := jobsMu_free hM.locks hstill
  -- a parked call would have its predicate false, but `stop_send_` is set
  have hstop : s.stopSend = true := hM.flags.stopSend_of_phase (by omega)
  have hawake : ∀ i, (s.senders i).isParked = false := by
    intro i
    by_contra hparked
    rcases hM.awake.parked (.sender i) (Bool.eq_true_of_not_eq_false hparked) with hpred | hpending
    · simp [State.sendPred, hstop] at hpred
    · rw [notifyPending_of_phase (by omega)] at hpending
      cases hpending
  refine ⟨writer_of_still hstill hsend (hA.writerParked (by omega)), ?_,
    deliver_of_still hstill hjobs (hW.parked (by omega)),
    fun i => sender_of_still hstill hsend (hawake i), hshut, fun hexited i => ?_⟩
  · exact reader_of_still hstill hsend hrecv hjobs (ReaderPc.ne_textParked_of_not_hung hhung)
      (hA.pingParked (by omega))
  · have hclosed : s.recvClosed = true := by
      rw [(incoming_reachable h).closed, hexited]
      rfl
    exact receiver_of_still hstill hrecv (hW.receivers hclosed i)

/-- **A connection that is shut down comes to rest.** Once the socket is closed and the application makes no
new calls, a run has a bounded number of steps, whatever the schedule; a `recv` or `send` that was blocked
when the socket was closed and still brings a record or takes bytes adds to the bound. Where no thread of a
`shutdownSafe` run can move, everything is at rest but for the network: a loop that has not ended is in its
call of the socket, and with `read_loop` in `recv` a `receive_for` or a `shutdown` without a deadline waits
on. If these calls return, the run stops nowhere but at rest. -/
theorem shutdown_comes_to_rest (e : Env) (s t : State) (n : ℕ) (as : List Act) (h : Reachable e s)
    (hsock : s.sockClosed = true) (hcalls : CallsBelow n s) (hrun : exec (wind e) s as = some t) :
    as.length ≤ 14 * n + 3 * s.msgJobs.length + 33 + (3 * n + 5) * as.countP Act.served ∧
      (GRun (step e) (fun s a => shutdownSafe e s a = true) (init e.cfg) t →
        (Still e t → Settled t) ∧ (Halted (wind e) (fun _ _ => True) t → AtRest t)) := by
  let I : State → Prop := fun u => Reachable e u ∧ u.sockClosed = true ∧ CallsBelow n u
  have hflags : ∀ u, I u → Flags u := fun u hu => (woken_reachable hu.1).1.flags
  have hI : ∀ u a v, I u → wind e u a = some v → I v := by
    intro u a v hu ha
    have hstep := (wind_inv ha).2
    exact ⟨hu.1.snoc hstep, sockClosed_step hu.2.1 hstep,
      (rank_wind (hflags u hu) hu.2.1 hu.2.2 ha).2⟩
  have hs : I s := ⟨h, hsock, hcalls⟩
  refine ⟨?_, fun hsafe => ?_⟩
  · have hlen := length_add_rank_le_cost (r := State.rank n) Act.served (3 * n + 5) hI
      (fun u a v hu ha => (rank_wind (hflags u hu) hu.2.1 hu.2.2 ha).1) hs hrun
    have hbound := rank_le n s
    omega
  · have ht : I t := Run.invariant hI (run_of_exec hrun) hs
    have hsafeInv := safeInv_grun hsafe
    have hphase := phase_of_sockClosed hsafeInv.flags ht.2.1
    have hsettled : Still e t → Settled t := by
      intro hstill
      refine settled_of_still ht.1 hphase (fun hexited => ?_)
        (ReaderPc.not_hung_of_textSafe hsafeInv.text.safe) hstill
      by_contra hrunning
      have hcalled : t.shutdown ≠ .idle := by
        intro hidle
        simp [hidle, ShutPc.phase] at hphase
      rcases hsafeInv.shutdown_waits hstill hcalled (not_exists.mp hrunning) with ⟨hopen, -⟩ | ⟨-, hr⟩
      · cases ht.2.1.symm.trans hopen
      · cases hexited.symm.trans hr
    refine ⟨hsettled, fun hhalt => ?_⟩
    have hold : ∀ a, a.isNew = false → step e t a = none := by
      intro a hnew
      have hnone := hhalt a trivial
      rwa [wind, hnew, if_neg Bool.false_ne_true] at hnone
    have hstill : Still e t := by
      intro a hthread _
      refine hold a ?_
      cases a <;> first | rfl | cases hthread
    refine (hsettled hstill).atRest (fun site rest hw => ?_) fun hr => ?_
    · have hfail := hold (.writer .failed) rfl
      simp [step, writerStep, hw] at hfail
    · have hfail := hold (.reader (.error Errc.closed.code)) rfl
      have hfailed : Errc.closed.code.failed = true := by decide
      simp [step, readerStep, hr, hfailed] at hfail

/-- One `receive_for` waits while a graceful `shutdown` closes the socket. -/
def waitTrace : List Act :=
  [.callReceive 0 false, .receiver 0, .receiver 0, .receiver 0] ++ closeTrace ++ List.replicate 6 .shutdown

/-- The `recv` that was blocked brings a text record, and the next one fails on the closed socket. -/
def restTrace : List Act :=
  readText [1] ++ [.receiver 0, .reader (.error Errc.closed.code)] ++ List.replicate 4 (.reader .none) ++
    [.shutdown]

/-- What is over, parked or in `recv` does not move. -/
theorem Still.of_parked
    (hshut : (∃ ec, s.shutdown = .done ec) ∨ ∃ flag timed ec, s.shutdown = .parked flag timed ec)
    (hreader : s.reader = .exited ∨ s.reader = .recv ∨ ∃ pt, s.reader = .textParked pt)
    (hwriter : s.writer = .exited) (hdeliver : s.deliver = .absent) (hsend : ∀ i, s.senders i = .idle)
    (hrecv : ∀ i, s.receivers i = .idle ∨ (∃ timed, s.receivers i = .parked timed) ∨
      ∃ r, s.receivers i = .done r) : Still e s := by
  intro a hthread hsocket
  cases a with
  | sender i => simp [step, senderStep, hsend]
  | receiver i => rcases hrecv i with h | ⟨timed, h⟩ | ⟨r, h⟩ <;> simp [step, receiverStep, h]
  | shutdown => rcases hshut with ⟨ec, h⟩ | ⟨flag, timed, ec, h⟩ <;> simp [step, shutdownStep, h]
  | writer io => cases io <;> simp [step, writerStep, hwriter]
  | reader io =>
    cases io with
    | none => rcases hreader with h | h | ⟨pt, h⟩ <;> simp [step, readerStep, h]
    | _ => cases hsocket
  | deliver => simp [step, deliverStep, hdeliver]
  | _ => cases hthread

theorem waiting_receive_comes_to_rest :
    ∃ s t, Reachable tightEnv s ∧ Still tightEnv s ∧ (s.receivers 0).waits = true ∧ Settled s ∧
      exec (wind tightEnv) s restTrace = some t ∧ restTrace.length ≤ 55 ∧ AtRest t := by
  obtain ⟨s, hexec, hsock, hwaits, hjobs, hshut, hreader, hwriter, hdeliver, hsend, hrecv, t, hrest, hwind,
      hshut', hreader', hwriter', hdeliver', hsend', hrecv'⟩ :
      ∃ s, gexec (step tightEnv) (shutdownSafe tightEnv) (init tightEnv.cfg) waitTrace = some s ∧
        s.sockClosed = true ∧ (s.receivers 0).waits = true ∧ s.msgJobs = [] ∧
        s.shutdown = .parked .readDone false .success ∧ s.reader = .recv ∧ s.writer = .exited ∧
        s.deliver = .absent ∧ (∀ i, s.senders i = .idle) ∧
        (∀ i, s.receivers i = .idle ∨ i = 0 ∧ s.receivers i = .parked false) ∧
        ∃ t, gexec (step tightEnv) (shutdownSafe tightEnv) s restTrace = some t ∧
          exec (wind tightEnv) s restTrace = some t ∧ t.shutdown = .done .success ∧
          t.reader = .exited ∧ t.writer = .exited ∧ t.deliver = .absent ∧
          (∀ i, t.senders i = .idle) ∧ ∀ i, t.receivers i = .idle ∨ ∃ r, t.receivers i = .done r := by
    refine ⟨_, rfl, rfl, rfl, rfl, rfl, rfl, rfl, rfl, fun _ => rfl, fun i => ?_, _, rfl, rfl, rfl, rfl, rfl,
      rfl, fun _ => rfl, fun i => ?_⟩
    · cases i with
      | zero => exact .inr ⟨rfl, rfl⟩
      | succ i => exact .inl rfl
    · cases i with
      | zero => exact .inr ⟨_, rfl⟩
      | succ i => exact .inl rfl
  have hcalls : CallsBelow 1 s := by
    intro i hi
    refine ⟨hsend i, (hrecv i).resolve_right ?_⟩
    rintro ⟨rfl, -⟩
    cases hi
  have hstill : Still tightEnv s := by
    refine .of_parked (.inr ⟨_, _, _, hshut⟩) (.inr (.inl hreader)) hwriter hdeliver hsend fun i => ?_
    rcases hrecv i with h | ⟨-, h⟩
    · exact .inl h
    · exact .inr (.inl ⟨_, h⟩)
  have hrun := grun_of_gexec _ hexec
  have hsettled := (shutdown_comes_to_rest tightEnv s s 1 [] hrun.run hsock hcalls rfl).2 hrun
  obtain ⟨hlen, hatRest⟩ := shutdown_comes_to_rest tightEnv s t 1 restTrace hrun.run hsock hcalls hwind
  rw [hjobs, show restTrace.countP Act.served = 1 from rfl] at hlen
  refine ⟨s, t, hrun.run, hstill, hwaits, hsettled.1 hstill, hwind, hlen,
    (hatRest (hrun.trans (grun_of_gexec _ hrest))).2 ?_⟩
  -- no action is left that is not a new call
  intro a _
  by_contra hsome
  obtain ⟨u, hu⟩ := Option.ne_none_iff_exists'.mp hsome
  obtain ⟨hold, hstep⟩ := wind_inv hu
  cases a with
  | sender i => simp [step, senderStep, hsend'] at hstep
  | receiver i => rcases hrecv' i with h | ⟨r, h⟩ <;> simp [step, receiverStep, h] at hstep
  | shutdown => simp [step, shutdownStep, hshut'] at hstep
  | writer io => cases io <;> simp [step, writerStep, hwriter'] at hstep
  | reader io => cases io <;> simp [step, readerStep, hreader'] at hstep
  | deliver => simp [step, deliverStep, hdeliver'] at hstep
  | expireSend i => simp [step, hsend'] at hstep
  | expireReceive i => rcases hrecv' i with h | ⟨r, h⟩ <;> simp [step, h] at hstep
  | expireShutdown => simp [step, hshut'] at hstep
  | _ => cases hold

end TcpDuplex.Conn
