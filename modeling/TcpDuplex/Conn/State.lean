import TcpDuplex.Config
import TcpDuplex.Session

/-!
# The state of a `Conn` (`conn.hpp`)

Every thread of a connection is a program counter: `read_loop`, `write_loop`, `deliver_loop`, the one
call of `shutdown` that wins the `shutdown_started_` exchange, and any number of `send_for` and
`receive_for` calls, indexed by a call number.

A condition-variable wait is spread over three counters. A thread that has taken the mutex evaluates
the predicate; if it is false the thread is at its `park` counter, *still holding the mutex*; the step
from there releases the mutex and joins the wait set (`parked`). Only a notify, or an expired
deadline, moves a parked thread on, and it has to take the mutex again before it re-tests. So testing
and parking are atomic only for the steps of threads that hold the same mutex.

`Hist` holds history variables: what has passed a point of the program so far. No thread reads them.
-/

namespace TcpDuplex.Conn

/-- The threads of a connection. -/
inductive Tid where
  | reader
  | writer
  | deliver
  | shutdown
  | sender (i : ℕ)
  | receiver (i : ℕ)
  deriving DecidableEq, Repr

/-- `Conn::Outbound`. -/
structure Outbound where
  typ : UInt8
  pt : Bytes
  deriving DecidableEq, Repr

/-- A call of `send_for(payload, timeout, ec)`; `timed` says that the timeout is not `max()`. -/
inductive SendPc where
  | idle
  | start (payload : Bytes) (timed : Bool)
  /-- Wants `send_mu_`, to test the predicate; `expired` after a timeout. -/
  | acquire (payload : Bytes) (timed expired : Bool)
  | park (payload : Bytes) (timed : Bool)
  | parked (payload : Bytes) (timed : Bool)
  | done (ec : ErrorCode)
  deriving DecidableEq

/-- A call of `receive_for(timeout, ec)`. -/
inductive RecvPc where
  | idle
  | start (timed : Bool)
  /-- Wants `recv_mu_`, to test the predicate; `expired` after a timeout. -/
  | acquire (timed expired : Bool)
  | park (timed : Bool)
  | parked (timed : Bool)
  | done (result : Except ErrorCode Bytes)

/-- The two flags `shutdown` waits for. -/
inductive Flag where
  | writeDone
  | readDone
  deriving DecidableEq, Repr

/-- The call of `shutdown(wait, ec)` that runs; `timed` says that `wait` is not `max()`. -/
inductive ShutPc where
  | idle
  | markClosed (timed : Bool)
  /-- Wants `send_mu_`. -/
  | setStop (timed : Bool)
  | notifySend (timed : Bool)
  /-- `wait_flag(flag)`: wants `done_mu_`, to test the flag. -/
  | await (flag : Flag) (timed expired : Bool) (ec : ErrorCode)
  | park (flag : Flag) (timed : Bool) (ec : ErrorCode)
  | parked (flag : Flag) (timed : Bool) (ec : ErrorCode)
  /-- Wants `jobs_mu_`. -/
  | setDeliverStop (timed : Bool) (ec : ErrorCode)
  | notifyJobs (timed : Bool) (ec : ErrorCode)
  | closeSock (timed : Bool) (ec : ErrorCode)
  | done (ec : ErrorCode)
  deriving DecidableEq

/-- The three calls of `write_out` in `write_loop`. -/
inductive WriteSite where
  | loop
  | drain
  | close
  deriving DecidableEq, Repr

/-- `write_loop`. -/
inductive WriterPc where
  /-- Wants `send_mu_`, to test the predicate. -/
  | acquire
  | park
  | parked
  /-- `write_out(out)`, before `seal`. -/
  | write (site : WriteSite) (out : Outbound)
  /-- `write_out`, with these bytes of the record not yet taken by the socket. -/
  | send (site : WriteSite) (rest : Bytes)
  /-- The drain loop: wants `send_mu_`. -/
  | drain
  | storeDone
  | notifyDone
  | exited
  deriving DecidableEq

/-- The mutexes `read_loop` still holds when it gives up: none, or the one of the branch it is in.
The full-queue branch of a text record holds `recv_mu_` *and* `send_mu_`. -/
inductive Held where
  | nothing
  | jobs
  | send
  | recvSend
  deriving DecidableEq, Repr

/-- `read_loop`. -/
inductive ReaderPc where
  /-- In `read_record`. -/
  | recv
  /-- Text record, queue mode: wants `recv_mu_`, to test the predicate. -/
  | text (pt : Bytes)
  | textPark (pt : Bytes)
  | textParked (pt : Bytes)
  /-- Past the wait: holds `recv_mu_` and wants `send_mu_`. -/
  | textStop (pt : Bytes)
  /-- Text record, callback mode: wants `jobs_mu_`. -/
  | jobs (pt : Bytes)
  /-- Ping: wants `send_mu_`, to test the predicate. -/
  | ping (pt : Bytes)
  | pingPark (pt : Bytes)
  | pingParked (pt : Bytes)
  /-- `abort_recv(err)`: wants `recv_mu_`. -/
  | abort (err : ErrorCode) (held : Held)
  | storeDone (held : Held)
  | notifyDone (held : Held)
  /-- About to return, which releases what is held. -/
  | leave (held : Held)
  | exited
  deriving DecidableEq

/-- `deliver_loop`. -/
inductive DeliverPc where
  /-- No `on_message`, so the thread was never started. -/
  | absent
  /-- Wants `jobs_mu_`, to test the predicate. -/
  | acquire
  | park
  | parked
  /-- The payload taken from `msg_jobs_`, before the test that decides about the callback. -/
  | call (payload : Bytes)
  /-- The drain loop, holding `jobs_mu_`. -/
  | drain
  | drainCall (payload : Bytes)
  /-- Wants `jobs_mu_` back for the drain loop. -/
  | drainRelock
  | exited
  deriving DecidableEq

/-- History variables. -/
structure Hist where
  /-- Payloads that `send_for` has appended to `send_q_`. -/
  accepted : List Bytes := []
  /-- What `write_loop` has popped from `send_q_`. -/
  taken : List Outbound := []
  /-- The records whose bytes `write_record` has begun to hand over. -/
  records : List (UInt8 × Bytes) := []
  /-- The bytes the socket has taken. -/
  wire : Bytes := []
  /-- Payloads that `read_loop` has appended to `recv_q_`. -/
  pushed : List Bytes := []
  /-- Payloads that `receive_for` has popped from `recv_q_`. -/
  popped : List Bytes := []
  /-- What the calls of `receive_for` have returned. -/
  results : List (Except ErrorCode Bytes) := []
  /-- Text payloads that `read_loop` has processed in callback mode. -/
  texts : List Bytes := []
  /-- Payloads that were passed to `on_message`. -/
  delivered : List Bytes := []
  /-- `read_loop` has taken up a Close record. -/
  sawClose : Bool := false

/-- The members of `Conn` that change, with the owner of each mutex. -/
structure State where
  sendMu : Option Tid := none
  sendQ : List Outbound := []
  stopSend : Bool := false
  recvMu : Option Tid := none
  recvQ : List Bytes := []
  recvErr : ErrorCode := .success
  recvClosed : Bool := false
  jobsMu : Option Tid := none
  msgJobs : List Bytes := []
  deliverStop : Bool := false
  doneMu : Option Tid := none
  callbackDropped : UInt64 := 0
  shutdownStarted : Bool := false
  closed : Bool := false
  writeDone : Bool := false
  readDone : Bool := false
  sockClosed : Bool := false
  reader : ReaderPc := .recv
  writer : WriterPc := .acquire
  deliver : DeliverPc
  shutdown : ShutPc := .idle
  senders : ℕ → SendPc := fun _ => .idle
  receivers : ℕ → RecvPc := fun _ => .idle
  hist : Hist := {}

/-- The state after `Conn::Conn`: the deliver thread runs only with a callback. -/
def init (cfg : FrozenConfig) : State where
  deliver := if cfg.onMessage then .acquire else .absent

/-- What the threads of a connection share and never change. -/
structure Env where
  cfg : FrozenConfig
  gcm : Gcm
  sess : Session

/-! ## Waking parked threads

`notify_all` on a condition variable moves every thread parked on it to the counter from which it
takes the mutex again and re-tests. `send_cv_` is shared by `send_for`, `write_loop` and the pong of
`read_loop`; `recv_cv_` by `receive_for` and `read_loop`; `jobs_cv_` and `done_cv_` have one waiter. -/

def SendPc.wake : SendPc → SendPc
  | .parked p timed => .acquire p timed false
  | pc => pc

def RecvPc.wake : RecvPc → RecvPc
  | .parked timed => .acquire timed false
  | pc => pc

def WriterPc.wake : WriterPc → WriterPc
  | .parked => .acquire
  | pc => pc

/-- What `send_cv_.notify_all()` does to `read_loop`. -/
def ReaderPc.wakeSend : ReaderPc → ReaderPc
  | .pingParked pt => .ping pt
  | pc => pc

/-- What `recv_cv_.notify_all()` does to `read_loop`. -/
def ReaderPc.wakeRecv : ReaderPc → ReaderPc
  | .textParked pt => .text pt
  | pc => pc

def DeliverPc.wake : DeliverPc → DeliverPc
  | .parked => .acquire
  | pc => pc

def ShutPc.wake : ShutPc → ShutPc
  | .parked flag timed ec => .await flag timed false ec
  | pc => pc

namespace State

/-- `send_cv_.notify_all()`. -/
def notifySendCv (s : State) : State :=
  { s with
    senders := fun i => (s.senders i).wake
    writer := s.writer.wake
    reader := s.reader.wakeSend }

/-- `recv_cv_.notify_all()`. -/
def notifyRecvCv (s : State) : State :=
  { s with
    receivers := fun i => (s.receivers i).wake
    reader := s.reader.wakeRecv }

/-- `jobs_cv_.notify_one()` and `notify_all()`: only `deliver_loop` waits there. -/
def notifyJobsCv (s : State) : State :=
  { s with deliver := s.deliver.wake }

/-- `done_cv_.notify_all()`. -/
def notifyDoneCv (s : State) : State :=
  { s with shutdown := s.shutdown.wake }

/-- Move one `send_for` call to another counter. -/
def setSender (s : State) (i : ℕ) (pc : SendPc) : State :=
  { s with senders := Function.update s.senders i pc }

/-- Move one `receive_for` call to another counter. -/
def setReceiver (s : State) (i : ℕ) (pc : RecvPc) : State :=
  { s with receivers := Function.update s.receivers i pc }

/-- `receive_for` returns `r`. -/
def finishReceive (s : State) (i : ℕ) (r : Except ErrorCode Bytes) : State :=
  { s.setReceiver i (.done r) with hist.results := s.hist.results ++ [r] }

/-- The value of the flag `wait_flag` looks at. -/
def flag (s : State) : Flag → Bool
  | .writeDone => s.writeDone
  | .readDone => s.readDone

end State

end TcpDuplex.Conn
