import TcpDuplex.Lib.Runs
import TcpDuplex.Conn.State

/-!
# The threads of a `Conn` (`conn.cpp`)

One function per thread, translated from the source. A critical section that needs no second mutex
and does not wait is one step, enabled while its mutex is free; a section that waits, or takes a
second mutex, is spread over counters at which the mutex is held. Unlocked accesses (`closed_`,
`write_done_`, `read_done_`, the notifies of `done_cv_`) are steps of their own.

The outcomes of system calls are part of the action: what `read_record` delivered, how many bytes the
socket took, which nonce was drawn.
-/

namespace TcpDuplex.Conn

open Protocol

/-- What a step of `write_loop` learns from outside: the nonce `random_bytes` drew, the number of
bytes the socket took, or that it refused. -/
inductive WriteIo where
  | none
  | nonce (n : Option Nonce)
  | sent (k : ℕ)
  | failed

/-- What a step of `read_loop` learns from outside: the result of `read_record`. -/
inductive ReadIo where
  | none
  | record (msgType : UInt8) (sealed : Bytes)
  | error (ec : ErrorCode)

/-- The actions of a connection: a new call by the application, a deadline that expires, or a step of
one thread. -/
inductive Act where
  | callSend (i : ℕ) (payload : Bytes) (timed : Bool)
  | callReceive (i : ℕ) (timed : Bool)
  | callShutdown (timed : Bool)
  | expireSend (i : ℕ)
  | expireReceive (i : ℕ)
  | expireShutdown
  | sender (i : ℕ)
  | receiver (i : ℕ)
  | shutdown
  | writer (io : WriteIo)
  | reader (io : ReadIo)
  | deliver

/-! ## `send_for` -/

/-- The size check of `send_for`. -/
def sizeOk (cfg : FrozenConfig) (n : ℕ) : Bool := !decide (castInt n > cfg.maxMessageBytes)

/-- There is room in `send_q_`. -/
def sendRoom (cfg : FrozenConfig) (s : State) : Bool :=
  decide (castInt s.sendQ.length < cfg.sendQueueDepth)

/-- Append to `send_q_` and notify, both under `send_mu_`. -/
def pushSend (s : State) (out : Outbound) : State :=
  State.notifySendCv { s with sendQ := s.sendQ ++ [out] }

/-- The locked part of `send_for`, from the evaluation of the predicate on. -/
def sendForTest (e : Env) (s : State) (i : ℕ) (p : Bytes) (timed expired : Bool) : State :=
  if s.stopSend || sendRoom e.cfg s then
    if s.stopSend then s.setSender i (.done Errc.closed.code)
    else
      { (pushSend s ⟨kMsgText, p⟩).setSender i (.done .success) with
        hist.accepted := s.hist.accepted ++ [p] }
  else if expired then s.setSender i (.done Errc.timedOut.code)
  else { s.setSender i (.park p timed) with sendMu := some (.sender i) }

/-- One step of a `send_for` call. -/
def senderStep (e : Env) (s : State) (i : ℕ) : Option State :=
  match s.senders i with
  | .start p timed =>
    if s.closed then some (s.setSender i (.done Errc.closed.code))
    else if sizeOk e.cfg p.length then some (s.setSender i (.acquire p timed false))
    else some (s.setSender i (.done Errc.messageTooLarge.code))
  | .acquire p timed expired =>
    if s.sendMu = none then some (sendForTest e s i p timed expired) else none
  | .park p timed => some { s.setSender i (.parked p timed) with sendMu := none }
  | _ => none

/-! ## `receive_for` -/

/-- The locked part of `receive_for`, from the evaluation of the predicate on. -/
def receiveForTest (s : State) (i : ℕ) (timed expired : Bool) : State :=
  if s.recvClosed || !s.recvQ.isEmpty then
    match s.recvQ with
    | p :: rest =>
      { s.finishReceive i (.ok p) with recvQ := rest, hist.popped := s.hist.popped ++ [p] }
    | [] => s.finishReceive i (.error (if s.recvErr.failed then s.recvErr else Errc.closed.code))
  else if expired then s.finishReceive i (.error Errc.timedOut.code)
  else { s.setReceiver i (.park timed) with recvMu := some (.receiver i) }

/-- One step of a `receive_for` call. -/
def receiverStep (e : Env) (s : State) (i : ℕ) : Option State :=
  match s.receivers i with
  | .start timed =>
    if e.cfg.onMessage then some (s.finishReceive i (.error Errc.receiveDisabled.code))
    else some (s.setReceiver i (.acquire timed false))
  | .acquire timed expired =>
    if s.recvMu = none then some (receiveForTest s i timed expired) else none
  | .park timed => some { s.setReceiver i (.parked timed) with recvMu := none }
  | _ => none

/-! ## `shutdown` -/

/-- Where `shutdown` goes on after one of its two waits. -/
def ShutPc.after (flag : Flag) (timed : Bool) (ec ec2 : ErrorCode) : ShutPc :=
  match flag with
  | .writeDone => .setDeliverStop timed ec2
  | .readDone => .done (if ec.failed then ec else ec2)

/-- One step of `shutdown`, from the exchange of `shutdown_started_` on. -/
def shutdownStep (s : State) : Option State :=
  match s.shutdown with
  | .markClosed timed => some { s with closed := true, shutdown := .setStop timed }
  | .setStop timed =>
    if s.sendMu = none then some { s with stopSend := true, shutdown := .notifySend timed } else none
  | .notifySend timed =>
    some { s.notifySendCv with shutdown := .await .writeDone timed false .success }
  | .await flag timed expired ec =>
    if s.doneMu = none then
      if s.flag flag then some { s with shutdown := .after flag timed ec .success }
      else if expired then some { s with shutdown := .after flag timed ec Errc.timedOut.code }
      else some { s with doneMu := some .shutdown, shutdown := .park flag timed ec }
    else none
  | .park flag timed ec => some { s with doneMu := none, shutdown := .parked flag timed ec }
  | .setDeliverStop timed ec =>
    if s.jobsMu = none then some { s with deliverStop := true, shutdown := .notifyJobs timed ec }
    else none
  | .notifyJobs timed ec => some { s.notifyJobsCv with shutdown := .closeSock timed ec }
  | .closeSock timed ec =>
    some { s with sockClosed := true, shutdown := .await .readDone timed false ec }
  | _ => none

/-! ## `write_loop` -/

/-- Where `write_loop` goes on after a `write_out` that returned true. -/
def WriterPc.after : WriteSite → WriterPc
  | .loop => .acquire
  | .drain => .drain
  | .close => .storeDone

/-- The locked part of the outer loop of `write_loop`, from the evaluation of the predicate on. -/
def writeLoopTest (s : State) : State :=
  match s.sendQ with
  | out :: rest =>
    State.notifySendCv
      { s with
        sendQ := rest
        writer := .write .loop out
        hist.taken := s.hist.taken ++ [out] }
  | [] =>
    if s.stopSend then { s with writer := .drain }
    else { s with sendMu := some .writer, writer := .park }

/-- The locked part of the drain loop of `write_loop`. It pops without a notify. -/
def writeDrainTest (s : State) : State :=
  match s.sendQ with
  | out :: rest =>
    { s with sendQ := rest, writer := .write .drain out, hist.taken := s.hist.taken ++ [out] }
  | [] => { s with writer := .write .close ⟨kMsgClose, []⟩ }

/-- `write_out(out)` up to the first byte: seal, then the size check of `write_record`. -/
def writeOutBegin (e : Env) (s : State) (site : WriteSite) (out : Outbound)
    (nonce : Option Nonce) : State :=
  match e.sess.sealPlaintext e.gcm nonce out.pt with
  | .error _ => { s with writer := .storeDone }
  | .ok sealed =>
    match writeRecord out.typ sealed with
    | .error _ => { s with writer := .storeDone }
    | .ok bytes =>
      { s with writer := .send site bytes, hist.records := s.hist.records ++ [(out.typ, sealed)] }

/-- One step of `write_loop`. A socket that refuses does so with a non-zero `errno`; a call of `send` that is
blocked while `::close` runs may still take bytes, as one of `recv` may still bring some. -/
def writerStep (e : Env) (s : State) : WriteIo → Option State
  | .none =>
    match s.writer with
    | .acquire => if s.sendMu = none then some (writeLoopTest s) else none
    | .park => some { s with sendMu := none, writer := .parked }
    | .drain => if s.sendMu = none then some (writeDrainTest s) else none
    | .storeDone => some { s with writeDone := true, writer := .notifyDone }
    | .notifyDone => some { s.notifyDoneCv with writer := .exited }
    | _ => none
  | .nonce n =>
    match s.writer with
    | .write site out => some (writeOutBegin e s site out n)
    | _ => none
  | .sent k =>
    match s.writer with
    | .send site rest =>
      if 0 < k ∧ k ≤ rest.length then
        some { s with
          writer := if k = rest.length then .after site else .send site (rest.drop k)
          hist.wire := s.hist.wire ++ rest.take k }
      else none
    | _ => none
  | .failed =>
    match s.writer with
    | .send _ _ => some { s with writer := .storeDone }
    | _ => none

/-! ## `read_loop` -/

/-- There is room in `recv_q_`. -/
def recvRoom (cfg : FrozenConfig) (s : State) : Bool :=
  decide (castInt s.recvQ.length < cfg.receiveQueueDepth)

/-- There is room in `msg_jobs_`. -/
def jobsRoom (cfg : FrozenConfig) (s : State) : Bool :=
  !decide (castInt s.msgJobs.length ≥ cfg.onMessageBufferDepth)

/-- The `switch` of `read_loop` on a record that opened. -/
def dispatch (e : Env) (s : State) (msgType : UInt8) (pt : Bytes) : State :=
  if msgType = kMsgText then
    if sizeOk e.cfg pt.length then
      { s with reader := if e.cfg.onMessage then .jobs pt else .text pt }
    else { s with reader := .abort Errc.messageTooLarge.code .nothing }
  else if msgType = kMsgPing then { s with reader := .ping pt }
  else if msgType = kMsgPong then { s with reader := .recv }
  else if msgType = kMsgClose then
    { s with reader := .abort Errc.closed.code .nothing, hist.sawClose := true }
  else { s with reader := .abort Errc.badFrame.code .nothing }

/-- A record has arrived: `open`, then the `switch`. -/
def readRecordDone (e : Env) (s : State) (msgType : UInt8) (sealed : Bytes) : State :=
  match e.sess.openSealed e.gcm sealed with
  | .error ec => { s with reader := .abort ec .nothing }
  | .ok pt => dispatch e s msgType pt

/-- The predicate under which a text record waits for `recv_q_`. -/
def textTest (e : Env) (s : State) (pt : Bytes) : State :=
  { s with
    recvMu := some .reader
    reader := if s.recvClosed || s.stopSend || recvRoom e.cfg s then .textStop pt else .textPark pt }

/-- Past the wait, with `recv_mu_` held and `send_mu_` just taken: give up under both mutexes, or
append and notify. -/
def textFinish (e : Env) (s : State) (pt : Bytes) : State :=
  if s.stopSend && !recvRoom e.cfg s then
    { s with sendMu := some .reader, reader := .abort Errc.closed.code .recvSend }
  else if s.recvClosed then { s with recvMu := none, reader := .recv }
  else
    State.notifyRecvCv
      { s with
        recvMu := none
        recvQ := s.recvQ ++ [pt]
        reader := .recv
        hist.pushed := s.hist.pushed ++ [pt] }

/-- A text record in callback mode, under `jobs_mu_`. -/
def jobsTest (e : Env) (s : State) (pt : Bytes) : State :=
  if jobsRoom e.cfg s then
    State.notifyJobsCv
      { s with
        msgJobs := s.msgJobs ++ [pt]
        reader := .recv
        hist.texts := s.hist.texts ++ [pt] }
  else if e.cfg.disconnectOnSlowCallbackConsumer then
    { s with jobsMu := some .reader, reader := .abort Errc.slowConsumer.code .jobs }
  else
    { s with
      callbackDropped := s.callbackDropped + 1
      reader := .recv
      hist.texts := s.hist.texts ++ [pt] }

/-- A ping, under `send_mu_`: give up, queue the pong, or wait for room. -/
def pingTest (e : Env) (s : State) (pt : Bytes) : State :=
  if s.stopSend then { s with sendMu := some .reader, reader := .abort Errc.closed.code .send }
  else if sendRoom e.cfg s then pushSend { s with reader := .recv } ⟨kMsgPong, pt⟩
  else { s with sendMu := some .reader, reader := .pingPark pt }

/-- `abort_recv(err)`, under `recv_mu_`. -/
def abortRecv (s : State) (err : ErrorCode) (held : Held) : State :=
  if s.recvClosed then { s with reader := .storeDone held }
  else
    State.notifyRecvCv
      { s with
        recvClosed := true
        recvErr := if err.failed then err else Errc.closed.code
        reader := .storeDone held }

/-- The destructors of the guards `read_loop` holds when it returns. -/
def releaseHeld (s : State) : Held → State
  | .nothing => s
  | .jobs => { s with jobsMu := none }
  | .send => { s with sendMu := none }
  | .recvSend => { s with recvMu := none, sendMu := none }

/-- One step of `read_loop`. -/
def readerStep (e : Env) (s : State) : ReadIo → Option State
  | .record msgType sealed =>
    match s.reader with
    | .recv => some (readRecordDone e s msgType sealed)
    | _ => none
  | .error ec =>
    match s.reader with
    | .recv => if ec.failed then some { s with reader := .abort ec .nothing } else none
    | _ => none
  | .none =>
    match s.reader with
    | .text pt => if s.recvMu = none then some (textTest e s pt) else none
    | .textPark pt => some { s with recvMu := none, reader := .textParked pt }
    | .textStop pt => if s.sendMu = none then some (textFinish e s pt) else none
    | .jobs pt => if s.jobsMu = none then some (jobsTest e s pt) else none
    | .ping pt => if s.sendMu = none then some (pingTest e s pt) else none
    | .pingPark pt => some { s with sendMu := none, reader := .pingParked pt }
    | .abort err held => if s.recvMu = none then some (abortRecv s err held) else none
    | .storeDone held => some { s with readDone := true, reader := .notifyDone held }
    | .notifyDone held => some { s.notifyDoneCv with reader := .leave held }
    | .leave held => some { releaseHeld s held with reader := .exited }
    | _ => none

/-! ## `deliver_loop` -/

/-- The locked part of `deliver_loop`, from the evaluation of the predicate on. -/
def deliverTest (s : State) : State :=
  match s.msgJobs with
  | p :: rest => { s with msgJobs := rest, deliver := .call p }
  | [] => { s with jobsMu := some .deliver, deliver := if s.deliverStop then .drain else .park }

/-- One round of the drain loop, with `jobs_mu_` held. -/
def deliverDrain (s : State) : State :=
  match s.msgJobs with
  | p :: rest => { s with msgJobs := rest, jobsMu := none, deliver := .drainCall p }
  | [] => { s with jobsMu := none, deliver := .exited }

/-- One step of `deliver_loop`. The loop proper calls `on_message` only for a payload that is not
empty; the drain loop calls it for every payload. -/
def deliverStep (s : State) : Option State :=
  match s.deliver with
  | .acquire => if s.jobsMu = none then some (deliverTest s) else none
  | .park => some { s with jobsMu := none, deliver := .parked }
  | .call p =>
    some { s with
      deliver := .acquire
      hist.delivered := if p.isEmpty then s.hist.delivered else s.hist.delivered ++ [p] }
  | .drain => some (deliverDrain s)
  | .drainCall p =>
    some { s with deliver := .drainRelock, hist.delivered := s.hist.delivered ++ [p] }
  | .drainRelock =>
    if s.jobsMu = none then some { s with jobsMu := some .deliver, deliver := .drain } else none
  | _ => none

/-! ## The connection -/

/-- One action of a connection. A call number is used for one call only; a `shutdown` that loses the
exchange of `shutdown_started_` returns at once and changes nothing. -/
def step (e : Env) (s : State) : Act → Option State
  | .callSend i p timed =>
    match s.senders i with
    | .idle => some (s.setSender i (.start p timed))
    | _ => none
  | .callReceive i timed =>
    match s.receivers i with
    | .idle => some (s.setReceiver i (.start timed))
    | _ => none
  | .callShutdown timed =>
    if s.shutdownStarted then some s
    else some { s with shutdownStarted := true, shutdown := .markClosed timed }
  | .expireSend i =>
    match s.senders i with
    | .parked p true => some (s.setSender i (.acquire p true true))
    | _ => none
  | .expireReceive i =>
    match s.receivers i with
    | .parked true => some (s.setReceiver i (.acquire true true))
    | _ => none
  | .expireShutdown =>
    match s.shutdown with
    | .parked flag true ec => some { s with shutdown := .await flag true true ec }
    | _ => none
  | .sender i => senderStep e s i
  | .receiver i => receiverStep e s i
  | .shutdown => shutdownStep s
  | .writer io => writerStep e s io
  | .reader io => readerStep e s io
  | .deliver => deliverStep s

/-- The reachable states of a connection, over every interleaving. -/
def Reachable (e : Env) (s : State) : Prop := Machine.Run (step e) (init e.cfg) s

end TcpDuplex.Conn
