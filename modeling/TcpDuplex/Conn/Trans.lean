import TcpDuplex.Conn.Step

/-!
# What a step of each thread can do

For each thread, the complete list of its transitions: the counter it leaves, the guards that hold,
and the state it leads to. The inversion theorems (`senderStep_inv` and so on) say once that the step
functions do nothing else; every invariant is then a case analysis over these rules by name.
-/

namespace TcpDuplex.Conn

open Protocol

variable {e : Env} {s t : State}

/-! ## `send_for` -/

/-- The transitions of the `send_for` call `i`. -/
inductive SenderTrans (e : Env) (s : State) (i : ℕ) : State → Prop
  | refuseClosed {p timed} (hpc : s.senders i = .start p timed) (hclosed : s.closed = true) :
      SenderTrans e s i (s.setSender i (.done Errc.closed.code))
  | refuseLarge {p timed} (hpc : s.senders i = .start p timed) (hclosed : s.closed = false)
      (hsize : sizeOk e.cfg p.length = false) :
      SenderTrans e s i (s.setSender i (.done Errc.messageTooLarge.code))
  | enter {p timed} (hpc : s.senders i = .start p timed) (hclosed : s.closed = false)
      (hsize : sizeOk e.cfg p.length = true) :
      SenderTrans e s i (s.setSender i (.acquire p timed false))
  | refuseStop {p timed expired} (hpc : s.senders i = .acquire p timed expired)
      (hmu : s.sendMu = none) (hstop : s.stopSend = true) :
      SenderTrans e s i (s.setSender i (.done Errc.closed.code))
  | push {p timed expired} (hpc : s.senders i = .acquire p timed expired)
      (hmu : s.sendMu = none) (hstop : s.stopSend = false) (hroom : sendRoom e.cfg s = true) :
      SenderTrans e s i
        { (pushSend s ⟨kMsgText, p⟩).setSender i (.done .success) with
          hist.accepted := s.hist.accepted ++ [p] }
  | timeout {p timed} (hpc : s.senders i = .acquire p timed true)
      (hmu : s.sendMu = none) (hstop : s.stopSend = false) (hroom : sendRoom e.cfg s = false) :
      SenderTrans e s i (s.setSender i (.done Errc.timedOut.code))
  | full {p timed} (hpc : s.senders i = .acquire p timed false)
      (hmu : s.sendMu = none) (hstop : s.stopSend = false) (hroom : sendRoom e.cfg s = false) :
      SenderTrans e s i { s.setSender i (.park p timed) with sendMu := some (.sender i) }
  | park {p timed} (hpc : s.senders i = .park p timed) :
      SenderTrans e s i { s.setSender i (.parked p timed) with sendMu := none }

theorem senderStep_inv {i : ℕ} (h : senderStep e s i = some t) : SenderTrans e s i t := by
  unfold senderStep at h
  split at h
  · rename_i p timed hpc
    split at h
    · rename_i hclosed
      cases h
      exact .refuseClosed hpc hclosed
    · rename_i hclosed
      split at h
      · rename_i hsize
        cases h
        exact .enter hpc (by simpa using hclosed) hsize
      · rename_i hsize
        cases h
        exact .refuseLarge hpc (by simpa using hclosed) (by simpa using hsize)
  · rename_i p timed expired hpc
    split at h
    · rename_i hmu
      obtain rfl := Option.some_inj.mp h
      cases hstop : s.stopSend with
      | true =>
          simp only [sendForTest, hstop, Bool.true_or, if_true]
          exact .refuseStop hpc hmu hstop
      | false =>
          cases hroom : sendRoom e.cfg s with
          | true =>
              simp only [sendForTest, hstop, hroom, Bool.false_or, if_true, Bool.false_eq_true,
                if_false]
              exact .push hpc hmu hstop hroom
          | false =>
              cases expired with
              | true =>
                  simp only [sendForTest, hstop, hroom, Bool.or_self, Bool.false_eq_true, if_false,
                    if_true]
                  exact .timeout hpc hmu hstop hroom
              | false =>
                  simp only [sendForTest, hstop, hroom, Bool.or_self, Bool.false_eq_true, if_false]
                  exact .full hpc hmu hstop hroom
    · cases h
  · rename_i p timed hpc
    cases h
    exact .park hpc
  · cases h

/-! ## `receive_for` -/

/-- The transitions of the `receive_for` call `i`. -/
inductive ReceiverTrans (e : Env) (s : State) (i : ℕ) : State → Prop
  | disabled {timed} (hpc : s.receivers i = .start timed) (hcb : e.cfg.onMessage = true) :
      ReceiverTrans e s i (s.finishReceive i (.error Errc.receiveDisabled.code))
  | enter {timed} (hpc : s.receivers i = .start timed) (hcb : e.cfg.onMessage = false) :
      ReceiverTrans e s i (s.setReceiver i (.acquire timed false))
  | pop {timed expired p rest} (hpc : s.receivers i = .acquire timed expired)
      (hmu : s.recvMu = none) (hq : s.recvQ = p :: rest) :
      ReceiverTrans e s i
        { s.finishReceive i (.ok p) with recvQ := rest, hist.popped := s.hist.popped ++ [p] }
  | fail {timed expired} (hpc : s.receivers i = .acquire timed expired)
      (hmu : s.recvMu = none) (hq : s.recvQ = []) (hclosed : s.recvClosed = true) :
      ReceiverTrans e s i
        (s.finishReceive i (.error (if s.recvErr.failed then s.recvErr else Errc.closed.code)))
  | timeout {timed} (hpc : s.receivers i = .acquire timed true)
      (hmu : s.recvMu = none) (hq : s.recvQ = []) (hclosed : s.recvClosed = false) :
      ReceiverTrans e s i (s.finishReceive i (.error Errc.timedOut.code))
  | empty {timed} (hpc : s.receivers i = .acquire timed false)
      (hmu : s.recvMu = none) (hq : s.recvQ = []) (hclosed : s.recvClosed = false) :
      ReceiverTrans e s i { s.setReceiver i (.park timed) with recvMu := some (.receiver i) }
  | park {timed} (hpc : s.receivers i = .park timed) :
      ReceiverTrans e s i { s.setReceiver i (.parked timed) with recvMu := none }

theorem receiverStep_inv {i : ℕ} (h : receiverStep e s i = some t) : ReceiverTrans e s i t := by
  unfold receiverStep at h
  split at h
  · rename_i timed hpc
    split at h
    · rename_i hcb
      cases h
      exact .disabled hpc hcb
    · rename_i hcb
      cases h
      exact .enter hpc (by simpa using hcb)
  · rename_i timed expired hpc
    split at h
    · rename_i hmu
      obtain rfl := Option.some_inj.mp h
      cases hq : s.recvQ with
      | cons p rest =>
          simp only [receiveForTest, hq, List.isEmpty_cons, Bool.not_false, Bool.or_true, if_true]
          exact .pop hpc hmu hq
      | nil =>
          cases hclosed : s.recvClosed with
          | true =>
              simp only [receiveForTest, hq, hclosed, Bool.true_or, if_true]
              exact .fail hpc hmu hq hclosed
          | false =>
              cases expired with
              | true =>
                  simp only [receiveForTest, hq, hclosed, List.isEmpty_nil, Bool.not_true,
                    Bool.or_self, Bool.false_eq_true, if_false, if_true]
                  exact .timeout hpc hmu hq hclosed
              | false =>
                  simp only [receiveForTest, hq, hclosed, List.isEmpty_nil, Bool.not_true,
                    Bool.or_self, Bool.false_eq_true, if_false]
                  exact .empty hpc hmu hq hclosed
    · cases h
  · rename_i timed hpc
    cases h
    exact .park hpc
  · cases h

/-! ## `shutdown` -/

/-- The transitions of the running `shutdown`. -/
inductive ShutdownTrans (s : State) : State → Prop
  | markClosed {timed} (hpc : s.shutdown = .markClosed timed) :
      ShutdownTrans s { s with closed := true, shutdown := .setStop timed }
  | setStop {timed} (hpc : s.shutdown = .setStop timed) (hmu : s.sendMu = none) :
      ShutdownTrans s { s with stopSend := true, shutdown := .notifySend timed }
  | notifySend {timed} (hpc : s.shutdown = .notifySend timed) :
      ShutdownTrans s { s.notifySendCv with shutdown := .await .writeDone timed false .success }
  | flagSet {flag timed expired ec} (hpc : s.shutdown = .await flag timed expired ec)
      (hmu : s.doneMu = none) (hflag : s.flag flag = true) :
      ShutdownTrans s { s with shutdown := .after flag timed ec .success }
  | timeout {flag timed ec} (hpc : s.shutdown = .await flag timed true ec)
      (hmu : s.doneMu = none) (hflag : s.flag flag = false) :
      ShutdownTrans s { s with shutdown := .after flag timed ec Errc.timedOut.code }
  | flagUnset {flag timed ec} (hpc : s.shutdown = .await flag timed false ec)
      (hmu : s.doneMu = none) (hflag : s.flag flag = false) :
      ShutdownTrans s { s with doneMu := some .shutdown, shutdown := .park flag timed ec }
  | park {flag timed ec} (hpc : s.shutdown = .park flag timed ec) :
      ShutdownTrans s { s with doneMu := none, shutdown := .parked flag timed ec }
  | setDeliverStop {timed ec} (hpc : s.shutdown = .setDeliverStop timed ec) (hmu : s.jobsMu = none) :
      ShutdownTrans s { s with deliverStop := true, shutdown := .notifyJobs timed ec }
  | notifyJobs {timed ec} (hpc : s.shutdown = .notifyJobs timed ec) :
      ShutdownTrans s { s.notifyJobsCv with shutdown := .closeSock timed ec }
  | closeSock {timed ec} (hpc : s.shutdown = .closeSock timed ec) :
      ShutdownTrans s { s with sockClosed := true, shutdown := .await .readDone timed false ec }

theorem shutdownStep_inv (h : shutdownStep s = some t) : ShutdownTrans s t := by
  unfold shutdownStep at h
  split at h
  · rename_i timed hpc
    cases h
    exact .markClosed hpc
  · rename_i timed hpc
    split at h
    · rename_i hmu
      cases h
      exact .setStop hpc hmu
    · cases h
  · rename_i timed hpc
    cases h
    exact .notifySend hpc
  · rename_i flag timed expired ec hpc
    split at h
    · rename_i hmu
      split at h
      · rename_i hflag
        cases h
        exact .flagSet hpc hmu hflag
      · rename_i hflag
        split at h
        · rename_i hexp
          cases h
          subst hexp
          exact .timeout hpc hmu (by simpa using hflag)
        · rename_i hexp
          cases h
          obtain rfl : expired = false := by simpa using hexp
          exact .flagUnset hpc hmu (by simpa using hflag)
    · cases h
  · rename_i flag timed ec hpc
    cases h
    exact .park hpc
  · rename_i timed ec hpc
    split at h
    · rename_i hmu
      cases h
      exact .setDeliverStop hpc hmu
    · cases h
  · rename_i timed ec hpc
    cases h
    exact .notifyJobs hpc
  · rename_i timed ec hpc
    cases h
    exact .closeSock hpc
  · cases h

/-! ## `write_loop` -/

/-- The transitions of `write_loop`. -/
inductive WriterTrans (e : Env) (s : State) : WriteIo → State → Prop
  | pop {out rest} (hpc : s.writer = .acquire) (hmu : s.sendMu = none) (hq : s.sendQ = out :: rest) :
      WriterTrans e s .none
        (State.notifySendCv
          { s with
            sendQ := rest
            writer := .write .loop out
            hist.taken := s.hist.taken ++ [out] })
  | flush (hpc : s.writer = .acquire) (hmu : s.sendMu = none) (hq : s.sendQ = [])
      (hstop : s.stopSend = true) :
      WriterTrans e s .none { s with writer := .drain }
  | empty (hpc : s.writer = .acquire) (hmu : s.sendMu = none) (hq : s.sendQ = [])
      (hstop : s.stopSend = false) :
      WriterTrans e s .none { s with sendMu := some .writer, writer := .park }
  | park (hpc : s.writer = .park) :
      WriterTrans e s .none { s with sendMu := none, writer := .parked }
  | drainPop {out rest} (hpc : s.writer = .drain) (hmu : s.sendMu = none)
      (hq : s.sendQ = out :: rest) :
      WriterTrans e s .none
        { s with sendQ := rest, writer := .write .drain out, hist.taken := s.hist.taken ++ [out] }
  | drainEnd (hpc : s.writer = .drain) (hmu : s.sendMu = none) (hq : s.sendQ = []) :
      WriterTrans e s .none { s with writer := .write .close ⟨kMsgClose, []⟩ }
  | storeDone (hpc : s.writer = .storeDone) :
      WriterTrans e s .none { s with writeDone := true, writer := .notifyDone }
  | notifyDone (hpc : s.writer = .notifyDone) :
      WriterTrans e s .none { s.notifyDoneCv with writer := .exited }
  | sealFail {site out n} (hpc : s.writer = .write site out) :
      WriterTrans e s (.nonce n) { s with writer := .storeDone }
  | begin {site out n sealed} (hpc : s.writer = .write site out)
      (hseal : e.sess.sealPlaintext e.gcm n out.pt = .ok sealed)
      (hsize : sealedOk sealed.length = true) :
      WriterTrans e s (.nonce n)
        { s with
          writer := .send site (recordBytes out.typ sealed)
          hist.records := s.hist.records ++ [(out.typ, sealed)] }
  | sent {site rest k} (hpc : s.writer = .send site rest) (hpos : 0 < k)
      (hlt : k < rest.length) :
      WriterTrans e s (.sent k)
        { s with writer := .send site (rest.drop k), hist.wire := s.hist.wire ++ rest.take k }
  | sentAll {site rest} (hpc : s.writer = .send site rest) (hpos : 0 < rest.length) :
      WriterTrans e s (.sent rest.length)
        { s with writer := .after site, hist.wire := s.hist.wire ++ rest }
  | sendFail {site rest} (hpc : s.writer = .send site rest) :
      WriterTrans e s .failed { s with writer := .storeDone }

theorem writerStep_inv {io : WriteIo} (h : writerStep e s io = some t) : WriterTrans e s io t := by
  cases io with
  | none =>
      simp only [writerStep] at h
      split at h
      · rename_i hpc
        split at h
        · rename_i hmu
          obtain rfl := Option.some_inj.mp h
          unfold writeLoopTest
          split
          · rename_i out rest hq
            exact .pop hpc hmu hq
          · rename_i hq
            split
            · rename_i hstop
              exact .flush hpc hmu hq hstop
            · rename_i hstop
              exact .empty hpc hmu hq (by simpa using hstop)
        · cases h
      · rename_i hpc
        cases h
        exact .park hpc
      · rename_i hpc
        split at h
        · rename_i hmu
          obtain rfl := Option.some_inj.mp h
          unfold writeDrainTest
          split
          · rename_i out rest hq
            exact .drainPop hpc hmu hq
          · rename_i hq
            exact .drainEnd hpc hmu hq
        · cases h
      · rename_i hpc
        cases h
        exact .storeDone hpc
      · rename_i hpc
        cases h
        exact .notifyDone hpc
      · cases h
  | nonce n =>
      simp only [writerStep] at h
      split at h
      · rename_i site out hpc
        obtain rfl := Option.some_inj.mp h
        unfold writeOutBegin
        split
        · exact .sealFail hpc
        · rename_i sealed hseal
          unfold writeRecord
          by_cases hsize : sealedOk sealed.length = true
          · simp only [hsize, if_true]
            exact .begin hpc hseal hsize
          · simp only [hsize, Bool.false_eq_true, if_false]
            exact .sealFail hpc
      · cases h
  | sent k =>
      simp only [writerStep] at h
      split at h
      · rename_i site rest hpc
        split at h
        · rename_i hk
          obtain ⟨hpos, hle⟩ := hk
          obtain rfl := Option.some_inj.mp h
          by_cases hall : k = rest.length
          · subst hall
            simp only [if_true, List.take_length]
            exact .sentAll hpc hpos
          · simp only [hall, if_false]
            exact .sent hpc hpos (by omega)
        · cases h
      · cases h
  | failed =>
      simp only [writerStep] at h
      split at h
      · rename_i site rest hpc
        cases h
        exact .sendFail hpc
      · cases h

/-! ## `read_loop` -/

/-- The transitions of `read_loop`. -/
inductive ReaderTrans (e : Env) (s : State) : ReadIo → State → Prop
  | recvFail {ec} (hpc : s.reader = .recv) (hec : ec.failed = true) :
      ReaderTrans e s (.error ec) { s with reader := .abort ec .nothing }
  | openFail {typ sealed ec} (hpc : s.reader = .recv)
      (hopen : e.sess.openSealed e.gcm sealed = .error ec) :
      ReaderTrans e s (.record typ sealed) { s with reader := .abort ec .nothing }
  | gotText {sealed pt} (hpc : s.reader = .recv)
      (hopen : e.sess.openSealed e.gcm sealed = .ok pt) (hsize : sizeOk e.cfg pt.length = true)
      (hcb : e.cfg.onMessage = false) :
      ReaderTrans e s (.record kMsgText sealed) { s with reader := .text pt }
  | gotJob {sealed pt} (hpc : s.reader = .recv)
      (hopen : e.sess.openSealed e.gcm sealed = .ok pt) (hsize : sizeOk e.cfg pt.length = true)
      (hcb : e.cfg.onMessage = true) :
      ReaderTrans e s (.record kMsgText sealed) { s with reader := .jobs pt }
  | gotLarge {sealed pt} (hpc : s.reader = .recv)
      (hopen : e.sess.openSealed e.gcm sealed = .ok pt) (hsize : sizeOk e.cfg pt.length = false) :
      ReaderTrans e s (.record kMsgText sealed)
        { s with reader := .abort Errc.messageTooLarge.code .nothing }
  | gotPing {sealed pt} (hpc : s.reader = .recv)
      (hopen : e.sess.openSealed e.gcm sealed = .ok pt) :
      ReaderTrans e s (.record kMsgPing sealed) { s with reader := .ping pt }
  | gotPong {sealed pt} (hpc : s.reader = .recv)
      (hopen : e.sess.openSealed e.gcm sealed = .ok pt) :
      ReaderTrans e s (.record kMsgPong sealed) { s with reader := .recv }
  | gotClose {sealed pt} (hpc : s.reader = .recv)
      (hopen : e.sess.openSealed e.gcm sealed = .ok pt) :
      ReaderTrans e s (.record kMsgClose sealed)
        { s with reader := .abort Errc.closed.code .nothing, hist.sawClose := true }
  | gotBad {typ sealed pt} (hpc : s.reader = .recv)
      (hopen : e.sess.openSealed e.gcm sealed = .ok pt) (htext : typ ≠ kMsgText)
      (hping : typ ≠ kMsgPing) (hpong : typ ≠ kMsgPong) (hclose : typ ≠ kMsgClose) :
      ReaderTrans e s (.record typ sealed) { s with reader := .abort Errc.badFrame.code .nothing }
  | textGo {pt} (hpc : s.reader = .text pt) (hmu : s.recvMu = none)
      (hgo : s.recvClosed || s.stopSend || recvRoom e.cfg s) :
      ReaderTrans e s .none { s with recvMu := some .reader, reader := .textStop pt }
  | textFull {pt} (hpc : s.reader = .text pt) (hmu : s.recvMu = none)
      (hopen : s.recvClosed = false) (hstop : s.stopSend = false)
      (hroom : recvRoom e.cfg s = false) :
      ReaderTrans e s .none { s with recvMu := some .reader, reader := .textPark pt }
  | textPark {pt} (hpc : s.reader = .textPark pt) :
      ReaderTrans e s .none { s with recvMu := none, reader := .textParked pt }
  | textGiveUp {pt} (hpc : s.reader = .textStop pt) (hmu : s.sendMu = none)
      (hstop : s.stopSend = true) (hroom : recvRoom e.cfg s = false) :
      ReaderTrans e s .none
        { s with sendMu := some .reader, reader := .abort Errc.closed.code .recvSend }
  | textSkip {pt} (hpc : s.reader = .textStop pt) (hmu : s.sendMu = none)
      (hclosed : s.recvClosed = true) :
      ReaderTrans e s .none { s with recvMu := none, reader := .recv }
  | textPush {pt} (hpc : s.reader = .textStop pt) (hmu : s.sendMu = none)
      (hgo : s.stopSend = false ∨ recvRoom e.cfg s = true) (hclosed : s.recvClosed = false) :
      ReaderTrans e s .none
        (State.notifyRecvCv
          { s with
            recvMu := none
            recvQ := s.recvQ ++ [pt]
            reader := .recv
            hist.pushed := s.hist.pushed ++ [pt] })
  | jobPush {pt} (hpc : s.reader = .jobs pt) (hmu : s.jobsMu = none)
      (hroom : jobsRoom e.cfg s = true) :
      ReaderTrans e s .none
        (State.notifyJobsCv
          { s with
            msgJobs := s.msgJobs ++ [pt]
            reader := .recv
            hist.texts := s.hist.texts ++ [pt] })
  | jobSlow {pt} (hpc : s.reader = .jobs pt) (hmu : s.jobsMu = none)
      (hroom : jobsRoom e.cfg s = false) (hslow : e.cfg.disconnectOnSlowCallbackConsumer = true) :
      ReaderTrans e s .none
        { s with jobsMu := some .reader, reader := .abort Errc.slowConsumer.code .jobs }
  | jobDrop {pt} (hpc : s.reader = .jobs pt) (hmu : s.jobsMu = none)
      (hroom : jobsRoom e.cfg s = false) (hslow : e.cfg.disconnectOnSlowCallbackConsumer = false) :
      ReaderTrans e s .none
        { s with
          callbackDropped := s.callbackDropped + 1
          reader := .recv
          hist.texts := s.hist.texts ++ [pt] }
  | pingGiveUp {pt} (hpc : s.reader = .ping pt) (hmu : s.sendMu = none) (hstop : s.stopSend = true) :
      ReaderTrans e s .none
        { s with sendMu := some .reader, reader := .abort Errc.closed.code .send }
  | pingPush {pt} (hpc : s.reader = .ping pt) (hmu : s.sendMu = none) (hstop : s.stopSend = false)
      (hroom : sendRoom e.cfg s = true) :
      ReaderTrans e s .none (pushSend { s with reader := .recv } ⟨kMsgPong, pt⟩)
  | pingFull {pt} (hpc : s.reader = .ping pt) (hmu : s.sendMu = none) (hstop : s.stopSend = false)
      (hroom : sendRoom e.cfg s = false) :
      ReaderTrans e s .none { s with sendMu := some .reader, reader := .pingPark pt }
  | pingPark {pt} (hpc : s.reader = .pingPark pt) :
      ReaderTrans e s .none { s with sendMu := none, reader := .pingParked pt }
  | abortAgain {err held} (hpc : s.reader = .abort err held) (hmu : s.recvMu = none)
      (hclosed : s.recvClosed = true) :
      ReaderTrans e s .none { s with reader := .storeDone held }
  | abortFirst {err held} (hpc : s.reader = .abort err held) (hmu : s.recvMu = none)
      (hclosed : s.recvClosed = false) :
      ReaderTrans e s .none
        (State.notifyRecvCv
          { s with
            recvClosed := true
            recvErr := if err.failed then err else Errc.closed.code
            reader := .storeDone held })
  | storeDone {held} (hpc : s.reader = .storeDone held) :
      ReaderTrans e s .none { s with readDone := true, reader := .notifyDone held }
  | notifyDone {held} (hpc : s.reader = .notifyDone held) :
      ReaderTrans e s .none { s.notifyDoneCv with reader := .leave held }
  | leave {held} (hpc : s.reader = .leave held) :
      ReaderTrans e s .none { releaseHeld s held with reader := .exited }

theorem dispatch_inv {typ : UInt8} {sealed pt : Bytes} (hpc : s.reader = .recv)
    (hopen : e.sess.openSealed e.gcm sealed = .ok pt) :
    ReaderTrans e s (.record typ sealed) (dispatch e s typ pt) := by
  unfold dispatch
  split
  · rename_i htext
    subst htext
    split
    · rename_i hsize
      cases hcb : e.cfg.onMessage with
      | true => exact .gotJob hpc hopen hsize hcb
      | false => exact .gotText hpc hopen hsize hcb
    · rename_i hsize
      exact .gotLarge hpc hopen (by simpa using hsize)
  · rename_i htext
    split
    · rename_i hping
      subst hping
      exact .gotPing hpc hopen
    · rename_i hping
      split
      · rename_i hpong
        subst hpong
        exact .gotPong hpc hopen
      · rename_i hpong
        split
        · rename_i hclose
          subst hclose
          exact .gotClose hpc hopen
        · rename_i hclose
          exact .gotBad hpc hopen htext hping hpong hclose

theorem readerStep_inv {io : ReadIo} (h : readerStep e s io = some t) : ReaderTrans e s io t := by
  cases io with
  | record typ sealed =>
      simp only [readerStep] at h
      split at h
      · rename_i hpc
        obtain rfl := Option.some_inj.mp h
        unfold readRecordDone
        split
        · rename_i ec hopen
          exact .openFail hpc hopen
        · rename_i pt hopen
          exact dispatch_inv hpc hopen
      · cases h
  | error ec =>
      simp only [readerStep] at h
      split at h
      · rename_i hpc
        split at h
        · rename_i hec
          cases h
          exact .recvFail hpc hec
        · cases h
      · cases h
  | none =>
      simp only [readerStep] at h
      split at h
      · rename_i pt hpc
        split at h
        · rename_i hmu
          obtain rfl := Option.some_inj.mp h
          unfold textTest
          split
          · rename_i hgo
            exact .textGo hpc hmu hgo
          · rename_i hgo
            simp only [Bool.or_eq_true, not_or, Bool.not_eq_true] at hgo
            exact .textFull hpc hmu hgo.1.1 hgo.1.2 hgo.2
        · cases h
      · rename_i pt hpc
        cases h
        exact .textPark hpc
      · rename_i pt hpc
        split at h
        · rename_i hmu
          obtain rfl := Option.some_inj.mp h
          unfold textFinish
          split
          · rename_i hfull
            simp only [Bool.and_eq_true, Bool.not_eq_true'] at hfull
            exact .textGiveUp hpc hmu hfull.1 hfull.2
          · rename_i hfull
            split
            · rename_i hclosed
              exact .textSkip hpc hmu hclosed
            · rename_i hclosed
              refine .textPush hpc hmu ?_ (by simpa using hclosed)
              cases hstop : s.stopSend with
              | false => exact Or.inl rfl
              | true => exact Or.inr (by simpa [hstop] using hfull)
        · cases h
      · rename_i pt hpc
        split at h
        · rename_i hmu
          obtain rfl := Option.some_inj.mp h
          unfold jobsTest
          split
          · rename_i hroom
            exact .jobPush hpc hmu hroom
          · rename_i hroom
            split
            · rename_i hslow
              exact .jobSlow hpc hmu (by simpa using hroom) hslow
            · rename_i hslow
              exact .jobDrop hpc hmu (by simpa using hroom) (by simpa using hslow)
        · cases h
      · rename_i pt hpc
        split at h
        · rename_i hmu
          obtain rfl := Option.some_inj.mp h
          unfold pingTest
          split
          · rename_i hstop
            exact .pingGiveUp hpc hmu hstop
          · rename_i hstop
            split
            · rename_i hroom
              exact .pingPush hpc hmu (by simpa using hstop) hroom
            · rename_i hroom
              exact .pingFull hpc hmu (by simpa using hstop) (by simpa using hroom)
        · cases h
      · rename_i pt hpc
        cases h
        exact .pingPark hpc
      · rename_i err held hpc
        split at h
        · rename_i hmu
          obtain rfl := Option.some_inj.mp h
          unfold abortRecv
          split
          · rename_i hclosed
            exact .abortAgain hpc hmu hclosed
          · rename_i hclosed
            exact .abortFirst hpc hmu (by simpa using hclosed)
        · cases h
      · rename_i held hpc
        cases h
        exact .storeDone hpc
      · rename_i held hpc
        cases h
        exact .notifyDone hpc
      · rename_i held hpc
        cases h
        exact .leave hpc
      · cases h

/-! ## `deliver_loop` -/

/-- The transitions of `deliver_loop`. -/
inductive DeliverTrans (s : State) : State → Prop
  | pop {p rest} (hpc : s.deliver = .acquire) (hmu : s.jobsMu = none) (hq : s.msgJobs = p :: rest) :
      DeliverTrans s { s with msgJobs := rest, deliver := .call p }
  | stop (hpc : s.deliver = .acquire) (hmu : s.jobsMu = none) (hq : s.msgJobs = [])
      (hstop : s.deliverStop = true) :
      DeliverTrans s { s with jobsMu := some .deliver, deliver := .drain }
  | empty (hpc : s.deliver = .acquire) (hmu : s.jobsMu = none) (hq : s.msgJobs = [])
      (hstop : s.deliverStop = false) :
      DeliverTrans s { s with jobsMu := some .deliver, deliver := .park }
  | park (hpc : s.deliver = .park) :
      DeliverTrans s { s with jobsMu := none, deliver := .parked }
  | call {p} (hpc : s.deliver = .call p) :
      DeliverTrans s
        { s with
          deliver := .acquire
          hist.delivered := if p.isEmpty then s.hist.delivered else s.hist.delivered ++ [p] }
  | drainPop {p rest} (hpc : s.deliver = .drain) (hq : s.msgJobs = p :: rest) :
      DeliverTrans s { s with msgJobs := rest, jobsMu := none, deliver := .drainCall p }
  | drainEnd (hpc : s.deliver = .drain) (hq : s.msgJobs = []) :
      DeliverTrans s { s with jobsMu := none, deliver := .exited }
  | drainCall {p} (hpc : s.deliver = .drainCall p) :
      DeliverTrans s { s with deliver := .drainRelock, hist.delivered := s.hist.delivered ++ [p] }
  | drainRelock (hpc : s.deliver = .drainRelock) (hmu : s.jobsMu = none) :
      DeliverTrans s { s with jobsMu := some .deliver, deliver := .drain }

theorem deliverStep_inv (h : deliverStep s = some t) : DeliverTrans s t := by
  unfold deliverStep at h
  split at h
  · rename_i hpc
    split at h
    · rename_i hmu
      obtain rfl := Option.some_inj.mp h
      unfold deliverTest
      split
      · rename_i p rest hq
        exact .pop hpc hmu hq
      · rename_i hq
        split
        · rename_i hstop
          exact .stop hpc hmu hq hstop
        · rename_i hstop
          exact .empty hpc hmu hq (by simpa using hstop)
    · cases h
  · rename_i hpc
    cases h
    exact .park hpc
  · rename_i p hpc
    cases h
    exact .call hpc
  · rename_i hpc
    obtain rfl := Option.some_inj.mp h
    unfold deliverDrain
    split
    · rename_i p rest hq
      exact .drainPop hpc hq
    · rename_i hq
      exact .drainEnd hpc hq
  · rename_i p hpc
    cases h
    exact .drainCall hpc
  · rename_i hpc
    split at h
    · rename_i hmu
      cases h
      exact .drainRelock hpc hmu
    · cases h
  · cases h

/-! ## The connection -/

/-- The transitions of a connection: new calls, expired deadlines, and the threads. -/
inductive Transition (e : Env) (s : State) : Act → State → Prop
  | callSend {i p timed} (hpc : s.senders i = .idle) :
      Transition e s (.callSend i p timed) (s.setSender i (.start p timed))
  | callReceive {i timed} (hpc : s.receivers i = .idle) :
      Transition e s (.callReceive i timed) (s.setReceiver i (.start timed))
  | callShutdownAgain {timed} (hstarted : s.shutdownStarted = true) :
      Transition e s (.callShutdown timed) s
  | callShutdown {timed} (hstarted : s.shutdownStarted = false) :
      Transition e s (.callShutdown timed)
        { s with shutdownStarted := true, shutdown := .markClosed timed }
  | expireSend {i p} (hpc : s.senders i = .parked p true) :
      Transition e s (.expireSend i) (s.setSender i (.acquire p true true))
  | expireReceive {i} (hpc : s.receivers i = .parked true) :
      Transition e s (.expireReceive i) (s.setReceiver i (.acquire true true))
  | expireShutdown {flag ec} (hpc : s.shutdown = .parked flag true ec) :
      Transition e s .expireShutdown { s with shutdown := .await flag true true ec }
  | sender {i u} (h : SenderTrans e s i u) : Transition e s (.sender i) u
  | receiver {i u} (h : ReceiverTrans e s i u) : Transition e s (.receiver i) u
  | shutdown {u} (h : ShutdownTrans s u) : Transition e s .shutdown u
  | writer {io u} (h : WriterTrans e s io u) : Transition e s (.writer io) u
  | reader {io u} (h : ReaderTrans e s io u) : Transition e s (.reader io) u
  | deliver {u} (h : DeliverTrans s u) : Transition e s .deliver u

theorem step_inv {a : Act} (h : step e s a = some t) : Transition e s a t := by
  cases a with
  | callSend i p timed =>
      simp only [step] at h
      split at h
      · rename_i hpc
        cases h
        exact .callSend hpc
      · cases h
  | callReceive i timed =>
      simp only [step] at h
      split at h
      · rename_i hpc
        cases h
        exact .callReceive hpc
      · cases h
  | callShutdown timed =>
      simp only [step] at h
      split at h
      · rename_i hstarted
        cases h
        exact .callShutdownAgain hstarted
      · rename_i hstarted
        cases h
        exact .callShutdown (by simpa using hstarted)
  | expireSend i =>
      simp only [step] at h
      split at h
      · rename_i p hpc
        cases h
        exact .expireSend hpc
      · cases h
  | expireReceive i =>
      simp only [step] at h
      split at h
      · rename_i hpc
        cases h
        exact .expireReceive hpc
      · cases h
  | expireShutdown =>
      simp only [step] at h
      split at h
      · rename_i flag ec hpc
        cases h
        exact .expireShutdown hpc
      · cases h
  | sender i => exact .sender (senderStep_inv h)
  | receiver i => exact .receiver (receiverStep_inv h)
  | shutdown => exact .shutdown (shutdownStep_inv h)
  | writer io => exact .writer (writerStep_inv h)
  | reader io => exact .reader (readerStep_inv h)
  | deliver => exact .deliver (deliverStep_inv h)

/-- The other threads can only wake `write_loop`. -/
theorem writer_of_step {a : Act} (h : step e s a = some t) (hne : ∀ io, a ≠ .writer io) :
    t.writer = s.writer ∨ t.writer = s.writer.wake := by
  cases step_inv h with
  | sender h =>
      cases h with
      | push _ _ _ _ => exact Or.inr rfl
      | _ => exact Or.inl rfl
  | receiver h => cases h <;> exact Or.inl rfl
  | shutdown h =>
      cases h with
      | notifySend _ => exact Or.inr rfl
      | _ => exact Or.inl rfl
  | @writer io _ _ => exact absurd rfl (hne io)
  | reader h =>
      cases h with
      | pingPush _ _ _ _ => exact Or.inr rfl
      | @leave held _ => cases held <;> exact Or.inl rfl
      | _ => exact Or.inl rfl
  | deliver h => cases h <;> exact Or.inl rfl
  | _ => exact Or.inl rfl

end TcpDuplex.Conn
