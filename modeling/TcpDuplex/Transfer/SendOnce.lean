import TcpDuplex.Lib.Runs
import TcpDuplex.Lib.Store
import TcpDuplex.Transfer.Options

/-!
# One attempt to send (`send_once`, `finish_send`)

The counterpart of `receive_once`, in the same form: the counter is the next call to the connection
or to the source, with the local variables that are live there. Offsets are added exactly, also where the
sum has no place in `std::int64_t`; `Int64` has the step in which they are not.
-/

namespace TcpDuplex.Transfer

/-- What one attempt to send is given. -/
structure SendEnv where
  opts : NormalOptions
  /-- `conn.max_message_bytes()`. -/
  maxMessageBytes : Int32
  info : Meta
  source : Store

/-- `const int chunk_size`. -/
def SendEnv.chunkSize (e : SendEnv) : Int32 := effectiveChunkSize e.maxMessageBytes e.opts.chunkSize

/-- The next call of `send_once`. -/
inductive SendPc where
  /-- `send` of the Offer. -/
  | offer (msg : Bytes)
  /-- `receive`, for the Accept. -/
  | accept
  /-- `read_at` of the next chunk. -/
  | read (acked nextOff : ℤ)
  /-- `send` of a chunk. -/
  | chunk (acked nextOff : ℤ) (data : Bytes)
  /-- `receive` in the loop. -/
  | ack (acked nextOff : ℤ)
  /-- `send` of the Done in `finish_send`. -/
  | done
  /-- `receive` in `finish_send`. -/
  | reply
  /-- Returned. -/
  | ret (err : ErrorCode)

/-- One attempt to send: its counter and what has passed so far. -/
structure SendState where
  pc : SendPc
  /-- The frames received. -/
  received : List Bytes := []
  /-- The frames sent. -/
  sent : List Bytes := []
  /-- The calls of `on_progress`. -/
  progress : List (ℤ × ℤ) := []

/-- What a call returned. A read that does not fail delivers what the source holds. -/
inductive SendEv where
  | received (r : Except ErrorCode Bytes)
  | sent (ec : ErrorCode)
  | read (ec : ErrorCode)

/-! ## The computations between the calls -/

/-- `if (next_off + n > meta.size) n = meta.size - next_off`: the length of the next chunk, with `add` for
the sum. -/
def SendEnv.chunkLengthWith (add : ℤ → ℤ → ℤ) (e : SendEnv) (nextOff : ℤ) : ℕ :=
  (if add nextOff e.chunkSize.toInt > e.info.size then e.info.size - nextOff
    else e.chunkSize.toInt).toNat

/-- The length of the next chunk. -/
def SendEnv.chunkLength (e : SendEnv) (nextOff : ℤ) : ℕ := e.chunkLengthWith (· + ·) nextOff

/-- The condition of the inner loop: is there room in the window, and something left to send? -/
def fillHead (e : SendEnv) (acked nextOff : ℤ) : SendPc :=
  if countInFlight acked nextOff e.chunkSize < e.opts.window ∧ nextOff < e.info.size then
    .read acked nextOff
  else .ack acked nextOff

/-- The condition of the outer loop. -/
def windowHead (e : SendEnv) (acked nextOff : ℤ) : SendPc :=
  if acked < e.info.size then fillHead e acked nextOff else .done

/-- What a message leads to: the next call, and the offset given to `on_progress` on the way. -/
structure SendNext where
  pc : SendPc
  reported : Option ℤ := none

/-- The answer to the Offer. -/
def onAccept (e : SendEnv) (msg : Bytes) : SendNext :=
  match decodeFrame msg with
  | .error err => { pc := .ret err }
  | .ok dec =>
    if dec.typ = kTypeReject then
      if dec.id ≠ e.info.id then { pc := .ret Errc.badFrame.code }
      else { pc := .ret Errc.rejected.code }
    else if dec.typ ≠ kTypeAccept ∨ dec.id ≠ e.info.id then { pc := .ret Errc.badFrame.code }
    else if dec.offset < 0 ∨ dec.offset > e.info.size then
      { pc := .ret Errc.resumePastEnd.code }
    else if dec.offset = e.info.size then { pc := .done, reported := some dec.offset }
    else { pc := windowHead e dec.offset dec.offset, reported := some dec.offset }

/-- A message in the loop. -/
def onAck (e : SendEnv) (acked nextOff : ℤ) (msg : Bytes) : SendNext :=
  match decodeFrame msg with
  | .error err => { pc := .ret err }
  | .ok dec =>
    if dec.typ = kTypeAck then
      if dec.id ≠ e.info.id ∨ dec.offset < acked ∨ dec.offset > nextOff then
        { pc := .ret Errc.badFrame.code }
      else { pc := windowHead e dec.offset nextOff, reported := some dec.offset }
    else if dec.typ = kTypeAbort then { pc := .ret Errc.aborted.code }
    else { pc := .ret Errc.badFrame.code }

/-- The answer to the Done. -/
def onReply (e : SendEnv) (msg : Bytes) : SendNext :=
  match decodeFrame msg with
  | .error err => { pc := .ret err }
  | .ok dec =>
    if dec.typ ≠ kTypeDone ∨ dec.id ≠ e.info.id then { pc := .ret Errc.badFrame.code }
    else if !dec.ok then { pc := .ret Errc.hashMismatch.code }
    else { pc := .ret .success }

/-! ## The step -/

/-- The frame that the next call sends. -/
def SendPc.outgoing (e : SendEnv) : SendPc → Option Bytes
  | .offer msg => some msg
  | .chunk _ nextOff data => some (encodeChunk e.info.id nextOff data)
  | .done => some (encodeDone e.info.id true e.info.hash)
  | _ => none

/-- Is `receive` the next call? -/
def SendPc.waiting : SendPc → Bool
  | .accept | .ack _ _ | .reply => true
  | _ => false

/-- What a message leads to. -/
def SendPc.onMessage (e : SendEnv) (msg : Bytes) : SendPc → SendNext
  | .accept => onAccept e msg
  | .ack acked nextOff => onAck e acked nextOff msg
  | .reply => onReply e msg
  | pc => { pc := pc }

/-- Where the attempt goes on when a `send` succeeded. -/
def SendPc.onSent (e : SendEnv) : SendPc → SendPc
  | .offer _ => .accept
  | .chunk acked nextOff data => fillHead e acked (nextOff + data.length)
  | .done => .reply
  | pc => pc

/-- `if (opts.on_progress) opts.on_progress(offset, meta.size)`, where the code gets there. -/
def SendEnv.report (e : SendEnv) (reported : Option ℤ) : List (ℤ × ℤ) :=
  match reported with
  | some offset => if e.opts.onProgress then [(offset, e.info.size)] else []
  | none => []

/-- One step of `send_once`. -/
def sendStep (e : SendEnv) (s : SendState) : SendEv → Option SendState
  | .received (.error ec) =>
    if s.pc.waiting ∧ ec.failed then some { s with pc := .ret (mapConnErr ec) } else none
  | .received (.ok msg) =>
    if s.pc.waiting then
      some { s with
        pc := (s.pc.onMessage e msg).pc
        received := s.received ++ [msg]
        progress := s.progress ++ e.report (s.pc.onMessage e msg).reported }
    else none
  | .sent ec =>
    match s.pc.outgoing e with
    | some msg =>
      if ec.failed then some { s with pc := .ret (mapConnErr ec) }
      else some { s with pc := s.pc.onSent e, sent := s.sent ++ [msg] }
    | none => none
  | .read ec =>
    match s.pc with
    | .read acked nextOff =>
      if ec.failed then some { s with pc := .ret ec }
      else
        some { s with
          pc := .chunk acked nextOff (e.source.read nextOff (e.chunkLength nextOff)) }
    | _ => none

/-- The state in which the attempt starts. -/
def SendState.start (e : SendEnv) : SendState where
  pc :=
    match encodeOffer e.info with
    | .error err => .ret err
    | .ok msg => .offer msg

/-! ## What a message leads to -/

/-- Where the answer to the Offer leads: to an error, or to the offset of an Accept. -/
inductive AcceptOutcome (e : SendEnv) (msg : Bytes) : SendNext → Prop where
  | failed (err : ErrorCode) (herr : err.failed = true) : AcceptOutcome e msg { pc := .ret err }
  | resumes (dec : Decoded) (hdec : decodeFrame msg = .ok dec) (htyp : dec.typ = kTypeAccept)
      (hid : dec.id = e.info.id) (hlo : 0 ≤ dec.offset) (hhi : dec.offset ≤ e.info.size) :
      AcceptOutcome e msg { pc := windowHead e dec.offset dec.offset, reported := some dec.offset }

theorem onAccept_outcome (e : SendEnv) (msg : Bytes) : AcceptOutcome e msg (onAccept e msg) := by
  unfold onAccept
  split
  · rename_i err herr
    exact .failed err (failed_of_decodeFrame herr)
  · rename_i dec hdec
    split_ifs with hreject hid hbad hrange hall
    · exact .failed _ rfl
    · exact .failed _ rfl
    · exact .failed _ rfl
    · exact .failed _ rfl
    · simp only [not_or, not_not, not_lt] at hbad hrange
      have hdone : SendPc.done = windowHead e dec.offset dec.offset := by
        rw [windowHead, if_neg (not_lt.mpr hall.ge)]
      rw [hdone]
      exact .resumes dec hdec hbad.1 hbad.2 hrange.1 hrange.2
    · simp only [not_or, not_not, not_lt] at hbad hrange
      exact .resumes dec hdec hbad.1 hbad.2 hrange.1 hrange.2

/-- An Accept with an offset inside the content starts the loop there. -/
theorem onAccept_encodeAccept_pc {e : SendEnv} {off : ℤ} (hlo : 0 ≤ off) (hhi : off ≤ e.info.size)
    (hsize : e.info.size < 2 ^ 63) :
    (onAccept e (encodeAccept e.info.id off)).pc = windowHead e off off := by
  have htyp : kTypeAccept ≠ kTypeReject := by decide
  have hrange : ¬(off < 0 ∨ off > e.info.size) := by omega
  simp only [onAccept, decodeFrame_encodeAccept e.info.id (v := off) (by omega) (by omega), htyp,
    ne_eq, not_true_eq_false, or_self, if_false, if_neg hrange]
  split_ifs with hall
  · rw [windowHead, if_neg (not_lt.mpr hall.ge)]
  · rfl

/-- Where a message in the loop leads: to an error, or to the offset of an Ack inside the window. -/
inductive AckOutcome (e : SendEnv) (acked nextOff : ℤ) (msg : Bytes) : SendNext → Prop where
  | failed (err : ErrorCode) (herr : err.failed = true) :
      AckOutcome e acked nextOff msg { pc := .ret err }
  | moves (dec : Decoded) (hdec : decodeFrame msg = .ok dec) (htyp : dec.typ = kTypeAck)
      (hid : dec.id = e.info.id) (hlo : acked ≤ dec.offset) (hhi : dec.offset ≤ nextOff) :
      AckOutcome e acked nextOff msg
        { pc := windowHead e dec.offset nextOff, reported := some dec.offset }

theorem onAck_outcome (e : SendEnv) (acked nextOff : ℤ) (msg : Bytes) :
    AckOutcome e acked nextOff msg (onAck e acked nextOff msg) := by
  unfold onAck
  split
  · rename_i err herr
    exact .failed err (failed_of_decodeFrame herr)
  · rename_i dec hdec
    split_ifs with hack hbad habort
    · exact .failed _ rfl
    · simp only [not_or, not_not, not_lt] at hbad
      exact .moves dec hdec hack hbad.1 hbad.2.1 hbad.2.2
    · exact .failed _ rfl
    · exact .failed _ rfl

/-- Where the answer to the Done leads: to an error, or to success on a Done with `ok`. -/
inductive ReplyOutcome (e : SendEnv) (msg : Bytes) : SendNext → Prop where
  | failed (err : ErrorCode) (herr : err.failed = true) : ReplyOutcome e msg { pc := .ret err }
  | confirmed (dec : Decoded) (hdec : decodeFrame msg = .ok dec) (htyp : dec.typ = kTypeDone)
      (hid : dec.id = e.info.id) (hok : dec.ok = true) :
      ReplyOutcome e msg { pc := .ret .success }

theorem onReply_outcome (e : SendEnv) (msg : Bytes) : ReplyOutcome e msg (onReply e msg) := by
  unfold onReply
  split
  · rename_i err herr
    exact .failed err (failed_of_decodeFrame herr)
  · rename_i dec hdec
    split_ifs with hbad hok
    · exact .failed _ rfl
    · exact .failed _ rfl
    · simp only [not_or, not_not] at hbad
      exact .confirmed dec hdec hbad.1 hbad.2 (by simpa using hok)

/-! ## What a step can be -/

/-- The steps of `send_once`, one constructor for each way a call can end. -/
inductive SendTrans (e : SendEnv) (s : SendState) : SendEv → SendState → Prop where
  | lost (ec : ErrorCode) (hpc : s.pc.waiting = true) (hec : ec.failed = true) :
      SendTrans e s (.received (.error ec)) { s with pc := .ret (mapConnErr ec) }
  | message (msg : Bytes) (hpc : s.pc.waiting = true) :
      SendTrans e s (.received (.ok msg))
        { s with
          pc := (s.pc.onMessage e msg).pc
          received := s.received ++ [msg]
          progress := s.progress ++ e.report (s.pc.onMessage e msg).reported }
  | sendFailed (msg : Bytes) (ec : ErrorCode) (hpc : s.pc.outgoing e = some msg)
      (hec : ec.failed = true) :
      SendTrans e s (.sent ec) { s with pc := .ret (mapConnErr ec) }
  | sent (msg : Bytes) (ec : ErrorCode) (hpc : s.pc.outgoing e = some msg)
      (hec : ec.failed = false) :
      SendTrans e s (.sent ec) { s with pc := s.pc.onSent e, sent := s.sent ++ [msg] }
  | readFailed (acked nextOff : ℤ) (ec : ErrorCode) (hpc : s.pc = .read acked nextOff)
      (hec : ec.failed = true) :
      SendTrans e s (.read ec) { s with pc := .ret ec }
  | read (acked nextOff : ℤ) (ec : ErrorCode) (hpc : s.pc = .read acked nextOff)
      (hec : ec.failed = false) :
      SendTrans e s (.read ec)
        { s with pc := .chunk acked nextOff (e.source.read nextOff (e.chunkLength nextOff)) }

theorem sendTrans_of_step {e : SendEnv} {s t : SendState} {ev : SendEv}
    (h : sendStep e s ev = some t) : SendTrans e s ev t := by
  cases ev with
  | received r =>
    cases r with
    | error ec =>
      simp only [sendStep] at h
      split at h
      · rename_i hpc
        cases h
        exact .lost ec hpc.1 hpc.2
      · cases h
    | ok msg =>
      simp only [sendStep] at h
      split at h
      · rename_i hpc
        cases h
        exact .message msg hpc
      · cases h
  | sent ec =>
    simp only [sendStep] at h
    split at h
    · rename_i msg hpc
      split at h
      · rename_i hec
        cases h
        exact .sendFailed msg ec hpc hec
      · rename_i hec
        cases h
        exact .sent msg ec hpc (by simpa using hec)
    · cases h
  | read ec =>
    simp only [sendStep] at h
    split at h
    · rename_i acked nextOff hpc
      split at h
      · rename_i hec
        cases h
        exact .readFailed acked nextOff ec hpc hec
      · rename_i hec
        cases h
        exact .read acked nextOff ec hpc (by simpa using hec)
    · cases h

/-! Calls that succeed. -/

theorem sendStep_sent {e : SendEnv} {s : SendState} {msg : Bytes}
    (h : s.pc.outgoing e = some msg) :
    sendStep e s (.sent .success) =
      some { s with pc := s.pc.onSent e, sent := s.sent ++ [msg] } := by
  simp only [sendStep, h]
  rfl

theorem sendStep_received {e : SendEnv} {s : SendState} (h : s.pc.waiting = true) (msg : Bytes) :
    sendStep e s (.received (.ok msg)) =
      some { s with
        pc := (s.pc.onMessage e msg).pc
        received := s.received ++ [msg]
        progress := s.progress ++ e.report (s.pc.onMessage e msg).reported } := by
  simp only [sendStep, h, if_true]

theorem sendStep_read {e : SendEnv} {s : SendState} {acked nextOff : ℤ}
    (h : s.pc = .read acked nextOff) :
    sendStep e s (.read .success) =
      some { s with
        pc := .chunk acked nextOff (e.source.read nextOff (e.chunkLength nextOff)) } := by
  simp only [sendStep, h]
  rfl

/-! ## Chunks -/

theorem SendEnv.chunkSize_pos (e : SendEnv) : 0 < e.chunkSize.toInt :=
  Int32.lt_iff_toInt_lt.mp (effectiveChunkSize_pos _ _)

/-- The last chunk reaches the end, every other one has the full length. -/
theorem SendEnv.chunkLength_eq (e : SendEnv) {off : ℤ} (h : off < e.info.size) :
    (e.chunkLength off : ℤ) = min e.chunkSize.toInt (e.info.size - off) := by
  have hpos := e.chunkSize_pos
  simp only [chunkLength, chunkLengthWith]
  split <;> omega

/-- The Chunk frame at offset `off`. -/
def SendEnv.chunkAt (e : SendEnv) (off : ℤ) : Bytes :=
  encodeChunk e.info.id off (e.source.read off (e.chunkLength off))

end TcpDuplex.Transfer
