import TcpDuplex.Lib.Runs
import TcpDuplex.Lib.Store
import TcpDuplex.Transfer.Options

/-!
# One attempt to receive (`receive_once`, `HashingWriter`, `verify_and_ack_done`)

The attempt is a machine that stops at every call it makes: to the connection, to the sink and to the
source of the prefix hash. The counter says which call comes next and holds the local variables that
are live there; the event is what the call returned. Between two calls the code only computes, so the
computation is part of the step.

The SHA-256 context is the byte string it was fed, and `sha256` its digest: updating in pieces is
hashing the concatenation. Offsets are added exactly, also where the sum has no place in `std::int64_t`;
`Int64` has the step in which they are not.
-/

namespace TcpDuplex.Transfer

/-- What one attempt to receive is given. -/
structure RecvEnv where
  opts : NormalOptions
  /-- The sink also implements `ReaderAt`. -/
  readable : Bool
  resumeOffset : ℤ
  expectMeta : Bool
  want : Meta
  sha256 : Bytes → Hash
  /-- The texts of the error categories outside the library. -/
  ext : ErrorCode → String

/-- `HashingWriter`: the offset it expects next and what it has hashed. -/
structure HashingWriter where
  offset : ℤ
  ctx : Bytes

/-- The bytes of a reason text. -/
def reasonBytes (s : String) : Bytes := s.toUTF8.toList

/-- The next call of `receive_once`. -/
inductive RecvPc where
  /-- `receive`, for the Offer. -/
  | offer
  /-- `send` of a Reject, then `return err`; `out` is what `out_meta` holds then. -/
  | reject (m : Meta) (reason : Bytes) (err : ErrorCode) (out : Meta)
  /-- `send` of the Accept. -/
  | accept (m : Meta)
  /-- `read_at` of `hash_reader`, when nothing is left to receive. -/
  | hashAll (m : Meta) (off : ℤ) (ctx : Bytes)
  /-- `receive`, for the Done, when nothing is left to receive. -/
  | doneAll (m : Meta) (sum : Hash)
  /-- `read_at` of the constructor of `HashingWriter`. -/
  | hashPrefix (m : Meta) (off : ℤ) (ctx : Bytes)
  /-- `send` of an Abort, then `return err`. -/
  | abort (m : Meta) (written : ℤ) (err : ErrorCode)
  /-- `receive` in the loop. -/
  | chunk (m : Meta) (hw : HashingWriter) (written : ℤ) (since : ℕ)
  /-- `write_at(off, data)` of the sink. -/
  | write (m : Meta) (hw : HashingWriter) (written : ℤ) (since : ℕ) (off : ℤ) (data : Bytes)
  /-- `send` of an Ack. -/
  | ack (m : Meta) (hw : HashingWriter) (written : ℤ)
  /-- `receive`, for the Done behind the loop. -/
  | done (m : Meta) (hw : HashingWriter) (written : ℤ)
  /-- `send` of the Done reply; `theirs` is the hash in the peer's Done. -/
  | reply (m : Meta) (written : ℤ) (ok : Bool) (sum theirs : Hash)
  /-- Returned, with `out_meta` and `written_out`. -/
  | ret (err : ErrorCode) (out : Meta) (writtenOut : ℤ)

/-- One attempt to receive: its counter, the sink, and what has passed so far. -/
structure RecvState where
  pc : RecvPc
  store : Store
  /-- The frames received. -/
  received : List Bytes := []
  /-- The frames sent. -/
  sent : List Bytes := []
  /-- The writes that succeeded. -/
  writes : List (ℤ × Bytes) := []
  /-- The bytes given to `mbedtls_sha256_update`; an attempt uses one context only. -/
  hashed : Bytes := []
  /-- The calls of `on_progress`. -/
  progress : List (ℤ × ℤ) := []

/-- What a call returned. A read that does not fail delivers what the sink holds; a write that fails
leaves `junk` in the range it was asked to write. -/
inductive RecvEv where
  | received (r : Except ErrorCode Bytes)
  | sent (ec : ErrorCode)
  | read (ec : ErrorCode)
  | wrote (ec : ErrorCode) (junk : Store)

/-! ## The computations between the calls -/

/-- The loop condition of `hash_reader`. -/
def hashAllHead (e : RecvEnv) (m : Meta) (off : ℤ) (ctx : Bytes) : RecvPc :=
  if off < m.size then .hashAll m off ctx else .doneAll m (e.sha256 ctx)

/-- The condition of the receive loop. -/
def chunkHead (m : Meta) (hw : HashingWriter) (written : ℤ) (since : ℕ) : RecvPc :=
  if written < m.size then .chunk m hw written since else .done m hw written

/-- The loop condition of the constructor of `HashingWriter`. -/
def hashPrefixHead (e : RecvEnv) (m : Meta) (off : ℤ) (ctx : Bytes) : RecvPc :=
  if off < e.resumeOffset then .hashPrefix m off ctx
  else chunkHead m ⟨e.resumeOffset, ctx⟩ e.resumeOffset 0

/-- From the first message to the answer to the Offer. -/
def onOffer (e : RecvEnv) (msg : Bytes) : RecvPc :=
  match decodeFrame msg with
  | .error err => .ret err {} e.resumeOffset
  | .ok dec =>
    if dec.typ ≠ kTypeOffer then .ret Errc.badFrame.code {} e.resumeOffset
    else if e.expectMeta && dec.info.id != e.want.id then
      .reject dec.info (reasonBytes "unexpected transfer id") Errc.badFrame.code {}
    else if e.resumeOffset > dec.info.size then
      .reject dec.info (reasonBytes "resume past end") Errc.resumePastEnd.code dec.info
    else
      match e.opts.accept with
      | none => .accept dec.info
      | some f =>
        if (f dec.info).failed then
          .reject dec.info (reasonBytes ((f dec.info).message e.ext)) Errc.rejected.code dec.info
        else .accept dec.info

/-- Behind the Accept: hash everything, or build the `HashingWriter` and start the loop. -/
def afterAccept (e : RecvEnv) (m : Meta) : RecvPc :=
  if e.resumeOffset = m.size then
    if e.readable then hashAllHead e m 0 [] else .doneAll m (Block.zero 32)
  else if e.resumeOffset > 0 then
    if e.readable then hashPrefixHead e m 0 [] else .abort m e.resumeOffset Errc.other.code
  else chunkHead m ⟨e.resumeOffset, []⟩ e.resumeOffset 0

/-- The verdict of `verify_and_ack_done`. -/
def verify (m : Meta) (theirs sum : Hash) : Bool :=
  let expect := if isZeroHash m.hash then theirs else m.hash
  !(!isZeroHash expect && sum != expect) && !(!isZeroHash theirs && theirs != sum)

/-- `verify_and_ack_done`, up to its `send`. -/
def verifyAndAckDone (m : Meta) (written : ℤ) (theirs sum : Hash) : RecvPc :=
  .reply m written (verify m theirs sum) sum theirs

/-- A message where only Done is expected. -/
def onDone (m : Meta) (written : ℤ) (sum : Hash) (msg : Bytes) : RecvPc :=
  match decodeFrame msg with
  | .error err => .ret err m written
  | .ok dec =>
    if dec.typ ≠ kTypeDone ∨ dec.id ≠ m.id then .ret Errc.badFrame.code m written
    else verifyAndAckDone m written dec.hash sum

/-- A message in the loop, up to the call of the sink, with `add` for the sum. -/
def onChunkWith (add : ℤ → ℤ → ℤ) (e : RecvEnv) (m : Meta) (hw : HashingWriter) (written : ℤ)
    (since : ℕ) (msg : Bytes) : RecvPc :=
  match decodeFrame msg with
  | .error err => .ret err m written
  | .ok dec =>
    if dec.typ = kTypeChunk then
      if dec.id ≠ m.id ∨ dec.offset ≠ written ∨ add dec.offset dec.data.length > m.size then
        .ret Errc.badFrame.code m written
      else if dec.offset ≠ hw.offset then .abort m written Errc.badFrame.code
      else .write m hw written since dec.offset dec.data
    else if dec.typ = kTypeDone then
      if dec.id ≠ m.id ∨ written ≠ m.size then .ret Errc.sizeMismatch.code m written
      else verifyAndAckDone m written dec.hash (e.sha256 hw.ctx)
    else if dec.typ = kTypeAbort then .ret Errc.aborted.code m written
    else .ret Errc.badFrame.code m written

/-- A message in the loop. -/
def onChunk (e : RecvEnv) (m : Meta) (hw : HashingWriter) (written : ℤ) (since : ℕ) (msg : Bytes) :
    RecvPc := onChunkWith (· + ·) e m hw written since msg

/-- Behind a successful write: acknowledge, or go on. -/
def afterWrite (e : RecvEnv) (m : Meta) (hw : HashingWriter) (written : ℤ) (since : ℕ) : RecvPc :=
  if (since : ℤ) ≥ e.opts.ackEvery.toInt ∨ written = m.size then .ack m hw written
  else chunkHead m hw written since

/-! ## The step -/

/-- The frame that the next call sends. -/
def RecvPc.outgoing (e : RecvEnv) : RecvPc → Option Bytes
  | .reject m reason _ _ => some (encodeReject m.id reason)
  | .accept m => some (encodeAccept m.id e.resumeOffset)
  | .abort m _ err => some (encodeAbort m.id (reasonBytes (err.message e.ext)))
  | .ack m _ written => some (encodeAck m.id written)
  | .reply m _ ok sum _ => some (encodeDone m.id ok sum)
  | _ => none

/-- Where `receive` is the next call: `out_meta` and `written_out` if it fails. -/
def RecvPc.waiting (e : RecvEnv) : RecvPc → Option (Meta × ℤ)
  | .offer => some ({}, e.resumeOffset)
  | .doneAll m _ => some (m, e.resumeOffset)
  | .chunk m _ written _ => some (m, written)
  | .done m _ written => some (m, written)
  | _ => none

/-- What a message leads to. -/
def RecvPc.onMessage (e : RecvEnv) (msg : Bytes) : RecvPc → RecvPc
  | .offer => onOffer e msg
  | .doneAll m sum => onDone m e.resumeOffset sum msg
  | .chunk m hw written since => onChunk e m hw written since msg
  | .done m hw written => onDone m written (e.sha256 hw.ctx) msg
  | pc => pc

/-- Where the attempt goes on when a `send` succeeded. -/
def RecvPc.onSent (e : RecvEnv) : RecvPc → RecvPc
  | .reject _ _ err out => .ret err out e.resumeOffset
  | .accept m => afterAccept e m
  | .abort m written err => .ret err m written
  | .ack m hw written => chunkHead m hw written 0
  | .reply m written ok _ _ => .ret (if ok then .success else Errc.hashMismatch.code) m written
  | pc => pc

/-- Where it goes on when a `send` failed: the result of a Reject or an Abort is ignored. -/
def RecvPc.onSendFailed (e : RecvEnv) (ec : ErrorCode) : RecvPc → RecvPc
  | .reject _ _ err out => .ret err out e.resumeOffset
  | .accept m => .ret (mapConnErr ec) m e.resumeOffset
  | .abort m written err => .ret err m written
  | .ack m _ written => .ret (mapConnErr ec) m written
  | .reply m written _ _ _ => .ret (mapConnErr ec) m written
  | pc => pc

/-- `if (opts.on_progress) opts.on_progress(transferred, total)`. -/
def RecvState.report (e : RecvEnv) (s : RecvState) (transferred total : ℤ) : RecvState :=
  if e.opts.onProgress then { s with progress := s.progress ++ [(transferred, total)] } else s

/-- The progress call behind a `send` that succeeded: only an Accept has one. -/
def RecvState.reportSent (e : RecvEnv) (s : RecvState) : RecvState :=
  match s.pc with
  | .accept m => s.report e e.resumeOffset m.size
  | _ => s

/-- `write_at` returned; `add` is used for the sums. -/
def RecvState.wroteWith (add : ℤ → ℤ → ℤ) (e : RecvEnv) (s : RecvState) (m : Meta) (hw : HashingWriter)
    (written : ℤ) (since : ℕ) (off : ℤ) (data : Bytes) (ec : ErrorCode) (junk : Store) : RecvState :=
  if ec.failed then
    { s with pc := .abort m written ec, store := s.store.damage off data.length junk }
  else
    let hw' : HashingWriter := ⟨add hw.offset data.length, hw.ctx ++ data⟩
    RecvState.report e
      { s with
        pc := afterWrite e m hw' (add off data.length) (since + 1)
        store := s.store.write off data
        writes := s.writes ++ [(off, data)]
        hashed := s.hashed ++ data }
      (add off data.length) m.size

/-- `write_at` returned. -/
def RecvState.wrote (e : RecvEnv) (s : RecvState) (m : Meta) (hw : HashingWriter) (written : ℤ)
    (since : ℕ) (off : ℤ) (data : Bytes) (ec : ErrorCode) (junk : Store) : RecvState :=
  s.wroteWith (· + ·) e m hw written since off data ec junk

/-- One step of `receive_once`. -/
def recvStep (e : RecvEnv) (s : RecvState) : RecvEv → Option RecvState
  | .received (.error ec) =>
    match s.pc.waiting e with
    | some (m, written) =>
      if ec.failed then some { s with pc := .ret (mapConnErr ec) m written } else none
    | none => none
  | .received (.ok msg) =>
    match s.pc.waiting e with
    | some _ =>
      some { s with pc := s.pc.onMessage e msg, received := s.received ++ [msg] }
    | none => none
  | .sent ec =>
    match s.pc.outgoing e with
    | some msg =>
      if ec.failed then some { s with pc := s.pc.onSendFailed e ec }
      else some { s.reportSent e with pc := s.pc.onSent e, sent := s.sent ++ [msg] }
    | none => none
  | .read ec =>
    match s.pc with
    | .hashAll m off ctx =>
      if ec.failed then some { s with pc := .ret ec m e.resumeOffset }
      else
        let block := s.store.read off (blockLength off m.size)
        some { s with
          pc := hashAllHead e m (off + block.length) (ctx ++ block)
          hashed := s.hashed ++ block }
    | .hashPrefix m off ctx =>
      if ec.failed then some { s with pc := .abort m e.resumeOffset ec }
      else
        let block := s.store.read off (blockLength off e.resumeOffset)
        some { s with
          pc := hashPrefixHead e m (off + block.length) (ctx ++ block)
          hashed := s.hashed ++ block }
    | _ => none
  | .wrote ec junk =>
    match s.pc with
    | .write m hw written since off data => some (s.wrote e m hw written since off data ec junk)
    | _ => none

/-- The state in which the attempt starts on a sink that holds `store`. -/
def RecvState.start (store : Store) : RecvState := { pc := .offer, store := store }

/-! ## What a message leads to -/

/-- Where the first message leads: to an error, to a Reject, or to an Accept of an offer that passes all
tests. -/
inductive OfferOutcome (e : RecvEnv) (msg : Bytes) : RecvPc → Prop where
  | failed (err : ErrorCode) (herr : err.failed = true) :
      OfferOutcome e msg (.ret err {} e.resumeOffset)
  | refused (m : Meta) (reason : Bytes) (err : ErrorCode) (out : Meta) (herr : err.failed = true)
      (hfinal : isRetriable err = false) : OfferOutcome e msg (.reject m reason err out)
  | taken (dec : Decoded) (hdec : decodeFrame msg = .ok dec) (htyp : dec.typ = kTypeOffer)
      (hid : e.expectMeta = true → dec.info.id = e.want.id) (hle : e.resumeOffset ≤ dec.info.size)
      (haccept : ∀ f, e.opts.accept = some f → (f dec.info).failed = false) :
      OfferOutcome e msg (.accept dec.info)

theorem onOffer_outcome (e : RecvEnv) (msg : Bytes) : OfferOutcome e msg (onOffer e msg) := by
  unfold onOffer
  split
  · rename_i err herr
    exact .failed err (failed_of_decodeFrame herr)
  · rename_i dec hdec
    split_ifs with htyp hid hpast
    · exact .failed _ rfl
    · exact .refused _ _ _ _ rfl rfl
    · exact .refused _ _ _ _ rfl rfl
    · have hid' : e.expectMeta = true → dec.info.id = e.want.id := by
        intro hexpect
        simpa [hexpect] using hid
      split
      · rename_i hnone
        refine .taken dec hdec (not_not.mp htyp) hid' (not_lt.mp hpast) fun f hf => ?_
        rw [hnone] at hf
        cases hf
      · rename_i f hf
        split_ifs with hveto
        · exact .refused _ _ _ _ rfl rfl
        · refine .taken dec hdec (not_not.mp htyp) hid' (not_lt.mp hpast) fun g hg => ?_
          obtain rfl : f = g := Option.some.inj (hf.symm.trans hg)
          exact Bool.eq_false_iff.mpr hveto

/-- An offer that passes the tests is accepted. -/
theorem onOffer_eq_accept {e : RecvEnv} {msg : Bytes} {dec : Decoded} (hdec : decodeFrame msg = .ok dec)
    (htyp : dec.typ = kTypeOffer) (hid : e.expectMeta = true → dec.info.id = e.want.id)
    (hle : e.resumeOffset ≤ dec.info.size)
    (haccept : ∀ f, e.opts.accept = some f → (f dec.info).failed = false) :
    onOffer e msg = .accept dec.info := by
  have hid' : ¬(e.expectMeta && dec.info.id != e.want.id) = true := by
    simpa using hid
  simp only [onOffer, hdec]
  rw [if_neg (not_not.mpr htyp), if_neg hid', if_neg (not_lt.mpr hle)]
  split
  · rfl
  · rename_i f hf
    rw [haccept f hf, if_neg Bool.false_ne_true]

/-- Where the attempt goes on behind an Accept, a block or a chunk, with everything below `written` in the
sink: to the next call of one of its loops, or out of it. -/
inductive Onward (e : RecvEnv) (m : Meta) : ℤ → RecvPc → Prop where
  | hashAll (off : ℤ) (ctx : Bytes) : Onward e m e.resumeOffset (.hashAll m off ctx)
  | doneAll (sum : Hash) : Onward e m e.resumeOffset (.doneAll m sum)
  | hashPrefix (off : ℤ) (ctx : Bytes) : Onward e m e.resumeOffset (.hashPrefix m off ctx)
  | unreadable : Onward e m e.resumeOffset (.abort m e.resumeOffset Errc.other.code)
  | chunk (hw : HashingWriter) (written : ℤ) (since : ℕ) : Onward e m written (.chunk m hw written since)
  | ack (hw : HashingWriter) (written : ℤ) : Onward e m written (.ack m hw written)
  | done (hw : HashingWriter) (written : ℤ) : Onward e m written (.done m hw written)

section Onward

variable (e : RecvEnv) (m : Meta)

theorem onward_chunkHead (hw : HashingWriter) (written : ℤ) (since : ℕ) :
    Onward e m written (chunkHead m hw written since) := by
  unfold chunkHead
  split
  · exact .chunk hw written since
  · exact .done hw written

theorem onward_hashAllHead (off : ℤ) (ctx : Bytes) :
    Onward e m e.resumeOffset (hashAllHead e m off ctx) := by
  unfold hashAllHead
  split
  · exact .hashAll off ctx
  · exact .doneAll _

theorem onward_hashPrefixHead (off : ℤ) (ctx : Bytes) :
    Onward e m e.resumeOffset (hashPrefixHead e m off ctx) := by
  unfold hashPrefixHead
  split
  · exact .hashPrefix off ctx
  · exact onward_chunkHead e m _ _ _

theorem onward_afterAccept : Onward e m e.resumeOffset (afterAccept e m) := by
  unfold afterAccept
  split_ifs
  · exact onward_hashAllHead e m 0 []
  · exact .doneAll _
  · exact onward_hashPrefixHead e m 0 []
  · exact .unreadable
  · exact onward_chunkHead e m _ _ _

theorem onward_afterWrite (hw : HashingWriter) (written : ℤ) (since : ℕ) :
    Onward e m written (afterWrite e m hw written since) := by
  unfold afterWrite
  split
  · exact .ack hw written
  · exact onward_chunkHead e m hw written since

end Onward

/-- With something left to receive, the prefix is hashed and the loop starts. -/
theorem afterAccept_of_lt {e : RecvEnv} {m : Meta} (hlt : e.resumeOffset < m.size)
    (hread : 0 < e.resumeOffset → e.readable = true) : afterAccept e m = hashPrefixHead e m 0 [] := by
  rw [afterAccept, if_neg hlt.ne]
  by_cases hpos : e.resumeOffset > 0
  · rw [if_pos hpos, if_pos (hread hpos)]
  · rw [if_neg hpos, hashPrefixHead, if_neg hpos]

/-- Where a message leads when only Done is expected: to an error, or to the reply. -/
inductive DoneOutcome (m : Meta) (written : ℤ) (sum : Hash) (msg : Bytes) : RecvPc → Prop where
  | failed (err : ErrorCode) (herr : err.failed = true) :
      DoneOutcome m written sum msg (.ret err m written)
  | replies (dec : Decoded) (hdec : decodeFrame msg = .ok dec) (htyp : dec.typ = kTypeDone)
      (hid : dec.id = m.id) : DoneOutcome m written sum msg (verifyAndAckDone m written dec.hash sum)

theorem onDone_outcome (m : Meta) (written : ℤ) (sum : Hash) (msg : Bytes) :
    DoneOutcome m written sum msg (onDone m written sum msg) := by
  unfold onDone
  split
  · rename_i err herr
    exact .failed err (failed_of_decodeFrame herr)
  · rename_i dec hdec
    split_ifs with hbad
    · exact .failed _ rfl
    · simp only [not_or, not_not] at hbad
      exact .replies dec hdec hbad.1 hbad.2

/-- Where a message leads in the loop: to an error, to the write of a chunk that is next and fits, or to
the reply. -/
inductive ChunkOutcome (e : RecvEnv) (m : Meta) (hw : HashingWriter) (written : ℤ) (since : ℕ)
    (msg : Bytes) : RecvPc → Prop where
  | failed (err : ErrorCode) (herr : err.failed = true) :
      ChunkOutcome e m hw written since msg (.ret err m written)
  | misplaced (hoff : written ≠ hw.offset) :
      ChunkOutcome e m hw written since msg (.abort m written Errc.badFrame.code)
  | writes (dec : Decoded) (hdec : decodeFrame msg = .ok dec) (htyp : dec.typ = kTypeChunk)
      (hid : dec.id = m.id) (hoff : dec.offset = written)
      (hfit : dec.offset + dec.data.length ≤ m.size) :
      ChunkOutcome e m hw written since msg (.write m hw written since dec.offset dec.data)
  | replies (dec : Decoded) (hdec : decodeFrame msg = .ok dec) (htyp : dec.typ = kTypeDone)
      (hid : dec.id = m.id) (hsize : written = m.size) :
      ChunkOutcome e m hw written since msg
        (verifyAndAckDone m written dec.hash (e.sha256 hw.ctx))

theorem onChunk_outcome (e : RecvEnv) (m : Meta) (hw : HashingWriter) (written : ℤ) (since : ℕ)
    (msg : Bytes) :
    ChunkOutcome e m hw written since msg (onChunk e m hw written since msg) := by
  simp only [onChunk, onChunkWith]
  split
  · rename_i err herr
    exact .failed err (failed_of_decodeFrame herr)
  · rename_i dec hdec
    split_ifs with hchunk hbad hnext hdone hsize
    · exact .failed _ rfl
    · simp only [not_or, not_not] at hbad
      exact .misplaced (hbad.2.1 ▸ hnext)
    · simp only [not_or, not_not, not_lt] at hbad
      exact .writes dec hdec hchunk hbad.1 hbad.2.1 hbad.2.2
    · exact .failed _ rfl
    · simp only [not_or, not_not] at hsize
      exact .replies dec hdec hdone hsize.1 hsize.2
    · exact .failed _ rfl
    · exact .failed _ rfl

/-! ## What a step can be -/

/-- The steps of `receive_once`, one constructor for each way a call can end. -/
inductive RecvTrans (e : RecvEnv) (s : RecvState) : RecvEv → RecvState → Prop where
  | lost (m : Meta) (written : ℤ) (ec : ErrorCode) (hpc : s.pc.waiting e = some (m, written))
      (hec : ec.failed = true) :
      RecvTrans e s (.received (.error ec)) { s with pc := .ret (mapConnErr ec) m written }
  | message (msg : Bytes) (hpc : (s.pc.waiting e).isSome = true) :
      RecvTrans e s (.received (.ok msg))
        { s with pc := s.pc.onMessage e msg, received := s.received ++ [msg] }
  | sendFailed (msg : Bytes) (ec : ErrorCode) (hpc : s.pc.outgoing e = some msg)
      (hec : ec.failed = true) :
      RecvTrans e s (.sent ec) { s with pc := s.pc.onSendFailed e ec }
  | sent (msg : Bytes) (ec : ErrorCode) (hpc : s.pc.outgoing e = some msg)
      (hec : ec.failed = false) :
      RecvTrans e s (.sent ec)
        { s.reportSent e with pc := s.pc.onSent e, sent := s.sent ++ [msg] }
  | hashAllFailed (m : Meta) (off : ℤ) (ctx : Bytes) (ec : ErrorCode)
      (hpc : s.pc = .hashAll m off ctx) (hec : ec.failed = true) :
      RecvTrans e s (.read ec) { s with pc := .ret ec m e.resumeOffset }
  | hashAll (m : Meta) (off : ℤ) (ctx block : Bytes) (ec : ErrorCode)
      (hpc : s.pc = .hashAll m off ctx) (hec : ec.failed = false)
      (hblock : block = s.store.read off (blockLength off m.size)) :
      RecvTrans e s (.read ec)
        { s with
          pc := hashAllHead e m (off + block.length) (ctx ++ block)
          hashed := s.hashed ++ block }
  | hashPrefixFailed (m : Meta) (off : ℤ) (ctx : Bytes) (ec : ErrorCode)
      (hpc : s.pc = .hashPrefix m off ctx) (hec : ec.failed = true) :
      RecvTrans e s (.read ec) { s with pc := .abort m e.resumeOffset ec }
  | hashPrefix (m : Meta) (off : ℤ) (ctx block : Bytes) (ec : ErrorCode)
      (hpc : s.pc = .hashPrefix m off ctx) (hec : ec.failed = false)
      (hblock : block = s.store.read off (blockLength off e.resumeOffset)) :
      RecvTrans e s (.read ec)
        { s with
          pc := hashPrefixHead e m (off + block.length) (ctx ++ block)
          hashed := s.hashed ++ block }
  | writeFailed (m : Meta) (hw : HashingWriter) (written : ℤ) (since : ℕ) (off : ℤ) (data : Bytes)
      (ec : ErrorCode) (junk : Store) (hpc : s.pc = .write m hw written since off data)
      (hec : ec.failed = true) :
      RecvTrans e s (.wrote ec junk)
        { s with pc := .abort m written ec, store := s.store.damage off data.length junk }
  | wrote (m : Meta) (hw : HashingWriter) (written : ℤ) (since : ℕ) (off : ℤ) (data : Bytes)
      (ec : ErrorCode) (junk : Store) (hpc : s.pc = .write m hw written since off data)
      (hec : ec.failed = false) :
      RecvTrans e s (.wrote ec junk)
        (RecvState.report e
          { s with
            pc := afterWrite e m ⟨hw.offset + data.length, hw.ctx ++ data⟩ (off + data.length)
              (since + 1)
            store := s.store.write off data
            writes := s.writes ++ [(off, data)]
            hashed := s.hashed ++ data }
          (off + data.length) m.size)

theorem recvTrans_of_step {e : RecvEnv} {s t : RecvState} {ev : RecvEv}
    (h : recvStep e s ev = some t) : RecvTrans e s ev t := by
  cases ev with
  | received r =>
    cases r with
    | error ec =>
      simp only [recvStep] at h
      split at h
      · rename_i m written hpc
        split at h
        · rename_i hec
          cases h
          exact .lost m written ec hpc hec
        · cases h
      · cases h
    | ok msg =>
      simp only [recvStep] at h
      split at h
      · rename_i x hpc
        cases h
        exact .message msg (by rw [hpc]; rfl)
      · cases h
  | sent ec =>
    simp only [recvStep] at h
    split at h
    · rename_i msg hpc
      split at h
      · rename_i hec
        cases h
        exact .sendFailed msg ec hpc hec
      · rename_i hec
        cases h
        exact .sent msg ec hpc (by simpa using hec)
    · cases h
  | read ec =>
    simp only [recvStep] at h
    split at h
    · rename_i m off ctx hpc
      split at h
      · rename_i hec
        cases h
        exact .hashAllFailed m off ctx ec hpc hec
      · rename_i hec
        cases h
        exact .hashAll m off ctx _ ec hpc (by simpa using hec) rfl
    · rename_i m off ctx hpc
      split at h
      · rename_i hec
        cases h
        exact .hashPrefixFailed m off ctx ec hpc hec
      · rename_i hec
        cases h
        exact .hashPrefix m off ctx _ ec hpc (by simpa using hec) rfl
    · cases h
  | wrote ec junk =>
    simp only [recvStep] at h
    split at h
    · rename_i m hw written since off data hpc
      cases h
      simp only [RecvState.wrote, RecvState.wroteWith]
      split
      · rename_i hec
        exact .writeFailed m hw written since off data ec junk hpc hec
      · rename_i hec
        exact .wrote m hw written since off data ec junk hpc (by simpa using hec)
    · cases h

/-! A progress call changes nothing but the list of progress calls. -/

section Report

variable (e : RecvEnv) (s : RecvState) (i n : ℤ)

@[simp]
theorem RecvState.report_pc : (s.report e i n).pc = s.pc := by
  unfold report
  split <;> rfl

@[simp]
theorem RecvState.report_store : (s.report e i n).store = s.store := by
  unfold report
  split <;> rfl

@[simp]
theorem RecvState.report_received : (s.report e i n).received = s.received := by
  unfold report
  split <;> rfl

@[simp]
theorem RecvState.report_sent : (s.report e i n).sent = s.sent := by
  unfold report
  split <;> rfl

@[simp]
theorem RecvState.report_hashed : (s.report e i n).hashed = s.hashed := by
  unfold report
  split <;> rfl

@[simp]
theorem RecvState.report_writes : (s.report e i n).writes = s.writes := by
  unfold report
  split <;> rfl

@[simp]
theorem RecvState.reportSent_store : (s.reportSent e).store = s.store := by
  unfold reportSent
  split <;> simp

@[simp]
theorem RecvState.reportSent_received : (s.reportSent e).received = s.received := by
  unfold reportSent
  split <;> simp

@[simp]
theorem RecvState.reportSent_hashed : (s.reportSent e).hashed = s.hashed := by
  unfold reportSent
  split <;> simp

@[simp]
theorem RecvState.reportSent_writes : (s.reportSent e).writes = s.writes := by
  unfold reportSent
  split <;> simp

end Report

/-! Calls that succeed. -/

theorem recvStep_received {e : RecvEnv} {s : RecvState} (h : (s.pc.waiting e).isSome = true)
    (msg : Bytes) :
    recvStep e s (.received (.ok msg)) =
      some { s with pc := s.pc.onMessage e msg, received := s.received ++ [msg] } := by
  obtain ⟨x, hx⟩ := Option.isSome_iff_exists.mp h
  simp only [recvStep, hx]

theorem recvStep_sent {e : RecvEnv} {s : RecvState} {msg : Bytes}
    (h : s.pc.outgoing e = some msg) :
    recvStep e s (.sent .success) =
      some { s.reportSent e with pc := s.pc.onSent e, sent := s.sent ++ [msg] } := by
  simp only [recvStep, h]
  rfl

theorem recvStep_hashPrefix {e : RecvEnv} {s : RecvState} {m : Meta} {off : ℤ} {ctx : Bytes}
    (h : s.pc = .hashPrefix m off ctx) :
    recvStep e s (.read .success) =
      some { s with
        pc := hashPrefixHead e m (off + blockLength off e.resumeOffset)
          (ctx ++ s.store.read off (blockLength off e.resumeOffset))
        hashed := s.hashed ++ s.store.read off (blockLength off e.resumeOffset) } := by
  simp only [recvStep, h, Store.length_read]
  rfl

theorem recvStep_wrote {e : RecvEnv} {s : RecvState} {m : Meta} {hw : HashingWriter} {written : ℤ}
    {since : ℕ} {off : ℤ} {data : Bytes} (h : s.pc = .write m hw written since off data)
    (junk : Store) :
    recvStep e s (.wrote .success junk) =
      some (s.wrote e m hw written since off data .success junk) := by
  simp only [recvStep, h]

theorem RecvState.wrote_success_pc {e : RecvEnv} {s : RecvState} {m : Meta} {hw : HashingWriter}
    {written : ℤ} {since : ℕ} {off : ℤ} {data : Bytes} {junk : Store} :
    (s.wrote e m hw written since off data .success junk).pc =
      afterWrite e m ⟨hw.offset + data.length, hw.ctx ++ data⟩ (off + data.length) (since + 1) :=
  RecvState.report_pc _ _ _ _

end TcpDuplex.Transfer
