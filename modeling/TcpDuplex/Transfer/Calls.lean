import TcpDuplex.Transfer.Int64

/-!
# `transfer::send` and `transfer::receive`

The two calls retry an attempt that failed over a new connection. Connections are numbered: `0` is the
one the caller passes, and `redial` returns the number of another one, or nothing when it fails. The
counter of attempts is an `int`, and wraps around behind the largest one.
-/

namespace TcpDuplex.Transfer

/-! ## `send` -/

/-- What a call of `send` is given. -/
structure SendCallEnv where
  opts : Option Options
  info : Meta
  source : Store
  /-- What `new_id()` returns. -/
  newId : ID
  /-- `max_message_bytes()` of each connection. -/
  maxMessageBytes : ℕ → Int32
  sha256 : Bytes → Hash

/-- Where a call of `send` is. -/
inductive SendCallPc where
  /-- `read_at` of `hash_reader`. -/
  | hash (off : ℤ) (ctx : Bytes)
  /-- In `send_once`, on this connection. -/
  | once (conn : ℕ) (s : SendState)
  /-- In `redial`. -/
  | redial
  /-- Returned. -/
  | ret (err : ErrorCode)

/-- A call of `send` and its local variables. -/
structure SendCall where
  pc : SendCallPc
  info : Meta
  attempts : Int32 := 0
  lastErr : ErrorCode := .success

/-- What happens next in a call of `send`. -/
inductive SendCallEv where
  | read (ec : ErrorCode)
  | once (ev : SendEv)
  /-- `send_once` has returned, and the loop looks at its result. -/
  | leave
  | redialed (conn : Option ℕ)

/-- What an attempt on the connection `conn` is given. -/
def SendCallEnv.attempt (e : SendCallEnv) (m : Meta) (conn : ℕ) : SendEnv where
  opts := normalize e.opts
  maxMessageBytes := e.maxMessageBytes conn
  info := m
  source := e.source

/-- The head of the loop: one more attempt, on the connection `conn`. -/
def SendCall.attempt (e : SendCallEnv) (c : SendCall) (conn : ℕ) : SendCall :=
  let c := { c with attempts := c.attempts + 1 }
  if c.attempts > (normalize e.opts).maxAttempts then
    { c with pc := .ret (if c.lastErr.failed then c.lastErr else Errc.tooManyRetries.code) }
  else { c with pc := .once conn (SendState.start (e.attempt c.info conn)) }

/-- The loop condition of `hash_reader`, and the first attempt behind it. -/
def SendCall.hashHead (e : SendCallEnv) (c : SendCall) (off : ℤ) (ctx : Bytes) : SendCall :=
  if off < c.info.size then { c with pc := .hash off ctx }
  else SendCall.attempt e { c with info := { c.info with hash := e.sha256 ctx } } 0

/-- The id that is offered. -/
def SendCallEnv.id (e : SendCallEnv) : ID :=
  if e.info.id = Block.zero kIdLen then e.newId else e.info.id

/-- The call up to its first read or its first attempt. -/
def SendCall.start (e : SendCallEnv) : SendCall :=
  let c : SendCall := { pc := .redial, info := { e.info with id := e.id } }
  if e.info.size < 0 then { c with pc := .ret Errc.sizeMismatch.code }
  else if isZeroHash e.info.hash then SendCall.hashHead e c 0 []
  else SendCall.attempt e c 0

/-- Behind `send_once`. -/
def SendCall.onResult (e : SendCallEnv) (c : SendCall) (err : ErrorCode) : SendCall :=
  if !err.failed then { c with pc := .ret .success }
  else
    let c := { c with lastErr := err }
    if !(normalize e.opts).redial || !isRetriable err then { c with pc := .ret err }
    else { c with pc := .redial }

/-- One step of a call of `send` in which `send_once` takes the steps `once`. -/
def sendCallStepWith (once : SendEnv → SendState → SendEv → Option SendState) (e : SendCallEnv)
    (c : SendCall) : SendCallEv → Option SendCall
  | .read ec =>
    match c.pc with
    | .hash off ctx =>
      if ec.failed then some { c with pc := .ret ec }
      else
        let block := e.source.read off (blockLength off c.info.size)
        some (c.hashHead e (off + block.length) (ctx ++ block))
    | _ => none
  | .once ev =>
    match c.pc with
    | .once conn s =>
      (once (e.attempt c.info conn) s ev).map fun s' => { c with pc := .once conn s' }
    | _ => none
  | .leave =>
    match c.pc with
    | .once _ s =>
      match s.pc with
      | .ret err => some (c.onResult e err)
      | _ => none
    | _ => none
  | .redialed conn =>
    match c.pc with
    | .redial =>
      match conn with
      | none => some { c with pc := .ret Errc.other.code }
      | some k => some (c.attempt e k)
    | _ => none

/-- One step of a call of `send`, with exact sums. -/
def sendCallStep (e : SendCallEnv) (c : SendCall) (ev : SendCallEv) : Option SendCall :=
  sendCallStepWith sendStep e c ev

/-- One step of a call of `send`, in `std::int64_t`. -/
def sendCallStep64 (e : SendCallEnv) (c : SendCall) (ev : SendCallEv) : Option SendCall :=
  sendCallStepWith sendStep64 e c ev

/-! ## `receive` -/

/-- What a call of `receive` is given. -/
structure RecvCallEnv where
  opts : Option Options
  /-- The sink also implements `ReaderAt`. -/
  readable : Bool
  resumeOffset : ℤ
  sha256 : Bytes → Hash
  /-- The texts of the error categories outside the library. -/
  ext : ErrorCode → String

/-- Where a call of `receive` is. -/
inductive RecvCallPc where
  /-- In `receive_once`, on this connection. -/
  | once (conn : ℕ) (s : RecvState)
  /-- In `redial`. -/
  | redial
  /-- Returned. -/
  | ret (err : ErrorCode)

/-- A call of `receive`, its local variables, and the sink between the attempts. -/
structure RecvCall where
  pc : RecvCallPc
  sink : Store
  /-- `written`, the offset at which the next attempt resumes. -/
  written : ℤ
  info : Meta := {}
  haveMeta : Bool := false
  attempts : Int32 := 0
  lastErr : ErrorCode := .success
  outMeta : Meta := {}

/-- What happens next in a call of `receive`. -/
inductive RecvCallEv where
  | once (ev : RecvEv)
  /-- `receive_once` has returned, and the loop looks at its result. -/
  | leave
  | redialed (conn : Option ℕ)

/-- What an attempt is given. -/
def RecvCallEnv.attempt (e : RecvCallEnv) (c : RecvCall) : RecvEnv where
  opts := normalize e.opts
  readable := e.readable
  resumeOffset := c.written
  expectMeta := c.haveMeta
  want := c.info
  sha256 := e.sha256
  ext := e.ext

/-- The head of the loop: one more attempt, on the connection `conn`. -/
def RecvCall.attempt (e : RecvCallEnv) (c : RecvCall) (conn : ℕ) : RecvCall :=
  let c := { c with attempts := c.attempts + 1 }
  if c.attempts > (normalize e.opts).maxAttempts then
    { c with
      pc := .ret (if c.lastErr.failed then c.lastErr else Errc.tooManyRetries.code)
      outMeta := c.info }
  else { c with pc := .once conn (RecvState.start c.sink) }

/-- The call up to its first attempt. -/
def RecvCall.start (e : RecvCallEnv) (sink : Store) : RecvCall :=
  let c : RecvCall := { pc := .redial, sink := sink, written := e.resumeOffset }
  if e.resumeOffset < 0 then { c with pc := .ret Errc.resumePastEnd.code } else c.attempt e 0

/-- What the loop keeps of an attempt that failed with `err` and set `got` and `n`. -/
def RecvCall.keep (c : RecvCall) (err : ErrorCode) (got : Meta) (n : ℤ) (sink : Store) : RecvCall :=
  { c with
    sink := sink
    lastErr := err
    info := if got.id ≠ Block.zero kIdLen then got else c.info
    haveMeta := if got.id ≠ Block.zero kIdLen then true else c.haveMeta
    written := if n > c.written then n else c.written }

/-- Behind `receive_once`, which returned `err` and set `got` and `n`. -/
def RecvCall.onResult (e : RecvCallEnv) (c : RecvCall) (err : ErrorCode) (got : Meta) (n : ℤ)
    (sink : Store) : RecvCall :=
  if !err.failed then { c with pc := .ret .success, sink := sink, outMeta := got }
  else
    let c := c.keep err got n sink
    if !(normalize e.opts).redial || !isRetriable err then
      { c with pc := .ret err, outMeta := c.info }
    else { c with pc := .redial }

/-- One step of a call of `receive` in which `receive_once` takes the steps `once`. -/
def recvCallStepWith (once : RecvEnv → RecvState → RecvEv → Option RecvState) (e : RecvCallEnv)
    (c : RecvCall) : RecvCallEv → Option RecvCall
  | .once ev =>
    match c.pc with
    | .once conn s =>
      (once (e.attempt c) s ev).map fun s' => { c with pc := .once conn s' }
    | _ => none
  | .leave =>
    match c.pc with
    | .once _ s =>
      match s.pc with
      | .ret err got n => some (c.onResult e err got n s.store)
      | _ => none
    | _ => none
  | .redialed conn =>
    match c.pc with
    | .redial =>
      match conn with
      | none => some { c with pc := .ret Errc.other.code, outMeta := c.info }
      | some k => some (c.attempt e k)
    | _ => none

/-- One step of a call of `receive`, with exact sums. -/
def recvCallStep (e : RecvCallEnv) (c : RecvCall) (ev : RecvCallEv) : Option RecvCall :=
  recvCallStepWith recvStep e c ev

/-- One step of a call of `receive`, in `std::int64_t`. -/
def recvCallStep64 (e : RecvCallEnv) (c : RecvCall) (ev : RecvCallEv) : Option RecvCall :=
  recvCallStepWith recvStep64 e c ev

/-! ## What a step can be -/

/-- The steps of a call of `send`. -/
inductive SendCallTrans (e : SendCallEnv) (c : SendCall) : SendCallEv → SendCall → Prop where
  | readFailed (off : ℤ) (ctx : Bytes) (ec : ErrorCode) (hpc : c.pc = .hash off ctx)
      (hec : ec.failed = true) : SendCallTrans e c (.read ec) { c with pc := .ret ec }
  | read (off : ℤ) (ctx block : Bytes) (ec : ErrorCode) (hpc : c.pc = .hash off ctx)
      (hblock : block = e.source.read off (blockLength off c.info.size)) :
      SendCallTrans e c (.read ec) (c.hashHead e (off + block.length) (ctx ++ block))
  | once (conn : ℕ) (s s' : SendState) (ev : SendEv) (hpc : c.pc = .once conn s)
      (hstep : sendStep (e.attempt c.info conn) s ev = some s') :
      SendCallTrans e c (.once ev) { c with pc := .once conn s' }
  | leave (conn : ℕ) (s : SendState) (err : ErrorCode) (hpc : c.pc = .once conn s)
      (hret : s.pc = .ret err) : SendCallTrans e c .leave (c.onResult e err)
  | noConn (hpc : c.pc = .redial) :
      SendCallTrans e c (.redialed none) { c with pc := .ret Errc.other.code }
  | redialed (conn : ℕ) (hpc : c.pc = .redial) :
      SendCallTrans e c (.redialed (some conn)) (c.attempt e conn)

theorem sendCallTrans_of_step {es : SendCallEnv} {c c' : SendCall} {ev : SendCallEv}
    (h : sendCallStep es c ev = some c') : SendCallTrans es c ev c' := by
  cases ev with
  | read ec =>
    simp only [sendCallStep, sendCallStepWith] at h
    split at h
    · rename_i off ctx hpc
      split at h
      · rename_i hec
        cases h
        exact .readFailed off ctx ec hpc hec
      · cases h
        exact .read off ctx _ ec hpc rfl
    · cases h
  | once ev =>
    simp only [sendCallStep, sendCallStepWith] at h
    split at h
    · rename_i conn s hpc
      obtain ⟨s', hstep, rfl⟩ := Option.map_eq_some_iff.mp h
      exact .once conn s s' ev hpc hstep
    · cases h
  | leave =>
    simp only [sendCallStep, sendCallStepWith] at h
    split at h
    · rename_i conn s hpc
      split at h
      · rename_i err hret
        cases h
        exact .leave conn s err hpc hret
      · cases h
    · cases h
  | redialed conn =>
    simp only [sendCallStep, sendCallStepWith] at h
    split at h
    · rename_i hpc
      cases conn with
      | none =>
        cases h
        exact .noConn hpc
      | some k =>
        cases h
        exact .redialed k hpc
    · cases h

/-- The steps of a call of `receive`. -/
inductive RecvCallTrans (e : RecvCallEnv) (c : RecvCall) : RecvCallEv → RecvCall → Prop where
  | once (conn : ℕ) (s s' : RecvState) (ev : RecvEv) (hpc : c.pc = .once conn s)
      (hstep : recvStep (e.attempt c) s ev = some s') :
      RecvCallTrans e c (.once ev) { c with pc := .once conn s' }
  | leave (conn : ℕ) (s : RecvState) (err : ErrorCode) (got : Meta) (n : ℤ)
      (hpc : c.pc = .once conn s) (hret : s.pc = .ret err got n) :
      RecvCallTrans e c .leave (c.onResult e err got n s.store)
  | noConn (hpc : c.pc = .redial) :
      RecvCallTrans e c (.redialed none) { c with pc := .ret Errc.other.code, outMeta := c.info }
  | redialed (conn : ℕ) (hpc : c.pc = .redial) :
      RecvCallTrans e c (.redialed (some conn)) (c.attempt e conn)

theorem recvCallTrans_of_step {er : RecvCallEnv} {c c' : RecvCall} {ev : RecvCallEv}
    (h : recvCallStep er c ev = some c') : RecvCallTrans er c ev c' := by
  cases ev with
  | once ev =>
    simp only [recvCallStep, recvCallStepWith] at h
    split at h
    · rename_i conn s hpc
      obtain ⟨s', hstep, rfl⟩ := Option.map_eq_some_iff.mp h
      exact .once conn s s' ev hpc hstep
    · cases h
  | leave =>
    simp only [recvCallStep, recvCallStepWith] at h
    split at h
    · rename_i conn s hpc
      split at h
      · rename_i err got n hret
        cases h
        exact .leave conn s err got n hpc hret
      · cases h
    · cases h
  | redialed conn =>
    simp only [recvCallStep, recvCallStepWith] at h
    split at h
    · rename_i hpc
      cases conn with
      | none =>
        cases h
        exact .noConn hpc
      | some k =>
        cases h
        exact .redialed k hpc
    · cases h

/-- Behind an attempt that failed, the larger of the two offsets is kept. -/
theorem RecvCall.onResult_failed (e : RecvCallEnv) (c : RecvCall) {err : ErrorCode}
    (hfail : err.failed = true) (got : Meta) (n : ℤ) (sink : Store) :
    (c.onResult e err got n sink).written = max c.written n ∧
      (c.onResult e err got n sink).sink = sink ∧
      ((c.onResult e err got n sink).pc = .ret err ∨ (c.onResult e err got n sink).pc = .redial) := by
  have hmax : (if n > c.written then n else c.written) = max c.written n := by
    split <;> omega
  simp only [RecvCall.onResult, hfail, Bool.not_true, Bool.false_eq_true, if_false]
  split
  · exact ⟨hmax, rfl, .inl rfl⟩
  · exact ⟨hmax, rfl, .inr rfl⟩

end TcpDuplex.Transfer
