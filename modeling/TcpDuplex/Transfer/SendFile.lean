import TcpDuplex.Lib.Search
import TcpDuplex.Transfer.ReceiveFile

/-!
# `transfer::send_file`

`send_file` opens the file, asks for its length and runs `send` on a `FileReaderAt`. The metadata has no
hash, so `send` reads the whole file once before it offers it, and then once more for the chunks.

The stream that has failed once fails for good: nobody clears its state, and `seekg` on it does nothing. But
an I/O error is retried like a lost connection, so such a call may still offer the file and, when the
receiver has all of it, finish. The content of the file does not change during the call.
-/

namespace TcpDuplex.Transfer

open Machine

/-- A slash or a backslash. -/
def isSeparator (c : UInt8) : Bool := c == 0x2f || c == 0x5c

/-- `path_base`. -/
def pathBase (path : Bytes) : Bytes :=
  match findLast isSeparator path with
  | none => path
  | some pos => path.drop (pos + 1)

/-- What a call of `send_file` is given. -/
structure SendFileEnv where
  path : Bytes
  /-- The content of the file at the path, if there is one: else it cannot be opened. -/
  content : Bytes
  /-- `tellg` can tell the length. -/
  length_lt : content.length < 2 ^ 63
  opts : Option Options
  /-- What `new_id()` returns. -/
  newId : ID
  /-- `max_message_bytes()` of each connection. -/
  maxMessageBytes : ℕ → Int32
  sha256 : Bytes → Hash

/-- What `send` is given. -/
def SendFileEnv.call (e : SendFileEnv) (size : ℤ) : SendCallEnv where
  opts := e.opts
  info := { name := pathBase e.path, size := size }
  source := Store.ofBytes e.content
  newId := e.newId
  maxMessageBytes := e.maxMessageBytes
  sha256 := e.sha256

/-- Where a call of `send_file` is. -/
inductive SendFilePc where
  /-- The constructor of the `fstream`. -/
  | opening
  /-- `seekg` to the end, `tellg`, and `seekg` to the beginning. -/
  | telling
  /-- In `send`. -/
  | sending (size : ℤ) (f : BufferedFile) (c : SendCall)
  /-- Returned. -/
  | ret (err : ErrorCode)

/-- A call of `send_file`. -/
structure SendFile where
  pc : SendFilePc
  /-- The frames sent, over all attempts. -/
  sent : List Bytes := []

/-- What happens next in a call of `send_file`. -/
inductive SendFileEv where
  | opened (ok : Bool)
  /-- `tellg` did not fail, and neither did the `seekg` behind it. -/
  | told (told rewound : Bool)
  /-- A step of `send` that does not call the `FileReaderAt`. -/
  | call (ev : SendCallEv)
  /-- `read_at`. -/
  | read (ok : Bool)
  /-- `send` has returned. -/
  | returned

/-- The call of `read_at` that is next: where, and how many bytes. -/
def SendCall.readCall (e : SendCallEnv) (c : SendCall) : Option (ℤ × ℕ) :=
  match c.pc with
  | .hash off _ => some (off, blockLength off c.info.size)
  | .once conn s =>
    match s.pc with
    | .read _ nextOff => some (nextOff, (e.attempt c.info conn).chunkLength nextOff)
    | _ => none
  | _ => none

/-- The event in which this call returns. -/
def SendCall.readEv (c : SendCall) (ec : ErrorCode) : SendCallEv :=
  match c.pc with
  | .hash _ _ => .read ec
  | _ => .once (.read ec)

/-- The source, with `data` in the place that is read next. -/
def SendCallEnv.shown (e : SendCallEnv) (off : ℤ) (data : Bytes) : SendCallEnv :=
  { e with source := e.source.write off data }

/-- The event is a call of the source. -/
def SendCallEv.onSource : SendCallEv → Bool
  | .read _ => true
  | .once (.read _) => true
  | _ => false

/-- The frames that are sent with this event. -/
def SendCallEv.frames (e : SendCallEnv) (c : SendCall) : SendCallEv → List Bytes
  | .once (.sent ec) =>
    match c.pc with
    | .once conn s => if ec.failed then [] else (s.pc.outgoing (e.attempt c.info conn)).toList
    | _ => []
  | _ => []

/-- One step of a call of `send_file`. -/
def sendFileStep (e : SendFileEnv) (s : SendFile) : SendFileEv → Option SendFile
  | .opened ok =>
    match s.pc with
    | .opening => some { s with pc := if ok then .telling else .ret Errc.other.code }
    | _ => none
  | .told told rewound =>
    match s.pc with
    | .telling =>
      let size : ℤ := if told then e.content.length else -1
      let f : BufferedFile := { disk := e.content, failed := !(told && rewound) }
      some { s with pc := .sending size f (SendCall.start (e.call size)) }
    | _ => none
  | .call ev =>
    match s.pc with
    | .sending size f c =>
      if ev.onSource then none
      else
        (sendCallStep (e.call size) c ev).map fun c' =>
          { pc := .sending size f c', sent := s.sent ++ ev.frames (e.call size) c }
    | _ => none
  | .read ok =>
    match s.pc with
    | .sending size f c =>
      match c.readCall (e.call size) with
      | some (off, n) =>
        let r := f.read off.toNat n .deferred ok
        (sendCallStep ((e.call size).shown off (r.2.getD [])) c
          (c.readEv (sinkError r.2.isNone))).map fun c' => { s with pc := .sending size r.1 c' }
      | none => none
    | _ => none
  | .returned =>
    match s.pc with
    | .sending _ _ c =>
      match c.pc with
      | .ret err => some { s with pc := .ret err }
      | _ => none
    | _ => none

/-- The state in which the call starts. -/
def SendFile.start : SendFile := { pc := .opening }

/-! ## The name -/

/-- The name is what stands behind the last separator, so it names no other directory. -/
theorem pathBase_spec (path : Bytes) :
    (∀ c ∈ pathBase path, isSeparator c = false) ∧
      (pathBase path = path ∨ ∃ dir c, path = dir ++ c :: pathBase path ∧ isSeparator c = true) := by
  unfold pathBase
  split
  · rename_i hnone
    exact ⟨not_of_findLast_none hnone, .inl rfl⟩
  · rename_i pos hpos
    obtain ⟨dir, c, base, rfl, hc, hbase, rfl⟩ := exists_of_findLast hpos
    have hdrop : (dir ++ c :: base).drop (dir.length + 1) = base := by
      rw [List.drop_append, List.drop_of_length_le (by omega)]
      simp
    rw [hdrop]
    exact ⟨hbase, .inr ⟨dir, c, rfl, hc⟩⟩

/-! ## What a step can be -/

/-- The steps of a call of `send_file`. -/
inductive SendFileTrans (e : SendFileEnv) (s : SendFile) : SendFileEv → SendFile → Prop where
  | opened (hpc : s.pc = .opening) : SendFileTrans e s (.opened true) { s with pc := .telling }
  | notOpened (hpc : s.pc = .opening) :
      SendFileTrans e s (.opened false) { s with pc := .ret Errc.other.code }
  | told (rewound : Bool) (hpc : s.pc = .telling) :
      SendFileTrans e s (.told true rewound) { s with
        pc := .sending e.content.length { disk := e.content, failed := !rewound }
          (SendCall.start (e.call e.content.length)) }
  | notTold (rewound : Bool) (hpc : s.pc = .telling) :
      SendFileTrans e s (.told false rewound) { s with
        pc := .sending (-1) { disk := e.content, failed := true } (SendCall.start (e.call (-1))) }
  | call (size : ℤ) (f : BufferedFile) (c c' : SendCall) (ev : SendCallEv)
      (hpc : s.pc = .sending size f c) (hev : ev.onSource = false)
      (hstep : sendCallStep (e.call size) c ev = some c') :
      SendFileTrans e s (.call ev)
        { pc := .sending size f c', sent := s.sent ++ ev.frames (e.call size) c }
  | read (size : ℤ) (f : BufferedFile) (c c' : SendCall) (off : ℤ) (n : ℕ) (ok : Bool)
      (hpc : s.pc = .sending size f c) (hcall : c.readCall (e.call size) = some (off, n))
      (hstep : sendCallStep ((e.call size).shown off ((f.read off.toNat n .deferred ok).2.getD [])) c
        (c.readEv (sinkError (f.read off.toNat n .deferred ok).2.isNone)) = some c') :
      SendFileTrans e s (.read ok)
        { s with pc := .sending size (f.read off.toNat n .deferred ok).1 c' }
  | returned (size : ℤ) (f : BufferedFile) (c : SendCall) (err : ErrorCode)
      (hpc : s.pc = .sending size f c) (hret : c.pc = .ret err) :
      SendFileTrans e s .returned { s with pc := .ret err }

variable {e : SendFileEnv} {s t : SendFile}

theorem sendFileTrans_of_step {ev : SendFileEv} (h : sendFileStep e s ev = some t) :
    SendFileTrans e s ev t := by
  cases ev with
  | opened ok =>
    simp only [sendFileStep] at h
    split at h
    · rename_i hpc
      cases h
      cases ok with
      | true => exact .opened hpc
      | false => exact .notOpened hpc
    · cases h
  | told told rewound =>
    simp only [sendFileStep] at h
    split at h
    · rename_i hpc
      cases h
      cases told with
      | true => exact .told rewound hpc
      | false => exact .notTold rewound hpc
    · cases h
  | call ev =>
    simp only [sendFileStep] at h
    split at h
    · rename_i size f c hpc
      split at h
      · cases h
      · rename_i hev
        obtain ⟨c', hstep, rfl⟩ := Option.map_eq_some_iff.mp h
        exact .call size f c c' ev hpc (Bool.eq_false_iff.mpr hev) hstep
    · cases h
  | read ok =>
    simp only [sendFileStep] at h
    split at h
    · rename_i size f c hpc
      split at h
      · rename_i off n hcall
        obtain ⟨c', hstep, rfl⟩ := Option.map_eq_some_iff.mp h
        exact .read size f c c' off n ok hpc hcall hstep
      · cases h
    · cases h
  | returned =>
    simp only [sendFileStep] at h
    split at h
    · rename_i size f c hpc
      split at h
      · rename_i err hret
        cases h
        exact .returned size f c err hpc hret
      · cases h
    · cases h

/-! ## What is sent -/

/-- The metadata of the file. -/
def SendFileEnv.offered (e : SendFileEnv) : Meta where
  id := e.newId
  name := pathBase e.path
  size := e.content.length
  hash := e.sha256 e.content

/-- What every attempt offers. -/
theorem filled_call (e : SendFileEnv) : (e.call e.content.length).filled = e.offered := by
  have hzero : isZeroHash (e.call e.content.length).info.hash = true := rfl
  have hread : (e.call e.content.length).source.read 0 (e.call e.content.length).info.size.toNat =
      e.content := by
    show (Store.ofBytes e.content).read 0 (e.content.length : ℤ).toNat = e.content
    rw [Int.toNat_natCast, Store.read_ofBytes, Bytes.resize_self]
  simp only [SendCallEnv.filled, hzero, if_true, hread]
  rfl

/-- A frame that tells nothing but the file: its offer, a piece of it, or its Done. -/
def FileFrame (e : SendFileEnv) (msg : Bytes) : Prop := Honest e.offered (Store.ofBytes e.content) msg

/-- The invariant of `send` on the stream `f`. A call that was told no length has returned at once. -/
structure SendCall.OnFile (e : SendFileEnv) (size : ℤ) (f : BufferedFile) (c : SendCall) : Prop where
  shows : f.failed = false → f.view = e.content
  ok : size = e.content.length ∧ c.Ok (e.call size) ∨ ∃ err, c.pc = .ret err ∧ err.failed = true

/-- The invariant of a call of `send_file`. -/
structure SendFile.Ok (e : SendFileEnv) (s : SendFile) : Prop where
  frames : ∀ msg ∈ s.sent, FileFrame e msg
  call : ∀ size f c, s.pc = .sending size f c → c.OnFile e size f

theorem sendCallStep_ret {es : SendCallEnv} {c c' : SendCall} {ev : SendCallEv} {err : ErrorCode}
    (hpc : c.pc = .ret err) : sendCallStep es c ev ≠ some c' := by
  intro hstep
  cases sendCallTrans_of_step hstep with
  | readFailed _ _ _ hpc' => cases hpc.symm.trans hpc'
  | read _ _ _ _ hpc' => cases hpc.symm.trans hpc'
  | once _ _ _ _ hpc' => cases hpc.symm.trans hpc'
  | leave _ _ _ hpc' => cases hpc.symm.trans hpc'
  | noConn hpc' => cases hpc.symm.trans hpc'
  | redialed _ hpc' => cases hpc.symm.trans hpc'

/-- A frame that a step of `send` puts on a connection is the outgoing one of its attempt. -/
theorem outgoing_of_frames {es : SendCallEnv} {c : SendCall} {ev : SendCallEv} {msg : Bytes}
    (hmem : msg ∈ ev.frames es c) :
    ∃ conn st, c.pc = .once conn st ∧ st.pc.outgoing (es.attempt c.info conn) = some msg := by
  unfold SendCallEv.frames at hmem
  split at hmem
  · split at hmem
    · rename_i conn st hpc
      split at hmem
      · cases hmem
      · exact ⟨conn, st, hpc, Option.mem_toList.mp hmem⟩
    · cases hmem
  · cases hmem

theorem fileFrame_of_frames {c : SendCall} (h : c.Ok (e.call e.content.length)) {ev : SendCallEv}
    {msg : Bytes} (hmem : msg ∈ ev.frames (e.call e.content.length) c) : FileFrame e msg := by
  obtain ⟨conn, st, hpc, hout⟩ := outgoing_of_frames hmem
  have hhonest := honest_of_sendCall h hpc hout
  rwa [filled_call] at hhonest

/-- Where the next read begins. -/
theorem SendCall.Ok.nonneg {es : SendCallEnv} {c : SendCall} (h : c.Ok es) {off : ℤ} {n : ℕ}
    (hcall : c.readCall es = some (off, n)) : 0 ≤ off := by
  unfold SendCall.readCall at hcall
  unfold SendCall.Ok at h
  generalize c.pc = pc at h hcall
  cases pc with
  | hash off' ctx =>
    cases hcall
    exact h.2.2.2.nonneg
  | once conn st =>
    obtain ⟨-, hrange⟩ := h
    dsimp only at hcall
    generalize st.pc = pc at hrange hcall
    cases pc with
    | read acked nextOff =>
      cases hcall
      exact hrange.1
    | _ => cases hcall
  | _ => cases hcall

/-- What a read delivers is in the source. -/
theorem shown_read {size off : ℤ} {n : ℕ} {f : BufferedFile} {ok : Bool} (hoff : 0 ≤ off)
    (hshows : f.failed = false → f.view = e.content) :
    (e.call size).shown off ((f.read off.toNat n .deferred ok).2.getD []) = e.call size := by
  have hstore : (Store.ofBytes e.content).write off ((f.read off.toNat n .deferred ok).2.getD []) =
      Store.ofBytes e.content := by
    rcases f.read_cases off.toNat n .deferred ok with ⟨data, hdata, hok, -, -, rfl, hin⟩ | ⟨hnone, -⟩
    · rw [hshows hok] at hdata hin
      rw [hdata, Option.getD_some]
      have hself := Store.ofBytes_writeAt e.content off.toNat ((e.content.drop off.toNat).take n)
      rw [Bytes.writeAt_self hin, Int.toNat_of_nonneg hoff] at hself
      exact hself.symm
    · rw [hnone, Option.getD_none, Store.write_nil]
  rw [SendCallEnv.shown]
  exact congrArg (fun σ => { e.call size with source := σ }) hstore

theorem SendCall.OnFile.read {size off : ℤ} {n : ℕ} {f : BufferedFile} {c c' : SendCall} {ok : Bool}
    (h : c.OnFile e size f) (hcall : c.readCall (e.call size) = some (off, n))
    (hstep : sendCallStep ((e.call size).shown off ((f.read off.toNat n .deferred ok).2.getD [])) c
      (c.readEv (sinkError (f.read off.toNat n .deferred ok).2.isNone)) = some c') :
    sendCallStep (e.call size) c (c.readEv (sinkError (f.read off.toNat n .deferred ok).2.isNone)) =
      some c' ∧ c'.OnFile e size (f.read off.toNat n .deferred ok).1 := by
  obtain ⟨hsize, hok⟩ | ⟨err, hret, -⟩ := h.ok
  · rw [shown_read (hok.nonneg hcall) h.shows] at hstep
    refine ⟨hstep, fun hfailed => ?_, .inl ⟨hsize, hok.step hstep⟩⟩
    rcases f.read_cases off.toNat n .deferred ok with ⟨_, -, hsound, -, hview, -⟩ | ⟨-, hbad⟩
    · rw [hview, h.shows hsound]
    · cases hfailed.symm.trans hbad
  · exact absurd hstep (sendCallStep_ret hret)

theorem SendFile.Ok.step {ev : SendFileEv} (h : s.Ok e) (hstep : sendFileStep e s ev = some t) :
    t.Ok e := by
  cases sendFileTrans_of_step hstep with
  | opened => exact ⟨h.frames, by rintro _ _ _ ⟨⟩⟩
  | notOpened => exact ⟨h.frames, by rintro _ _ _ ⟨⟩⟩
  | told rewound =>
    refine ⟨h.frames, ?_⟩
    rintro _ _ _ ⟨⟩
    exact ⟨fun _ => rfl, .inl ⟨rfl, ok_sendStart _⟩⟩
  | notTold =>
    refine ⟨h.frames, ?_⟩
    rintro _ _ _ ⟨⟩
    exact ⟨fun _ => rfl, .inr ⟨_, rfl, rfl⟩⟩
  | call size f c c' ev hpc hev hcall =>
    obtain ⟨hshows, ⟨rfl, hok⟩ | ⟨err, hret, -⟩⟩ := h.call size f c hpc
    · refine ⟨?_, ?_⟩
      · intro msg hmem
        rcases List.mem_append.mp hmem with hold | hnew
        · exact h.frames msg hold
        · exact fileFrame_of_frames hok hnew
      · rintro _ _ _ ⟨⟩
        exact ⟨hshows, .inl ⟨rfl, hok.step hcall⟩⟩
    · exact absurd hcall (sendCallStep_ret hret)
  | read size f c c' off n ok hpc hread hcall =>
    refine ⟨h.frames, ?_⟩
    rintro _ _ _ ⟨⟩
    exact ((h.call size f c hpc).read hread hcall).2
  | returned => exact ⟨h.frames, by rintro _ _ _ ⟨⟩⟩

theorem ok_sendFileStart (e : SendFileEnv) : SendFile.start.Ok e where
  frames := by rintro _ ⟨⟩
  call := by rintro _ _ _ ⟨⟩

theorem ok_of_run (h : Run (sendFileStep e) SendFile.start s) : s.Ok e :=
  Run.invariant (I := SendFile.Ok e) (fun _ _ _ hI hstep => hI.step hstep) h (ok_sendFileStart e)

/-! ## Behind a failed read -/

/-- The next call is not the `send` of a chunk. -/
def SendPc.Chunkless : SendPc → Prop
  | .chunk .. => False
  | _ => True

/-- No attempt of the call is about to send a chunk. -/
def SendCall.Chunkless (c : SendCall) : Prop := ∀ conn st, c.pc = .once conn st → st.pc.Chunkless

theorem chunkless_windowHead (es : SendEnv) (acked nextOff : ℤ) :
    (windowHead es acked nextOff).Chunkless := by
  unfold windowHead fillHead
  split_ifs <;> trivial

/-- Only a read leads to a chunk. -/
theorem SendPc.Chunkless.step {es : SendEnv} {st st' : SendState} {ev : SendEv} (h : st.pc.Chunkless)
    (hev : (SendCallEv.once ev).onSource = false) (hstep : sendStep es st ev = some st') :
    st'.pc.Chunkless := by
  cases sendTrans_of_step hstep with
  | lost => trivial
  | message msg hwait =>
    generalize st.pc = pc at hwait ⊢
    cases pc with
    | accept =>
      have hout := onAccept_outcome es msg
      rw [SendPc.onMessage]
      generalize onAccept es msg = next at hout ⊢
      cases hout with
      | failed => trivial
      | resumes => exact chunkless_windowHead _ _ _
    | ack acked nextOff =>
      have hout := onAck_outcome es acked nextOff msg
      rw [SendPc.onMessage]
      generalize onAck es acked nextOff msg = next at hout ⊢
      cases hout with
      | failed => trivial
      | moves => exact chunkless_windowHead _ _ _
    | reply =>
      have hout := onReply_outcome es msg
      rw [SendPc.onMessage]
      generalize onReply es msg = next at hout ⊢
      cases hout <;> trivial
    | _ => cases hwait
  | sendFailed => trivial
  | sent msg ec hout _ =>
    generalize st.pc = pc at h hout ⊢
    cases pc with
    | offer => trivial
    | chunk => exact absurd h id
    | done => trivial
    | _ => cases hout
  | readFailed => cases hev
  | read => cases hev

theorem chunkless_sendAttempt {es : SendCallEnv} (c : SendCall) (conn : ℕ) :
    (c.attempt es conn).Chunkless := by
  intro conn' st hpc
  simp only [SendCall.attempt] at hpc
  split_ifs at hpc
  obtain ⟨-, rfl⟩ := SendCallPc.once.inj hpc
  cases henc : encodeOffer c.info with
  | error err => simp only [SendState.start, SendCallEnv.attempt, henc, SendPc.Chunkless]
  | ok msg => simp only [SendState.start, SendCallEnv.attempt, henc, SendPc.Chunkless]

theorem chunkless_sendHashHead {es : SendCallEnv} (c : SendCall) (off : ℤ) (ctx : Bytes) :
    (c.hashHead es off ctx).Chunkless := by
  unfold SendCall.hashHead
  split
  · rintro _ _ ⟨⟩
  · exact chunkless_sendAttempt _ _

theorem chunkless_sendStart (es : SendCallEnv) : (SendCall.start es).Chunkless := by
  simp only [SendCall.start]
  split_ifs
  · rintro _ _ ⟨⟩
  · exact chunkless_sendHashHead _ _ _
  · exact chunkless_sendAttempt _ _

/-- A step that is no successful read keeps the call from sending chunks. -/
theorem SendCall.Chunkless.step {es : SendCallEnv} {c c' : SendCall} {ev : SendCallEv}
    (h : c.Chunkless) (hev : ev.onSource = false) (hstep : sendCallStep es c ev = some c') :
    c'.Chunkless := by
  cases sendCallTrans_of_step hstep with
  | readFailed => rintro _ _ ⟨⟩
  | read => exact chunkless_sendHashHead _ _ _
  | once conn st st' ev hpc hs =>
    intro conn' st'' hpc'
    obtain ⟨-, rfl⟩ := SendCallPc.once.inj hpc'
    exact (h conn st hpc).step hev hs
  | leave conn st err hpc hret =>
    intro conn' st' hpc'
    simp only [SendCall.onResult] at hpc'
    split_ifs at hpc'
  | noConn => rintro _ _ ⟨⟩
  | redialed conn => exact chunkless_sendAttempt _ _

/-- A failed read ends the hash or the attempt. -/
theorem chunkless_of_failed_read {es : SendCallEnv} {c c' : SendCall}
    (hstep : sendCallStep es c (c.readEv (sinkError true)) = some c') : c'.Chunkless := by
  unfold SendCall.readEv at hstep
  split at hstep
  · cases sendCallTrans_of_step hstep with
    | readFailed => rintro _ _ ⟨⟩
    | read => exact chunkless_sendHashHead _ _ _
  · cases sendCallTrans_of_step hstep with
    | once conn st st' _ hpc hs =>
      intro conn' st'' hpc'
      obtain ⟨-, rfl⟩ := SendCallPc.once.inj hpc'
      cases sendTrans_of_step hs with
      | readFailed => trivial
      | read _ _ _ _ hok => cases hok

/-- A stream that has failed is not about to feed a chunk. -/
def SendFile.Broken (s : SendFile) : Prop :=
  ∀ size f c, s.pc = .sending size f c → f.failed = true → c.Chunkless

theorem SendFile.Broken.step {ev : SendFileEv} (h : s.Broken) (hstep : sendFileStep e s ev = some t) :
    t.Broken := by
  cases sendFileTrans_of_step hstep with
  | told rewound =>
    rintro _ _ _ ⟨⟩ -
    exact chunkless_sendStart _
  | notTold =>
    rintro _ _ _ ⟨⟩ -
    exact chunkless_sendStart _
  | call size f c c' ev hpc hev hcall =>
    rintro _ _ _ ⟨⟩ hfailed
    exact (h size f c hpc hfailed).step hev hcall
  | read size f c c' off n ok hpc hread hcall =>
    rintro _ _ _ ⟨⟩ hfailed
    rcases f.read_cases off.toNat n .deferred ok with ⟨_, -, -, hsound, -⟩ | ⟨hnone, -⟩
    · cases hfailed.symm.trans hsound
    · rw [hnone] at hcall
      exact chunkless_of_failed_read hcall
  | _ => rintro _ _ _ ⟨⟩

/-- The frame is the offer of the file, or its Done. -/
def ChunklessFrame (e : SendFileEnv) (msg : Bytes) : Prop :=
  encodeOffer e.offered = .ok msg ∨ msg = encodeDone e.offered.id true e.offered.hash

theorem chunklessFrame_of_frames {c : SendCall} (h : c.Ok (e.call e.content.length))
    (hchunkless : c.Chunkless) {ev : SendCallEv} {msg : Bytes}
    (hmem : msg ∈ ev.frames (e.call e.content.length) c) : ChunklessFrame e msg := by
  obtain ⟨conn, st, hpc, hout⟩ := outgoing_of_frames hmem
  have hno := hchunkless conn st hpc
  simp only [SendCall.Ok, hpc, filled_call] at h
  obtain ⟨hinfo, hrange⟩ := h
  rw [hinfo] at hout
  generalize st.pc = pc at hout hno hrange
  cases pc with
  | offer msg' =>
    obtain rfl : msg' = msg := Option.some.inj hout
    exact .inl hrange
  | chunk => exact absurd hno id
  | done => exact .inr (Option.some.inj hout).symm
  | _ => cases hout

/-- The stream has failed, or the call has returned. -/
def SendFile.Failed (s : SendFile) : Prop :=
  match s.pc with
  | .sending _ f _ => f.failed = true
  | .ret _ => True
  | _ => False

/-- A step behind a failed read. -/
theorem SendFile.Failed.step {ev : SendFileEv} (h : s.Failed) (hok : s.Ok e) (hbroken : s.Broken)
    (hstep : sendFileStep e s ev = some t) :
    t.Failed ∧ ∃ later, t.sent = s.sent ++ later ∧ ∀ msg ∈ later, ChunklessFrame e msg := by
  cases sendFileTrans_of_step hstep with
  | opened hpc =>
    simp only [SendFile.Failed, hpc] at h
  | notOpened hpc =>
    simp only [SendFile.Failed, hpc] at h
  | told rewound hpc =>
    simp only [SendFile.Failed, hpc] at h
  | notTold rewound hpc =>
    simp only [SendFile.Failed, hpc] at h
  | call size f c c' ev hpc hev hcall =>
    simp only [SendFile.Failed, hpc] at h
    obtain ⟨-, ⟨rfl, hcallOk⟩ | ⟨err, hret, -⟩⟩ := hok.call size f c hpc
    · exact ⟨h, _, rfl, fun msg => chunklessFrame_of_frames hcallOk (hbroken _ f c hpc h)⟩
    · exact absurd hcall (sendCallStep_ret hret)
  | read size f c c' off n ok hpc hread hcall =>
    simp only [SendFile.Failed, hpc] at h
    refine ⟨?_, [], (List.append_nil _).symm, by rintro _ ⟨⟩⟩
    rcases f.read_cases off.toNat n .deferred ok with ⟨_, -, hsound, -⟩ | ⟨-, hfailed⟩
    · cases h.symm.trans hsound
    · exact hfailed
  | returned => exact ⟨trivial, [], (List.append_nil _).symm, by rintro _ ⟨⟩⟩

/-- **A `send_file` whose stream has failed sends no chunk any more.** However often it redials behind the
failure, whatever the peer answers: all it still sends is the offer of the file, and its Done. And in every
run, whatever it sends is a frame of the file: the offer with the base name (which has no separator), the
length and the hash, a piece of the content under its offset, or the Done with the hash. -/
theorem sendFile_frames (e : SendFileEnv) (s : SendFile) (hs : Run (sendFileStep e) SendFile.start s) :
    (∀ msg ∈ s.sent, FileFrame e msg) ∧ (∀ b ∈ e.offered.name, isSeparator b = false) ∧
      ∀ t, s.Failed → Run (sendFileStep e) s t →
        ∃ later, t.sent = s.sent ++ later ∧ ∀ msg ∈ later, ChunklessFrame e msg := by
  have hbroken : s.Broken :=
    Run.invariant (I := SendFile.Broken) (fun _ _ _ hI hstep => hI.step hstep) hs (by rintro _ _ _ ⟨⟩)
  refine ⟨(ok_of_run hs).frames, (pathBase_spec e.path).1, fun t hfailed ht => ?_⟩
  have hinv : (t.Ok e ∧ t.Broken ∧ t.Failed) ∧
      ∃ later, t.sent = s.sent ++ later ∧ ∀ msg ∈ later, ChunklessFrame e msg := by
    refine Run.invariant (I := fun t : SendFile => (t.Ok e ∧ t.Broken ∧ t.Failed) ∧
      ∃ later, t.sent = s.sent ++ later ∧ ∀ msg ∈ later, ChunklessFrame e msg) ?_ ht
      ⟨⟨ok_of_run hs, hbroken, hfailed⟩, [], (List.append_nil _).symm, by rintro _ ⟨⟩⟩
    rintro u ev v ⟨⟨hok, hbroken, hfailed⟩, later, hsent, hlater⟩ hstep
    obtain ⟨hfailed', more, hsent', hmore⟩ := hfailed.step hok hbroken hstep
    refine ⟨⟨hok.step hstep, hbroken.step hstep, hfailed'⟩, later ++ more, ?_, ?_⟩
    · rw [hsent', hsent, List.append_assoc]
    · exact List.forall_mem_append.mpr ⟨hlater, hmore⟩
  exact hinv.2

/-- A sender of the file `d/f`, which holds `abc`, one byte at a time; it can redial. -/
def sampleSendFileEnv : SendFileEnv where
  path := [0x64, 0x2f, 0x66]
  content := sampleContent
  length_lt := by decide
  opts := some { defaultOptions with chunkSize := 1, redial := true }
  newId := sampleMeta.id
  maxMessageBytes := fun _ => defaultConfig.maxMessageBytes
  sha256 := sampleSha256

/-- `open`, the length, the hash and the Offer; then the read of the first chunk fails. -/
def brokenReadTrace : List SendFileEv :=
  [.opened true, .told true true, .read true, .call (.once (.sent .success)),
    .call (.once (.received (.ok (encodeAccept sampleMeta.id 0)))), .read false]

/-- The call redials, and the receiver has got all from elsewhere. -/
def brokenRetryTrace : List SendFileEv :=
  [.call .leave, .call (.redialed (some 1)), .call (.once (.sent .success)),
    .call (.once (.received (.ok (encodeAccept sampleMeta.id 3)))), .call (.once (.sent .success)),
    .call (.once (.received (.ok (encodeDone sampleMeta.id true sampleDigest)))), .call .leave, .returned]

theorem broken_read_sends_no_chunk :
    ∃ s t later, Run (sendFileStep sampleSendFileEnv) SendFile.start s ∧ s.sent.length = 1 ∧
      Run (sendFileStep sampleSendFileEnv) s t ∧ t.pc = .ret .success ∧ t.sent = s.sent ++ later ∧
      later.length = 2 ∧ ∀ msg ∈ later, ChunklessFrame sampleSendFileEnv msg := by
  obtain ⟨s, hexec, hlen, hfailed⟩ :
      ∃ s, exec (sendFileStep sampleSendFileEnv) SendFile.start brokenReadTrace = some s ∧
        s.sent.length = 1 ∧ s.Failed := ⟨_, rfl, rfl, rfl⟩
  obtain ⟨t, hexec', hret, hlen'⟩ :
      ∃ t, exec (sendFileStep sampleSendFileEnv) s brokenRetryTrace = some t ∧ t.pc = .ret .success ∧
        t.sent.length = 3 := by
    obtain rfl := Option.some.inj (hexec.symm.trans rfl)
    exact ⟨_, rfl, rfl, rfl⟩
  have hrun := run_of_exec hexec
  have hrun' := run_of_exec hexec'
  obtain ⟨later, hsent, hlater⟩ := (sendFile_frames sampleSendFileEnv s hrun).2.2 t hfailed hrun'
  refine ⟨s, t, later, hrun, hlen, hrun', hret, hsent, ?_, hlater⟩
  rw [hsent, List.length_append] at hlen'
  omega

end TcpDuplex.Transfer
