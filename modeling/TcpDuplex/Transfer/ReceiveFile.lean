import TcpDuplex.Lib.BufferedFile
import TcpDuplex.Transfer.Resume
import TcpDuplex.Transfer.Sink

/-!
# `transfer::receive_file`

`receive_file` runs `receive` on a `FileWriterAt`, a buffered stream on the destination, and settles the
file behind it: it closes the stream and truncates the file to the size of the offer. It looks at the
result of neither. Up to that point nothing can be missed: a stream that has failed lets no attempt
succeed, but on an empty offer.
-/

namespace TcpDuplex.Transfer

open Machine

/-! ## The call -/

/-- What a call of `receive_file` is given. -/
structure FileEnv where
  opts : Option Options
  sha256 : Bytes → Hash
  /-- The texts of the error categories outside the library. -/
  ext : ErrorCode → String

/-- What `receive` is given: a `FileWriterAt` can be read. -/
def FileEnv.call (e : FileEnv) (resume : ℤ) : RecvCallEnv where
  opts := e.opts
  readable := true
  resumeOffset := resume
  sha256 := e.sha256
  ext := e.ext

/-- Where a call of `receive_file` is. -/
inductive FilePc where
  /-- The `ifstream` that tells the length of the destination. -/
  | stat
  /-- The constructor of the `fstream`. -/
  | opening (resume : ℤ)
  /-- `open` with `trunc`, and `close`. -/
  | creating (resume : ℤ)
  /-- The second `open` of the `fstream`. -/
  | reopening (resume : ℤ)
  /-- In `receive`. -/
  | receiving (resume : ℤ) (f : BufferedFile) (c : RecvCall)
  /-- `close`, behind a `receive` that returned `err`; on an error it is the destructor's. -/
  | closing (err : ErrorCode) (m : Meta) (f : BufferedFile)
  | truncating (m : Meta)
  /-- Returned, with `out_meta`. -/
  | ret (err : ErrorCode) (m : Meta)

/-- A call of `receive_file`. -/
structure ReceiveFile where
  pc : FilePc
  /-- The destination, while no stream is open on it. -/
  dest : Option Bytes
  /-- The last attempt that has returned. -/
  attempt : Option RecvState := none

/-- What happens next in a call of `receive_file`. -/
inductive FileEv where
  /-- The `ifstream` could be opened, and `tellg` did not fail. -/
  | stat (opened told : Bool)
  | opened (ok : Bool)
  | created (ok : Bool)
  /-- A step of `receive` that does not call the `FileWriterAt`. -/
  | call (ev : RecvCallEv)
  /-- `read_at`: `seekg` may flush, and the read may fail. -/
  | read (before : BufferedFile.Flush) (ok : Bool)
  /-- `write_at`: `seekp` may flush, and so may `write`. -/
  | wrote (before after : BufferedFile.Flush)
  /-- `receive` has returned. -/
  | returned
  /-- `close` flushes, or fails and leaves the file with some content. -/
  | closed (lost : Option Bytes)
  | truncated (ok : Bool)

/-- `resume`: a destination that cannot be opened counts as empty, and a `tellg` that fails is `-1`. -/
def resumeAt (dest : Option Bytes) (opened told : Bool) : ℤ :=
  match dest with
  | some content => if opened then if told then content.length else -1 else 0
  | none => 0

/-- Opening the `fstream`, which does not create the file. -/
def openFile (dest : Option Bytes) (ok : Bool) : Option BufferedFile :=
  if ok then dest.map fun content => { disk := content } else none

/-- The call of `read_at` that is next: where, and how many bytes. -/
def RecvPc.readCall (e : RecvEnv) : RecvPc → Option (ℤ × ℕ)
  | .hashAll m off _ => some (off, blockLength off m.size)
  | .hashPrefix _ off _ => some (off, blockLength off e.resumeOffset)
  | _ => none

/-- The attempt that a call of `receive` is in. -/
def RecvCallPc.attempt : RecvCallPc → Option RecvState
  | .once _ s => some s
  | _ => none

/-- The sink, with `data` in the place that is read next. -/
def RecvCall.shown (c : RecvCall) (off : ℤ) (data : Bytes) : RecvCall :=
  match c.pc with
  | .once conn s => { c with pc := .once conn { s with store := s.store.write off data } }
  | _ => c

/-- What `FileWriterAt` returns. -/
def sinkError (failed : Bool) : ErrorCode := if failed then Errc.other.code else .success

/-- The event is a call of the sink. -/
def RecvCallEv.onSink : RecvCallEv → Bool
  | .once (.read _) => true
  | .once (.wrote _ _) => true
  | _ => false

/-- The attempt that `receive` leaves with this event. -/
def RecvCallEv.left (c : RecvCall) (last : Option RecvState) : RecvCallEv → Option RecvState
  | .leave => c.pc.attempt
  | _ => last

/-- The stream is open, and `receive` starts. -/
def ReceiveFile.receive (e : FileEnv) (s : ReceiveFile) (resume : ℤ) (f : BufferedFile) : ReceiveFile :=
  { s with pc := .receiving resume f (RecvCall.start (e.call resume) (Store.ofBytes f.view)) }

/-- One step of a call of `receive_file`. -/
def fileStep (e : FileEnv) (s : ReceiveFile) : FileEv → Option ReceiveFile
  | .stat opened told =>
    match s.pc with
    | .stat => some { s with pc := .opening (resumeAt s.dest opened told) }
    | _ => none
  | .opened ok =>
    match s.pc with
    | .opening resume =>
      match openFile s.dest ok with
      | some f => some (s.receive e resume f)
      | none => some { s with pc := .creating resume }
    | .reopening resume =>
      match openFile s.dest ok with
      | some f => some (s.receive e resume f)
      | none => some { s with pc := .ret Errc.other.code {} }
    | _ => none
  | .created ok =>
    match s.pc with
    | .creating resume =>
      some { s with pc := .reopening resume, dest := if ok then some [] else s.dest }
    | _ => none
  | .call ev =>
    match s.pc with
    | .receiving resume f c =>
      if ev.onSink then none
      else
        (recvCallStep (e.call resume) c ev).map fun c' =>
          { s with pc := .receiving resume f c', attempt := ev.left c s.attempt }
    | _ => none
  | .read before ok =>
    match s.pc with
    | .receiving resume f c =>
      match c.pc.attempt.bind fun t => t.pc.readCall ((e.call resume).attempt c) with
      | some (off, n) =>
        let r := f.read off.toNat n before ok
        (recvCallStep (e.call resume) (c.shown off (r.2.getD []))
          (.once (.read (sinkError r.2.isNone)))).map fun c' =>
            { s with pc := .receiving resume r.1 c' }
      | none => none
    | _ => none
  | .wrote before after =>
    match s.pc with
    | .receiving resume f c =>
      match c.pc.attempt.bind fun t => t.pc.writeCall with
      | some (off, data) =>
        let f' := f.write off.toNat data before after
        (recvCallStep (e.call resume) c
          (.once (.wrote (sinkError f'.failed) (Store.ofBytes f'.disk)))).map fun c' =>
            { s with pc := .receiving resume f' c' }
      | none => none
    | _ => none
  | .returned =>
    match s.pc with
    | .receiving _ f c =>
      match c.pc with
      | .ret err => some { s with pc := .closing err c.outMeta f }
      | _ => none
    | _ => none
  | .closed lost =>
    match s.pc with
    | .closing err m f =>
      some { s with
        pc := if err.failed then .ret err m else .truncating m
        dest := some (f.close lost) }
    | _ => none
  | .truncated ok =>
    match s.pc with
    | .truncating m =>
      some { s with
        pc := .ret .success m
        dest := if ok then s.dest.map (·.resize m.size.toNat) else s.dest }
    | _ => none

/-- The state in which the call starts on a destination; `none` if there is no such file. -/
def ReceiveFile.start (dest : Option Bytes) : ReceiveFile := { pc := .stat, dest := dest }

/-! ### What a step can be -/

/-- The steps of a call of `receive_file`. -/
inductive FileTrans (e : FileEnv) (s : ReceiveFile) : FileEv → ReceiveFile → Prop where
  | stat (opened told : Bool) (hpc : s.pc = .stat) :
      FileTrans e s (.stat opened told) { s with pc := .opening (resumeAt s.dest opened told) }
  | opened (resume : ℤ) (f : BufferedFile) (ok : Bool)
      (hpc : s.pc = .opening resume ∨ s.pc = .reopening resume)
      (hopen : openFile s.dest ok = some f) :
      FileTrans e s (.opened ok) (s.receive e resume f)
  | missing (resume : ℤ) (ok : Bool) (hpc : s.pc = .opening resume)
      (hopen : openFile s.dest ok = none) :
      FileTrans e s (.opened ok) { s with pc := .creating resume }
  | noFile (resume : ℤ) (ok : Bool) (hpc : s.pc = .reopening resume)
      (hopen : openFile s.dest ok = none) :
      FileTrans e s (.opened ok) { s with pc := .ret Errc.other.code {} }
  | created (resume : ℤ) (ok : Bool) (hpc : s.pc = .creating resume) :
      FileTrans e s (.created ok)
        { s with pc := .reopening resume, dest := if ok then some [] else s.dest }
  | call (resume : ℤ) (f : BufferedFile) (c c' : RecvCall) (ev : RecvCallEv)
      (hpc : s.pc = .receiving resume f c) (hev : ev.onSink = false)
      (hstep : recvCallStep (e.call resume) c ev = some c') :
      FileTrans e s (.call ev)
        { s with pc := .receiving resume f c', attempt := ev.left c s.attempt }
  | read (resume : ℤ) (f : BufferedFile) (c c' : RecvCall) (t : RecvState) (off : ℤ) (n : ℕ)
      (before : BufferedFile.Flush) (ok : Bool) (hpc : s.pc = .receiving resume f c)
      (hat : c.pc.attempt = some t) (hcall : t.pc.readCall ((e.call resume).attempt c) = some (off, n))
      (hstep : recvCallStep (e.call resume)
        (c.shown off ((f.read off.toNat n before ok).2.getD []))
        (.once (.read (sinkError (f.read off.toNat n before ok).2.isNone))) = some c') :
      FileTrans e s (.read before ok)
        { s with pc := .receiving resume (f.read off.toNat n before ok).1 c' }
  | wrote (resume : ℤ) (f : BufferedFile) (c c' : RecvCall) (t : RecvState) (off : ℤ) (data : Bytes)
      (before after : BufferedFile.Flush) (hpc : s.pc = .receiving resume f c)
      (hat : c.pc.attempt = some t) (hcall : t.pc.writeCall = some (off, data))
      (hstep : recvCallStep (e.call resume) c
        (.once (.wrote (sinkError (f.write off.toNat data before after).failed)
          (Store.ofBytes (f.write off.toNat data before after).disk))) = some c') :
      FileTrans e s (.wrote before after)
        { s with pc := .receiving resume (f.write off.toNat data before after) c' }
  | returned (resume : ℤ) (f : BufferedFile) (c : RecvCall) (err : ErrorCode)
      (hpc : s.pc = .receiving resume f c) (hret : c.pc = .ret err) :
      FileTrans e s .returned { s with pc := .closing err c.outMeta f }
  | closed (err : ErrorCode) (m : Meta) (f : BufferedFile) (lost : Option Bytes)
      (hpc : s.pc = .closing err m f) :
      FileTrans e s (.closed lost)
        { s with
          pc := if err.failed then .ret err m else .truncating m
          dest := some (f.close lost) }
  | truncated (m : Meta) (ok : Bool) (hpc : s.pc = .truncating m) :
      FileTrans e s (.truncated ok)
        { s with
          pc := .ret .success m
          dest := if ok then s.dest.map (·.resize m.size.toNat) else s.dest }

theorem fileTrans_of_step {e : FileEnv} {s s' : ReceiveFile} {ev : FileEv}
    (h : fileStep e s ev = some s') : FileTrans e s ev s' := by
  cases ev with
  | stat opened told =>
    simp only [fileStep] at h
    split at h
    · rename_i hpc
      cases h
      exact .stat opened told hpc
    · cases h
  | opened ok =>
    simp only [fileStep] at h
    split at h
    · rename_i resume hpc
      split at h
      · rename_i f hopen
        cases h
        exact .opened resume f ok (.inl hpc) hopen
      · rename_i hopen
        cases h
        exact .missing resume ok hpc hopen
    · rename_i resume hpc
      split at h
      · rename_i f hopen
        cases h
        exact .opened resume f ok (.inr hpc) hopen
      · rename_i hopen
        cases h
        exact .noFile resume ok hpc hopen
    · cases h
  | created ok =>
    simp only [fileStep] at h
    split at h
    · rename_i resume hpc
      cases h
      exact .created resume ok hpc
    · cases h
  | call ev =>
    simp only [fileStep] at h
    split at h
    · rename_i resume f c hpc
      split at h
      · cases h
      · rename_i hev
        obtain ⟨c', hstep, rfl⟩ := Option.map_eq_some_iff.mp h
        exact .call resume f c c' ev hpc (Bool.eq_false_iff.mpr hev) hstep
    · cases h
  | read before ok =>
    simp only [fileStep] at h
    split at h
    · rename_i resume f c hpc
      split at h
      · rename_i off n hcall
        obtain ⟨t, hat, hcall⟩ := Option.bind_eq_some_iff.mp hcall
        obtain ⟨c', hstep, rfl⟩ := Option.map_eq_some_iff.mp h
        exact .read resume f c c' t off n before ok hpc hat hcall hstep
      · cases h
    · cases h
  | wrote before after =>
    simp only [fileStep] at h
    split at h
    · rename_i resume f c hpc
      split at h
      · rename_i off data hcall
        obtain ⟨t, hat, hcall⟩ := Option.bind_eq_some_iff.mp hcall
        obtain ⟨c', hstep, rfl⟩ := Option.map_eq_some_iff.mp h
        exact .wrote resume f c c' t off data before after hpc hat hcall hstep
      · cases h
    · cases h
  | returned =>
    simp only [fileStep] at h
    split at h
    · rename_i resume f c hpc
      split at h
      · rename_i err hret
        cases h
        exact .returned resume f c err hpc hret
      · cases h
    · cases h
  | closed lost =>
    simp only [fileStep] at h
    split at h
    · rename_i err m f hpc
      cases h
      exact .closed err m f lost hpc
    · cases h
  | truncated ok =>
    simp only [fileStep] at h
    split at h
    · rename_i m hpc
      cases h
      exact .truncated m ok hpc
    · cases h

/-! ## An attempt that succeeds has replied -/

/-- The attempt has not returned success. -/
def RecvPc.Unsuccessful : RecvPc → Prop
  | .ret err _ _ => err.failed = true
  | _ => True

variable {e : RecvEnv}

theorem Onward.unsuccessful {m : Meta} {w : ℤ} {pc : RecvPc} (h : Onward e m w pc) :
    pc.Unsuccessful := by
  cases h <;> trivial

theorem unsuccessful_onOffer (e : RecvEnv) (msg : Bytes) : (onOffer e msg).Unsuccessful := by
  have h := onOffer_outcome e msg
  generalize onOffer e msg = pc at h ⊢
  cases h with
  | failed err herr => exact herr
  | refused => trivial
  | taken => trivial

theorem unsuccessful_onDone (m : Meta) (written : ℤ) (sum : Hash) (msg : Bytes) :
    (onDone m written sum msg).Unsuccessful := by
  have h := onDone_outcome m written sum msg
  generalize onDone m written sum msg = pc at h ⊢
  cases h with
  | failed err herr => exact herr
  | replies => trivial

theorem unsuccessful_onChunk (e : RecvEnv) (m : Meta) (hw : HashingWriter) (written : ℤ) (since : ℕ)
    (msg : Bytes) : (onChunk e m hw written since msg).Unsuccessful := by
  have h := onChunk_outcome e m hw written since msg
  generalize onChunk e m hw written since msg = pc at h ⊢
  cases h with
  | failed err herr => exact herr
  | _ => trivial

theorem unsuccessful_onMessage {pc : RecvPc} (hwait : (pc.waiting e).isSome = true) (msg : Bytes) :
    (pc.onMessage e msg).Unsuccessful := by
  cases pc with
  | offer => exact unsuccessful_onOffer e msg
  | doneAll m sum => exact unsuccessful_onDone _ _ _ msg
  | chunk m hw written since => exact unsuccessful_onChunk e m hw written since msg
  | done m hw written => exact unsuccessful_onDone _ _ _ msg
  | _ => cases hwait

/-- A Done with `ok` has been sent that carries the digest of what was hashed. -/
def RecvState.Replied (e : RecvEnv) (s : RecvState) (m : Meta) : Prop :=
  encodeDone m.id true (e.sha256 s.hashed) ∈ s.sent

/-- A `send` after which the attempt returns success was the reply. -/
theorem replied_of_onSent (hreadable : e.readable = true) {s : RecvState} (h : s.Sound e) {out : Bytes}
    (hout : s.pc.outgoing e = some out) {err : ErrorCode} {m : Meta} {written : ℤ}
    (hret : s.pc.onSent e = .ret err m written) (hok : err.failed = false) :
    out = encodeDone m.id true (e.sha256 s.hashed) := by
  have hun : ∀ pc : RecvPc, pc.Unsuccessful → pc ≠ .ret err m written := by
    rintro pc hpc rfl
    exact Bool.false_ne_true (hok.symm.trans hpc)
  unfold RecvState.Sound at h
  generalize s.pc = pc at h hout hret
  cases pc with
  | reject m' reason err' out' =>
    cases hret
    exact absurd (hok.symm.trans h) Bool.false_ne_true
  | accept m' => exact absurd hret (hun _ (onward_afterAccept e m').unsuccessful)
  | abort m' written' err' =>
    cases hret
    exact absurd (hok.symm.trans h.1) Bool.false_ne_true
  | ack m' hw written' =>
    exact absurd hret (hun _ (onward_chunkHead e m' hw written' 0).unsuccessful)
  | reply m' written' ok sum theirs =>
    cases hret
    cases ok with
    | false => cases hok
    | true =>
      obtain ⟨-, rfl⟩ := (h.2 rfl).digest hreadable
      cases hout
      rfl
  | _ => cases hout

/-- An attempt that comes to success has sent its reply. -/
theorem replied_of_step (hreadable : e.readable = true) {s t : RecvState} {ev : RecvEv} (h : s.Sound e)
    (hstep : recvStep e s ev = some t) {err : ErrorCode} {m : Meta} {written : ℤ}
    (hret : t.pc = .ret err m written) (hok : err.failed = false) : t.Replied e m := by
  have hun : ¬t.pc.Unsuccessful := by
    intro hpc
    rw [hret] at hpc
    exact Bool.false_ne_true (hok.symm.trans hpc)
  cases recvTrans_of_step hstep with
  | lost m' written' ec _ hec => exact absurd (failed_mapConnErr hec) hun
  | message msg hwait => exact absurd (unsuccessful_onMessage hwait msg) hun
  | sendFailed msg ec hout hec =>
    refine absurd ?_ hun
    unfold RecvState.Sound at h
    generalize s.pc = pc at h hout ⊢
    cases pc with
    | reject m' reason err' out' => exact h
    | abort m' written' err' => exact h.1
    | accept => exact failed_mapConnErr hec
    | ack => exact failed_mapConnErr hec
    | reply => exact failed_mapConnErr hec
    | _ => cases hout
  | sent msg ec hout _ =>
    rw [replied_of_onSent hreadable h hout hret hok]
    simp only [RecvState.Replied, RecvState.reportSent_hashed, List.mem_append, List.mem_singleton,
      or_true]
  | hashAllFailed m' off ctx ec _ hec => exact absurd hec hun
  | hashAll m' => exact absurd (onward_hashAllHead e m' _ _).unsuccessful hun
  | hashPrefixFailed => exact absurd trivial hun
  | hashPrefix m' => exact absurd (onward_hashPrefixHead e m' _ _).unsuccessful hun
  | writeFailed => exact absurd trivial hun
  | wrote m' hw written' since off data ec junk hpc _ =>
    rw [RecvState.report_pc] at hun
    exact absurd (onward_afterWrite e m' _ _ _).unsuccessful hun

/-! ## An attempt on a stream -/

/-- The attempt is about to return an error, or has. -/
def RecvPc.Doomed : RecvPc → Prop
  | .abort _ _ err => err.failed = true
  | .ret err _ _ => err.failed = true
  | _ => False

/-- The invariant of an attempt on the stream `f`. The sink of the attempt is what the stream shows; once
it has failed, it stops the attempt with the first call. -/
structure RecvState.OnFile (e : RecvEnv) (f : BufferedFile) (s : RecvState) : Prop where
  nonneg : 0 ≤ e.resumeOffset
  sound : s.Sound e
  replied : ∀ err m written, s.pc = .ret err m written → err.failed = false → s.Replied e m
  tracked : f.failed = false → s.store = Store.ofBytes f.view
  broken : f.failed = true → s.hashed = [] ∨ s.pc.Doomed

/-- An attempt starts on the stream as it is. -/
theorem onFile_start (hres : 0 ≤ e.resumeOffset) {f : BufferedFile} {sink : Store}
    (h : f.failed = false → sink = Store.ofBytes f.view) : (RecvState.start sink).OnFile e f where
  nonneg := hres
  sound := ⟨rfl, rfl⟩
  replied := nofun
  tracked := h
  broken := fun _ => .inl rfl

/-- Only a call of the sink changes it, or is hashed. -/
theorem frame_of_step {s t : RecvState} {ev : RecvEv} (hev : (RecvCallEv.once ev).onSink = false)
    (hstep : recvStep e s ev = some t) : t.store = s.store ∧ t.hashed = s.hashed := by
  cases recvTrans_of_step hstep with
  | lost => exact ⟨rfl, rfl⟩
  | message => exact ⟨rfl, rfl⟩
  | sendFailed => exact ⟨rfl, rfl⟩
  | sent => exact ⟨RecvState.reportSent_store _ _, RecvState.reportSent_hashed _ _⟩
  | _ => cases hev

theorem RecvPc.Doomed.step {s t : RecvState} {ev : RecvEv} (h : s.pc.Doomed)
    (hstep : recvStep e s ev = some t) : t.pc.Doomed := by
  cases hpc : s.pc with
  | abort m written err =>
    rw [hpc] at h
    cases ev with
    | sent ec =>
      simp only [recvStep, hpc, RecvPc.outgoing] at hstep
      split at hstep <;> cases hstep <;> exact h
    | received r => cases r <;> simp [recvStep, hpc, RecvPc.waiting] at hstep
    | read ec => simp [recvStep, hpc] at hstep
    | wrote ec junk => simp [recvStep, hpc] at hstep
  | ret err m written => exact absurd hpc (not_ret_of_step hstep _ _ _)
  | _ =>
    rw [hpc] at h
    exact absurd h id

variable {f : BufferedFile} {s t : RecvState}

/-- A step that does not call the sink. -/
theorem RecvState.OnFile.step (hreadable : e.readable = true) (h : s.OnFile e f) {ev : RecvEv}
    (hev : (RecvCallEv.once ev).onSink = false) (hstep : recvStep e s ev = some t) : t.OnFile e f := by
  obtain ⟨hstore, hhashed⟩ := frame_of_step hev hstep
  refine ⟨h.nonneg, h.sound.step h.nonneg hstep,
    fun err m written => replied_of_step hreadable h.sound hstep, ?_, ?_⟩
  · rw [hstore]
    exact h.tracked
  · intro hfailed
    rw [hhashed]
    exact (h.broken hfailed).imp id fun hdoomed => hdoomed.step hstep

/-- A call of the sink that failed, and left a stream that has failed. -/
theorem onFile_of_doomed (hreadable : e.readable = true) (hres : 0 ≤ e.resumeOffset)
    (h : s.Sound e) {ev : RecvEv} (hstep : recvStep e s ev = some t) (hfailed : f.failed = true)
    (hdoomed : t.pc.Doomed) : t.OnFile e f where
  nonneg := hres
  sound := h.step hres hstep
  replied := fun _ _ _ => replied_of_step hreadable h hstep
  tracked := fun hok => absurd (hok.symm.trans hfailed) Bool.false_ne_true
  broken := fun _ => .inr hdoomed

/-- A call of the sink that succeeded, and left a stream that shows the new sink. -/
theorem onFile_of_tracked (hreadable : e.readable = true) (hres : 0 ≤ e.resumeOffset)
    (h : s.Sound e) {ev : RecvEv} (hstep : recvStep e s ev = some t) (hfailed : f.failed = false)
    (hstore : t.store = Store.ofBytes f.view) : t.OnFile e f where
  nonneg := hres
  sound := h.step hres hstep
  replied := fun _ _ _ => replied_of_step hreadable h hstep
  tracked := fun _ => hstore
  broken := fun hbad => absurd (hfailed.symm.trans hbad) Bool.false_ne_true

/-- Where the next read begins. -/
theorem nonneg_of_readCall (h : s.Sound e) {off : ℤ} {n : ℕ}
    (hcall : s.pc.readCall e = some (off, n)) : 0 ≤ off := by
  unfold RecvState.Sound at h
  generalize s.pc = pc at h hcall
  cases pc with
  | hashAll m off' ctx =>
    cases hcall
    exact h.2.2.2.2.nonneg
  | hashPrefix m off' ctx =>
    cases hcall
    exact h.2.2.2.2.nonneg
  | _ => cases hcall

/-- Reading shows what is there already. -/
theorem write_store_of_read (h : s.Sound e) (htracked : s.store = Store.ofBytes f.view) {off : ℤ}
    {n : ℕ} (hcall : s.pc.readCall e = some (off, n)) (hin : off.toNat + n ≤ f.view.length) :
    s.store.write off ((f.view.drop off.toNat).take n) = s.store := by
  have hoff : ((off.toNat : ℕ) : ℤ) = off := Int.toNat_of_nonneg (nonneg_of_readCall h hcall)
  rw [htracked, ← hoff, Int.toNat_natCast, ← Store.ofBytes_writeAt, Bytes.writeAt_self hin]

theorem doomed_of_read {ec : ErrorCode} (hstep : recvStep e s (.read ec) = some t)
    (hec : ec.failed = true) : t.pc.Doomed := by
  cases recvTrans_of_step hstep with
  | hashAllFailed => exact hec
  | hashPrefixFailed => exact hec
  | hashAll _ _ _ _ _ _ hok => cases hec.symm.trans hok
  | hashPrefix _ _ _ _ _ _ hok => cases hec.symm.trans hok

theorem store_of_read {ec : ErrorCode} (hstep : recvStep e s (.read ec) = some t) :
    t.store = s.store := by
  cases recvTrans_of_step hstep <;> rfl

/-- A `read_at` on the stream. -/
theorem RecvState.OnFile.read (hreadable : e.readable = true) (h : s.OnFile e f) {off : ℤ} {n : ℕ}
    (hcall : s.pc.readCall e = some (off, n)) (before : BufferedFile.Flush) (ok : Bool)
    (hstep : recvStep e
        { s with store := s.store.write off ((f.read off.toNat n before ok).2.getD []) }
        (.read (sinkError (f.read off.toNat n before ok).2.isNone)) = some t) :
    t.OnFile e (f.read off.toNat n before ok).1 := by
  rcases f.read_cases off.toNat n before ok with
    ⟨data, hdata, hok, hok', hview, rfl, hin⟩ | ⟨hnone, hfailed⟩
  · have hstore := write_store_of_read h.sound (h.tracked hok) hcall hin
    rw [hdata, Option.getD_some, hstore] at hstep
    refine onFile_of_tracked hreadable h.nonneg h.sound hstep hok' ?_
    rw [store_of_read hstep, hview]
    exact h.tracked hok
  · rw [hnone, Option.getD_none, Store.write_nil] at hstep
    exact onFile_of_doomed hreadable h.nonneg h.sound hstep hfailed (doomed_of_read hstep rfl)

/-- A `write_at` on the stream. -/
theorem RecvState.OnFile.wrote (hreadable : e.readable = true) (h : s.OnFile e f) {off : ℤ}
    {data : Bytes} (hcall : s.pc.writeCall = some (off, data)) (before after : BufferedFile.Flush)
    {junk : Store}
    (hstep : recvStep e s (.wrote (sinkError (f.write off.toNat data before after).failed) junk) =
      some t) :
    t.OnFile e (f.write off.toNat data before after) := by
  cases hfailed : (f.write off.toNat data before after).failed with
  | true =>
    rw [hfailed] at hstep
    refine onFile_of_doomed hreadable h.nonneg h.sound hstep hfailed ?_
    cases recvTrans_of_step hstep with
    | writeFailed => rfl
    | wrote _ _ _ _ _ _ _ _ _ hec => cases hec
  | false =>
    rw [hfailed] at hstep
    obtain ⟨hok, hview⟩ := BufferedFile.view_write hfailed
    refine onFile_of_tracked hreadable h.nonneg h.sound hstep hfailed ?_
    cases recvTrans_of_step hstep with
    | writeFailed _ _ _ _ _ _ _ _ _ hec => cases hec
    | wrote m hw written since off' data' ec junk' hpc _ =>
      rw [hpc] at hcall
      cases hcall
      have hsound := h.sound
      simp only [RecvState.Sound, hpc] at hsound
      obtain ⟨_, hfol, rfl, _⟩ := hsound
      have hoff : ((off.toNat : ℕ) : ℤ) = off := Int.toNat_of_nonneg hfol.covers.nonneg
      rw [RecvState.report_store, hview, Store.ofBytes_writeAt, hoff, h.tracked hok]

/-! ## `receive` on a stream -/

/-- What a `receive` that returned success with `m` has left behind: its last attempt hashed the first
`m.size` bytes that the stream shows, and has reported their digest. -/
structure Finished (e : FileEnv) (f : BufferedFile) (t : RecvState) (m : Meta) : Prop where
  returned : ∃ err written, t.pc = .ret err m written ∧ err.failed = false
  nonneg : 0 ≤ m.size
  hashed_eq : t.hashed = f.view.resize m.size.toNat
  replied : encodeDone m.id true (e.sha256 t.hashed) ∈ t.sent

/-- The invariant of a call of `receive` on the stream `f`. -/
def RecvCall.OnFile (e : FileEnv) (resume : ℤ) (f : BufferedFile) (last : Option RecvState)
    (c : RecvCall) : Prop :=
  match c.pc with
  | .once _ s => s.OnFile ((e.call resume).attempt c) f
  | .redial => 0 ≤ c.written ∧ (f.failed = false → c.sink = Store.ofBytes f.view)
  | .ret err => err.failed = false → ∃ t, last = some t ∧ Finished e f t c.outMeta

variable {ef : FileEnv} {resume : ℤ} {c c' : RecvCall} {last : Option RecvState}

theorem finished_of_onFile (h : s.OnFile ((ef.call resume).attempt c) f) {err : ErrorCode} {m : Meta}
    {written : ℤ} (hret : s.pc = .ret err m written) (hok : err.failed = false) :
    Finished ef f s m := by
  have hsound := h.sound
  rw [RecvState.Sound, hret] at hsound
  obtain ⟨-, sum, theirs, hver⟩ := hsound hok
  obtain ⟨hcov, -⟩ := hver.digest rfl
  refine ⟨⟨err, written, hret, hok⟩, hcov.nonneg, ?_, h.replied err m written hret hok⟩
  cases hfailed : f.failed with
  | false => rw [hcov.hashed_eq, h.tracked hfailed, Store.read_ofBytes]
  | true =>
    -- nothing was hashed, so nothing was offered
    rcases h.broken hfailed with hnil | hdoomed
    · have hlen := congrArg List.length hcov.hashed_eq
      rw [hnil, Store.length_read, List.length_nil] at hlen
      rw [hnil, ← hlen, Bytes.resize_zero]
    · rw [hret] at hdoomed
      exact absurd (hok.symm.trans hdoomed) Bool.false_ne_true

theorem onFile_attempt (hwritten : 0 ≤ c.written)
    (htracked : f.failed = false → c.sink = Store.ofBytes f.view) (conn : ℕ) :
    (c.attempt (ef.call resume) conn).OnFile ef resume f last := by
  simp only [RecvCall.attempt]
  split
  · intro hok
    split at hok
    · rename_i hfail
      exact absurd (hok.symm.trans hfail) Bool.false_ne_true
    · cases hok
  · exact onFile_start hwritten htracked

theorem onFile_callStart (ef : FileEnv) (resume : ℤ) (f : BufferedFile) (last : Option RecvState) :
    (RecvCall.start (ef.call resume) (Store.ofBytes f.view)).OnFile ef resume f last := by
  simp only [RecvCall.start]
  split
  · intro hok
    cases hok
  · rename_i hneg
    exact onFile_attempt (not_lt.mp hneg) (fun _ => rfl) 0

/-- A step of `receive` that does not call the sink. -/
theorem RecvCall.OnFile.step (h : c.OnFile ef resume f last) {ev : RecvCallEv}
    (hev : ev.onSink = false) (hstep : recvCallStep (ef.call resume) c ev = some c') :
    c'.OnFile ef resume f (ev.left c last) := by
  cases recvCallTrans_of_step hstep with
  | once conn s s' ev hpc hs =>
    simp only [RecvCall.OnFile, hpc] at h
    exact h.step rfl hev hs
  | leave conn s err got n hpc hret =>
    simp only [RecvCall.OnFile, hpc] at h
    cases hok : err.failed with
    | false =>
      have hleft : RecvCallEv.leave.left c last = some s := by
        simp only [RecvCallEv.left, hpc, RecvCallPc.attempt]
      simp only [RecvCall.onResult, hok, Bool.not_false, if_true]
      exact fun _ => ⟨s, hleft, finished_of_onFile h hret hok⟩
    | true =>
      obtain ⟨hwritten, hsink, hpc'⟩ := c.onResult_failed (ef.call resume) hok got n s.store
      have hnonneg : 0 ≤ c.written := h.nonneg
      rcases hpc' with hret' | hredial
      · simp only [RecvCall.OnFile, hret']
        exact fun hbad => absurd (hbad.symm.trans hok) Bool.false_ne_true
      · simp only [RecvCall.OnFile, hredial, hwritten, hsink]
        exact ⟨le_max_of_le_left hnonneg, h.tracked⟩
  | noConn =>
    intro hok
    cases hok
  | redialed conn hpc =>
    simp only [RecvCall.OnFile, hpc] at h
    exact onFile_attempt h.1 h.2 conn

theorem pc_of_attempt (h : c.pc.attempt = some s) : ∃ conn, c.pc = .once conn s := by
  unfold RecvCallPc.attempt at h
  split at h
  · rename_i conn s' hpc
    cases h
    exact ⟨conn, hpc⟩
  · cases h

/-- A step of the attempt. -/
theorem step_of_once {er : RecvCallEnv} {conn : ℕ} (hpc : c.pc = .once conn s) {ev : RecvEv}
    (hstep : recvCallStep er c (.once ev) = some c') :
    ∃ t, recvStep (er.attempt c) s ev = some t ∧ c' = { c with pc := .once conn t } := by
  simp only [recvCallStep, recvCallStepWith, hpc] at hstep
  obtain ⟨t, ht, rfl⟩ := Option.map_eq_some_iff.mp hstep
  exact ⟨t, ht, rfl⟩

theorem RecvCall.OnFile.read (h : c.OnFile ef resume f last) (hat : c.pc.attempt = some s) {off : ℤ}
    {n : ℕ} (hcall : s.pc.readCall ((ef.call resume).attempt c) = some (off, n))
    (before : BufferedFile.Flush) (ok : Bool)
    (hstep : recvCallStep (ef.call resume)
      (c.shown off ((f.read off.toNat n before ok).2.getD []))
      (.once (.read (sinkError (f.read off.toNat n before ok).2.isNone))) = some c') :
    c'.OnFile ef resume (f.read off.toNat n before ok).1 last := by
  obtain ⟨conn, hpc⟩ := pc_of_attempt hat
  simp only [RecvCall.OnFile, hpc] at h
  simp only [RecvCall.shown, hpc] at hstep
  obtain ⟨t, ht, rfl⟩ := step_of_once rfl hstep
  exact h.read rfl hcall before ok ht

theorem RecvCall.OnFile.wrote (h : c.OnFile ef resume f last) (hat : c.pc.attempt = some s) {off : ℤ}
    {data : Bytes} (hcall : s.pc.writeCall = some (off, data)) (before after : BufferedFile.Flush)
    {junk : Store}
    (hstep : recvCallStep (ef.call resume) c
      (.once (.wrote (sinkError (f.write off.toNat data before after).failed) junk)) = some c') :
    c'.OnFile ef resume (f.write off.toNat data before after) last := by
  obtain ⟨conn, hpc⟩ := pc_of_attempt hat
  simp only [RecvCall.OnFile, hpc] at h
  obtain ⟨t, ht, rfl⟩ := step_of_once hpc hstep
  exact h.wrote rfl hcall before after ht

/-! ## What is in the file -/

/-- The invariant of a call of `receive_file`, up to the close. -/
def ReceiveFile.OnFile (e : FileEnv) (s : ReceiveFile) : Prop :=
  match s.pc with
  | .receiving resume f c => c.OnFile e resume f s.attempt
  | .closing err m f => err.failed = false → ∃ t, s.attempt = some t ∧ Finished e f t m
  | _ => True

theorem ReceiveFile.OnFile.step {s s' : ReceiveFile} {ev : FileEv} (h : s.OnFile ef)
    (hstep : fileStep ef s ev = some s') : s'.OnFile ef := by
  cases fileTrans_of_step hstep with
  | opened resume f ok _ _ => exact onFile_callStart ef resume f s.attempt
  | call resume f c c' ev hpc hev hcall =>
    simp only [ReceiveFile.OnFile, hpc] at h
    exact RecvCall.OnFile.step h hev hcall
  | read resume f c c' t off n before ok hpc hat hcall hread =>
    simp only [ReceiveFile.OnFile, hpc] at h
    exact RecvCall.OnFile.read h hat hcall before ok hread
  | wrote resume f c c' t off data before after hpc hat hcall hwrote =>
    simp only [ReceiveFile.OnFile, hpc] at h
    exact RecvCall.OnFile.wrote h hat hcall before after hwrote
  | returned resume f c err hpc hret =>
    simp only [ReceiveFile.OnFile, hpc, RecvCall.OnFile, hret] at h
    exact h
  | closed err m f lost hpc =>
    simp only [ReceiveFile.OnFile]
    split_ifs <;> trivial
  | _ => trivial

theorem onFile_reachable {dest : Option Bytes} {s : ReceiveFile}
    (h : Run (fileStep ef) (ReceiveFile.start dest) s) : s.OnFile ef :=
  Run.invariant (I := ReceiveFile.OnFile ef) (fun _ _ _ hI hstep => hI.step hstep) h trivial

/-- The destination holds what the last attempt, which succeeded with `m`, hashed and reported in its Done
reply. -/
structure InFile (e : FileEnv) (s : ReceiveFile) (m : Meta) (t : RecvState) (content : Bytes) :
    Prop where
  attempt_eq : s.attempt = some t
  returned : ∃ err written, t.pc = .ret err m written ∧ err.failed = false
  dest_eq : s.dest = some content
  length_eq : (content.length : ℤ) = m.size
  hashed_eq : content = t.hashed
  replied : encodeDone m.id true (e.sha256 content) ∈ t.sent

/-- The bytes of a received `m` are in the destination. -/
def ReceiveFile.Delivered (e : FileEnv) (s : ReceiveFile) (m : Meta) : Prop :=
  ∃ t content, InFile e s m t content

/-- Behind a `receive` that succeeded, `close` leaves the first `m.size` bytes as the stream showed them,
and `truncate` succeeds unless the file has that length already. -/
def Settles (s : ReceiveFile) : FileEv → Prop
  | .closed lost =>
    ∀ err m f, s.pc = .closing err m f → err.failed = false →
      (f.close lost).resize m.size.toNat = f.view.resize m.size.toNat
  | .truncated ok =>
    ∀ m content, s.pc = .truncating m → s.dest = some content →
      ok = true ∨ (content.length : ℤ) = m.size
  | _ => True

/-- Between the close and the truncation: cut or filled to its size, the file is what was hashed. -/
structure Closed (e : FileEnv) (s : ReceiveFile) (m : Meta) (t : RecvState) (content : Bytes) :
    Prop where
  attempt_eq : s.attempt = some t
  returned : ∃ err written, t.pc = .ret err m written ∧ err.failed = false
  dest_eq : s.dest = some content
  nonneg : 0 ≤ m.size
  hashed_eq : content.resize m.size.toNat = t.hashed
  replied : encodeDone m.id true (e.sha256 t.hashed) ∈ t.sent

theorem Closed.truncated {s : ReceiveFile} {m : Meta} {content : Bytes} (h : Closed ef s m t content)
    {ok : Bool} (hok : ok = true ∨ (content.length : ℤ) = m.size) :
    ReceiveFile.Delivered ef
      { s with
        pc := .ret .success m
        dest := if ok then s.dest.map (·.resize m.size.toNat) else s.dest } m := by
  have hnonneg := h.nonneg
  have hsize : (content.length : ℤ) = m.size → content.resize m.size.toNat = content := by
    intro hlen
    rw [← hlen, Int.toNat_natCast, Bytes.resize_self]
  have hdest : (if ok then s.dest.map (·.resize m.size.toNat) else s.dest) =
      some (content.resize m.size.toNat) := by
    rw [h.dest_eq]
    cases ok with
    | true => rfl
    | false => rw [hsize (hok.resolve_left Bool.false_ne_true)]; rfl
  refine ⟨t, content.resize m.size.toNat, h.attempt_eq, h.returned, hdest, ?_, h.hashed_eq, ?_⟩
  · rw [Bytes.length_resize]
    omega
  · rw [h.hashed_eq]
    exact h.replied

/-- The invariant behind the close, when every step settles the file. -/
def ReceiveFile.InPlace (e : FileEnv) (s : ReceiveFile) : Prop :=
  match s.pc with
  | .truncating m => ∃ t content, Closed e s m t content
  | .ret err m => err.failed = false → s.Delivered e m
  | _ => True

theorem ReceiveFile.InPlace.step {s s' : ReceiveFile} {ev : FileEv} (h : s.InPlace ef)
    (hon : s.OnFile ef) (hG : Settles s ev) (hstep : fileStep ef s ev = some s') : s'.InPlace ef := by
  cases fileTrans_of_step hstep with
  | noFile => exact fun hok => by cases hok
  | closed err m f lost hpc =>
    cases hok : err.failed with
    | true =>
      simp only [ReceiveFile.InPlace, if_true]
      exact fun hbad => absurd (hbad.symm.trans hok) Bool.false_ne_true
    | false =>
      simp only [ReceiveFile.OnFile, hpc] at hon
      obtain ⟨t, hat, hfin⟩ := hon hok
      have hkept := hG err m f hpc hok
      simp only [ReceiveFile.InPlace, Bool.false_eq_true, if_false]
      exact ⟨t, f.close lost, hat, hfin.returned, rfl, hfin.nonneg, hkept.trans hfin.hashed_eq.symm,
        hfin.replied⟩
  | truncated m ok hpc =>
    simp only [ReceiveFile.InPlace, hpc] at h
    obtain ⟨t, content, hclosed⟩ := h
    exact fun _ => hclosed.truncated (hG m content hpc hclosed.dest_eq)
  | _ => trivial

/-- A close and a truncation behind which the bytes are in the file have settled it. -/
theorem settles_of_delivered {s s₁ s₂ : ReceiveFile} {lost : Option Bytes} {ok : Bool} {err : ErrorCode}
    {m : Meta} (hon : s.OnFile ef) (hpc : s.pc = .closing err m f) (hok : err.failed = false)
    (hclosed : fileStep ef s (.closed lost) = some s₁)
    (htruncated : fileStep ef s₁ (.truncated ok) = some s₂) (h : s₂.Delivered ef m) :
    Settles s (.closed lost) ∧ Settles s₁ (.truncated ok) := by
  simp only [ReceiveFile.OnFile, hpc] at hon
  obtain ⟨t, hat, hfin⟩ := hon hok
  simp only [fileStep, hpc, hok, Bool.false_eq_true, if_false, Option.some.injEq] at hclosed
  subst hclosed
  simp only [fileStep, Option.some.injEq, Option.map_some] at htruncated
  subst htruncated
  obtain ⟨t', content, hin⟩ := h
  obtain rfl : t = t' := Option.some.inj (hat.symm.trans hin.attempt_eq)
  have hdest := hin.dest_eq
  have hlen := hin.length_eq
  -- the content is what the stream showed, cut to the size
  have hcontent : content = f.view.resize m.size.toNat := hin.hashed_eq.trans hfin.hashed_eq
  have hkept : (f.close lost).resize m.size.toNat = f.view.resize m.size.toNat ∧
      (ok = true ∨ ((f.close lost).length : ℤ) = m.size) := by
    cases ok with
    | true =>
      cases hdest
      exact ⟨hcontent, .inl rfl⟩
    | false =>
      cases hdest
      refine ⟨?_, .inr hlen⟩
      rw [← hcontent, ← hlen, Int.toNat_natCast, Bytes.resize_self]
  constructor
  · intro err' m' f' hpc' _
    cases hpc.symm.trans hpc'
    exact hkept.1
  · intro m' content' hpc' hdest'
    cases hpc'
    cases hdest'
    exact hkept.2

theorem inPlace_reachable {dest : Option Bytes} {s : ReceiveFile}
    (h : GRun (fileStep ef) Settles (ReceiveFile.start dest) s) : s.InPlace ef := by
  have hinv : s.OnFile ef ∧ s.InPlace ef := by
    refine GRun.invariant (I := fun s : ReceiveFile => s.OnFile ef ∧ s.InPlace ef) ?_ h
      ⟨trivial, trivial⟩
    intro s ev s' hI hG hstep
    exact ⟨hI.1.step hstep, hI.2.step hI.1 hG hstep⟩
  exact hinv.2

/-- **The bytes are in the file, if close and truncate bring them there.** Over any earlier content of
the destination, against any peer and with any pattern of failed flushes and reads on the way, a call
of `receive_file` whose close and truncation settle the file returns success only with the bytes in
place that its last attempt hashed and reported. A close or a truncation that does not settle the file
is not noticed: the call returns success, and the bytes are not in place. -/
theorem received_file_in_place (e : FileEnv) (dest : Option Bytes) :
    (∀ s err m, GRun (fileStep e) Settles (ReceiveFile.start dest) s → s.pc = .ret err m →
      err.failed = false → s.Delivered e m) ∧
      ∀ s s₁ s₂ err m f lost ok, Run (fileStep e) (ReceiveFile.start dest) s →
        s.pc = .closing err m f → err.failed = false → fileStep e s (.closed lost) = some s₁ →
        fileStep e s₁ (.truncated ok) = some s₂ →
        s₂.pc = .ret .success m ∧
          (s₂.Delivered e m ↔ Settles s (.closed lost) ∧ Settles s₁ (.truncated ok)) := by
  constructor
  · intro s err m h hret hok
    have hplace := inPlace_reachable h
    simp only [ReceiveFile.InPlace, hret] at hplace
    exact hplace hok
  · intro s s₁ s₂ err m f lost ok h hpc hok hclosed htruncated
    have hon := onFile_reachable h
    have hpc₂ : s₂.pc = .ret .success m := by
      simp only [fileStep, hpc, hok, Bool.false_eq_true, if_false, Option.some.injEq] at hclosed
      subst hclosed
      simp only [fileStep, Option.some.injEq] at htruncated
      subst htruncated
      rfl
    refine ⟨hpc₂, settles_of_delivered hon hpc hok hclosed htruncated, ?_⟩
    rintro ⟨hkept, hsized⟩
    have hplace : s.InPlace e := by
      simp only [ReceiveFile.InPlace, hpc]
    have hplace₂ := (hplace.step hon hkept hclosed).step (hon.step hclosed) hsized htruncated
    simp only [ReceiveFile.InPlace, hpc₂] at hplace₂
    exact hplace₂ rfl

/-- A call with the default options. -/
def sampleFileEnv : FileEnv where
  opts := none
  sha256 := sampleSha256
  ext := fun _ => ""

/-- `receive` of the rest of `abc` behind `off`: the offer is accepted, then one chunk, and the Done. -/
def sampleReceive (off : ℕ) (prefixRead : List FileEv) : List FileEv :=
  [.call (.once (.received (encodeOffer sampleMeta))), .call (.once (.sent .success))] ++ prefixRead ++
    [.call (.once (.received (.ok (encodeChunk sampleMeta.id off (sampleContent.drop off))))),
      .wrote .deferred .deferred, .call (.once (.sent .success)),
      .call (.once (.received (.ok (encodeDone sampleMeta.id true sampleDigest)))),
      .call (.once (.sent .success)), .call .leave, .returned]

/-- A destination that holds `a` already; everything is flushed by the close. -/
def resumedFileTrace : List FileEv :=
  [.stat true true, .opened true] ++ sampleReceive 1 [.read .deferred true] ++
    [.closed none, .truncated true]

theorem abc_resumed_in_place :
    ∃ s, GRun (fileStep sampleFileEnv) Settles (ReceiveFile.start (some [0x61])) s ∧
      s.pc = .ret .success sampleMeta ∧ s.Delivered sampleFileEnv sampleMeta := by
  have hG : ∀ ev ∈ resumedFileTrace, ∀ s, Settles s ev := by
    simp only [resumedFileTrace, sampleReceive, List.forall_mem_append, List.forall_mem_cons,
      List.not_mem_nil, false_implies, implies_true, and_true, Settles, BufferedFile.close,
      Option.getD_none, true_or]
  obtain ⟨s, hexec, hret⟩ :
      ∃ s, exec (fileStep sampleFileEnv) (ReceiveFile.start (some [0x61])) resumedFileTrace = some s ∧
        s.pc = .ret .success sampleMeta := ⟨_, rfl, rfl⟩
  have hrun := grun_of_exec hG hexec
  exact ⟨s, hrun, hret, (received_file_in_place sampleFileEnv (some [0x61])).1 s _ _ hrun hret rfl⟩

/-- A new destination; the flush of the close fails and leaves the file empty. -/
def lostFileTrace : List FileEv :=
  [.stat false false, .opened true, .created true, .opened true] ++ sampleReceive 0 [] ++
    [.closed (some []), .truncated true]

/-- `abc` is received and verified, `close` loses it, `truncate` fills the file with zeros, and
`receive_file` returns success. -/
theorem lost_close_not_noticed :
    ¬∀ (e : FileEnv) (dest : Option Bytes) (s : ReceiveFile) (err : ErrorCode) (m : Meta),
      Run (fileStep e) (ReceiveFile.start dest) s → s.pc = .ret err m → err.failed = false →
      s.Delivered e m := by
  intro h
  obtain ⟨s, hrun, hret, hdest, hhashed⟩ :
      ∃ s, Run (fileStep sampleFileEnv) (ReceiveFile.start none) s ∧
        s.pc = .ret .success sampleMeta ∧ s.dest = some [0, 0, 0] ∧
        s.attempt.map (·.hashed) = some sampleContent :=
    exists_run_of_exec lostFileTrace ⟨_, rfl, rfl, rfl, rfl⟩
  obtain ⟨t, content, hin⟩ := h sampleFileEnv none s _ _ hrun hret rfl
  rw [hin.attempt_eq, Option.map_some, ← hin.hashed_eq] at hhashed
  cases hdest.symm.trans (hin.dest_eq.trans hhashed)

end TcpDuplex.Transfer
