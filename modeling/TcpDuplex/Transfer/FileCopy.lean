import TcpDuplex.Transfer.SendFile

/-!
# A file is copied: `send_file` against `receive_file`

The two calls run against each other over connections that may do more harm than a `Conn` can: a frame that
was sent may arrive on any connection of the other side, late, again, out of order or not at all. What the
connections do not do is make up frames.

The destination may be missing, or hold a part of the file that an earlier call left there. The file is copied
in place: until the stream fails, what it shows is a prefix of the source at any time (`Bytes.writeAt_prefix`),
for a chunk is written where the file ends or inside it. That the writes do not leave a gap is not clear from
the resume offset alone, which may be that of a destination that was truncated since. But an attempt has read
the file up to the offset before it writes (`RecvPc.Reached`).
-/

namespace TcpDuplex.Transfer

open Machine

/-- The two calls, and the frames the receiver has sent. -/
structure FileCopy where
  send : SendFile
  recv : ReceiveFile
  replies : List Bytes

inductive FileCopyEv where
  | send (ev : SendFileEv)
  | recv (ev : FileEv)

/-- The message that `receive` returns with this event. -/
def SendFileEv.message : SendFileEv → Option Bytes
  | .call (.once (.received (.ok msg))) => some msg
  | _ => none

/-- The message that `receive` returns with this event. -/
def FileEv.message : FileEv → Option Bytes
  | .call (.once (.received (.ok msg))) => some msg
  | _ => none

/-- The frames that are sent with this event. -/
def FileEv.frames (e : FileEnv) (s : ReceiveFile) : FileEv → List Bytes
  | .call (.once (.sent ec)) =>
    match s.pc with
    | .receiving resume _ c =>
      match c.pc with
      | .once _ t => if ec.failed then [] else (t.pc.outgoing ((e.call resume).attempt c)).toList
      | _ => []
    | _ => []
  | _ => []

/-- Only a frame that was sent can arrive. -/
def arrives (pool : List Bytes) (msg : Option Bytes) : Bool :=
  msg.all fun b => pool.any fun sent => decide (sent = b)

/-- One step of the whole. -/
def copyStep (e : SendFileEnv) (ef : FileEnv) (s : FileCopy) : FileCopyEv → Option FileCopy
  | .send ev =>
    if arrives s.replies ev.message then
      (sendFileStep e s.send ev).map fun t => { s with send := t }
    else none
  | .recv ev =>
    if arrives s.send.sent ev.message then
      (fileStep ef s.recv ev).map fun t =>
        { s with recv := t, replies := s.replies ++ ev.frames ef s.recv }
    else none

/-- Both calls at their start. -/
def FileCopy.start (dest : Option Bytes) : FileCopy where
  send := SendFile.start
  recv := ReceiveFile.start dest
  replies := []

/-- The steps of the whole. -/
inductive CopyTrans (e : SendFileEnv) (ef : FileEnv) (s : FileCopy) : FileCopyEv → FileCopy → Prop where
  | send (ev : SendFileEv) (t : SendFile) (hmsg : ∀ msg, ev.message = some msg → msg ∈ s.replies)
      (hstep : sendFileStep e s.send ev = some t) : CopyTrans e ef s (.send ev) { s with send := t }
  | recv (ev : FileEv) (t : ReceiveFile) (hmsg : ∀ msg, ev.message = some msg → msg ∈ s.send.sent)
      (hstep : fileStep ef s.recv ev = some t) :
      CopyTrans e ef s (.recv ev) { s with recv := t, replies := s.replies ++ ev.frames ef s.recv }

variable {e : SendFileEnv} {ef : FileEnv} {s t : FileCopy}

theorem mem_of_arrives {pool : List Bytes} {got : Option Bytes} (h : arrives pool got = true) :
    ∀ msg, got = some msg → msg ∈ pool := by
  rintro msg rfl
  obtain ⟨sent, hmem, hsame⟩ := List.any_eq_true.mp h
  rwa [of_decide_eq_true hsame] at hmem

theorem copyTrans_of_step {ev : FileCopyEv} (h : copyStep e ef s ev = some t) :
    CopyTrans e ef s ev t := by
  cases ev with
  | send ev =>
    simp only [copyStep] at h
    split at h
    · rename_i harrives
      obtain ⟨t', hstep, rfl⟩ := Option.map_eq_some_iff.mp h
      exact .send ev t' (mem_of_arrives harrives) hstep
    · cases h
  | recv ev =>
    simp only [copyStep] at h
    split at h
    · rename_i harrives
      obtain ⟨t', hstep, rfl⟩ := Option.map_eq_some_iff.mp h
      exact .recv ev t' (mem_of_arrives harrives) hstep
    · cases h

/-! ## One attempt -/

/-- How far an attempt has got in a file of length `len`: what it has hashed of the file, or written, is
there. -/
def RecvPc.Reached (len : ℕ) : RecvPc → Prop
  | .hashAll _ off _ | .hashPrefix _ off _ => off ≤ len
  | .doneAll m _ => m.size ≤ len
  | .chunk _ _ written _ | .write _ _ written _ _ _ | .ack _ _ written | .done _ _ written
  | .reply _ written _ _ _ => written ≤ len
  | .ret err _ written => err.failed = false → written ≤ len
  | _ => True

section Attempt

variable {er : RecvEnv} {a b : RecvState} {len : ℕ}

theorem reached_ret {err : ErrorCode} (h : err.failed = true) (m : Meta) (written : ℤ) :
    (RecvPc.ret err m written).Reached len := by
  intro hok
  cases hok.symm.trans h

theorem reached_chunkHead {written : ℤ} (h : written ≤ len) (m : Meta) (hw : HashingWriter) (since : ℕ) :
    (chunkHead m hw written since).Reached len := by
  unfold chunkHead
  split <;> exact h

theorem reached_hashAllHead {off : ℤ} (h : off ≤ len) (m : Meta) (ctx : Bytes) :
    (hashAllHead er m off ctx).Reached len := by
  unfold hashAllHead
  split
  · exact h
  · rename_i hge
    exact (not_lt.mp hge).trans h

theorem reached_hashPrefixHead {off : ℤ} (h : off ≤ len) (m : Meta) (ctx : Bytes) :
    (hashPrefixHead er m off ctx).Reached len := by
  unfold hashPrefixHead
  split
  · exact h
  · rename_i hge
    exact reached_chunkHead ((not_lt.mp hge).trans h) m _ _

theorem reached_afterAccept (hreadable : er.readable = true) (m : Meta) :
    (afterAccept er m).Reached len := by
  have hzero : (0 : ℤ) ≤ len := Int.natCast_nonneg len
  unfold afterAccept
  rw [hreadable]
  simp only [if_true]
  split_ifs with hall hpos
  · exact reached_hashAllHead hzero m []
  · exact reached_hashPrefixHead hzero m []
  · exact reached_chunkHead ((not_lt.mp hpos).trans hzero) m _ _

theorem reached_onMessage {pc : RecvPc} (hwait : (pc.waiting er).isSome = true)
    (hsound : ∀ m sum, pc = .doneAll m sum → er.resumeOffset = m.size) (h : pc.Reached len)
    (msg : Bytes) : (pc.onMessage er msg).Reached len := by
  cases pc with
  | offer =>
    have hout := onOffer_outcome er msg
    rw [RecvPc.onMessage]
    generalize onOffer er msg = pc at hout ⊢
    cases hout with
    | failed err herr => exact reached_ret herr _ _
    | refused => trivial
    | taken => trivial
  | doneAll m sum =>
    have hout := onDone_outcome m er.resumeOffset sum msg
    rw [RecvPc.onMessage]
    generalize onDone m er.resumeOffset sum msg = pc at hout ⊢
    cases hout with
    | failed err herr => exact reached_ret herr _ _
    | replies => exact (hsound m sum rfl).le.trans h
  | chunk m hw written since =>
    have hout := onChunk_outcome er m hw written since msg
    rw [RecvPc.onMessage]
    generalize onChunk er m hw written since msg = pc at hout ⊢
    cases hout with
    | failed err herr => exact reached_ret herr _ _
    | misplaced => trivial
    | writes => exact h
    | replies => exact h
  | done m hw written =>
    have hout := onDone_outcome m written (er.sha256 hw.ctx) msg
    rw [RecvPc.onMessage]
    generalize onDone m written (er.sha256 hw.ctx) msg = pc at hout ⊢
    cases hout with
    | failed err herr => exact reached_ret herr _ _
    | replies => exact h
  | _ => cases hwait

theorem reached_afterWrite {written : ℤ} (h : written ≤ len) (m : Meta) (hw : HashingWriter)
    (since : ℕ) : (afterWrite er m hw written since).Reached len := by
  unfold afterWrite
  split
  · exact h
  · exact reached_chunkHead h m hw since

theorem RecvPc.Doomed.reached {pc : RecvPc} (h : pc.Doomed) : pc.Reached len := by
  cases pc with
  | abort => trivial
  | ret err m written => exact reached_ret h m written
  | _ => exact absurd h id

/-- A step that does not call the sink. -/
theorem RecvPc.Reached.step (hreadable : er.readable = true) (hsound : a.Sound er)
    (h : a.pc.Reached len) {ev : RecvEv} (hev : (RecvCallEv.once ev).onSink = false)
    (hstep : recvStep er a ev = some b) : b.pc.Reached len := by
  unfold RecvState.Sound at hsound
  cases recvTrans_of_step hstep with
  | lost m written ec _ hec => exact reached_ret (failed_mapConnErr hec) _ _
  | message msg hwait =>
    refine reached_onMessage hwait (fun m sum hpc => ?_) h msg
    rw [hpc] at hsound
    exact hsound.2.1
  | sendFailed msg ec hout hec =>
    generalize a.pc = pc at hsound hout h ⊢
    cases pc with
    | reject m reason err out => exact reached_ret hsound _ _
    | accept m => exact reached_ret (failed_mapConnErr hec) _ _
    | abort m written err => exact reached_ret hsound.1 _ _
    | ack m hw written => exact reached_ret (failed_mapConnErr hec) _ _
    | reply m written ok sum theirs => exact reached_ret (failed_mapConnErr hec) _ _
    | _ => cases hout
  | sent msg ec hout hec =>
    dsimp only
    generalize a.pc = pc at hsound hout h ⊢
    cases pc with
    | reject m reason err out => exact reached_ret hsound _ _
    | accept m => exact reached_afterAccept hreadable m
    | abort m written err => exact reached_ret hsound.1 _ _
    | ack m hw written => exact reached_chunkHead h m hw 0
    | reply m written ok sum theirs => exact fun _ => h
    | _ => cases hout
  | _ => cases hev

/-- A block that was read lies in the file. -/
theorem reached_of_read {off : ℤ} {n : ℕ} (hcall : a.pc.readCall er = some (off, n)) (hoff : 0 ≤ off)
    (hin : off.toNat + n ≤ len) {store : Store}
    (hstep : recvStep er { a with store := store } (.read .success) = some b) : b.pc.Reached len := by
  cases recvTrans_of_step hstep with
  | hashAllFailed _ _ _ _ _ hfail => cases hfail
  | hashPrefixFailed _ _ _ _ _ hfail => cases hfail
  | hashAll m off' ctx block _ hpc _ hblock =>
    rw [hpc] at hcall
    cases hcall
    refine reached_hashAllHead ?_ m _
    rw [hblock, Store.length_read]
    omega
  | hashPrefix m off' ctx block _ hpc _ hblock =>
    rw [hpc] at hcall
    cases hcall
    refine reached_hashPrefixHead ?_ m _
    rw [hblock, Store.length_read]
    omega

/-- Only a message leads to a write. -/
theorem carries_of_step {source : Store} {ev : RecvEv}
    (hmsg : ∀ msg, ev = .received (.ok msg) → ChunkOf source msg)
    (hstep : recvStep er a ev = some b) : b.pc.Carries source := by
  cases recvTrans_of_step hstep with
  | message msg hwait => exact (stands_onMessage hwait (hmsg msg rfl)).carries
  | sendFailed msg ec hout _ => exact (stands_onSendFailed hout ec).carries
  | sent msg ec hout _ => exact (stands_onSent hout).carries
  | hashAll m off ctx block _ _ _ _ => exact (onward_hashAllHead er m _ _).stands.carries
  | hashPrefix m off ctx block _ _ _ _ => exact (onward_hashPrefixHead er m _ _).stands.carries
  | wrote m hw written since off data _ _ _ _ =>
    rw [RecvState.report_pc]
    exact (onward_afterWrite er m _ _ _).stands.carries
  | _ => trivial

/-- The invariant of an attempt on the stream `f` that is fed the frames of the file. -/
structure RecvState.Copies (e : SendFileEnv) (er : RecvEnv) (f : BufferedFile) (a : RecvState) : Prop where
  onFile : a.OnFile er f
  honest : ∀ msg ∈ a.received, FileFrame e msg
  carries : a.pc.Carries (Store.ofBytes e.content)
  reached : f.failed = false → a.pc.Reached f.view.length
  shows : f.failed = false → f.view <+: e.content

variable {f : BufferedFile}

theorem copies_newAttempt {sink : Store} (hon : (RecvState.start sink).OnFile er f)
    (hshows : f.failed = false → f.view <+: e.content) : (RecvState.start sink).Copies e er f where
  onFile := hon
  honest := by rintro _ ⟨⟩
  carries := trivial
  reached := fun _ => trivial
  shows := hshows

theorem SendFileEnv.size_lt (e : SendFileEnv) : e.offered.size < 2 ^ 63 := by
  have hlt := e.length_lt
  show (e.content.length : ℤ) < 2 ^ 63
  omega

theorem chunkOf_of_fileFrame {msg : Bytes} (h : FileFrame e msg) :
    ChunkOf (Store.ofBytes e.content) msg :=
  fun _ hdec htyp => h.data_eq (m := e.offered) e.size_lt hdec htyp

/-- The first frame can only be the offer of the file. -/
theorem RecvState.Copies.info_eq (h : a.Copies e er f) {m : Meta} (hoffered : Offered a.received m) :
    m = e.offered := by
  obtain ⟨msg, dec, hhead, hdec, htyp, rfl⟩ := hoffered
  exact (h.honest msg (List.mem_of_mem_head? hhead)).info_eq (m := e.offered) e.size_lt hdec htyp

/-- The frames behind a step. -/
theorem RecvState.Copies.honest_of_step (h : a.Copies e er f) {ev : RecvEv} (store : Store)
    (hmsg : ∀ msg, ev = .received (.ok msg) → FileFrame e msg)
    (hstep : recvStep er { a with store := store } ev = some b) : ∀ msg ∈ b.received, FileFrame e msg := by
  rcases received_of_recvStep hstep with heq | ⟨msg, hev, heq⟩
  · rw [heq]
    exact h.honest
  · rw [heq]
    exact List.forall_mem_append.mpr ⟨h.honest, List.forall_mem_singleton.mpr (hmsg msg hev)⟩

/-- A step that does not call the sink. -/
theorem RecvState.Copies.step (hreadable : er.readable = true) (h : a.Copies e er f) {ev : RecvEv}
    (hmsg : ∀ msg, ev = .received (.ok msg) → FileFrame e msg)
    (hev : (RecvCallEv.once ev).onSink = false) (hstep : recvStep er a ev = some b) :
    b.Copies e er f where
  onFile := h.onFile.step hreadable hev hstep
  honest := h.honest_of_step a.store hmsg hstep
  carries := carries_of_step (fun msg heq => chunkOf_of_fileFrame (hmsg msg heq)) hstep
  reached := fun hok => (h.reached hok).step hreadable h.onFile.sound hev hstep
  shows := h.shows

/-- A `read_at` on the stream. -/
theorem RecvState.Copies.read (hreadable : er.readable = true) (h : a.Copies e er f) {off : ℤ} {n : ℕ}
    (hcall : a.pc.readCall er = some (off, n)) (before : BufferedFile.Flush) (ok : Bool)
    (hstep : recvStep er
        { a with store := a.store.write off ((f.read off.toNat n before ok).2.getD []) }
        (.read (sinkError (f.read off.toNat n before ok).2.isNone)) = some b) :
    b.Copies e er (f.read off.toNat n before ok).1 := by
  have hon := h.onFile.read hreadable hcall before ok hstep
  have hhonest := h.honest_of_step _ (by rintro _ ⟨⟩) hstep
  have hcarries : b.pc.Carries (Store.ofBytes e.content) := carries_of_step (by rintro _ ⟨⟩) hstep
  rcases f.read_cases off.toNat n before ok with
    ⟨data, hdata, hok, hok', hview, -, hin⟩ | ⟨hnone, hfailed⟩
  · refine ⟨hon, hhonest, hcarries, fun _ => ?_, fun _ => ?_⟩
    · rw [hdata] at hstep
      rw [hview]
      exact reached_of_read hcall (nonneg_of_readCall h.onFile.sound hcall) hin hstep
    · rw [hview]
      exact h.shows hok
  · exact ⟨hon, hhonest, hcarries, fun hok => absurd (hok.symm.trans hfailed) Bool.false_ne_true,
      fun hok => absurd (hok.symm.trans hfailed) Bool.false_ne_true⟩

/-- A `write_at` on the stream. -/
theorem RecvState.Copies.wrote (hreadable : er.readable = true) (h : a.Copies e er f) {off : ℤ}
    {data : Bytes} (hcall : a.pc.writeCall = some (off, data)) (before after : BufferedFile.Flush)
    {junk : Store}
    (hstep : recvStep er a (.wrote (sinkError (f.write off.toNat data before after).failed) junk) =
      some b) :
    b.Copies e er (f.write off.toNat data before after) := by
  have hon := h.onFile.wrote hreadable hcall before after hstep
  have hhonest := h.honest_of_step a.store (by rintro _ ⟨⟩) hstep
  have hcarries : b.pc.Carries (Store.ofBytes e.content) := carries_of_step (by rintro _ ⟨⟩) hstep
  cases hfailed : (f.write off.toNat data before after).failed with
  | true =>
    exact ⟨hon, hhonest, hcarries, fun hok => absurd (hok.symm.trans hfailed) Bool.false_ne_true,
      fun hok => absurd (hok.symm.trans hfailed) Bool.false_ne_true⟩
  | false =>
    rw [hfailed] at hstep
    obtain ⟨hok, hview⟩ := BufferedFile.view_write hfailed
    cases recvTrans_of_step hstep with
    | writeFailed _ _ _ _ _ _ _ _ _ hec => cases hec
    | wrote m hw written since off' data' ec junk' hpc _ =>
      rw [hpc] at hcall
      cases hcall
      have hsound := h.onFile.sound
      have hreached := h.reached hok
      have hdata := h.carries
      simp only [RecvState.Sound, hpc] at hsound
      rw [hpc] at hreached hdata
      obtain ⟨hoffered, hfol, rfl, hfit⟩ := hsound
      obtain rfl := h.info_eq hoffered
      obtain ⟨k, rfl⟩ := Int.eq_ofNat_of_zero_le hfol.covers.nonneg
      have hlen : k ≤ f.view.length := Int.ofNat_le.mp hreached
      have hin : k + data.length ≤ e.content.length := Int.ofNat_le.mp hfit
      rw [Int.toNat_natCast] at hview
      refine ⟨hon, hhonest, hcarries, fun _ => ?_, fun _ => ?_⟩
      · rw [RecvState.report_pc, Int.toNat_natCast, hview]
        exact reached_afterWrite (Int.ofNat_le.mpr (Bytes.le_length_writeAt hlen data)) _ _ _
      · have hpiece : data = (e.content.drop k).take data.length := by
          rw [← Store.read_ofBytes_eq hin]
          exact hdata
        rw [Int.toNat_natCast, hview, hpiece]
        exact Bytes.writeAt_prefix (h.shows hok) hlen hin

/-- The attempt returned success only with the file that was offered, whole. -/
def RecvState.Exact (e : SendFileEnv) (a : RecvState) : Prop :=
  ∀ err m written, a.pc = .ret err m written → err.failed = false →
    m = e.offered ∧ a.hashed = e.content

theorem RecvState.Copies.exact (hreadable : er.readable = true) (h : a.Copies e er f) : a.Exact e := by
  intro err m written hpc hok
  have hsound := h.onFile.sound
  rw [RecvState.Sound, hpc] at hsound
  obtain ⟨hwritten, sum, theirs, hver⟩ := hsound hok
  obtain ⟨hcov, -⟩ := hver.digest hreadable
  obtain rfl := h.info_eq hver.offered
  refine ⟨rfl, ?_⟩
  have hhashed : a.hashed = a.store.read 0 e.content.length := hcov.hashed_eq
  cases hfailed : f.failed with
  | false =>
    have hreached := h.reached hfailed
    rw [hpc] at hreached
    have hlen : e.content.length ≤ f.view.length := by
      have hle := hreached hok
      rw [hwritten] at hle
      exact Int.ofNat_le.mp hle
    have hview : f.view = e.content := (h.shows hfailed).eq_of_length_le hlen
    rw [hhashed, h.onFile.tracked hfailed, Store.read_ofBytes, hview, Bytes.resize_self]
  | true =>
    -- nothing was hashed, so the file is empty
    rcases h.onFile.broken hfailed with hnil | hdoomed
    · have hlen := congrArg List.length hhashed
      rw [hnil, Store.length_read, List.length_nil] at hlen
      rw [hnil, List.length_eq_zero_iff.mp hlen.symm]
    · rw [hpc] at hdoomed
      cases hok.symm.trans hdoomed

end Attempt

/-! ## `receive_file` -/

/-- The invariant of a call of `receive` on the stream `f`. -/
structure RecvCall.Copies (e : SendFileEnv) (ef : FileEnv) (resume : ℤ) (f : BufferedFile)
    (c : RecvCall) : Prop where
  shows : f.failed = false → f.view <+: e.content
  attempt : ∀ conn a, c.pc = .once conn a → a.Copies e ((ef.call resume).attempt c) f

section Call

variable {resume : ℤ} {f : BufferedFile} {c c' : RecvCall} {last : Option RecvState}

/-- A new attempt. -/
theorem copies_attempt {conn : ℕ} (hon : (c.attempt (ef.call resume) conn).OnFile ef resume f last)
    (hshows : f.failed = false → f.view <+: e.content) :
    (c.attempt (ef.call resume) conn).Copies e ef resume f := by
  refine ⟨hshows, fun conn' a hpc => ?_⟩
  rw [RecvCall.OnFile, hpc] at hon
  simp only [RecvCall.attempt] at hpc
  split_ifs at hpc
  obtain ⟨-, rfl⟩ := RecvCallPc.once.inj hpc
  exact copies_newAttempt hon hshows

theorem copies_callStart (hshows : f.failed = false → f.view <+: e.content) :
    (RecvCall.start (ef.call resume) (Store.ofBytes f.view)).Copies e ef resume f := by
  have hon := onFile_callStart ef resume f none
  simp only [RecvCall.start] at hon ⊢
  split_ifs at hon ⊢
  · exact ⟨hshows, by rintro _ _ ⟨⟩⟩
  · exact copies_attempt hon hshows

/-- A step of `receive` that does not call the sink. -/
theorem RecvCall.Copies.step (h : c.Copies e ef resume f) (hon : c.OnFile ef resume f last)
    {ev : RecvCallEv} (hev : ev.onSink = false)
    (hmsg : ∀ msg, ev = .once (.received (.ok msg)) → FileFrame e msg)
    (hstep : recvCallStep (ef.call resume) c ev = some c') : c'.Copies e ef resume f := by
  have hon' := hon.step hev hstep
  cases recvCallTrans_of_step hstep with
  | once conn a b ev hpc hs =>
    refine ⟨h.shows, fun conn' b' hpc' => ?_⟩
    obtain ⟨-, rfl⟩ := RecvCallPc.once.inj hpc'
    exact (h.attempt conn a hpc).step rfl (fun msg heq => hmsg msg (by rw [heq])) hev hs
  | leave conn a err got n hpc hret =>
    refine ⟨h.shows, fun conn' b hpc' => ?_⟩
    simp only [RecvCall.onResult] at hpc'
    split_ifs at hpc'
  | noConn => exact ⟨h.shows, by rintro _ _ ⟨⟩⟩
  | redialed conn hpc => exact copies_attempt hon' h.shows

theorem RecvCall.Copies.read (h : c.Copies e ef resume f) {a : RecvState}
    (hat : c.pc.attempt = some a) {off : ℤ} {n : ℕ}
    (hcall : a.pc.readCall ((ef.call resume).attempt c) = some (off, n))
    (before : BufferedFile.Flush) (ok : Bool)
    (hstep : recvCallStep (ef.call resume)
      (c.shown off ((f.read off.toNat n before ok).2.getD []))
      (.once (.read (sinkError (f.read off.toNat n before ok).2.isNone))) = some c') :
    c'.Copies e ef resume (f.read off.toNat n before ok).1 := by
  obtain ⟨conn, hpc⟩ := pc_of_attempt hat
  simp only [RecvCall.shown, hpc] at hstep
  obtain ⟨b, hb, rfl⟩ := step_of_once rfl hstep
  have hcopies := (h.attempt conn a hpc).read rfl hcall before ok hb
  refine ⟨hcopies.shows, fun conn' b' hpc' => ?_⟩
  obtain ⟨-, rfl⟩ := RecvCallPc.once.inj hpc'
  exact hcopies

theorem RecvCall.Copies.wrote (h : c.Copies e ef resume f) {a : RecvState}
    (hat : c.pc.attempt = some a) {off : ℤ} {data : Bytes} (hcall : a.pc.writeCall = some (off, data))
    (before after : BufferedFile.Flush) {junk : Store}
    (hstep : recvCallStep (ef.call resume) c
      (.once (.wrote (sinkError (f.write off.toNat data before after).failed) junk)) = some c') :
    c'.Copies e ef resume (f.write off.toNat data before after) := by
  obtain ⟨conn, hpc⟩ := pc_of_attempt hat
  obtain ⟨b, hb, rfl⟩ := step_of_once hpc hstep
  have hcopies := (h.attempt conn a hpc).wrote rfl hcall before after hb
  refine ⟨hcopies.shows, fun conn' b' hpc' => ?_⟩
  obtain ⟨-, rfl⟩ := RecvCallPc.once.inj hpc'
  exact hcopies

end Call

/-- `receive` has not been called yet. -/
def FilePc.Before : FilePc → Prop
  | .stat | .opening _ | .creating _ | .reopening _ => True
  | _ => False

/-- The invariant of a call of `receive_file` that is fed the frames of the file: while no stream is open on
it the destination is a prefix of the file, and every attempt that succeeded had all of it. -/
structure ReceiveFile.Copies (e : SendFileEnv) (ef : FileEnv) (s : ReceiveFile) : Prop where
  onFile : s.OnFile ef
  last : ∀ a, s.attempt = some a → a.Exact e
  dest : ∀ content, s.pc.Before → s.dest = some content → content <+: e.content
  call : ∀ resume f c, s.pc = .receiving resume f c → c.Copies e ef resume f

section File

variable {r r' : ReceiveFile}

/-- The attempt that a step of `receive` leaves. -/
theorem exact_left {resume : ℤ} {f : BufferedFile} {c : RecvCall} (h : c.Copies e ef resume f)
    (hlast : ∀ a, r.attempt = some a → a.Exact e) {ev : RecvCallEv} {a : RecvState}
    (hleft : ev.left c r.attempt = some a) : a.Exact e := by
  cases ev with
  | leave =>
    obtain ⟨conn, hpc⟩ := pc_of_attempt hleft
    exact (h.attempt conn a hpc).exact rfl
  | once => exact hlast a hleft
  | redialed => exact hlast a hleft

/-- A stream that has been opened shows the destination. -/
theorem view_openFile {dest : Option Bytes} {ok : Bool} {f : BufferedFile}
    (h : openFile dest ok = some f) : dest = some f.view := by
  unfold openFile at h
  split at h
  · obtain ⟨content, hdest, rfl⟩ := Option.map_eq_some_iff.mp h
    exact hdest
  · cases h

theorem ReceiveFile.Copies.step (h : r.Copies e ef) {ev : FileEv}
    (hmsg : ∀ msg, ev.message = some msg → FileFrame e msg) (hstep : fileStep ef r ev = some r') :
    r'.Copies e ef := by
  have hon := h.onFile.step hstep
  cases fileTrans_of_step hstep with
  | stat opened told hpc =>
    exact ⟨hon, h.last, fun content _ => h.dest content (by rw [hpc]; trivial), by rintro _ _ _ ⟨⟩⟩
  | opened resume f ok hpc hopen =>
    have hbefore : r.pc.Before := by
      rcases hpc with hpc | hpc <;> rw [hpc] <;> trivial
    refine ⟨hon, h.last, fun _ hnot => absurd hnot id, ?_⟩
    rintro _ _ _ ⟨⟩
    exact copies_callStart fun _ => h.dest f.view hbefore (view_openFile hopen)
  | missing resume ok hpc hopen =>
    exact ⟨hon, h.last, fun content _ => h.dest content (by rw [hpc]; trivial), by rintro _ _ _ ⟨⟩⟩
  | noFile resume ok hpc hopen =>
    exact ⟨hon, h.last, fun _ hnot => absurd hnot id, by rintro _ _ _ ⟨⟩⟩
  | created resume ok hpc =>
    refine ⟨hon, h.last, fun content _ hdest => ?_, by rintro _ _ _ ⟨⟩⟩
    cases ok with
    | true =>
      cases hdest
      exact List.nil_prefix
    | false => exact h.dest content (by rw [hpc]; trivial) hdest
  | call resume f c c' ev hpc hev hcall =>
    have hcopies := h.call resume f c hpc
    have honCall : c.OnFile ef resume f r.attempt := by
      have honFile := h.onFile
      rwa [ReceiveFile.OnFile, hpc] at honFile
    refine ⟨hon, fun a hleft => exact_left hcopies h.last hleft, fun _ hnot => absurd hnot id, ?_⟩
    rintro _ _ _ ⟨⟩
    refine hcopies.step honCall hev (fun msg heq => hmsg msg ?_) hcall
    rw [heq]
    rfl
  | read resume f c c' a off n before ok hpc hat hread hcall =>
    refine ⟨hon, h.last, fun _ hnot => absurd hnot id, ?_⟩
    rintro _ _ _ ⟨⟩
    exact (h.call resume f c hpc).read hat hread before ok hcall
  | wrote resume f c c' a off data before after hpc hat hwrite hcall =>
    refine ⟨hon, h.last, fun _ hnot => absurd hnot id, ?_⟩
    rintro _ _ _ ⟨⟩
    exact (h.call resume f c hpc).wrote hat hwrite before after hcall
  | returned => exact ⟨hon, h.last, fun _ hnot => absurd hnot id, by rintro _ _ _ ⟨⟩⟩
  | closed err m f lost hpc =>
    refine ⟨hon, h.last, fun content hbefore => ?_, fun resume f c hpc' => ?_⟩
    · dsimp only at hbefore
      split_ifs at hbefore <;> exact absurd hbefore id
    · dsimp only at hpc'
      split_ifs at hpc'
  | truncated => exact ⟨hon, h.last, fun _ hnot => absurd hnot id, by rintro _ _ _ ⟨⟩⟩

theorem copies_fileStart {dest : Option Bytes} (hdest : ∀ content, dest = some content →
    content <+: e.content) : (ReceiveFile.start dest).Copies e ef where
  onFile := trivial
  last := by rintro _ ⟨⟩
  dest := fun content _ => hdest content
  call := by rintro _ _ _ ⟨⟩

/-! ### What the receiver has decided -/

/-- `receive` has succeeded, or its attempt has: `receive_file` can only return success. -/
def ReceiveFile.Decided (r : ReceiveFile) : Prop :=
  match r.pc with
  | .receiving _ _ c => c.Decided
  | .closing err _ _ => err.failed = false
  | .truncating _ => True
  | .ret err _ => err.failed = false
  | _ => False

theorem not_decided_of_call {c : RecvCall} {a : RecvState} (hat : c.pc.attempt = some a)
    (hret : ∀ err m written, a.pc ≠ .ret err m written) : ¬c.Decided := by
  obtain ⟨conn, hpc⟩ := pc_of_attempt hat
  intro hdec
  rw [RecvCall.Decided, hpc] at hdec
  obtain ⟨err, m, written, hpc', -⟩ := hdec
  exact hret err m written hpc'

theorem ReceiveFile.Decided.step (h : r.Decided) {ev : FileEv} (hstep : fileStep ef r ev = some r') :
    r'.Decided := by
  cases fileTrans_of_step hstep with
  | stat opened told hpc => simp only [ReceiveFile.Decided, hpc] at h
  | opened resume f ok hpc hopen =>
    rcases hpc with hpc | hpc <;> simp only [ReceiveFile.Decided, hpc] at h
  | missing resume ok hpc => simp only [ReceiveFile.Decided, hpc] at h
  | noFile resume ok hpc => simp only [ReceiveFile.Decided, hpc] at h
  | created resume ok hpc => simp only [ReceiveFile.Decided, hpc] at h
  | call resume f c c' ev hpc hev hcall =>
    simp only [ReceiveFile.Decided, hpc] at h
    exact RecvCall.Decided.step h hcall
  | read resume f c c' a off n before ok hpc hat hread hcall =>
    simp only [ReceiveFile.Decided, hpc] at h
    refine absurd h (not_decided_of_call hat fun err m written hret => ?_)
    rw [hret] at hread
    cases hread
  | wrote resume f c c' a off data before after hpc hat hwrite hcall =>
    simp only [ReceiveFile.Decided, hpc] at h
    refine absurd h (not_decided_of_call hat fun err m written hret => ?_)
    rw [hret] at hwrite
    cases hwrite
  | returned resume f c err hpc hret =>
    simp only [ReceiveFile.Decided, hpc, RecvCall.Decided, hret] at h
    exact h
  | closed err m f lost hpc =>
    simp only [ReceiveFile.Decided, hpc] at h
    simp only [ReceiveFile.Decided, h, Bool.false_eq_true, if_false]
  | truncated => rfl

/-- A Done with `ok` is sent only by a receiver that has decided. -/
theorem decided_of_frames {ev : FileEv} {msg : Bytes} (hmem : msg ∈ ev.frames ef r) (hdone : DoneOk msg)
    (hstep : fileStep ef r ev = some r') : r'.Decided := by
  unfold FileEv.frames at hmem
  split at hmem
  · rename_i ec
    split at hmem
    · rename_i resume f c hpc
      split at hmem
      · rename_i conn a hpc'
        split_ifs at hmem with hec
        · cases hmem
        · have hout := Option.mem_toList.mp hmem
          simp only [fileStep, hpc, RecvCallEv.onSink, Bool.false_eq_true, if_false] at hstep
          obtain ⟨c', hcall, rfl⟩ := Option.map_eq_some_iff.mp hstep
          obtain ⟨b, hb, rfl⟩ := step_of_once hpc' hcall
          have hdec : RecvCall.Decided { c with pc := .once conn b } :=
            decided_of_doneOk hout hdone (Bool.eq_false_iff.mpr hec) hb
          exact hdec
      · cases hmem
    · cases hmem
  · cases hmem

end File

/-! ## The whole -/

/-- `send` has succeeded, or its attempt has. -/
def SendFile.Succeeded (s : SendFile) : Prop :=
  match s.pc with
  | .sending _ _ c => c.Succeeded
  | .ret err => err.failed = false
  | _ => False

/-- A call of `send_file` comes to success only on a Done with `ok`. -/
theorem succeeded_of_sendFileStep {u v : SendFile} {ev : SendFileEv}
    (hstep : sendFileStep e u ev = some v) (h : v.Succeeded) :
    u.Succeeded ∨ ∃ msg, ev.message = some msg ∧ DoneOk msg := by
  cases sendFileTrans_of_step hstep with
  | opened => exact absurd h id
  | notOpened => cases h
  | told => exact absurd h (not_succeeded_sendStart _)
  | notTold =>
    simp only [SendFile.Succeeded] at h
    exact absurd h (not_succeeded_sendStart _)
  | call size f c c' ev hpc hev hcall =>
    simp only [SendFile.Succeeded, hpc]
    refine (succeeded_of_step hcall h).imp id ?_
    rintro ⟨msg, rfl, hdone⟩
    exact ⟨msg, rfl, hdone⟩
  | read size f c c' off n ok hpc hread hcall =>
    simp only [SendFile.Succeeded, hpc]
    refine (succeeded_of_step hcall h).imp id ?_
    rintro ⟨msg, hev, -⟩
    unfold SendCall.readEv at hev
    split at hev <;> cases hev
  | returned size f c err hpc hret =>
    refine .inl ?_
    simp only [SendFile.Succeeded, hpc, SendCall.Succeeded, hret]
    exact h

/-- The invariant of the two calls. -/
structure FileCopy.Ok (e : SendFileEnv) (ef : FileEnv) (s : FileCopy) : Prop where
  send_ok : s.send.Ok e
  recv_ok : s.recv.Copies e ef
  done : ∀ msg ∈ s.replies, DoneOk msg → s.recv.Decided
  success : s.send.Succeeded → s.recv.Decided

theorem FileCopy.Ok.step (h : s.Ok e ef) {ev : FileCopyEv} (hstep : copyStep e ef s ev = some t) :
    t.Ok e ef := by
  cases copyTrans_of_step hstep with
  | send ev u hmsg hs =>
    refine ⟨h.send_ok.step hs, h.recv_ok, h.done, fun hsucc => ?_⟩
    rcases succeeded_of_sendFileStep hs hsucc with hold | ⟨msg, hgot, hdone⟩
    · exact h.success hold
    · exact h.done msg (hmsg msg hgot) hdone
  | recv ev r hmsg hs =>
    refine ⟨h.send_ok, h.recv_ok.step (fun msg hgot => h.send_ok.frames msg (hmsg msg hgot)) hs,
      fun msg hmem hdone => ?_, fun hsucc => (h.success hsucc).step hs⟩
    rcases List.mem_append.mp hmem with hold | hnew
    · exact (h.done msg hold hdone).step hs
    · exact decided_of_frames hnew hdone hs

theorem ok_fileCopyStart {dest : Option Bytes} (hdest : ∀ content, dest = some content →
    content <+: e.content) : (FileCopy.start dest).Ok e ef where
  send_ok := ok_sendFileStart e
  recv_ok := copies_fileStart hdest
  done := by rintro _ ⟨⟩
  success := id

theorem ok_of_copyRun {dest : Option Bytes} (hdest : ∀ content, dest = some content →
    content <+: e.content) (h : Run (copyStep e ef) (FileCopy.start dest) s) : s.Ok e ef :=
  Run.invariant (I := FileCopy.Ok e ef) (fun _ _ _ hI hstep => hI.step hstep) h (ok_fileCopyStart hdest)

/-- The close and the truncation settle the file, as in `Settles`. -/
def CopySettles (s : FileCopy) : FileCopyEv → Prop
  | .send _ => True
  | .recv ev => Settles s.recv ev

theorem inPlace_of_copyRun {dest : Option Bytes}
    (h : GRun (copyStep e ef) CopySettles (FileCopy.start dest) s) : s.recv.InPlace ef := by
  have hinv : s.recv.OnFile ef ∧ s.recv.InPlace ef := by
    refine GRun.invariant (I := fun s : FileCopy => s.recv.OnFile ef ∧ s.recv.InPlace ef) ?_ h
      ⟨trivial, trivial⟩
    intro s ev t hI hG hstep
    cases copyTrans_of_step hstep with
    | send => exact hI
    | recv ev r _ hs => exact ⟨hI.1.step hs, hI.2.step hI.1 hG hs⟩
  exact hinv.2

theorem copied_of_ret {dest : Option Bytes} (hdest : ∀ content, dest = some content →
    content <+: e.content) (h : GRun (copyStep e ef) CopySettles (FileCopy.start dest) s)
    {err : ErrorCode} {m : Meta} (hret : s.recv.pc = .ret err m) (hok : err.failed = false) :
    m = e.offered ∧ s.recv.dest = some e.content := by
  have hplace := inPlace_of_copyRun h
  rw [ReceiveFile.InPlace, hret] at hplace
  obtain ⟨a, content, hin⟩ := hplace hok
  obtain ⟨err', written, hpc, hok'⟩ := hin.returned
  obtain ⟨hm, hhashed⟩ :=
    (ok_of_copyRun hdest h.run).recv_ok.last a hin.attempt_eq err' m written hpc hok'
  exact ⟨hm, by rw [hin.dest_eq, hin.hashed_eq, hhashed]⟩

/-- **The file is copied.** `receive_file` runs against `send_file`, on a destination that is missing or
holds a prefix of the file, over connections that lose, delay, repeat and reorder frames. Until the stream
fails, what it shows is a prefix of the file, at any time. And when the close and the truncation settle the
file, a call that returns success has left the destination byte for byte as the source, and reports the
metadata that was offered: the base name, the length and the hash of the source. -/
theorem file_copied (e : SendFileEnv) (ef : FileEnv) (dest : Option Bytes)
    (hdest : ∀ content, dest = some content → content <+: e.content) :
    (∀ s, Run (copyStep e ef) (FileCopy.start dest) s →
      ∀ resume f c, s.recv.pc = .receiving resume f c → f.failed = false → f.view <+: e.content) ∧
      ∀ s err m, GRun (copyStep e ef) CopySettles (FileCopy.start dest) s → s.recv.pc = .ret err m →
        err.failed = false → m = e.offered ∧ s.recv.dest = some e.content := by
  constructor
  · intro s h resume f c hpc hok
    exact ((ok_of_copyRun hdest h).recv_ok.call resume f c hpc).shows hok
  · intro s err m h hret hok
    exact copied_of_ret hdest h hret hok

/-- A new destination; the receiver resumes what it has of `abc`. -/
def sampleCopyTrace : List FileCopyEv :=
  [.send (.opened true), .send (.told true true), .send (.read true),
    .send (.call (.once (.sent .success))), .recv (.stat true true), .recv (.opened true),
    .recv (.call (.once (.received (encodeOffer sampleSendFileEnv.offered)))),
    .recv (.call (.once (.sent .success))), .recv (.read .deferred true),
    .send (.call (.once (.received (.ok (encodeAccept sampleMeta.id 1))))),
    .send (.read true), .send (.call (.once (.sent .success))), .send (.read true),
    .send (.call (.once (.sent .success))),
    .recv (.call (.once (.received (.ok (encodeChunk sampleMeta.id 1 [0x62]))))),
    .recv (.wrote .deferred (.wrote 1)),
    .recv (.call (.once (.received (.ok (encodeChunk sampleMeta.id 2 [0x63]))))),
    .recv (.wrote .deferred .deferred), .recv (.call (.once (.sent .success))),
    .send (.call (.once (.received (.ok (encodeAck sampleMeta.id 3))))),
    .send (.call (.once (.sent .success))),
    .recv (.call (.once (.received (.ok (encodeDone sampleMeta.id true sampleDigest))))),
    .recv (.call (.once (.sent .success))),
    .send (.call (.once (.received (.ok (encodeDone sampleMeta.id true sampleDigest))))),
    .send (.call .leave), .send .returned]

/-- The receiver has decided, and finishes. -/
def sampleCopyRest : List FileCopyEv :=
  [.recv (.call .leave), .recv .returned, .recv (.closed none), .recv (.truncated true)]

theorem copySettles_of_settled {evs : List FileCopyEv}
    (h : evs.all fun
      | .recv (.closed lost) => lost.isNone
      | .recv (.truncated ok) => ok
      | _ => true) : ∀ ev ∈ evs, ∀ s, CopySettles s ev := by
  intro ev hmem s
  have hev := List.all_eq_true.mp h ev hmem
  cases ev with
  | send => trivial
  | recv ev =>
    cases ev with
    | closed lost =>
      intro err m f _ _
      rw [Option.isNone_iff_eq_none.mp hev]
      rfl
    | truncated ok => exact fun _ _ _ _ => .inl hev
    | _ => trivial

theorem abc_copied :
    ∃ s, GRun (copyStep sampleSendFileEnv sampleFileEnv) CopySettles (FileCopy.start (some [0x61])) s ∧
      s.recv.pc = .ret .success sampleSendFileEnv.offered ∧ s.recv.dest = some sampleContent := by
  obtain ⟨s, hexec, hret⟩ :
      ∃ s, exec (copyStep sampleSendFileEnv sampleFileEnv) (FileCopy.start (some [0x61]))
        (sampleCopyTrace ++ sampleCopyRest) = some s ∧
          s.recv.pc = .ret .success sampleSendFileEnv.offered := ⟨_, rfl, rfl⟩
  have hrun := grun_of_exec (copySettles_of_settled rfl) hexec
  have hdest : ∀ content, some [0x61] = some content → content <+: sampleSendFileEnv.content := by
    rintro _ ⟨⟩
    exact ⟨[0x62, 0x63], rfl⟩
  obtain ⟨-, hcopied⟩ := file_copied sampleSendFileEnv sampleFileEnv (some [0x61]) hdest
  exact ⟨s, hrun, hret, (hcopied s _ _ hrun hret rfl).2⟩

/-- **A `send_file` that succeeded was heard.** Behind a `send_file` that has returned success,
`receive_file` can only return success, whatever the connections still deliver and whatever fails on its
side; and when the close and the truncation settle the file, it returns with the source in the
destination. -/
theorem sent_file_arrives (e : SendFileEnv) (ef : FileEnv) (dest : Option Bytes)
    (hdest : ∀ content, dest = some content → content <+: e.content) (s t : FileCopy)
    (hs : Run (copyStep e ef) (FileCopy.start dest) s) (err : ErrorCode)
    (hsent : s.send.pc = .ret err) (hok : err.failed = false) (ht : Run (copyStep e ef) s t) :
    t.recv.Decided ∧ (∀ err' m, t.recv.pc = .ret err' m → err'.failed = false) ∧
      (GRun (copyStep e ef) CopySettles (FileCopy.start dest) t →
        ∀ err' m, t.recv.pc = .ret err' m → m = e.offered ∧ t.recv.dest = some e.content) := by
  have hdecided : t.recv.Decided := by
    refine Run.invariant (I := fun t : FileCopy => t.recv.Decided) ?_ ht ?_
    · intro u ev v hdec hstep
      cases copyTrans_of_step hstep with
      | send => exact hdec
      | recv ev r _ hr => exact hdec.step hr
    · refine (ok_of_copyRun hdest hs).success ?_
      rw [SendFile.Succeeded, hsent]
      exact hok
  have hret : ∀ err' m, t.recv.pc = .ret err' m → err'.failed = false := by
    intro err' m hpc
    rw [ReceiveFile.Decided, hpc] at hdecided
    exact hdecided
  exact ⟨hdecided, hret, fun h err' m hpc => copied_of_ret hdest h hpc (hret err' m hpc)⟩

theorem abc_sent_arrives :
    ∃ s t, Run (copyStep sampleSendFileEnv sampleFileEnv) (FileCopy.start (some [0x61])) s ∧
      s.send.pc = .ret .success ∧ Run (copyStep sampleSendFileEnv sampleFileEnv) s t ∧
      t.recv.pc = .ret .success sampleSendFileEnv.offered ∧ t.recv.dest = some sampleContent := by
  obtain ⟨s, hexec, hsent⟩ :
      ∃ s, exec (copyStep sampleSendFileEnv sampleFileEnv) (FileCopy.start (some [0x61]))
        sampleCopyTrace = some s ∧ s.send.pc = .ret .success := ⟨_, rfl, rfl⟩
  obtain ⟨t, hexec', hret⟩ :
      ∃ t, exec (copyStep sampleSendFileEnv sampleFileEnv) s sampleCopyRest = some t ∧
        t.recv.pc = .ret .success sampleSendFileEnv.offered := by
    obtain rfl := Option.some.inj (hexec.symm.trans rfl)
    exact ⟨_, rfl, rfl⟩
  have hrun := grun_of_exec (G := CopySettles) (copySettles_of_settled rfl) hexec
  have hrun' := grun_of_exec (G := CopySettles) (copySettles_of_settled rfl) hexec'
  have hdest : ∀ content, some [0x61] = some content → content <+: sampleSendFileEnv.content := by
    rintro _ ⟨⟩
    exact ⟨[0x62, 0x63], rfl⟩
  obtain ⟨-, -, hcopied⟩ := sent_file_arrives sampleSendFileEnv sampleFileEnv (some [0x61]) hdest s t
    hrun.run .success hsent rfl hrun'.run
  exact ⟨s, t, hrun.run, hsent, hrun'.run, hret, (hcopied (hrun.trans hrun') _ _ hret).2⟩

end TcpDuplex.Transfer
