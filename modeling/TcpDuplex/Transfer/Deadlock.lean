import TcpDuplex.Transfer.FlowControl
import TcpDuplex.Transfer.Verified

/-!
# The run into the deadlock

Under `Stalls` the two sides do come to wait for each other: the receiver takes the chunks one by
one as they are sent, and the window closes before an Ack is due. Together with `flow_reachable` this
settles exactly when the flow control is safe.
-/

namespace TcpDuplex.Transfer

open Machine

variable {es : SendEnv} {er : RecvEnv} {p : Peers}

/-- From `p` the composition can come to these two calls with these frames in flight. -/
def Reaches (es : SendEnv) (er : RecvEnv) (p : Peers) (spc : SendPc) (rpc : RecvPc)
    (toRecv toSend : List Bytes) : Prop :=
  ∃ q, Run (peerStep es er) p q ∧ q.send.pc = spc ∧ q.recv.pc = rpc ∧ q.toRecv = toRecv ∧
    q.toSend = toSend

section Steps

variable {spc : SendPc} {rpc : RecvPc} {toRecv toSend : List Bytes} {msg : Bytes}

/-- Going on by one step. -/
theorem Reaches.of_step {q q' : Peers} {ev : PeerEv} (hrun : Run (peerStep es er) p q)
    (hstep : peerStep es er q ev = some q') :
    Reaches es er p q'.send.pc q'.recv.pc q'.toRecv q'.toSend :=
  ⟨q', hrun.snoc hstep, rfl, rfl, rfl, rfl⟩

theorem Reaches.senderSends (h : Reaches es er p spc rpc toRecv toSend)
    (hout : spc.outgoing es = some msg) :
    Reaches es er p (spc.onSent es) rpc (toRecv ++ [msg]) toSend := by
  obtain ⟨q, hrun, rfl, rfl, rfl, rfl⟩ := h
  have hstep : peerStep es er q .senderSends = some { q with
      send := { q.send with pc := q.send.pc.onSent es, sent := q.send.sent ++ [msg] }
      toRecv := q.toRecv ++ [msg] } := by
    simp only [peerStep, peerStepWith, hout, sendStep_sent hout]
    rfl
  exact .of_step hrun hstep

theorem Reaches.senderReceives (h : Reaches es er p spc rpc toRecv (msg :: toSend))
    (hwait : spc.waiting = true) :
    Reaches es er p (spc.onMessage es msg).pc rpc toRecv toSend := by
  obtain ⟨q, hrun, rfl, rfl, rfl, hqueue⟩ := h
  have hstep : peerStep es er q .senderReceives = some { q with
      send := { q.send with
        pc := (q.send.pc.onMessage es msg).pc
        received := q.send.received ++ [msg]
        progress := q.send.progress ++ es.report (q.send.pc.onMessage es msg).reported }
      toSend := toSend } := by
    simp only [peerStep, peerStepWith, hqueue, sendStep_received hwait]
    rfl
  exact .of_step hrun hstep

theorem Reaches.senderReads {acked nextOff : ℤ}
    (h : Reaches es er p (.read acked nextOff) rpc toRecv toSend) :
    Reaches es er p (.chunk acked nextOff (es.source.read nextOff (es.chunkLength nextOff))) rpc
      toRecv toSend := by
  obtain ⟨q, hrun, hpc, rfl, rfl, rfl⟩ := h
  have hstep : peerStep es er q (.senderReads .success) = some { q with
      send := { q.send with
        pc := .chunk acked nextOff (es.source.read nextOff (es.chunkLength nextOff)) } } := by
    simp only [peerStep, peerStepWith, sendStep_read hpc]
    rfl
  exact .of_step hrun hstep

theorem Reaches.receiverSends (h : Reaches es er p spc rpc toRecv toSend)
    (hout : rpc.outgoing er = some msg) :
    Reaches es er p spc (rpc.onSent er) toRecv (toSend ++ [msg]) := by
  obtain ⟨q, hrun, rfl, rfl, rfl, rfl⟩ := h
  have hstep : peerStep es er q .receiverSends = some { q with
      recv := { q.recv.reportSent er with
        pc := q.recv.pc.onSent er
        sent := q.recv.sent ++ [msg] }
      toSend := q.toSend ++ [msg] } := by
    simp only [peerStep, peerStepWith, hout, recvStep_sent hout]
    rfl
  exact .of_step hrun hstep

theorem Reaches.receiverReceives (h : Reaches es er p spc rpc (msg :: toRecv) toSend)
    (hwait : (rpc.waiting er).isSome = true) :
    Reaches es er p spc (rpc.onMessage er msg) toRecv toSend := by
  obtain ⟨q, hrun, rfl, rfl, hqueue, rfl⟩ := h
  have hstep : peerStep es er q .receiverReceives = some { q with
      recv := { q.recv with
        pc := q.recv.pc.onMessage er msg
        received := q.recv.received ++ [msg] }
      toRecv := toRecv } := by
    simp only [peerStep, peerStepWith, hqueue, recvStep_received hwait]
    rfl
  exact .of_step hrun hstep

theorem Reaches.receiverReads {m : Meta} {off : ℤ} {ctx : Bytes}
    (h : Reaches es er p spc (.hashPrefix m off ctx) toRecv toSend) :
    ∃ ctx', Reaches es er p spc
      (hashPrefixHead er m (off + blockLength off er.resumeOffset) ctx') toRecv toSend := by
  obtain ⟨q, hrun, rfl, hpc, rfl, rfl⟩ := h
  let block := q.recv.store.read off (blockLength off er.resumeOffset)
  have hstep : peerStep es er q (.receiverReads .success) = some { q with
      recv := { q.recv with
        pc := hashPrefixHead er m (off + blockLength off er.resumeOffset) (ctx ++ block)
        hashed := q.recv.hashed ++ block } } := by
    simp only [peerStep, peerStepWith, recvStep_hashPrefix hpc]
    rfl
  exact ⟨ctx ++ block, .of_step hrun hstep⟩

theorem Reaches.receiverWrites {m : Meta} {hw : HashingWriter} {written : ℤ} {since : ℕ} {off : ℤ}
    {data : Bytes} (h : Reaches es er p spc (.write m hw written since off data) toRecv toSend) :
    Reaches es er p spc
      (afterWrite er m ⟨hw.offset + data.length, hw.ctx ++ data⟩ (off + data.length) (since + 1))
      toRecv toSend := by
  obtain ⟨q, hrun, rfl, hpc, rfl, rfl⟩ := h
  have hstep : peerStep es er q (.receiverWrites .success fun _ => 0) = some { q with
      recv := q.recv.wrote er m hw written since off data .success fun _ => 0 } := by
    simp only [peerStep, peerStepWith, recvStep_wrote hpc]
    rfl
  have hreach := Reaches.of_step hrun hstep
  rw [RecvState.wrote_success_pc] at hreach
  exact hreach

end Steps

/-! ## From the Offer to the loop -/

/-- The prefix is hashed block by block, whatever the sender does meanwhile. -/
theorem Reaches.hashPrefix {spc : SendPc} {m : Meta} {toRecv toSend : List Bytes} {off : ℤ}
    {ctx : Bytes} (h : Reaches es er p spc (hashPrefixHead er m off ctx) toRecv toSend) :
    ∃ ctx', Reaches es er p spc
      (chunkHead m ⟨er.resumeOffset, ctx'⟩ er.resumeOffset 0) toRecv toSend := by
  generalize hn : (er.resumeOffset - off).toNat = n
  induction n using Nat.strong_induction_on generalizing off ctx with
  | _ n ih =>
    by_cases hlt : off < er.resumeOffset
    · rw [hashPrefixHead, if_pos hlt] at h
      obtain ⟨ctx', h'⟩ := h.receiverReads
      have hpos := blockLength_pos hlt
      exact ih _ (by omega) h' rfl
    · rw [hashPrefixHead, if_neg hlt] at h
      exact ⟨ctx, h⟩

theorem encodeOffer_of_taken (hres : Resumes es er) (h : Taken es er) :
    ∃ msg, encodeOffer es.info = .ok msg :=
  exists_encodeOffer (hres.nonneg.trans hres.le_size) h.name_le

theorem onOffer_of_taken (hres : Resumes es er) (h : Taken es er) {msg : Bytes}
    (henc : encodeOffer es.info = .ok msg) : onOffer er msg = .accept es.info :=
  onOffer_eq_accept (decodeFrame_encodeOffer hres.size_lt henc) rfl h.id_eq hres.le_size h.accepted

theorem onAccept_of_stalls (hres : Resumes es er) (hlt : er.resumeOffset < es.info.size) :
    (onAccept es (encodeAccept es.info.id er.resumeOffset)).pc =
      fillHead es er.resumeOffset er.resumeOffset := by
  rw [onAccept_encodeAccept_pc hres.nonneg hres.le_size hres.size_lt, windowHead, if_pos hlt]

theorem Stalls.lt_size (h : Stalls es er) : er.resumeOffset < es.info.size := by
  have hleft := h.left
  have hwindow := Int32.lt_iff_toInt_lt.mp es.opts.window_pos
  have hmul : 0 < es.opts.window.toInt * es.chunkSize.toInt := mul_pos hwindow es.chunkSize_pos
  omega

/-- The handshake of an attempt that will stall. -/
theorem reaches_loop (store : Store) (hres : Resumes es er) (h : Stalls es er) :
    ∃ ctx, Reaches es er (Peers.start es store) (fillHead es er.resumeOffset er.resumeOffset)
      (.chunk es.info ⟨er.resumeOffset, ctx⟩ er.resumeOffset 0) [] [] := by
  have hlt := h.lt_size
  obtain ⟨msg, henc⟩ := encodeOffer_of_taken hres h.taken
  have h0 : Reaches es er (Peers.start es store) (.offer msg) .offer [] [] :=
    ⟨_, Run.refl _, by simp only [Peers.start, SendState.start, henc], rfl, rfl, rfl⟩
  have h1 := h0.senderSends rfl
  have h2 := h1.receiverReceives rfl
  simp only [RecvPc.onMessage, onOffer_of_taken hres h.taken henc] at h2
  have h3 := h2.receiverSends rfl
  simp only [RecvPc.onSent, afterAccept_of_lt hlt h.readable] at h3
  have h4 := h3.senderReceives rfl
  simp only [SendPc.onSent, SendPc.onMessage, onAccept_of_stalls hres hlt] at h4
  obtain ⟨ctx, h5⟩ := h4.hashPrefix
  rw [chunkHead, if_pos hlt] at h5
  exact ⟨ctx, h5⟩

/-! ## The loop -/

/-- While the window has room the sender reads the next chunk, and then it waits. -/
theorem fillHead_of_stalls (h : Stalls es er) {k : ℕ} (hk : (k : ℤ) ≤ es.opts.window.toInt) :
    fillHead es er.resumeOffset (er.resumeOffset + k * es.chunkSize.toInt) =
      if (k : ℤ) < es.opts.window.toInt then
        .read er.resumeOffset (er.resumeOffset + k * es.chunkSize.toInt)
      else .ack er.resumeOffset (er.resumeOffset + k * es.chunkSize.toInt) := by
  have hpos := es.chunkSize_pos
  have hleft := h.left
  have hbound := es.opts.window.toInt_lt
  have hmul := mul_le_mul_of_nonneg_right hk hpos.le
  have hlt : er.resumeOffset + k * es.chunkSize.toInt < es.info.size := by omega
  have hcount := toInt_countInFlight hpos er.resumeOffset (k := k) (by omega)
  simp only [fillHead, Int32.lt_iff_toInt_lt, hcount, hlt, and_true]

/-- One more chunk, taken at once and not acknowledged. -/
theorem Reaches.chunk (hres : Resumes es er) (h : Stalls es er) {k : ℕ}
    (hk : (k : ℤ) < es.opts.window.toInt) {off : ℤ}
    (hoff : off = er.resumeOffset + k * es.chunkSize.toInt) {ctx : Bytes}
    (hreach : Reaches es er p (.read er.resumeOffset off) (.chunk es.info ⟨off, ctx⟩ off k) [] []) :
    ∃ ctx', Reaches es er p (fillHead es er.resumeOffset (off + es.chunkSize.toInt))
      (.chunk es.info ⟨off + es.chunkSize.toInt, ctx'⟩ (off + es.chunkSize.toInt) (k + 1)) [] [] := by
  obtain ⟨hnonneg, hle, hsize⟩ := hres
  have hpos := es.chunkSize_pos
  have hleft := h.left
  have hacks := h.window_lt
  have hmul : ((k : ℤ) + 1) * es.chunkSize.toInt ≤ es.opts.window.toInt * es.chunkSize.toInt :=
    mul_le_mul_of_nonneg_right (by omega) hpos.le
  have hk0 : 0 ≤ (k : ℤ) * es.chunkSize.toInt := mul_nonneg (by omega) hpos.le
  rw [add_mul, one_mul] at hmul
  have hlen : (es.chunkLength off : ℤ) = es.chunkSize.toInt := by
    rw [es.chunkLength_eq (by omega)]
    omega
  have h1 := hreach.senderReads.senderSends rfl
  have h2 := h1.receiverReceives rfl
  have hfit : ¬(off + (es.source.read off (es.chunkLength off)).length > es.info.size) := by
    rw [Store.length_read]
    omega
  simp only [RecvPc.onMessage, onChunk, onChunkWith,
    decodeFrame_encodeChunk es.info.id (v := off) (by omega) (by omega), ne_eq, not_true_eq_false,
    false_or, if_neg hfit, if_true, if_false] at h2
  have h3 := h2.receiverWrites
  have hgo : ¬(((k + 1 : ℕ) : ℤ) ≥ er.opts.ackEvery.toInt ∨
      off + es.chunkSize.toInt = es.info.size) := by
    push_cast
    omega
  have hlt : off + es.chunkSize.toInt < es.info.size := by omega
  simp only [SendPc.onSent, Store.length_read, hlen, afterWrite, if_neg hgo, chunkHead, if_pos hlt]
    at h3
  exact ⟨_, h3⟩

theorem reaches_window (store : Store) (hres : Resumes es er) (h : Stalls es er) {k : ℕ}
    (hk : (k : ℤ) ≤ es.opts.window.toInt) :
    ∃ ctx, Reaches es er (Peers.start es store)
      (fillHead es er.resumeOffset (er.resumeOffset + k * es.chunkSize.toInt))
      (.chunk es.info ⟨er.resumeOffset + k * es.chunkSize.toInt, ctx⟩
        (er.resumeOffset + k * es.chunkSize.toInt) k) [] [] := by
  induction k with
  | zero =>
    obtain ⟨ctx, hloop⟩ := reaches_loop store hres h
    simp only [Nat.cast_zero, zero_mul, add_zero]
    exact ⟨ctx, hloop⟩
  | succ k ih =>
    push_cast at hk
    obtain ⟨ctx, hreach⟩ := ih (by omega)
    rw [fillHead_of_stalls h (by omega), if_pos (by omega)] at hreach
    obtain ⟨ctx', hnext⟩ := hreach.chunk hres h (by omega) rfl
    have hoff : er.resumeOffset + ((k + 1 : ℕ) : ℤ) * es.chunkSize.toInt
        = er.resumeOffset + k * es.chunkSize.toInt + es.chunkSize.toInt := by
      push_cast
      ring
    rw [hoff]
    exact ⟨ctx', hnext⟩

theorem exists_deadlocked_of_stalls (hres : Resumes es er) (h : Stalls es er) (store : Store) :
    ∃ p, Run (peerStep es er) (Peers.start es store) p ∧ Deadlocked p := by
  have hwindow := Int32.lt_iff_toInt_lt.mp es.opts.window_pos
  have hcast : ((es.opts.window.toInt.toNat : ℕ) : ℤ) = es.opts.window.toInt :=
    Int.toNat_of_nonneg hwindow.le
  obtain ⟨ctx, q, hrun, hs, hr, hto, hback⟩ :=
    reaches_window store hres h hcast.le
  rw [fillHead_of_stalls h hcast.le, if_neg (by omega)] at hs
  exact ⟨q, hrun, ⟨_, _, hs⟩, ⟨_, _, _, _, hr⟩, hto, hback⟩

/-- **When the flow control is safe.** For every source, every resume offset within it and all
options of the two sides, the composition never comes to a state in which both sides wait and nothing
is in flight, unless the window closes before the receiver's first Ack is due; and then it does. -/
theorem never_deadlocked_iff (es : SendEnv) (er : RecvEnv) (hres : Resumes es er) (store : Store) :
    (∀ p, Run (peerStep es er) (Peers.start es store) p → ¬Deadlocked p) ↔ ¬Stalls es er := by
  constructor
  · intro hsafe hstalls
    obtain ⟨p, hrun, hdead⟩ := exists_deadlocked_of_stalls hres hstalls store
    exact hsafe p hrun hdead
  · intro hstalls p hrun hdead
    exact hstalls (stalls_of_deadlocked (flow_reachable hres hrun) hdead)

/-! ### A window of one chunk -/

/-- A sender of `abc` with the options `opts`, on a connection with the default limits. -/
def sampleSendEnv (opts : NormalOptions) : SendEnv where
  opts := opts
  maxMessageBytes := defaultConfig.maxMessageBytes
  info := sampleMeta
  source := Store.write (fun _ => 0) 0 sampleContent

/-- With the default options on both sides the window is wider than the receiver counts. -/
theorem default_options_never_deadlocked :
    Resumes (sampleSendEnv (normalize none)) sampleRecvEnv ∧
      ∀ p, Run (peerStep (sampleSendEnv (normalize none)) sampleRecvEnv)
        (Peers.start (sampleSendEnv (normalize none)) fun _ => 0) p → ¬Deadlocked p := by
  have hres : Resumes (sampleSendEnv (normalize none)) sampleRecvEnv :=
    ⟨by decide, by decide, by decide⟩
  refine ⟨hres, (never_deadlocked_iff _ _ hres _).mpr fun hstalls => ?_⟩
  exact absurd hstalls.window_lt (by decide)

/-- One byte at a time, and one chunk in flight. -/
def narrowOptions : NormalOptions :=
  normalize (some { defaultOptions with chunkSize := 1, window := 1 })

/-- The handshake, and the first of three chunks. -/
def narrowTrace : List PeerEv :=
  [.senderSends, .receiverReceives, .receiverSends, .senderReceives, .senderReads .success,
    .senderSends, .receiverReceives, .receiverWrites .success fun _ => 0]

/-- Against a receiver that acknowledges every eighth chunk, the sender waits for ever. -/
theorem narrow_window_deadlocked :
    Resumes (sampleSendEnv narrowOptions) sampleRecvEnv ∧
      ∃ p, Run (peerStep (sampleSendEnv narrowOptions) sampleRecvEnv)
        (Peers.start (sampleSendEnv narrowOptions) fun _ => 0) p ∧ Deadlocked p := by
  refine ⟨⟨by decide, by decide, by decide⟩, ?_⟩
  exact exists_run_of_exec narrowTrace
    ⟨_, rfl, ⟨0, 1, rfl⟩, ⟨sampleMeta, ⟨1, [0x61]⟩, 1, 1, rfl⟩, rfl, rfl⟩

end TcpDuplex.Transfer
