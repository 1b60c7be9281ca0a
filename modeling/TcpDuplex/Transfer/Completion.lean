import Mathlib.Algebra.Order.Floor.Div
import TcpDuplex.Lib.Ranking
import TcpDuplex.Transfer.HonestPeers

/-!
# Every transfer ends

`stepsLeft` is a bound for the calls that the two attempts can still make: six for each chunk that is not
sent yet, one for each block of the sink that is not hashed yet, four for each frame on its way to the
receiver and one for each frame back. Every step lowers it, whatever the options and whatever fails, the
connection included, so no composition of the two runs for ever.

Where nothing fails the calls only run out at the end: honest peers stop before it in one state,
`Deadlocked`, and come to it under `Stalls` alone.
-/

namespace TcpDuplex.Transfer

open Machine

/-! ## Pieces of a range -/

/-- The pieces of `len` bytes from offset `off` to `size`, the last one shorter. -/
def piecesLeft (len : ℕ) (off size : ℤ) : ℕ := (size - off).toNat ⌈/⌉ len

theorem ceilDiv_sub_min {n d : ℕ} (hn : 0 < n) (hd : 0 < d) :
    (n - min d n) ⌈/⌉ d + 1 = n ⌈/⌉ d := by
  rw [Nat.ceilDiv_eq_add_pred_div, Nat.ceilDiv_eq_add_pred_div]
  rcases Nat.le_total n d with hle | hle
  · have hnone : (n - min d n + d - 1) / d = 0 := Nat.div_eq_of_lt (by omega)
    have hone : (n + d - 1) / d = 1 := by
      rw [Nat.div_eq_iff hd]
      omega
    omega
  · have hstep : n - min d n + d - 1 + d = n + d - 1 := by omega
    rw [← hstep, Nat.add_div_right _ hd]

/-- Taking one piece leaves one fewer. -/
theorem piecesLeft_take {len k : ℕ} {off size : ℤ} (hlen : 0 < len) (hlt : off < size)
    (hk : (k : ℤ) = min (len : ℤ) (size - off)) :
    piecesLeft len (off + k) size + 1 = piecesLeft len off size := by
  have hsub : (size - (off + k)).toNat = (size - off).toNat - min len (size - off).toNat := by omega
  rw [piecesLeft, piecesLeft, hsub]
  exact ceilDiv_sub_min (by omega) hlen

theorem piecesLeft_anti {len : ℕ} {off off' size : ℤ} (h : off ≤ off') :
    piecesLeft len off' size ≤ piecesLeft len off size := by
  rw [piecesLeft, piecesLeft, Nat.ceilDiv_eq_add_pred_div, Nat.ceilDiv_eq_add_pred_div]
  exact Nat.div_le_div_right (by omega)

/-- The chunks that the sender has not sent yet. -/
def SendEnv.chunksFrom (e : SendEnv) (off : ℤ) : ℕ := piecesLeft e.chunkSize.toInt.toNat off e.info.size

/-- The blocks that a hashing loop has not read yet. -/
def blocksFrom (off size : ℤ) : ℕ := piecesLeft (256 <<< 10) off size

variable {es : SendEnv} {er : RecvEnv}

theorem chunksFrom_add_chunkLength {off : ℤ} (h : off < es.info.size) :
    es.chunksFrom (off + es.chunkLength off) + 1 = es.chunksFrom off := by
  have hpos := es.chunkSize_pos
  have hlen := es.chunkLength_eq h
  exact piecesLeft_take (by omega) h (by omega)

theorem blocksFrom_add_blockLength {off size : ℤ} (h : off < size) :
    blocksFrom (off + blockLength off size) size + 1 = blocksFrom off size :=
  piecesLeft_take (by decide) h (by simp only [blockLength]; omega)

/-! ## The calls left -/

/-- A bound for the calls that a sender at this point can still make, and for those that its frames cause. -/
def SendPc.callsLeft (e : SendEnv) : SendPc → ℕ
  | .offer _ => 6 * e.chunksFrom 0 + 10
  | .accept => 6 * e.chunksFrom 0 + 5
  | .read _ nextOff => 6 * e.chunksFrom nextOff + 5
  | .chunk _ nextOff _ => 6 * e.chunksFrom nextOff + 4
  | .ack _ nextOff => 6 * e.chunksFrom nextOff + 5
  | .done => 5
  | .reply => 0
  | .ret _ => 0

/-- The same for a receiver. -/
def RecvPc.callsLeft (e : RecvEnv) : RecvPc → ℕ
  | .offer => blocksFrom 0 e.resumeOffset + 2
  | .accept _ => blocksFrom 0 e.resumeOffset + 5
  | .hashAll m off _ => blocksFrom off m.size + 1
  | .hashPrefix _ off _ => blocksFrom off e.resumeOffset + 3
  | .write .. => 3
  | .reject .. => 2
  | .abort .. => 2
  | .ack .. => 2
  | .reply .. => 2
  | .doneAll .. => 0
  | .chunk .. => 0
  | .done .. => 0
  | .ret .. => 0

/-- A bound for the steps that the composition can still take. -/
def Peers.stepsLeft (es : SendEnv) (er : RecvEnv) (p : Peers) : ℕ :=
  p.send.pc.callsLeft es + p.recv.pc.callsLeft er + 4 * p.toRecv.length + p.toSend.length

/-! ### The sender -/

theorem callsLeft_fillHead (acked nextOff : ℤ) :
    (fillHead es acked nextOff).callsLeft es = 6 * es.chunksFrom nextOff + 5 := by
  unfold fillHead
  split <;> rfl

theorem callsLeft_windowHead_le (acked nextOff : ℤ) :
    (windowHead es acked nextOff).callsLeft es ≤ 6 * es.chunksFrom nextOff + 5 := by
  unfold windowHead
  split
  · exact (callsLeft_fillHead acked nextOff).le
  · simp [SendPc.callsLeft]

theorem callsLeft_onMessage_le {sp : SendPc} (hwait : sp.waiting = true) (msg : Bytes) :
    (sp.onMessage es msg).pc.callsLeft es ≤ sp.callsLeft es := by
  cases sp with
  | accept =>
    have hout := onAccept_outcome es msg
    show (onAccept es msg).pc.callsLeft es ≤ _
    generalize onAccept es msg = next at hout ⊢
    cases hout with
    | failed => exact Nat.zero_le _
    | resumes dec _ _ _ hlo _ =>
      have hanti : es.chunksFrom dec.offset ≤ es.chunksFrom 0 := piecesLeft_anti hlo
      have hle := @callsLeft_windowHead_le es dec.offset dec.offset
      show (windowHead es dec.offset dec.offset).callsLeft es ≤ 6 * es.chunksFrom 0 + 5
      omega
  | ack acked nextOff =>
    have hout := onAck_outcome es acked nextOff msg
    show (onAck es acked nextOff msg).pc.callsLeft es ≤ _
    generalize onAck es acked nextOff msg = next at hout ⊢
    cases hout with
    | failed => exact Nat.zero_le _
    | moves dec => exact callsLeft_windowHead_le dec.offset nextOff
  | reply =>
    have hout := onReply_outcome es msg
    show (onReply es msg).pc.callsLeft es ≤ _
    generalize onReply es msg = next at hout ⊢
    cases hout <;> exact Nat.zero_le _
  | _ => cases hwait

/-- A frame sent, with the four calls that it causes at the receiver's side. -/
theorem callsLeft_onSent_lt {sp : SendPc} (hrange : sp.InRange es) {msg : Bytes}
    (hout : sp.outgoing es = some msg) : (sp.onSent es).callsLeft es + 4 < sp.callsLeft es := by
  cases sp with
  | offer msg => simp [SendPc.onSent, SendPc.callsLeft]
  | chunk acked nextOff data =>
    obtain ⟨_, hlt, rfl⟩ := hrange
    have htake := chunksFrom_add_chunkLength hlt
    rw [SendPc.onSent, Store.length_read, callsLeft_fillHead, SendPc.callsLeft]
    omega
  | done => simp [SendPc.onSent, SendPc.callsLeft]
  | _ => cases hout

/-! ### The receiver -/

theorem callsLeft_chunkHead (m : Meta) (hw : HashingWriter) (written : ℤ) (since : ℕ) :
    (chunkHead m hw written since).callsLeft er = 0 := by
  unfold chunkHead
  split <;> rfl

theorem callsLeft_hashAllHead_le (m : Meta) (off : ℤ) (ctx : Bytes) :
    (hashAllHead er m off ctx).callsLeft er ≤ blocksFrom off m.size + 1 := by
  unfold hashAllHead
  split
  · exact le_rfl
  · exact Nat.zero_le _

theorem callsLeft_hashPrefixHead_le (m : Meta) (off : ℤ) (ctx : Bytes) :
    (hashPrefixHead er m off ctx).callsLeft er ≤ blocksFrom off er.resumeOffset + 3 := by
  unfold hashPrefixHead
  split
  · exact le_rfl
  · rw [callsLeft_chunkHead]
    exact Nat.zero_le _

theorem callsLeft_afterAccept_le (m : Meta) :
    (afterAccept er m).callsLeft er ≤ blocksFrom 0 er.resumeOffset + 3 := by
  unfold afterAccept
  split_ifs with hall
  · have hle := @callsLeft_hashAllHead_le er m 0 []
    rw [← hall] at hle
    omega
  · exact Nat.zero_le _
  · exact callsLeft_hashPrefixHead_le m 0 []
  · simp [RecvPc.callsLeft]
  · rw [callsLeft_chunkHead]
    exact Nat.zero_le _

theorem callsLeft_afterWrite_le (m : Meta) (hw : HashingWriter) (written : ℤ) (since : ℕ) :
    (afterWrite er m hw written since).callsLeft er ≤ 2 := by
  unfold afterWrite
  split
  · exact le_rfl
  · rw [callsLeft_chunkHead]
    exact Nat.zero_le _

/-- The loop of `hash_reader` comes closer to its end with every block. -/
theorem callsLeft_hashAll_lt (m : Meta) (off : ℤ) (ctx ctx' : Bytes) :
    (hashAllHead er m (off + blockLength off m.size) ctx').callsLeft er <
      (RecvPc.hashAll m off ctx).callsLeft er := by
  unfold hashAllHead
  split
  · have htake := @blocksFrom_add_blockLength off m.size (by omega)
    simp only [RecvPc.callsLeft]
    omega
  · simp [RecvPc.callsLeft]

theorem callsLeft_hashPrefix_lt (m : Meta) (off : ℤ) (ctx ctx' : Bytes) :
    (hashPrefixHead er m (off + blockLength off er.resumeOffset) ctx').callsLeft er <
      (RecvPc.hashPrefix m off ctx).callsLeft er := by
  unfold hashPrefixHead
  split
  · have htake := @blocksFrom_add_blockLength off er.resumeOffset (by omega)
    simp only [RecvPc.callsLeft]
    omega
  · rw [callsLeft_chunkHead]
    simp [RecvPc.callsLeft]

theorem callsLeft_onDone_le (m : Meta) (written : ℤ) (sum : Hash) (msg : Bytes) :
    (onDone m written sum msg).callsLeft er ≤ 2 := by
  have hout := onDone_outcome m written sum msg
  generalize onDone m written sum msg = pc at hout ⊢
  cases hout with
  | failed => exact Nat.zero_le _
  | replies => exact le_rfl

theorem callsLeft_onChunkWith_le (add : ℤ → ℤ → ℤ) (m : Meta) (hw : HashingWriter) (written : ℤ)
    (since : ℕ) (msg : Bytes) : (onChunkWith add er m hw written since msg).callsLeft er ≤ 3 := by
  unfold onChunkWith
  split
  · exact Nat.zero_le _
  · split_ifs <;> simp [RecvPc.callsLeft, verifyAndAckDone]

/-- A frame taken up: it had four calls to its name. -/
theorem RecvPc.callsLeft_onMessage_lt {rp : RecvPc} (hwait : (rp.waiting er).isSome = true)
    (msg : Bytes) : (rp.onMessage er msg).callsLeft er < rp.callsLeft er + 4 := by
  cases rp with
  | offer =>
    have hout := onOffer_outcome er msg
    show (onOffer er msg).callsLeft er < _
    generalize onOffer er msg = pc at hout ⊢
    cases hout with
    | failed => simp [RecvPc.callsLeft]
    | refused => simp [RecvPc.callsLeft]
    | taken => simp [RecvPc.callsLeft]
  | doneAll m sum => exact (callsLeft_onDone_le m _ sum msg).trans_lt (by simp [RecvPc.callsLeft])
  | done m hw written => exact (callsLeft_onDone_le m written _ msg).trans_lt (by simp [RecvPc.callsLeft])
  | chunk m hw written since =>
    have hle := @callsLeft_onChunkWith_le er (· + ·) m hw written since msg
    show (onChunk er m hw written since msg).callsLeft er < 0 + 4
    rw [onChunk]
    omega
  | _ => cases hwait

theorem callsLeft_received64_lt {s t : RecvState} {msg : Bytes}
    (h : recvStep64 er s (.received (.ok msg)) = some t) :
    t.pc.callsLeft er < s.pc.callsLeft er + 4 := by
  simp only [recvStep64] at h
  split at h
  · rename_i m hw written since hpc
    cases h
    have hle := @callsLeft_onChunkWith_le er addInt64 m hw written since msg
    rw [hpc]
    show (onChunkWith addInt64 er m hw written since msg).callsLeft er < 0 + 4
    omega
  · cases recvTrans_of_step h with
    | message _ hwait => exact RecvPc.callsLeft_onMessage_lt hwait msg

theorem callsLeft_wrote64_lt {s t : RecvState} {ec : ErrorCode} {junk : Store}
    (h : recvStep64 er s (.wrote ec junk) = some t) : t.pc.callsLeft er < s.pc.callsLeft er := by
  simp only [recvStep64] at h
  split at h
  · rename_i m hw written since off data hpc
    cases h
    have hwrite : s.pc.callsLeft er = 3 := by rw [hpc, RecvPc.callsLeft]
    rw [hwrite]
    unfold RecvState.wrote64 RecvState.wroteWith
    split
    · exact (by decide : 2 < 3)
    · rw [RecvState.report_pc]
      exact (callsLeft_afterWrite_le m _ _ _).trans_lt (by decide)
  · cases h

/-- A frame sent, with the call that takes it. -/
theorem RecvPc.callsLeft_onSent_lt {rp : RecvPc} {msg : Bytes} (hout : rp.outgoing er = some msg) :
    (rp.onSent er).callsLeft er + 1 < rp.callsLeft er := by
  cases rp with
  | accept m =>
    have hle := @callsLeft_afterAccept_le er m
    show (afterAccept er m).callsLeft er + 1 < blocksFrom 0 er.resumeOffset + 5
    omega
  | ack m hw written =>
    rw [RecvPc.onSent, callsLeft_chunkHead, RecvPc.callsLeft]
    decide
  | reject m reason err out => simp [RecvPc.onSent, RecvPc.callsLeft]
  | abort m written err => simp [RecvPc.onSent, RecvPc.callsLeft]
  | reply m written ok sum theirs => simp [RecvPc.onSent, RecvPc.callsLeft]
  | _ => cases hout

/-! ### The composition -/

/-- Every step lowers the bound: no call is made twice for the same chunk, block or frame. -/
theorem stepsLeft_lt {p q : Peers} {ev : PeerEv} (hsize : es.info.size < 2 ^ 63)
    (hrange : p.send.pc.InRange es) (hstep : peerStep64 es er p ev = some q) :
    q.stepsLeft es er < p.stepsLeft es er := by
  cases peerTransWith_of_step hstep with
  | senderSends msg s hout hs =>
    have hs := sendStep_of_sendStep64 hsize hrange hs
    rw [sendStep_sent hout] at hs
    cases hs
    have hlt := callsLeft_onSent_lt hrange hout
    simp only [Peers.stepsLeft, List.length_append, List.length_singleton]
    omega
  | senderReceives msg rest s hqueue hs =>
    cases sendTrans_of_step (sendStep_of_sendStep64 hsize hrange hs) with
    | message _ hwait =>
      have hle := @callsLeft_onMessage_le es _ hwait msg
      simp only [Peers.stepsLeft, hqueue, List.length_cons]
      omega
  | senderReads ec s hs =>
    cases sendTrans_of_step (sendStep_of_sendStep64 hsize hrange hs) with
    | readFailed acked nextOff _ hpc =>
      simp only [Peers.stepsLeft, hpc, SendPc.callsLeft]
      omega
    | read acked nextOff _ hpc =>
      simp only [Peers.stepsLeft, hpc, SendPc.callsLeft]
      omega
  | receiverSends msg s hout hs =>
    have hs : recvStep er p.recv (.sent .success) = some s := hs
    rw [recvStep_sent hout] at hs
    cases hs
    have hlt := RecvPc.callsLeft_onSent_lt hout
    simp only [Peers.stepsLeft, List.length_append, List.length_singleton]
    omega
  | receiverReceives msg rest s hqueue hs =>
    have hlt := callsLeft_received64_lt hs
    simp only [Peers.stepsLeft, hqueue, List.length_cons]
    omega
  | receiverReads ec s hs =>
    have hs : recvStep er p.recv (.read ec) = some s := hs
    cases recvTrans_of_step hs with
    | hashAllFailed m off ctx _ hpc =>
      simp only [Peers.stepsLeft, hpc, RecvPc.callsLeft]
      omega
    | hashAll m off ctx block _ hpc _ hblock =>
      have hlt := @callsLeft_hashAll_lt er m off ctx (ctx ++ block)
      simp only [Peers.stepsLeft, hpc]
      rw [hblock, Store.length_read, ← hblock]
      omega
    | hashPrefixFailed m off ctx _ hpc =>
      simp only [Peers.stepsLeft, hpc, RecvPc.callsLeft]
      omega
    | hashPrefix m off ctx block _ hpc _ hblock =>
      have hlt := @callsLeft_hashPrefix_lt er m off ctx (ctx ++ block)
      simp only [Peers.stepsLeft, hpc]
      rw [hblock, Store.length_read, ← hblock]
      omega
  | receiverWrites ec junk s hs =>
    have hlt := callsLeft_wrote64_lt hs
    simp only [Peers.stepsLeft]
    omega

theorem inRange_step {p q : Peers} {ev : PeerEv} (hsize : es.info.size < 2 ^ 63)
    (hrange : p.send.pc.InRange es) (hstep : peerStep64 es er p ev = some q) :
    q.send.pc.InRange es := by
  cases peerTransWith_of_step hstep with
  | senderSends _ s _ hs => exact hrange.step (sendStep_of_sendStep64 hsize hrange hs)
  | senderReceives _ _ s _ hs => exact hrange.step (sendStep_of_sendStep64 hsize hrange hs)
  | senderReads _ s hs => exact hrange.step (sendStep_of_sendStep64 hsize hrange hs)
  | _ => exact hrange

theorem stepsLeft_start_le (es : SendEnv) (er : RecvEnv) (store : Store) :
    (Peers.start es store).stepsLeft es er ≤
      6 * es.chunksFrom 0 + blocksFrom 0 er.resumeOffset + 12 := by
  have hsend : (SendState.start es).pc.callsLeft es ≤ 6 * es.chunksFrom 0 + 10 := by
    simp only [SendState.start]
    split <;> simp [SendPc.callsLeft]
  simp only [Peers.stepsLeft, Peers.start, RecvState.start, RecvPc.callsLeft, List.length_nil]
  omega

/-! ### A connection that fails -/

/-- The attempt has not returned. -/
def SendPc.live : SendPc → ℕ
  | .ret _ => 0
  | _ => 1

/-- The attempt has not returned. -/
def RecvPc.live : RecvPc → ℕ
  | .ret .. => 0
  | _ => 1

theorem SendPc.live_le (pc : SendPc) : pc.live ≤ 1 := by
  cases pc <;> simp [SendPc.live]

theorem RecvPc.live_le (pc : RecvPc) : pc.live ≤ 1 := by
  cases pc <;> simp [RecvPc.live]

/-- An attempt that has returned makes no call. -/
theorem live_of_sendStep64 {s t : SendState} {ev : SendEv} (h : sendStep64 es s ev = some t) :
    s.pc.live = 1 := by
  cases hpc : s.pc with
  | ret err =>
    rcases ev with (_ | _) | _ | _
    all_goals simp [sendStep64, sendStep, hpc, SendPc.waiting, SendPc.outgoing] at h
  | _ => rfl

theorem live_of_recvStep64 {s t : RecvState} {ev : RecvEv} (h : recvStep64 er s ev = some t) :
    s.pc.live = 1 := by
  cases hpc : s.pc with
  | ret err m written =>
    rcases ev with (_ | _) | _ | _ | _ <;>
      simp [recvStep64, recvStep, hpc, RecvPc.waiting, RecvPc.outgoing] at h
  | _ => rfl

/-- A call that the connection fails ends the attempt. -/
theorem ret_of_senderFails {s t : SendState} {ec : ErrorCode} (hec : ec.failed = true)
    (h : sendStep64 es s (.sent ec) = some t ∨ sendStep64 es s (.received (.error ec)) = some t) :
    ∃ err, t.pc = .ret err := by
  rcases h with hsent | hreceived
  · simp only [sendStep64, sendStep, hec, if_true] at hsent
    split at hsent
    · cases hsent
      exact ⟨_, rfl⟩
    · split at hsent
      · cases hsent
        exact ⟨_, rfl⟩
      · cases hsent
  · simp only [sendStep64, sendStep] at hreceived
    split at hreceived
    · cases hreceived
      exact ⟨_, rfl⟩
    · cases hreceived

theorem ret_of_receiverFails {s t : RecvState} {ec : ErrorCode} (hec : ec.failed = true)
    (h : recvStep64 er s (.sent ec) = some t ∨ recvStep64 er s (.received (.error ec)) = some t) :
    ∃ err m written, t.pc = .ret err m written := by
  rcases h with hsent | hreceived
  · simp only [recvStep64, recvStep, hec, if_true] at hsent
    split at hsent
    · rename_i msg hout
      cases hsent
      cases hpc : s.pc <;> rw [hpc] at hout
      all_goals first | exact ⟨_, _, _, rfl⟩ | cases hout
    · cases hsent
  · simp only [recvStep64, recvStep, hec, if_true] at hreceived
    split at hreceived
    · cases hreceived
      exact ⟨_, _, _, rfl⟩
    · cases hreceived

/-- The steps left over a connection that can fail one call on each side. -/
def Peers.faultsLeft (es : SendEnv) (er : RecvEnv) (p : Peers) : ℕ :=
  p.stepsLeft es er + p.send.pc.live + p.recv.pc.live

theorem live_step_le {p q : Peers} {ev : PeerEv} (hstep : peerStep64 es er p ev = some q) :
    q.send.pc.live + q.recv.pc.live ≤ p.send.pc.live + p.recv.pc.live := by
  have hsend : ∀ {s : SendState} {ev : SendEv}, sendStep64 es p.send ev = some s →
      s.pc.live ≤ p.send.pc.live := fun hs => by
    rw [live_of_sendStep64 hs]
    exact SendPc.live_le _
  have hrecv : ∀ {s : RecvState} {ev : RecvEv}, recvStep64 er p.recv ev = some s →
      s.pc.live ≤ p.recv.pc.live := fun hs => by
    rw [live_of_recvStep64 hs]
    exact RecvPc.live_le _
  cases peerTransWith_of_step hstep with
  | senderSends _ s _ hs => exact Nat.add_le_add_right (hsend hs) _
  | senderReceives _ _ s _ hs => exact Nat.add_le_add_right (hsend hs) _
  | senderReads _ s hs => exact Nat.add_le_add_right (hsend hs) _
  | receiverSends _ s _ hs => exact Nat.add_le_add_left (hrecv hs) _
  | receiverReceives _ _ s _ hs => exact Nat.add_le_add_left (hrecv hs) _
  | receiverReads _ s hs => exact Nat.add_le_add_left (hrecv hs) _
  | receiverWrites _ _ s hs => exact Nat.add_le_add_left (hrecv hs) _

/-- Every step of the faulty composition lowers the bound, and leaves the sender in its source. -/
theorem faultsLeft_lt {p q : Peers} {ev : FaultEv} (hsize : es.info.size < 2 ^ 63)
    (hrange : p.send.pc.InRange es) (hstep : faultyStep es er p ev = some q) :
    q.send.pc.InRange es ∧ q.faultsLeft es er < p.faultsLeft es er := by
  cases ev with
  | step ev =>
    have hlt := stepsLeft_lt hsize hrange hstep
    have hlive := live_step_le hstep
    refine ⟨inRange_step hsize hrange hstep, ?_⟩
    simp only [Peers.faultsLeft]
    omega
  | senderFails ec =>
    simp only [faultyStep] at hstep
    split at hstep
    swap
    · cases hstep
    rename_i hec
    obtain ⟨s, hs, hstep⟩ := Option.bind_eq_some_iff.mp hstep
    cases hstep
    have hlive := live_of_sendStep64 hs
    obtain ⟨err, hret⟩ : ∃ err, s.pc = .ret err := by
      refine @ret_of_senderFails es p.send _ _ hec ?_
      split at hs
      · exact .inl hs
      · exact .inr hs
    have hgone : s.pc.live = 0 := by rw [hret, SendPc.live]
    have hnone : s.pc.callsLeft es = 0 := by rw [hret, SendPc.callsLeft]
    refine ⟨by rw [hret]; trivial, ?_⟩
    simp only [Peers.faultsLeft, Peers.stepsLeft]
    omega
  | receiverFails ec =>
    simp only [faultyStep] at hstep
    split at hstep
    swap
    · cases hstep
    rename_i hec
    obtain ⟨s, hs, hstep⟩ := Option.bind_eq_some_iff.mp hstep
    cases hstep
    have hlive := live_of_recvStep64 hs
    obtain ⟨err, m, written, hret⟩ : ∃ err m written, s.pc = .ret err m written := by
      refine @ret_of_receiverFails er p.recv _ _ hec ?_
      split at hs
      · exact .inl hs
      · exact .inr hs
    have hgone : s.pc.live = 0 := by rw [hret, RecvPc.live]
    have hnone : s.pc.callsLeft er = 0 := by rw [hret, RecvPc.callsLeft]
    refine ⟨hrange, ?_⟩
    simp only [Peers.faultsLeft, Peers.stepsLeft]
    omega
  | toRecvLost =>
    simp only [faultyStep] at hstep
    split at hstep
    · cases hstep
    · rename_i hne
      cases hstep
      have hpos := List.length_pos_iff.mpr hne
      refine ⟨hrange, ?_⟩
      simp only [Peers.faultsLeft, Peers.stepsLeft, List.length_dropLast]
      omega
  | toSendLost =>
    simp only [faultyStep] at hstep
    split at hstep
    · cases hstep
    · rename_i hne
      cases hstep
      have hpos := List.length_pos_iff.mpr hne
      refine ⟨hrange, ?_⟩
      simp only [Peers.faultsLeft, Peers.stepsLeft, List.length_dropLast]
      omega

/-- **No transfer runs for ever.** Whatever the source, the sink, the options and the resume offset, whatever
fails, the connection included, and however the calls interleave: the two attempts together make at most six
calls for each chunk of the source, one for each block that the receiver hashes again, and fourteen more. -/
theorem peers_steps_le (es : SendEnv) (er : RecvEnv) (store : Store) (hsize : es.info.size < 2 ^ 63)
    (evs : List FaultEv) (p : Peers)
    (h : exec (faultyStep es er) (Peers.start es store) evs = some p) :
    evs.length ≤ 6 * es.chunksFrom 0 + blocksFrom 0 er.resumeOffset + 14 := by
  have hle := length_add_rank_le (I := fun p : Peers => p.send.pc.InRange es)
    (r := Peers.faultsLeft es er) (fun _ _ _ hI hstep => (faultsLeft_lt hsize hI hstep).1)
    (fun _ _ _ hI hstep => (faultsLeft_lt hsize hI hstep).2) (inRange_start es) h
  have hstart := stepsLeft_start_le es er store
  have hsend := (Peers.start es store).send.pc.live_le
  have hrecv := (Peers.start es store).recv.pc.live_le
  have hfaults : (Peers.start es store).faultsLeft es er ≤
      6 * es.chunksFrom 0 + blocksFrom 0 er.resumeOffset + 14 := by
    simp only [Peers.faultsLeft]
    omega
  omega

/-- The Ack of one chunk is lost with the connection. -/
def lostAckTrace : List FaultEv :=
  [.step .senderSends, .step .receiverReceives, .step .receiverSends, .step .senderReceives,
    .step (.senderReads .success), .step .senderSends, .step .receiverReceives,
    .step (.receiverWrites .success fun _ => 0), .step .receiverSends, .toSendLost,
    .senderFails TcpDuplex.Errc.closed.code, .receiverFails TcpDuplex.Errc.closed.code]

theorem lost_ack_steps_le :
    (exec (faultyStep (sampleSendEnv (normalize none)) sampleRecvEnv)
        (Peers.start (sampleSendEnv (normalize none)) fun _ => 0) lostAckTrace).isSome = true ∧
      lostAckTrace.length ≤ 6 * (sampleSendEnv (normalize none)).chunksFrom 0 +
        blocksFrom 0 sampleRecvEnv.resumeOffset + 14 := by
  have hsome : (exec (faultyStep (sampleSendEnv (normalize none)) sampleRecvEnv)
      (Peers.start (sampleSendEnv (normalize none)) fun _ => 0) lostAckTrace).isSome = true := rfl
  obtain ⟨p, hp⟩ := Option.isSome_iff_exists.mp hsome
  exact ⟨hsome, peers_steps_le _ _ _ (by decide) _ p hp⟩

/-! ## Honest peers go on -/

/-- There is a call to make that does not fail. -/
def Enabled (es : SendEnv) (er : RecvEnv) (p : Peers) : Prop :=
  ∃ ev : PeerEv, ev.faultless = true ∧ (peerStep es er p ev).isSome = true

section Enabled

variable {p : Peers} {msg : Bytes} {rest : List Bytes}

theorem enabled_senderSends (hout : p.send.pc.outgoing es = some msg) : Enabled es er p := by
  refine ⟨.senderSends, rfl, ?_⟩
  simp only [peerStep, peerStepWith, hout, sendStep_sent hout]
  rfl

theorem enabled_senderReceives (hqueue : p.toSend = msg :: rest) (hwait : p.send.pc.waiting = true) :
    Enabled es er p := by
  refine ⟨.senderReceives, rfl, ?_⟩
  simp only [peerStep, peerStepWith, hqueue, sendStep_received hwait]
  rfl

theorem enabled_senderReads {acked nextOff : ℤ} (hpc : p.send.pc = .read acked nextOff) :
    Enabled es er p := by
  refine ⟨.senderReads .success, rfl, ?_⟩
  simp only [peerStep, peerStepWith, sendStep_read hpc]
  rfl

theorem enabled_receiverSends (hout : p.recv.pc.outgoing er = some msg) : Enabled es er p := by
  refine ⟨.receiverSends, rfl, ?_⟩
  simp only [peerStep, peerStepWith, hout, recvStep_sent hout]
  rfl

theorem enabled_receiverReceives (hqueue : p.toRecv = msg :: rest)
    (hwait : (p.recv.pc.waiting er).isSome = true) : Enabled es er p := by
  refine ⟨.receiverReceives, rfl, ?_⟩
  simp only [peerStep, peerStepWith, hqueue, recvStep_received hwait]
  rfl

theorem enabled_hashAll {m : Meta} {off : ℤ} {ctx : Bytes} (hpc : p.recv.pc = .hashAll m off ctx) :
    Enabled es er p := by
  refine ⟨.receiverReads .success, rfl, ?_⟩
  simp only [peerStep, peerStepWith, recvStep, hpc]
  rfl

theorem enabled_hashPrefix {m : Meta} {off : ℤ} {ctx : Bytes}
    (hpc : p.recv.pc = .hashPrefix m off ctx) : Enabled es er p := by
  refine ⟨.receiverReads .success, rfl, ?_⟩
  simp only [peerStep, peerStepWith, recvStep_hashPrefix hpc]
  rfl

theorem enabled_receiverWrites {m : Meta} {hw : HashingWriter} {written : ℤ} {since : ℕ} {off : ℤ}
    {data : Bytes} (hpc : p.recv.pc = .write m hw written since off data) : Enabled es er p := by
  refine ⟨.receiverWrites .success fun _ => 0, rfl, ?_⟩
  simp only [peerStep, peerStepWith, recvStep_wrote hpc]
  rfl

/-- A receiver that has the whole source takes the Done. -/
theorem enabled_of_ends (hr : p.recv.pc.Ends es) (hqueue : p.toRecv = msg :: rest) :
    Enabled es er p := by
  cases hpc : p.recv.pc with
  | hashAll m off ctx => exact enabled_hashAll hpc
  | doneAll m sum => exact enabled_receiverReceives hqueue (by rw [hpc]; rfl)
  | done m hw written => exact enabled_receiverReceives hqueue (by rw [hpc]; rfl)
  | _ =>
    rw [hpc] at hr
    cases hr

/-- In the loop one of the two can go on, unless both wait. -/
theorem enabled_of_flowing {acked nextOff last taken : ℤ} (hs : p.send.pc.At es acked nextOff)
    (hr : p.recv.pc.In es er last taken)
    (hback : AcksUp es.info.id acked last p.toSend) (hlt : acked < es.info.size) :
    Enabled es er p ∨ Deadlocked p := by
  cases hsp : p.send.pc with
  | read a n => exact .inl (enabled_senderReads hsp)
  | chunk a n data => exact .inl (enabled_senderSends (by rw [hsp]; rfl))
  | ack a n =>
    -- The sender waits: it can take an Ack, or the receiver has to move.
    cases hqueue : p.toSend with
    | cons msg rest => exact .inl (enabled_senderReceives hqueue (by rw [hsp]; rfl))
    | nil =>
      cases hrp : p.recv.pc with
      | hashPrefix m off ctx => exact .inl (enabled_hashPrefix hrp)
      | chunk m hw written since =>
        cases hq : p.toRecv with
        | cons msg rest => exact .inl (enabled_receiverReceives hq (by rw [hrp]; rfl))
        | nil => exact .inr ⟨⟨a, n, hsp⟩, ⟨m, hw, written, since, hrp⟩, hq, hqueue⟩
      | write m hw written since off data => exact .inl (enabled_receiverWrites hrp)
      | ack m hw written => exact .inl (enabled_receiverSends (by rw [hrp]; rfl))
      | done m hw written =>
        -- The last Ack is out, so it is still in the queue.
        rw [hrp] at hr
        rw [hqueue] at hback
        obtain ⟨_, _, rfl⟩ := hr
        cases hback
        exact absurd hlt (lt_irrefl _)
      | _ =>
        rw [hrp] at hr
        cases hr
  | _ =>
    rw [hsp] at hs
    cases hs

end Enabled

/-- Both attempts have returned success and nothing is left in the queues. -/
structure Completed (es : SendEnv) (p : Peers) : Prop where
  send : p.send.pc = .ret .success
  recv : p.recv.pc = .ret .success es.info es.info.size
  toRecv : p.toRecv = []
  toSend : p.toSend = []
  content : p.recv.store.read 0 es.info.size.toNat = es.source.read 0 es.info.size.toNat

theorem InStep.completed_of_finished {p : Peers} (h : InStep es er p) {written : ℤ}
    (hs : p.send.pc = .ret .success) (hr : p.recv.pc = .ret .success es.info written)
    (hto : p.toRecv = []) (hback : p.toSend = []) : Completed es p := by
  have hsound := h.copies.sound
  have hagree := h.copies.mirrors.agree
  rw [RecvState.Sound, hr] at hsound
  rw [hr] at hagree
  obtain ⟨rfl, _⟩ := hsound rfl
  exact ⟨hs, hr, hto, hback, hagree.read_eq⟩

/-- Honest peers in step have completed, wait for each other, or can go on. -/
theorem InStep.progress {p : Peers} (h : InStep es er p) :
    Completed es p ∨ Deadlocked p ∨ Enabled es er p := by
  have hphase := h.phase
  generalize hsp : p.send.pc = sp, hrp : p.recv.pc = rp, hq : p.toRecv = toRecv,
    hb : p.toSend = toSend at hphase
  cases hphase with
  | offering msg => exact .inr (.inr (enabled_senderSends (by rw [hsp]; rfl)))
  | offered msg => exact .inr (.inr (enabled_receiverReceives hq (by rw [hrp]; rfl)))
  | accepting => exact .inr (.inr (enabled_receiverSends (by rw [hrp]; rfl)))
  | accepted => exact .inr (.inr (enabled_senderReceives hb (by rw [hsp]; rfl)))
  | flowing _ _ _ _ acked nextOff last taken hs hr _ hback _ hlt =>
    rw [← hsp] at hs
    rw [← hrp] at hr
    rw [← hb] at hback
    exact .inr (enabled_of_flowing hs hr hback hlt).symm
  | closing => exact .inr (.inr (enabled_senderSends (by rw [hsp]; rfl)))
  | closed _ hr =>
    rw [← hrp] at hr
    exact .inr (.inr (enabled_of_ends hr hq))
  | replying => exact .inr (.inr (enabled_receiverSends (by rw [hrp]; rfl)))
  | replied => exact .inr (.inr (enabled_senderReceives hb (by rw [hsp]; rfl)))
  | finished => exact .inl (h.completed_of_finished hsp hrp hq hb)

/-- With sums that fit, such a run is one with exact sums. -/
theorem exact_of_honestRun {store : Store} {p : Peers} (hpair : HonestPair es er store)
    (hfits : ∀ p, HonestRun es er (Peers.start es store) p → p.send.pc.AddsInRange es)
    (h : HonestRun es er (Peers.start es store) p) : Run (peerStep es er) (Peers.start es store) p := by
  induction h with
  | refl => exact Run.refl _
  | tail hrun hlast ih =>
    obtain ⟨ev, _, hstep⟩ := hlast
    rw [(inStep_of_honestRun hpair hfits hrun).copies.peerStep64_eq hpair.resumes.size_lt
      (hfits _ hrun)] at hstep
    exact ih.snoc hstep

/-- **Honest transfers complete.** Between honest peers whose size and chunk fit together and whose window
does not close before the first Ack is due, wherever a run without failures has come: it can be continued to
the end, and where it cannot be continued both sides have returned success, the queues are empty and the sink
holds the source. -/
theorem honest_transfer_completes (es : SendEnv) (er : RecvEnv) (store : Store)
    (hpair : HonestPair es er store) (hfit : es.info.size + es.chunkSize.toInt ≤ 2 ^ 63)
    (hsafe : ¬Stalls es er) (p : Peers) (h : HonestRun es er (Peers.start es store) p) :
    (∃ q, HonestRun es er p q ∧ Completed es q) ∧
      (Halted (peerStep64 es er) (fun p ev => ev.faultless64 es p = true) p → Completed es p) := by
  have hsize := hpair.resumes.size_lt
  have hfits := addsInRange_of_fit hpair hfit
  -- In every state that such a run reaches, halting means having completed.
  have hhalted : ∀ q, HonestRun es er (Peers.start es store) q →
      Halted (peerStep64 es er) (fun p ev => ev.faultless64 es p = true) q → Completed es q := by
    intro q hrun hhalt
    have hin := inStep_of_honestRun hpair hfits hrun
    rcases hin.progress with hdone | hdead | ⟨ev, hok, hsome⟩
    · exact hdone
    · have hflow := flow_reachable hpair.resumes (exact_of_honestRun hpair hfits hrun)
      exact absurd (stalls_of_deadlocked hflow hdead) hsafe
    · rw [← hin.copies.faultless64_eq hsize (hfits q hrun)] at hok
      rw [← hin.copies.peerStep64_eq hsize (hfits q hrun), hhalt ev hok] at hsome
      cases hsome
  refine ⟨?_, hhalted p h⟩
  have hrange : p.send.pc.InRange es := (inStep_of_honestRun hpair hfits h).copies.inRange
  obtain ⟨q, hrun, hhalt⟩ := exists_halted (I := fun p : Peers => p.send.pc.InRange es)
    (r := Peers.stepsLeft es er) (fun _ _ _ hI hstep => inRange_step hsize hI hstep)
    (fun _ _ _ hI hstep => stepsLeft_lt hsize hI hstep)
    (fun p ev => PeerEv.faultless64 es p ev = true) hrange
  exact ⟨q, hrun, hhalted q (h.trans hrun) hhalt⟩

/-- With the default options a transfer of `abc` completes from its start. -/
theorem abc_completes :
    ∃ q, HonestRun (sampleSendEnv (normalize none)) sampleRecvEnv
        (Peers.start (sampleSendEnv (normalize none)) fun _ => 0) q ∧
      Completed (sampleSendEnv (normalize none)) q := by
  have hsafe : ¬Stalls (sampleSendEnv (normalize none)) sampleRecvEnv :=
    fun hstalls => absurd hstalls.window_lt (by decide)
  exact (honest_transfer_completes _ _ _ honestPair_abc (by decide) hsafe _ (GRun.refl _)).1

end TcpDuplex.Transfer
