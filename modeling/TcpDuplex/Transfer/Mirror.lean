import TcpDuplex.Transfer.Verified
import TcpDuplex.Transfer.SendOnce

/-!
# One attempt copies the source

The sender's side of an attempt puts nothing on the connection but its Offer, its Done and Chunk
frames that carry the source's bytes at their own offset. The receiver's side, as long as it is fed such
frames, keeps the sink equal to the source below the point it has reached.
-/

namespace TcpDuplex.Transfer

open Machine

/-! ## What the sender puts on a connection -/

/-- A frame that a sender of `source`, offered as `m`, may send. -/
inductive Honest (m : Meta) (source : Store) : Bytes → Prop where
  | offer {msg : Bytes} (h : encodeOffer m = .ok msg) : Honest m source msg
  | chunk (off : ℤ) (n : ℕ) (hlo : 0 ≤ off) (hhi : off + n ≤ m.size) :
      Honest m source (encodeChunk m.id off (source.read off n))
  | done : Honest m source (encodeDone m.id true m.hash)

variable {m : Meta} {source : Store} {msg : Bytes} {dec : Decoded}

theorem Honest.info_eq (hsize : m.size < 2 ^ 63) (h : Honest m source msg)
    (hdec : decodeFrame msg = .ok dec) (htyp : dec.typ = kTypeOffer) : dec.info = m := by
  cases h with
  | offer henc =>
    rw [decodeFrame_encodeOffer hsize henc] at hdec
    cases hdec
    rfl
  | chunk off n _ _ => cases (type_of_decodeFrame_frame hdec).symm.trans htyp
  | done => cases (type_of_decodeFrame_frame hdec).symm.trans htyp

theorem Honest.data_eq (hsize : m.size < 2 ^ 63) (h : Honest m source msg)
    (hdec : decodeFrame msg = .ok dec) (htyp : dec.typ = kTypeChunk) :
    dec.data = source.read dec.offset dec.data.length := by
  cases h with
  | offer henc =>
    rw [decodeFrame_encodeOffer hsize henc] at hdec
    cases hdec
    cases htyp
  | chunk off n hlo hhi =>
    rw [decodeFrame_encodeChunk m.id (by omega) (by omega)] at hdec
    cases hdec
    simp only [Store.length_read]
  | done => cases (type_of_decodeFrame_frame hdec).symm.trans htyp

/-- Where the sender's next chunk lies. -/
def SendPc.InRange (e : SendEnv) : SendPc → Prop
  | .offer msg => encodeOffer e.info = .ok msg
  | .read _ nextOff => 0 ≤ nextOff ∧ nextOff < e.info.size
  | .chunk _ nextOff data =>
    0 ≤ nextOff ∧ nextOff < e.info.size ∧ data = e.source.read nextOff (e.chunkLength nextOff)
  | .ack _ nextOff => 0 ≤ nextOff
  | _ => True

variable {es : SendEnv}

theorem inRange_start (es : SendEnv) : (SendState.start es).pc.InRange es := by
  cases henc : encodeOffer es.info with
  | error err =>
    simp only [SendState.start, henc]
    trivial
  | ok msg =>
    simp only [SendState.start, henc]
    exact henc

theorem inRange_fillHead {nextOff : ℤ} (h : 0 ≤ nextOff) (acked : ℤ) :
    (fillHead es acked nextOff).InRange es := by
  unfold fillHead
  split
  · rename_i hroom
    exact ⟨h, hroom.2⟩
  · exact h

theorem inRange_windowHead {nextOff : ℤ} (h : 0 ≤ nextOff) (acked : ℤ) :
    (windowHead es acked nextOff).InRange es := by
  unfold windowHead
  split
  · exact inRange_fillHead h acked
  · trivial

theorem inRange_onMessage {pc : SendPc} (h : pc.InRange es) (hwait : pc.waiting = true)
    (msg : Bytes) : (pc.onMessage es msg).pc.InRange es := by
  cases pc with
  | accept =>
    have hout := onAccept_outcome es msg
    rw [SendPc.onMessage]
    generalize onAccept es msg = next at hout ⊢
    cases hout with
    | failed => trivial
    | resumes dec _ _ _ hlo _ => exact inRange_windowHead hlo _
  | ack acked nextOff =>
    have hout := onAck_outcome es acked nextOff msg
    rw [SendPc.onMessage]
    generalize onAck es acked nextOff msg = next at hout ⊢
    cases hout with
    | failed => trivial
    | moves => exact inRange_windowHead h _
  | reply =>
    have hout := onReply_outcome es msg
    rw [SendPc.onMessage]
    generalize onReply es msg = next at hout ⊢
    cases hout <;> trivial
  | _ => cases hwait

/-- Every step of `send_once` keeps its next chunk inside the source. -/
theorem SendPc.InRange.step {s t : SendState} {ev : SendEv} (h : s.pc.InRange es)
    (hstep : sendStep es s ev = some t) : t.pc.InRange es := by
  cases sendTrans_of_step hstep with
  | lost => trivial
  | message msg hwait => exact inRange_onMessage h hwait msg
  | sendFailed => trivial
  | sent msg ec hout _ =>
    generalize s.pc = pc at h hout ⊢
    cases pc with
    | offer msg => trivial
    | chunk acked nextOff data => exact inRange_fillHead (by have := h.1; omega) acked
    | done => trivial
    | _ => cases hout
  | readFailed => trivial
  | read acked nextOff ec hpc _ =>
    rw [hpc] at h
    exact ⟨h.1, h.2, rfl⟩

theorem honest_of_outgoing {pc : SendPc} (h : pc.InRange es) (hout : pc.outgoing es = some msg) :
    Honest es.info es.source msg := by
  cases pc with
  | offer msg' =>
    cases hout
    exact .offer h
  | chunk acked nextOff data =>
    obtain ⟨hlo, hlt, rfl⟩ := h
    cases hout
    have hlen := es.chunkLength_eq hlt
    exact .chunk nextOff _ hlo (by omega)
  | done =>
    cases hout
    exact .done
  | _ => cases hout

/-! ## What the receiver has copied -/

/-- The offset up to which the sink is written: what `written_out` is set to on the way out. -/
def RecvPc.position (e : RecvEnv) : RecvPc → ℤ
  | .offer | .reject .. | .accept .. | .hashAll .. | .doneAll .. | .hashPrefix .. => e.resumeOffset
  | .abort _ written _ | .chunk _ _ written _ | .write _ _ written _ _ _ | .ack _ _ written
  | .done _ _ written | .reply _ written _ _ _ | .ret _ _ written => written

/-- A chunk about to be written is a piece of the source. -/
def RecvPc.Carries (source : Store) : RecvPc → Prop
  | .write _ _ _ _ off data => data = source.read off data.length
  | _ => True

/-- The receiver stands at offset `w`. -/
structure RecvPc.Stands (e : RecvEnv) (source : Store) (w : ℤ) (pc : RecvPc) : Prop where
  position_eq : pc.position e = w
  carries : pc.Carries source

/-- The sink equals the source below the point the attempt has reached. -/
structure RecvState.Mirrors (e : RecvEnv) (source : Store) (size : ℤ) (s : RecvState) : Prop where
  resume_le : e.resumeOffset ≤ s.pc.position e
  le_size : s.pc.position e ≤ size
  agree : s.store.Agree source (s.pc.position e)
  carries : s.pc.Carries source

variable {e : RecvEnv} {size w : ℤ}

theorem Onward.stands {m : Meta} {pc : RecvPc} (h : Onward e m w pc) : pc.Stands e source w := by
  cases h <;> exact ⟨rfl, trivial⟩

theorem stands_onOffer (msg : Bytes) : (onOffer e msg).Stands e source e.resumeOffset := by
  have h := onOffer_outcome e msg
  generalize onOffer e msg = pc at h ⊢
  cases h <;> exact ⟨rfl, trivial⟩

theorem stands_onDone (m : Meta) (w : ℤ) (sum : Hash) (msg : Bytes) :
    (onDone m w sum msg).Stands e source w := by
  have h := onDone_outcome m w sum msg
  generalize onDone m w sum msg = pc at h ⊢
  cases h <;> exact ⟨rfl, trivial⟩

/-- The frame holds a piece of the source, if it is a chunk at all. -/
def ChunkOf (source : Store) (msg : Bytes) : Prop :=
  ∀ dec, decodeFrame msg = .ok dec → dec.typ = kTypeChunk →
    dec.data = source.read dec.offset dec.data.length

theorem stands_onChunk (m : Meta) (hw : HashingWriter) (w : ℤ) (since : ℕ) {msg : Bytes}
    (hmsg : ChunkOf source msg) : (onChunk e m hw w since msg).Stands e source w := by
  have h := onChunk_outcome e m hw w since msg
  generalize onChunk e m hw w since msg = pc at h ⊢
  cases h with
  | writes dec hdec htyp _ _ _ => exact ⟨rfl, hmsg dec hdec htyp⟩
  | _ => exact ⟨rfl, trivial⟩

theorem stands_onMessage {pc : RecvPc} (hpc : (pc.waiting e).isSome = true) {msg : Bytes}
    (hmsg : ChunkOf source msg) : (pc.onMessage e msg).Stands e source (pc.position e) := by
  cases pc with
  | offer => exact stands_onOffer msg
  | doneAll m sum => exact stands_onDone _ _ _ _
  | chunk m hw written since => exact stands_onChunk _ _ _ _ hmsg
  | done m hw written => exact stands_onDone _ _ _ _
  | _ => cases hpc

theorem stands_onSent {pc : RecvPc} (hout : pc.outgoing e = some msg) :
    (pc.onSent e).Stands e source (pc.position e) := by
  cases pc with
  | reject m reason err out => exact ⟨rfl, trivial⟩
  | accept m => exact (onward_afterAccept e m).stands
  | abort m written err => exact ⟨rfl, trivial⟩
  | ack m hw written => exact (onward_chunkHead e m hw written 0).stands
  | reply m written ok sum theirs => exact ⟨rfl, trivial⟩
  | _ => cases hout

theorem stands_onSendFailed {pc : RecvPc} (hout : pc.outgoing e = some msg) (ec : ErrorCode) :
    (pc.onSendFailed e ec).Stands e source (pc.position e) := by
  cases pc with
  | reject m reason err out => exact ⟨rfl, trivial⟩
  | accept m => exact ⟨rfl, trivial⟩
  | abort m written err => exact ⟨rfl, trivial⟩
  | ack m hw written => exact ⟨rfl, trivial⟩
  | reply m written ok sum theirs => exact ⟨rfl, trivial⟩
  | _ => cases hout

theorem position_of_waiting {pc : RecvPc} {m : Meta} (h : pc.waiting e = some (m, w)) :
    pc.position e = w := by
  cases pc <;> cases h <;> rfl

/-- A step that neither moves the receiver nor touches the sink. -/
theorem RecvState.Mirrors.of_stands {s t : RecvState} (h : s.Mirrors e source size)
    (hstore : t.store = s.store) (hpc : t.pc.Stands e source (s.pc.position e)) :
    t.Mirrors e source size := by
  refine ⟨?_, ?_, ?_, hpc.carries⟩
  · rw [hpc.position_eq]
    exact h.resume_le
  · rw [hpc.position_eq]
    exact h.le_size
  · rw [hpc.position_eq, hstore]
    exact h.agree

/-- Every step of `receive_once` that is fed pieces of the source copies them to their place. -/
theorem RecvState.Mirrors.step {s t : RecvState} {ev : RecvEv} (h : s.Mirrors e source size)
    (hsound : s.Sound e) (hoffer : ∀ m, Offered s.received m → m.size = size)
    (hmsg : ∀ msg, ev = .received (.ok msg) → ChunkOf source msg)
    (hstep : recvStep e s ev = some t) : t.Mirrors e source size := by
  cases recvTrans_of_step hstep with
  | lost m written ec hpc _ => exact h.of_stands rfl ⟨(position_of_waiting hpc).symm, trivial⟩
  | message msg hpc => exact h.of_stands rfl (stands_onMessage hpc (hmsg msg rfl))
  | sendFailed msg ec hpc _ => exact h.of_stands rfl (stands_onSendFailed hpc ec)
  | sent msg ec hpc _ =>
    exact h.of_stands (RecvState.reportSent_store _ _) (stands_onSent hpc)
  | hashAllFailed m off ctx ec hpc _ => exact h.of_stands rfl ⟨by rw [hpc]; rfl, trivial⟩
  | hashAll m off ctx block ec hpc _ _ =>
    refine h.of_stands rfl ?_
    rw [hpc]
    exact (onward_hashAllHead e m _ _).stands
  | hashPrefixFailed m off ctx ec hpc _ => exact h.of_stands rfl ⟨by rw [hpc]; rfl, trivial⟩
  | hashPrefix m off ctx block ec hpc _ _ =>
    refine h.of_stands rfl ?_
    rw [hpc]
    exact (onward_hashPrefixHead e m _ _).stands
  | writeFailed m hw written since off data ec junk hpc _ =>
    obtain ⟨hres, hle, hagree, _⟩ := h
    simp only [RecvState.Sound, hpc] at hsound
    obtain ⟨_, _, rfl, _⟩ := hsound
    rw [hpc] at hres hle hagree
    exact ⟨hres, hle, hagree.damage le_rfl, trivial⟩
  | wrote m hw written since off data ec junk hpc _ =>
    obtain ⟨hres, hle, hagree, hdata⟩ := h
    simp only [RecvState.Sound, hpc] at hsound
    obtain ⟨hoff, _, rfl, hfit⟩ := hsound
    rw [hpc] at hres hle hagree hdata
    have hsize := hoffer m hoff
    have hstands : RecvPc.Stands e source (off + data.length)
        (afterWrite e m ⟨hw.offset + data.length, hw.ctx ++ data⟩ (off + data.length) (since + 1)) :=
      (onward_afterWrite e m _ _ _).stands
    have hres' : e.resumeOffset ≤ off := hres
    refine ⟨?_, ?_, ?_, ?_⟩
    · rw [RecvState.report_pc, hstands.position_eq]
      omega
    · rw [RecvState.report_pc, hstands.position_eq]
      omega
    · rw [RecvState.report_pc, RecvState.report_store, hstands.position_eq]
      exact hagree.write hdata
    · rw [RecvState.report_pc]
      exact hstands.carries

end TcpDuplex.Transfer
