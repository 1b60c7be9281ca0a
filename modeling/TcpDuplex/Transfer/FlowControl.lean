import TcpDuplex.Transfer.Peers

/-!
# The window against the acknowledgements

The sender stops after `window` chunks without an Ack; the receiver sends an Ack behind every
`ack_every` chunks and at the end of the content. The two options are chosen independently, so both
sides can come to wait for each other. `Stalls` is the exact condition for it, on the inputs alone.

`Flow` follows a run through its phases: the Offer, its answer, and the chunks. In the last phase the
queue to the receiver tiles the gap between what the receiver took and what the sender sent, and the
queue back leads from the sender's last Ack to the receiver's.
-/

namespace TcpDuplex.Transfer

open Machine

/-- The sender waits for an Ack, the receiver for a chunk, and no frame is in flight. -/
def Deadlocked (p : Peers) : Prop :=
  (∃ acked nextOff, p.send.pc = .ack acked nextOff) ∧
    (∃ m hw written since, p.recv.pc = .chunk m hw written since) ∧ p.toRecv = [] ∧ p.toSend = []

/-- The receiver answers the Offer with an Accept. -/
structure Taken (es : SendEnv) (er : RecvEnv) : Prop where
  name_le : es.info.name.length ≤ 0xffff
  id_eq : er.expectMeta = true → es.info.id = er.want.id
  accepted : ∀ f, er.opts.accept = some f → (f es.info).failed = false

/-- The window closes before the first Ack is due: there is more left than fits into it, and the
receiver counts further than it. -/
structure Stalls (es : SendEnv) (er : RecvEnv) : Prop where
  taken : Taken es er
  readable : 0 < er.resumeOffset → er.readable = true
  window_lt : es.opts.window.toInt < er.opts.ackEvery.toInt
  left : es.opts.window.toInt * es.chunkSize.toInt < es.info.size - er.resumeOffset

variable {es : SendEnv} {er : RecvEnv}

/-! ## What is in flight -/

/-- The Chunk frames from offset `a` to offset `b`. -/
inductive Tiles (e : SendEnv) : ℤ → ℤ → List Bytes → Prop where
  | nil (a : ℤ) : Tiles e a a []
  | cons {a b : ℤ} {l : List Bytes} (hlt : a < e.info.size)
      (htail : Tiles e (a + e.chunkLength a) b l) : Tiles e a b (e.chunkAt a :: l)

theorem Tiles.snoc {a b : ℤ} {l : List Bytes} (h : Tiles es a b l) (hlt : b < es.info.size) :
    Tiles es a (b + es.chunkLength b) (l ++ [es.chunkAt b]) := by
  induction h with
  | nil a => exact .cons hlt (.nil _)
  | cons hlt' _ ih => exact .cons hlt' (ih hlt)

/-- Ack frames that lead from offset `a` to offset `b`, none of them outside `lo` and `hi`. -/
inductive Acks (id : ID) (lo hi : ℤ) : ℤ → ℤ → List Bytes → Prop where
  | nil (a : ℤ) : Acks id lo hi a a []
  | cons {a b c : ℤ} {l : List Bytes} (hlo : lo ≤ c) (hhi : c ≤ hi) (htail : Acks id lo hi c b l) :
      Acks id lo hi a b (encodeAck id c :: l)

theorem Acks.snoc {id : ID} {lo hi a b c : ℤ} {l : List Bytes} (h : Acks id lo hi a b l)
    (hlo : lo ≤ c) (hhi : c ≤ hi) : Acks id lo hi a c (l ++ [encodeAck id c]) := by
  induction h with
  | nil a => exact .cons hlo hhi (.nil _)
  | cons hlo' hhi' _ ih => exact .cons hlo' hhi' ih

/-! ## Where the two sides stand -/

/-- The sender is behind its loop. -/
def SendPc.Over : SendPc → Prop
  | .done | .reply | .ret _ => True
  | _ => False

/-- The receiver is behind its loop, or never comes to it. -/
def RecvPc.Over : RecvPc → Prop
  | .reject .. | .hashAll .. | .doneAll .. | .abort .. | .done .. | .reply .. | .ret .. => True
  | _ => False

/-- The sender is in its loop. -/
def SendPc.At (e : SendEnv) (acked nextOff : ℤ) : SendPc → Prop
  | .read a n => a = acked ∧ n = nextOff ∧ n < e.info.size
  | .chunk a n data =>
    a = acked ∧ n = nextOff ∧ n < e.info.size ∧ data = e.source.read n (e.chunkLength n)
  | .ack a n =>
    a = acked ∧ n = nextOff ∧
      ¬(countInFlight a n e.chunkSize < e.opts.window ∧ n < e.info.size)
  | _ => False

/-- The chunks the receiver has counted since its last Ack, at offset `last`. -/
structure Counted (es : SendEnv) (er : RecvEnv) (last written : ℤ) (since : ℕ) : Prop where
  lt_size : written < es.info.size
  eq_mul : written = last + since * es.chunkSize.toInt
  lt_ackEvery : since < er.opts.ackEvery.toInt

/-- The receiver is in its loop or on the way to it; `taken` is the end of the last chunk it took. -/
def RecvPc.At (es : SendEnv) (er : RecvEnv) (last taken : ℤ) : RecvPc → Prop
  | .hashPrefix m _ _ =>
    m = es.info ∧ last = er.resumeOffset ∧ taken = er.resumeOffset
  | .chunk m _ written since => m = es.info ∧ taken = written ∧ Counted es er last written since
  | .write m _ written since off data =>
    m = es.info ∧ off = written ∧ data.length = es.chunkLength written ∧
      taken = written + data.length ∧ Counted es er last written since
  | .ack m _ written =>
    m = es.info ∧ taken = written ∧ er.resumeOffset ≤ written ∧ written ≤ es.info.size
  | _ => False

/-- The receiver has sent its Accept and taken no chunk yet. -/
def RecvPc.Ready (es : SendEnv) (er : RecvEnv) : RecvPc → Prop
  | .hashPrefix m _ _ => m = es.info
  | .chunk m _ written since =>
    m = es.info ∧ written = er.resumeOffset ∧ since = 0 ∧ written < es.info.size
  | _ => False

/-- The phases of a run. -/
inductive Flow (es : SendEnv) (er : RecvEnv) (p : Peers) : Prop where
  | sendOver (h : p.send.pc.Over)
  | recvOver (h : p.recv.pc.Over)
  | offering (msg : Bytes) (henc : encodeOffer es.info = .ok msg) (hs : p.send.pc = .offer msg)
      (hr : p.recv.pc = .offer) (hto : p.toRecv = []) (hback : p.toSend = [])
  | offered (msg : Bytes) (henc : encodeOffer es.info = .ok msg) (hs : p.send.pc = .accept)
      (hr : p.recv.pc = .offer) (hto : p.toRecv = [msg]) (hback : p.toSend = [])
  | accepting (htaken : Taken es er) (hs : p.send.pc = .accept) (hr : p.recv.pc = .accept es.info)
      (hto : p.toRecv = []) (hback : p.toSend = [])
  | accepted (htaken : Taken es er) (hread : 0 < er.resumeOffset → er.readable = true)
      (hs : p.send.pc = .accept) (hr : p.recv.pc.Ready es er) (hto : p.toRecv = [])
      (hback : p.toSend = [encodeAccept es.info.id er.resumeOffset])
  | flowing (htaken : Taken es er) (hread : 0 < er.resumeOffset → er.readable = true)
      (acked nextOff last taken : ℤ) (hs : p.send.pc.At es acked nextOff)
      (hr : p.recv.pc.At es er last taken) (hto : Tiles es taken nextOff p.toRecv)
      (hback : Acks es.info.id er.resumeOffset es.info.size acked last p.toSend)
      (hacked : er.resumeOffset ≤ acked) (hlast : er.resumeOffset ≤ last)

/-! ## The heads of the loops -/

theorem at_fillHead (e : SendEnv) (acked nextOff : ℤ) :
    (fillHead e acked nextOff).At e acked nextOff := by
  unfold fillHead
  split
  · rename_i h
    exact ⟨rfl, rfl, h.2⟩
  · rename_i h
    exact ⟨rfl, rfl, h⟩

theorem ready_hashPrefixHead (es : SendEnv) (er : RecvEnv) (off : ℤ) (ctx : Bytes) :
    (hashPrefixHead er es.info off ctx).Over ∨ (hashPrefixHead er es.info off ctx).Ready es er := by
  unfold hashPrefixHead
  split
  · exact .inr rfl
  · unfold chunkHead
    split
    · rename_i hlt
      exact .inr ⟨rfl, rfl, rfl, hlt⟩
    · exact .inl trivial

theorem RecvPc.Ready.at {pc : RecvPc} (h : pc.Ready es er) :
    pc.At es er er.resumeOffset er.resumeOffset := by
  cases pc with
  | hashPrefix m off ctx => exact ⟨h, rfl, rfl⟩
  | chunk m hw written since =>
    obtain ⟨rfl, rfl, rfl, hlt⟩ := h
    refine ⟨rfl, rfl, hlt, by simp, ?_⟩
    exact_mod_cast Int32.lt_iff_toInt_lt.mp er.opts.ackEvery_pos
  | _ => cases h

/-! ## Behind the loops -/

theorem over_onDone (m : Meta) (written : ℤ) (sum : Hash) (msg : Bytes) :
    (onDone m written sum msg).Over := by
  have h := onDone_outcome m written sum msg
  generalize onDone m written sum msg = pc at h ⊢
  cases h <;> trivial

theorem SendPc.Over.step {s t : SendState} {ev : SendEv} (h : s.pc.Over)
    (hstep : sendStep es s ev = some t) : t.pc.Over := by
  cases sendTrans_of_step hstep with
  | lost => trivial
  | message msg hpc =>
    generalize s.pc = pc at h hpc ⊢
    cases pc with
    | reply =>
      have hout := onReply_outcome es msg
      show (onReply es msg).pc.Over
      generalize onReply es msg = next at hout ⊢
      cases hout <;> trivial
    | done => cases hpc
    | ret err => cases hpc
    | _ => cases h
  | sendFailed => trivial
  | sent msg ec hpc _ =>
    generalize s.pc = pc at h hpc ⊢
    cases pc with
    | done => trivial
    | reply => cases hpc
    | ret err => cases hpc
    | _ => cases h
  | readFailed => trivial
  | read acked nextOff ec hpc _ =>
    rw [hpc] at h
    cases h

theorem RecvPc.Over.step {s t : RecvState} {ev : RecvEv} (h : s.pc.Over)
    (hstep : recvStep er s ev = some t) : t.pc.Over := by
  cases recvTrans_of_step hstep with
  | lost => trivial
  | message msg hpc =>
    generalize s.pc = pc at h hpc ⊢
    cases pc with
    | doneAll m sum => exact over_onDone _ _ _ _
    | done m hw written => exact over_onDone _ _ _ _
    | offer => cases h
    | chunk => cases h
    | _ => cases hpc
  | sendFailed msg ec hpc _ =>
    generalize s.pc = pc at h hpc ⊢
    cases pc with
    | reject => trivial
    | abort => trivial
    | reply => trivial
    | accept => cases h
    | ack => cases h
    | _ => cases hpc
  | sent msg ec hpc _ =>
    generalize s.pc = pc at h hpc ⊢
    cases pc with
    | reject => trivial
    | abort => trivial
    | reply => trivial
    | accept => cases h
    | ack => cases h
    | _ => cases hpc
  | hashAllFailed => trivial
  | hashAll m off ctx block ec =>
    simp only [hashAllHead]
    split <;> trivial
  | hashPrefixFailed => trivial
  | hashPrefix m off ctx block ec hpc =>
    rw [hpc] at h
    cases h
  | writeFailed => trivial
  | wrote m hw written since off data ec junk hpc =>
    rw [hpc] at h
    cases h

/-! ## The chunks in flight -/

section Loop

variable {acked nextOff last taken : ℤ} {msg : Bytes} {rest : List Bytes}

theorem SendPc.At.sent {pc : SendPc} (h : pc.At es acked nextOff)
    (hout : pc.outgoing es = some msg) :
    nextOff < es.info.size ∧ msg = es.chunkAt nextOff ∧
      (pc.onSent es).At es acked (nextOff + es.chunkLength nextOff) := by
  cases pc with
  | chunk a n data =>
    obtain ⟨rfl, rfl, hlt, rfl⟩ := h
    refine ⟨hlt, (Option.some.inj hout).symm, ?_⟩
    simp only [SendPc.onSent, Store.length_read]
    exact at_fillHead es _ _
  | read a n => cases hout
  | ack a n => cases hout
  | _ => cases h

theorem SendPc.At.message (hres : 0 ≤ er.resumeOffset) (hsize : es.info.size < 2 ^ 63)
    {pc : SendPc} (h : pc.At es acked nextOff) (hwait : pc.waiting = true)
    (hacks : Acks es.info.id er.resumeOffset es.info.size acked last (msg :: rest)) :
    (pc.onMessage es msg).pc.Over ∨ ∃ acked', er.resumeOffset ≤ acked' ∧
      (pc.onMessage es msg).pc.At es acked' nextOff ∧
      Acks es.info.id er.resumeOffset es.info.size acked' last rest := by
  cases pc with
  | ack a n =>
    obtain ⟨rfl, rfl, _⟩ := h
    cases hacks with
    | @cons _ _ c _ hlo hhi htail =>
      simp only [SendPc.onMessage, onAck, decodeFrame_encodeAck es.info.id (v := c) (by omega)
        (by omega), if_true]
      split_ifs
      · exact .inl trivial
      · simp only [windowHead]
        split
        · exact .inr ⟨c, hlo, at_fillHead es _ _, htail⟩
        · exact .inl trivial
  | read a n => cases hwait
  | chunk a n data => cases hwait
  | _ => cases h

theorem SendPc.At.read {s t : SendState} {ec : ErrorCode} (h : s.pc.At es acked nextOff)
    (hstep : sendStep es s (.read ec) = some t) : t.pc.Over ∨ t.pc.At es acked nextOff := by
  cases sendTrans_of_step hstep with
  | readFailed => exact .inl trivial
  | read a n _ hpc _ =>
    rw [hpc] at h
    obtain ⟨rfl, rfl, hlt⟩ := h
    exact .inr ⟨rfl, rfl, hlt, rfl⟩

theorem RecvPc.At.sent {pc : RecvPc} (h : pc.At es er last taken)
    (hout : pc.outgoing er = some msg) :
    msg = encodeAck es.info.id taken ∧ er.resumeOffset ≤ taken ∧ taken ≤ es.info.size ∧
      ((pc.onSent er).Over ∨ (pc.onSent er).At es er taken taken) := by
  cases pc with
  | ack m hw written =>
    obtain ⟨rfl, rfl, hlo, hhi⟩ := h
    refine ⟨(Option.some.inj hout).symm, hlo, hhi, ?_⟩
    simp only [RecvPc.onSent, chunkHead]
    split
    · rename_i hlt
      refine .inr ⟨rfl, rfl, hlt, by simp, ?_⟩
      exact_mod_cast Int32.lt_iff_toInt_lt.mp er.opts.ackEvery_pos
    · exact .inl trivial
  | hashPrefix => cases hout
  | chunk => cases hout
  | write => cases hout
  | _ => cases h

theorem Counted.nonneg {written : ℤ} {since : ℕ} (hres : 0 ≤ last)
    (h : Counted es er last written since) : 0 ≤ written := by
  have hmul : 0 ≤ (since : ℤ) * es.chunkSize.toInt :=
    mul_nonneg (by omega) es.chunkSize_pos.le
  have heq := h.eq_mul
  omega

theorem RecvPc.At.message (hlast : 0 ≤ last) (hsize : es.info.size < 2 ^ 63) {pc : RecvPc}
    (h : pc.At es er last taken) (hwait : (pc.waiting er).isSome = true)
    (htiles : Tiles es taken nextOff (msg :: rest)) :
    (pc.onMessage er msg).Over ∨ ∃ taken', (pc.onMessage er msg).At es er last taken' ∧
      Tiles es taken' nextOff rest := by
  cases pc with
  | chunk m hw written since =>
    obtain ⟨rfl, rfl, hcount⟩ := h
    cases htiles with
    | cons hlt htail =>
      have hpos := hcount.nonneg hlast
      simp only [RecvPc.onMessage, onChunk, onChunkWith, SendEnv.chunkAt,
        decodeFrame_encodeChunk es.info.id (v := taken) (by omega) (by omega), if_true]
      split_ifs
      · exact .inl trivial
      · exact .inl trivial
      · refine .inr ⟨taken + es.chunkLength taken, ?_, htail⟩
        exact ⟨rfl, rfl, by simp, by simp, hcount⟩
  | hashPrefix => cases hwait
  | write => cases hwait
  | ack => cases hwait
  | _ => cases h

theorem RecvPc.At.read {s t : RecvState} {ec : ErrorCode} (h : s.pc.At es er last taken)
    (hstep : recvStep er s (.read ec) = some t) : t.pc.Over ∨ t.pc.At es er last taken := by
  cases recvTrans_of_step hstep with
  | hashAllFailed => exact .inl trivial
  | hashAll m off ctx block ec hpc =>
    rw [hpc] at h
    cases h
  | hashPrefixFailed => exact .inl trivial
  | hashPrefix m off ctx block ec hpc =>
    rw [hpc] at h
    obtain ⟨rfl, rfl, rfl⟩ := h
    rcases ready_hashPrefixHead es er (off + block.length) (ctx ++ block) with hover | hready
    · exact .inl hover
    · exact .inr hready.at

/-- A chunk that is not the last has the full length, so the count stays exact. -/
theorem RecvPc.At.wrote {s t : RecvState} {ec : ErrorCode} {junk : Store}
    (hlast : er.resumeOffset ≤ last) (h : s.pc.At es er last taken)
    (hstep : recvStep er s (.wrote ec junk) = some t) :
    t.pc.Over ∨ t.pc.At es er last taken := by
  cases recvTrans_of_step hstep with
  | writeFailed => exact .inl trivial
  | wrote m hw written since off data _ _ hpc =>
    rw [hpc] at h
    obtain ⟨rfl, rfl, hlen, rfl, hcount⟩ := h
    have hlength := es.chunkLength_eq hcount.lt_size
    have heq := hcount.eq_mul
    have hpos := es.chunkSize_pos
    have hnonneg : 0 ≤ (since : ℤ) * es.chunkSize.toInt := mul_nonneg (by omega) hpos.le
    rw [← hlen] at hlength
    refine .inr ?_
    simp only [RecvState.report_pc, afterWrite]
    split
    · exact ⟨rfl, rfl, by omega, by omega⟩
    · rename_i hgo
      obtain ⟨hgo, hend⟩ := not_or.mp hgo
      have hlt : off + data.length < es.info.size := by omega
      simp only [chunkHead, if_pos hlt]
      refine ⟨rfl, rfl, hlt, ?_, by push_cast at hgo ⊢; omega⟩
      push_cast
      rw [add_mul]
      omega

end Loop

/-! ## The phases -/

/-- What the resume offset and the size are promised to be. -/
structure Resumes (es : SendEnv) (er : RecvEnv) : Prop where
  nonneg : 0 ≤ er.resumeOffset
  le_size : er.resumeOffset ≤ es.info.size
  size_lt : es.info.size < 2 ^ 63

variable {p q : Peers}

theorem flow_start (store : Store) : Flow es er (Peers.start es store) := by
  cases henc : encodeOffer es.info with
  | error err =>
    refine .sendOver ?_
    simp only [Peers.start, SendState.start, henc]
    trivial
  | ok msg => exact .offering msg henc (by simp only [Peers.start, SendState.start, henc]) rfl rfl rfl

theorem flow_of_offering {msg : Bytes} (henc : encodeOffer es.info = .ok msg)
    (hs : p.send.pc = .offer msg) (hr : p.recv.pc = .offer) (hto : p.toRecv = [])
    (hback : p.toSend = []) (htrans : PeerTrans es er p q) : Flow es er q := by
  cases htrans with
  | senderSends msg' s hout hstep =>
    simp only [hs, SendPc.outgoing, Option.some.injEq] at hout
    have hmsg : p.send.pc.outgoing es = some msg := by rw [hs]; rfl
    rw [sendStep_sent hmsg] at hstep
    cases hstep
    exact .offered msg henc (by rw [hs]; rfl) hr (by rw [hto, hout]; rfl) hback
  | senderReceives msg' rest s hqueue => simp [hback] at hqueue
  | senderReads ec s hstep => simp [sendStep, hs] at hstep
  | receiverSends msg' s hout => simp [hr, RecvPc.outgoing] at hout
  | receiverReceives msg' rest s hqueue => simp [hto] at hqueue
  | receiverReads ec s hstep => simp [recvStep, hr] at hstep
  | receiverWrites ec junk s hstep => simp [recvStep, hr] at hstep

theorem onOffer_encodeOffer (er : RecvEnv) (hsize : es.info.size < 2 ^ 63) {msg : Bytes}
    (henc : encodeOffer es.info = .ok msg) :
    (onOffer er msg).Over ∨ onOffer er msg = .accept es.info ∧ Taken es er := by
  have hname := (encodeOffer_ok henc).2.1
  have h := onOffer_outcome er msg
  generalize onOffer er msg = pc at h ⊢
  cases h with
  | failed => exact .inl trivial
  | refused => exact .inl trivial
  | taken dec hdec _ hid _ haccept =>
    cases hdec.symm.trans (decodeFrame_encodeOffer hsize henc)
    exact .inr ⟨rfl, hname, hid, haccept⟩

theorem flow_of_offered (hsize : es.info.size < 2 ^ 63) {msg : Bytes}
    (henc : encodeOffer es.info = .ok msg) (hs : p.send.pc = .accept) (hr : p.recv.pc = .offer)
    (hto : p.toRecv = [msg]) (hback : p.toSend = []) (htrans : PeerTrans es er p q) :
    Flow es er q := by
  cases htrans with
  | senderSends msg' s hout => simp [hs, SendPc.outgoing] at hout
  | senderReceives msg' rest s hqueue => simp [hback] at hqueue
  | senderReads ec s hstep => simp [sendStep, hs] at hstep
  | receiverSends msg' s hout => simp [hr, RecvPc.outgoing] at hout
  | receiverReceives msg' rest s hqueue hstep =>
    rw [hto] at hqueue
    obtain ⟨rfl, rfl⟩ := List.cons.inj hqueue
    cases recvTrans_of_step hstep with
    | message _ hpc =>
      simp only [hr, RecvPc.onMessage]
      rcases onOffer_encodeOffer er hsize henc with hover | ⟨haccept, htaken⟩
      · exact .recvOver hover
      · exact .accepting htaken hs haccept rfl hback
  | receiverReads ec s hstep => simp [recvStep, hr] at hstep
  | receiverWrites ec junk s hstep => simp [recvStep, hr] at hstep

theorem ready_afterAccept (es : SendEnv) (er : RecvEnv) :
    (afterAccept er es.info).Over ∨
      (afterAccept er es.info).Ready es er ∧ (0 < er.resumeOffset → er.readable = true) := by
  unfold afterAccept
  split_ifs with hall hread hpos hread'
  · unfold hashAllHead
    split <;> exact .inl trivial
  · exact .inl trivial
  · exact (ready_hashPrefixHead es er 0 []).imp id fun h => ⟨h, fun _ => hread'⟩
  · exact .inl trivial
  · unfold chunkHead
    split
    · rename_i hlt
      exact .inr ⟨⟨rfl, rfl, rfl, hlt⟩, fun h => absurd h hpos⟩
    · exact .inl trivial

theorem flow_of_accepting (htaken : Taken es er) (hs : p.send.pc = .accept)
    (hr : p.recv.pc = .accept es.info) (hto : p.toRecv = []) (hback : p.toSend = [])
    (htrans : PeerTrans es er p q) : Flow es er q := by
  cases htrans with
  | senderSends msg' s hout => simp [hs, SendPc.outgoing] at hout
  | senderReceives msg' rest s hqueue => simp [hback] at hqueue
  | senderReads ec s hstep => simp [sendStep, hs] at hstep
  | receiverSends msg' s hout hstep =>
    simp only [hr, RecvPc.outgoing, Option.some.injEq] at hout
    cases recvTrans_of_step hstep with
    | sendFailed _ _ _ hec => cases hec
    | sent _ _ _ _ =>
      simp only [hr, RecvPc.onSent]
      rcases ready_afterAccept es er with hover | ⟨hready, hread⟩
      · exact .recvOver hover
      · exact .accepted htaken hread hs hready hto (by rw [hback, ← hout]; rfl)
  | receiverReceives msg' rest s hqueue => simp [hto] at hqueue
  | receiverReads ec s hstep => simp [recvStep, hr] at hstep
  | receiverWrites ec junk s hstep => simp [recvStep, hr] at hstep

theorem onAccept_encodeAccept (hres : Resumes es er) :
    (onAccept es (encodeAccept es.info.id er.resumeOffset)).pc.Over ∨
      (onAccept es (encodeAccept es.info.id er.resumeOffset)).pc.At es er.resumeOffset
        er.resumeOffset := by
  rw [onAccept_encodeAccept_pc hres.nonneg hres.le_size hres.size_lt, windowHead]
  split
  · exact .inr (at_fillHead es _ _)
  · exact .inl trivial

theorem flow_of_accepted (hres : Resumes es er) (htaken : Taken es er)
    (hread : 0 < er.resumeOffset → er.readable = true) (hs : p.send.pc = .accept)
    (hr : p.recv.pc.Ready es er) (hto : p.toRecv = [])
    (hback : p.toSend = [encodeAccept es.info.id er.resumeOffset])
    (htrans : PeerTrans es er p q) : Flow es er q := by
  cases htrans with
  | senderSends msg' s hout => simp [hs, SendPc.outgoing] at hout
  | senderReceives msg' rest s hqueue hstep =>
    rw [hback] at hqueue
    obtain ⟨rfl, rfl⟩ := List.cons.inj hqueue
    cases sendTrans_of_step hstep with
    | message _ _ =>
      simp only [hs, SendPc.onMessage]
      rcases onAccept_encodeAccept hres with hover | hat
      · exact .sendOver hover
      · refine .flowing htaken hread _ _ _ _ hat hr.at ?_ (.nil _) le_rfl le_rfl
        simp only [hto]
        exact .nil _
  | senderReads ec s hstep => simp [sendStep, hs] at hstep
  | receiverSends msg' s hout =>
    generalize p.recv.pc = pc at hr hout
    cases pc with
    | hashPrefix => cases hout
    | chunk => cases hout
    | _ => cases hr
  | receiverReceives msg' rest s hqueue => simp [hto] at hqueue
  | receiverReads ec s hstep =>
    cases recvTrans_of_step hstep with
    | hashAllFailed => exact .recvOver trivial
    | hashAll m off ctx block ec hpc =>
      rw [hpc] at hr
      cases hr
    | hashPrefixFailed => exact .recvOver trivial
    | hashPrefix m off ctx block ec hpc =>
      rw [hpc] at hr
      obtain rfl : m = es.info := hr
      rcases ready_hashPrefixHead es er (off + block.length) (ctx ++ block) with hover | hready
      · exact .recvOver hover
      · exact .accepted htaken hread hs hready hto hback
  | receiverWrites ec junk s hstep =>
    cases recvTrans_of_step hstep with
    | writeFailed => exact .recvOver trivial
    | wrote m hw written since off data _ _ hpc =>
      rw [hpc] at hr
      cases hr

theorem flow_of_flowing (hres : Resumes es er) (htaken : Taken es er)
    (hread : 0 < er.resumeOffset → er.readable = true) {acked nextOff last taken : ℤ}
    (hs : p.send.pc.At es acked nextOff) (hr : p.recv.pc.At es er last taken)
    (hto : Tiles es taken nextOff p.toRecv)
    (hback : Acks es.info.id er.resumeOffset es.info.size acked last p.toSend)
    (hacked : er.resumeOffset ≤ acked) (hlast : er.resumeOffset ≤ last)
    (htrans : PeerTrans es er p q) : Flow es er q := by
  obtain ⟨hnonneg, hle, hsize⟩ := hres
  cases htrans with
  | senderSends msg' s hout hstep =>
    obtain ⟨hlt, rfl, hat⟩ := hs.sent hout
    rw [sendStep_sent hout] at hstep
    cases hstep
    exact .flowing htaken hread _ _ _ _ hat hr (hto.snoc hlt) hback hacked hlast
  | senderReceives msg' rest s hqueue hstep =>
    rw [hqueue] at hback
    cases sendTrans_of_step hstep with
    | message _ hwait =>
      rcases hs.message hnonneg hsize hwait hback with hover | ⟨acked', hacked', hat, hacks⟩
      · exact .sendOver hover
      · exact .flowing htaken hread _ _ _ _ hat hr hto hacks hacked' hlast
  | senderReads ec s hstep =>
    rcases hs.read hstep with hover | hat
    · exact .sendOver hover
    · exact .flowing htaken hread _ _ _ _ hat hr hto hback hacked hlast
  | receiverSends msg' s hout hstep =>
    obtain ⟨rfl, hlo, hhi, hnext⟩ := hr.sent hout
    cases recvTrans_of_step hstep with
    | sendFailed _ _ _ hec => cases hec
    | sent _ _ _ _ =>
      rcases hnext with hover | hat
      · exact .recvOver hover
      · exact .flowing htaken hread _ _ _ _ hs hat hto (hback.snoc hlo hhi) hacked hlo
  | receiverReceives msg' rest s hqueue hstep =>
    rw [hqueue] at hto
    cases recvTrans_of_step hstep with
    | message _ hwait =>
      rcases hr.message (by omega) hsize hwait hto with hover | ⟨taken', hat, htiles⟩
      · exact .recvOver hover
      · exact .flowing htaken hread _ _ _ _ hs hat htiles hback hacked hlast
  | receiverReads ec s hstep =>
    rcases hr.read hstep with hover | hat
    · exact .recvOver hover
    · exact .flowing htaken hread _ _ _ _ hs hat hto hback hacked hlast
  | receiverWrites ec junk s hstep =>
    rcases hr.wrote hlast hstep with hover | hat
    · exact .recvOver hover
    · exact .flowing htaken hread _ _ _ _ hs hat hto hback hacked hlast

/-- Every step keeps the run in one of the phases. -/
theorem Flow.step (hres : Resumes es er) (h : Flow es er p) {ev : PeerEv}
    (hstep : peerStep es er p ev = some q) : Flow es er q := by
  have htrans := peerTrans_of_step hstep
  cases h with
  | sendOver hover =>
    cases htrans with
    | senderSends _ s _ hs => exact .sendOver (hover.step hs)
    | senderReceives _ _ s _ hs => exact .sendOver (hover.step hs)
    | senderReads _ s hs => exact .sendOver (hover.step hs)
    | _ => exact .sendOver hover
  | recvOver hover =>
    cases htrans with
    | receiverSends _ s _ hs => exact .recvOver (hover.step hs)
    | receiverReceives _ _ s _ hs => exact .recvOver (hover.step hs)
    | receiverReads _ s hs => exact .recvOver (hover.step hs)
    | receiverWrites _ _ s hs => exact .recvOver (hover.step hs)
    | _ => exact .recvOver hover
  | offering msg henc hs hr hto hback => exact flow_of_offering henc hs hr hto hback htrans
  | offered msg henc hs hr hto hback =>
    exact flow_of_offered hres.size_lt henc hs hr hto hback htrans
  | accepting htaken hs hr hto hback => exact flow_of_accepting htaken hs hr hto hback htrans
  | accepted htaken hread hs hr hto hback =>
    exact flow_of_accepted hres htaken hread hs hr hto hback htrans
  | flowing htaken hread acked nextOff last taken hs hr hto hback hacked hlast =>
    exact flow_of_flowing hres htaken hread hs hr hto hback hacked hlast htrans

theorem flow_reachable (hres : Resumes es er) {store : Store}
    (h : Run (peerStep es er) (Peers.start es store) p) : Flow es er p :=
  Run.invariant (I := Flow es er) (fun _ _ _ hI hstep => hI.step hres hstep) h (flow_start store)

/-- A run that comes to a deadlock meets the condition. -/
theorem stalls_of_deadlocked (h : Flow es er p) (hdead : Deadlocked p) : Stalls es er := by
  obtain ⟨⟨acked, nextOff, hs⟩, ⟨m, hw, written, since, hr⟩, hto, hback⟩ := hdead
  cases h with
  | sendOver hover =>
    rw [hs] at hover
    cases hover
  | recvOver hover =>
    rw [hr] at hover
    cases hover
  | offering _ _ hs' => cases hs.symm.trans hs'
  | offered _ _ hs' => cases hs.symm.trans hs'
  | accepting _ hs' => cases hs.symm.trans hs'
  | accepted _ _ hs' => cases hs.symm.trans hs'
  | flowing htaken hread acked' nextOff' last taken hs' hr' hto' hback' hacked hlast =>
    rw [hs] at hs'
    rw [hr] at hr'
    rw [hto] at hto'
    rw [hback] at hback'
    obtain ⟨rfl, rfl, hclosed⟩ := hs'
    obtain ⟨rfl, rfl, hcount⟩ := hr'
    cases hto'
    cases hback'
    obtain ⟨hlt, heq, hsince⟩ := hcount
    have hbound := er.opts.ackEvery.toInt_lt
    have hpos := es.chunkSize_pos
    -- The window is closed, so it holds no more chunks than the receiver has counted.
    have hfull : es.opts.window.toInt ≤ since := by
      have hcnt := toInt_countInFlight hpos acked (k := since) (by omega)
      rw [← heq] at hcnt
      have hnot : ¬countInFlight acked nextOff es.chunkSize < es.opts.window :=
        fun hroom => hclosed ⟨hroom, hlt⟩
      rw [Int32.lt_iff_toInt_lt, hcnt] at hnot
      omega
    refine ⟨htaken, hread, by omega, ?_⟩
    have hmul := mul_le_mul_of_nonneg_right hfull hpos.le
    omega

end TcpDuplex.Transfer
