import TcpDuplex.Transfer.Deadlock
import TcpDuplex.Transfer.Mirror

/-!
# Honest peers never reject each other

At each of its calls a side knows only one kind of frame that it would take, and answers every other
with an error. `Phase` says why the other side, if it is honest, puts no other frame in front of it: it
ties the two counters to the contents of both queues, from the Offer to the answer to Done.

What the queues carry is one matter (`Copies`: pieces of the source, which the sink has taken to their
place), which frame comes next another (`Phase`). The first holds in every run; the second needs the
source, the sink and the options not to fail.
-/

namespace TcpDuplex.Transfer

open Machine

variable {es : SendEnv} {er : RecvEnv}

/-! ## The content -/

/-- The frames carry the source, and the sink holds what was taken from them. -/
structure Copies (es : SendEnv) (er : RecvEnv) (p : Peers) : Prop where
  inRange : p.send.pc.InRange es
  toRecv : ∀ msg ∈ p.toRecv, Honest es.info es.source msg
  received : ∀ msg ∈ p.recv.received, Honest es.info es.source msg
  sound : p.recv.Sound er
  mirrors : p.recv.Mirrors er es.source es.info.size

theorem copies_start (hres : Resumes es er) {store : Store}
    (hstore : store.Agree es.source er.resumeOffset) : Copies es er (Peers.start es store) where
  inRange := inRange_start es
  toRecv := by simp [Peers.start]
  received := by simp [Peers.start, RecvState.start]
  sound := ⟨rfl, rfl⟩
  mirrors := ⟨le_rfl, hres.le_size, hstore, trivial⟩

/-- Every Offer received is the sender's. -/
theorem Copies.offered {p : Peers} (hsize : es.info.size < 2 ^ 63) (h : Copies es er p) {m : Meta}
    (hoff : Offered p.recv.received m) : m = es.info := by
  obtain ⟨msg, dec, hhead, hdec, htyp, rfl⟩ := hoff
  exact (h.received msg (List.mem_of_mem_head? hhead)).info_eq hsize hdec htyp

/-- A step of the receiver; `rest` is what it leaves in the queue. -/
theorem Copies.recv {p : Peers} (hres : Resumes es er) (h : Copies es er p) {s : RecvState}
    {ev : RecvEv} {rest back : List Bytes} (hstep : recvStep er p.recv ev = some s)
    (hrest : ∀ msg ∈ rest, msg ∈ p.toRecv)
    (hmsg : ∀ msg, ev = .received (.ok msg) → Honest es.info es.source msg) :
    Copies es er { p with recv := s, toRecv := rest, toSend := back } where
  inRange := h.inRange
  toRecv msg hmem := h.toRecv msg (hrest msg hmem)
  received := by
    cases recvTrans_of_step hstep with
    | message msg hpc =>
      intro msg' hmem
      rcases List.mem_append.mp hmem with hold | hnew
      · exact h.received msg' hold
      · rw [List.mem_singleton.mp hnew]
        exact hmsg msg rfl
    | sent msg ec hpc hec =>
      rw [RecvState.reportSent_received]
      exact h.received
    | wrote =>
      rw [RecvState.report_received]
      exact h.received
    | _ => exact h.received
  sound := h.sound.step hres.nonneg hstep
  mirrors := by
    refine h.mirrors.step h.sound (fun m hoff => ?_) (fun msg hev dec hdec htyp => ?_) hstep
    · rw [h.offered hres.size_lt hoff]
    · exact (hmsg msg hev).data_eq hres.size_lt hdec htyp

/-- A step of the sender that leaves the queue to the receiver. -/
theorem Copies.send {p : Peers} (h : Copies es er p) {s : SendState} {ev : SendEv}
    {back : List Bytes} (hstep : sendStep es p.send ev = some s) :
    Copies es er { p with send := s, toSend := back } :=
  ⟨h.inRange.step hstep, h.toRecv, h.received, h.sound, h.mirrors⟩

theorem Copies.step (hres : Resumes es er) {p q : Peers} {ev : PeerEv} (h : Copies es er p)
    (hstep : peerStep es er p ev = some q) : Copies es er q := by
  cases peerTrans_of_step hstep with
  | senderSends msg s hout hs =>
    refine ⟨h.inRange.step hs, fun msg' hmem => ?_, h.received, h.sound, h.mirrors⟩
    rcases List.mem_append.mp hmem with hold | hnew
    · exact h.toRecv msg' hold
    · rw [List.mem_singleton.mp hnew]
      exact honest_of_outgoing h.inRange hout
  | senderReceives msg rest s hqueue hs => exact h.send hs
  | senderReads ec s hs => exact h.send hs
  | receiverSends msg s hout hs => exact h.recv hres hs (fun _ hmem => hmem) (fun _ hev => by cases hev)
  | receiverReceives msg rest s hqueue hs =>
    refine h.recv hres hs (fun msg' hmem => ?_) fun msg' hev => ?_
    · rw [hqueue]
      exact List.mem_cons_of_mem _ hmem
    · cases hev
      exact h.toRecv msg (by rw [hqueue]; exact List.mem_cons_self)
  | receiverReads ec s hs => exact h.recv hres hs (fun _ hmem => hmem) (fun _ hev => by cases hev)
  | receiverWrites ec junk s hs => exact h.recv hres hs (fun _ hmem => hmem) (fun _ hev => by cases hev)

/-! ## Steps in which no call fails -/

/-- The source and the sink do what they are asked. -/
def PeerEv.faultless : PeerEv → Bool
  | .senderReads ec | .receiverReads ec | .receiverWrites ec _ => !ec.failed
  | _ => true

/-- The counters and the queues behind a step in which no call fails. -/
inductive CleanTrans (es : SendEnv) (er : RecvEnv) (sp : SendPc) (rp : RecvPc)
    (toRecv toSend : List Bytes) : SendPc → RecvPc → List Bytes → List Bytes → Prop where
  | senderSends (msg : Bytes) (hout : sp.outgoing es = some msg) :
      CleanTrans es er sp rp toRecv toSend (sp.onSent es) rp (toRecv ++ [msg]) toSend
  | senderReceives (msg : Bytes) (rest : List Bytes) (hqueue : toSend = msg :: rest)
      (hwait : sp.waiting = true) :
      CleanTrans es er sp rp toRecv toSend (sp.onMessage es msg).pc rp toRecv rest
  | senderReads (acked nextOff : ℤ) (hpc : sp = .read acked nextOff) :
      CleanTrans es er sp rp toRecv toSend
        (.chunk acked nextOff (es.source.read nextOff (es.chunkLength nextOff))) rp toRecv toSend
  | receiverSends (msg : Bytes) (hout : rp.outgoing er = some msg) :
      CleanTrans es er sp rp toRecv toSend sp (rp.onSent er) toRecv (toSend ++ [msg])
  | receiverReceives (msg : Bytes) (rest : List Bytes) (hqueue : toRecv = msg :: rest)
      (hwait : (rp.waiting er).isSome = true) :
      CleanTrans es er sp rp toRecv toSend sp (rp.onMessage er msg) rest toSend
  | hashAll (m : Meta) (off : ℤ) (ctx block : Bytes) (hpc : rp = .hashAll m off ctx) :
      CleanTrans es er sp rp toRecv toSend sp
        (hashAllHead er m (off + block.length) (ctx ++ block)) toRecv toSend
  | hashPrefix (m : Meta) (off : ℤ) (ctx block : Bytes) (hpc : rp = .hashPrefix m off ctx) :
      CleanTrans es er sp rp toRecv toSend sp
        (hashPrefixHead er m (off + block.length) (ctx ++ block)) toRecv toSend
  | wrote (m : Meta) (hw hw' : HashingWriter) (written : ℤ) (since : ℕ) (off : ℤ) (data : Bytes)
      (hpc : rp = .write m hw written since off data) :
      CleanTrans es er sp rp toRecv toSend sp
        (afterWrite er m hw' (off + data.length) (since + 1)) toRecv toSend

theorem cleanTrans_of_step {p q : Peers} {ev : PeerEv} (hok : ev.faultless = true)
    (hstep : peerStep es er p ev = some q) :
    CleanTrans es er p.send.pc p.recv.pc p.toRecv p.toSend q.send.pc q.recv.pc q.toRecv
      q.toSend := by
  cases ev with
  | senderSends =>
    obtain ⟨msg, hout, hstep⟩ := Option.bind_eq_some_iff.mp hstep
    rw [sendStep_sent hout] at hstep
    cases hstep
    exact .senderSends msg hout
  | senderReceives =>
    simp only [peerStep, peerStepWith] at hstep
    split at hstep
    · cases hstep
    · rename_i msg rest hqueue
      obtain ⟨s, hs, hstep⟩ := Option.bind_eq_some_iff.mp hstep
      cases hstep
      cases sendTrans_of_step hs with
      | message _ hwait => exact .senderReceives msg rest hqueue hwait
  | senderReads ec =>
    obtain ⟨s, hs, hstep⟩ := Option.bind_eq_some_iff.mp hstep
    cases hstep
    cases sendTrans_of_step hs with
    | readFailed _ _ _ _ hec => simp [PeerEv.faultless, hec] at hok
    | read acked nextOff _ hpc _ => exact .senderReads acked nextOff hpc
  | receiverSends =>
    obtain ⟨msg, hout, hstep⟩ := Option.bind_eq_some_iff.mp hstep
    rw [recvStep_sent hout] at hstep
    cases hstep
    exact .receiverSends msg hout
  | receiverReceives =>
    simp only [peerStep, peerStepWith] at hstep
    split at hstep
    · cases hstep
    · rename_i msg rest hqueue
      obtain ⟨s, hs, hstep⟩ := Option.bind_eq_some_iff.mp hstep
      cases hstep
      cases recvTrans_of_step hs with
      | message _ hwait => exact .receiverReceives msg rest hqueue hwait
  | receiverReads ec =>
    obtain ⟨s, hs, hstep⟩ := Option.bind_eq_some_iff.mp hstep
    cases hstep
    cases recvTrans_of_step hs with
    | hashAllFailed _ _ _ _ _ hec => simp [PeerEv.faultless, hec] at hok
    | hashAll m off ctx block _ hpc => exact .hashAll m off ctx block hpc
    | hashPrefixFailed _ _ _ _ _ hec => simp [PeerEv.faultless, hec] at hok
    | hashPrefix m off ctx block _ hpc => exact .hashPrefix m off ctx block hpc
  | receiverWrites ec junk =>
    obtain ⟨s, hs, hstep⟩ := Option.bind_eq_some_iff.mp hstep
    cases hstep
    cases recvTrans_of_step hs with
    | writeFailed _ _ _ _ _ _ _ _ _ hec => simp [PeerEv.faultless, hec] at hok
    | wrote m hw written since off data _ _ hpc =>
      simp only [RecvState.report_pc]
      exact .wrote m hw _ written since off data hpc

/-! ## Where the two sides stand -/

/-- Ack frames that lead up from offset `a` to offset `b`. -/
inductive AcksUp (id : ID) : ℤ → ℤ → List Bytes → Prop where
  | nil (a : ℤ) : AcksUp id a a []
  | cons {a b c : ℤ} {l : List Bytes} (hlt : a < c) (htail : AcksUp id c b l) :
      AcksUp id a b (encodeAck id c :: l)

theorem AcksUp.le {id : ID} {a b : ℤ} {l : List Bytes} (h : AcksUp id a b l) : a ≤ b := by
  induction h with
  | nil a => exact le_rfl
  | cons hlt _ ih => exact hlt.le.trans ih

theorem AcksUp.snoc {id : ID} {a b c : ℤ} {l : List Bytes} (h : AcksUp id a b l) (hlt : b < c) :
    AcksUp id a c (l ++ [encodeAck id c]) := by
  induction h with
  | nil a => exact .cons hlt (.nil _)
  | cons hlt' _ ih => exact .cons hlt' (ih hlt)

theorem chunkLength_pos {off : ℤ} (h : off < es.info.size) : 0 < es.chunkLength off := by
  have hlen := es.chunkLength_eq h
  have hpos := es.chunkSize_pos
  omega

theorem Tiles.bounds {a b : ℤ} {l : List Bytes} (h : Tiles es a b l) (hle : a ≤ es.info.size) :
    a ≤ b ∧ b ≤ es.info.size := by
  induction h with
  | nil a => exact ⟨le_rfl, hle⟩
  | @cons a _ _ hlt _ ih =>
    have hlen := es.chunkLength_eq hlt
    obtain ⟨hlo, hhi⟩ := ih (by omega)
    exact ⟨by omega, hhi⟩

/-- Behind the end of the source there is nothing in flight. -/
theorem Tiles.eq_nil {b : ℤ} {l : List Bytes} (h : Tiles es es.info.size b l) : l = [] := by
  cases h with
  | nil => rfl
  | cons hlt _ => exact absurd hlt (lt_irrefl _)

/-- The receiver has sent its Accept and taken no chunk yet. -/
def RecvPc.Answered (es : SendEnv) (er : RecvEnv) : RecvPc → Prop
  | .hashAll m _ _ | .doneAll m _ => m = es.info ∧ er.resumeOffset = es.info.size
  | .hashPrefix m _ _ => m = es.info ∧ er.resumeOffset < es.info.size
  | .chunk m _ written _ =>
    m = es.info ∧ written = er.resumeOffset ∧ er.resumeOffset < es.info.size
  | _ => False

/-- The receiver is in its loop, on the way to it or just behind it: `last` is the offset of its last
Ack, or of its Accept, and `taken` the end of the last chunk it took. -/
def RecvPc.In (es : SendEnv) (er : RecvEnv) (last taken : ℤ) : RecvPc → Prop
  | .hashPrefix m _ _ =>
    m = es.info ∧ last = er.resumeOffset ∧ taken = er.resumeOffset ∧ er.resumeOffset < es.info.size
  | .chunk m _ written _ => m = es.info ∧ taken = written ∧ last ≤ written ∧ written < es.info.size
  | .write m _ written _ off data =>
    m = es.info ∧ off = written ∧ taken = written + data.length ∧ last ≤ written ∧
      written < es.info.size ∧ data.length = es.chunkLength written
  | .ack m _ written => m = es.info ∧ taken = written ∧ last < written ∧ written ≤ es.info.size
  | .done m _ _ => m = es.info ∧ taken = es.info.size ∧ last = es.info.size
  | _ => False

/-- The receiver has all of the source and waits for the Done, or will. -/
def RecvPc.Ends (es : SendEnv) : RecvPc → Prop
  | .hashAll m _ _ | .doneAll m _ | .done m _ _ => m = es.info
  | _ => False

/-- The phases of a run of honest peers, on the counters and the queues. -/
inductive Phase (es : SendEnv) (er : RecvEnv) :
    SendPc → RecvPc → List Bytes → List Bytes → Prop where
  | offering (msg : Bytes) (henc : encodeOffer es.info = .ok msg) :
      Phase es er (.offer msg) .offer [] []
  | offered (msg : Bytes) (henc : encodeOffer es.info = .ok msg) :
      Phase es er .accept .offer [msg] []
  | accepting : Phase es er .accept (.accept es.info) [] []
  | accepted (rp : RecvPc) (hr : rp.Answered es er) :
      Phase es er .accept rp [] [encodeAccept es.info.id er.resumeOffset]
  | flowing (sp : SendPc) (rp : RecvPc) (toRecv toSend : List Bytes) (acked nextOff last taken : ℤ)
      (hs : sp.At es acked nextOff) (hr : rp.In es er last taken)
      (hto : Tiles es taken nextOff toRecv) (hback : AcksUp es.info.id acked last toSend)
      (hres : er.resumeOffset ≤ acked) (hlt : acked < es.info.size) :
      Phase es er sp rp toRecv toSend
  | closing (rp : RecvPc) (hr : rp.Ends es) : Phase es er .done rp [] []
  | closed (rp : RecvPc) (hr : rp.Ends es) :
      Phase es er .reply rp [encodeDone es.info.id true es.info.hash] []
  | replying (written : ℤ) (sum theirs : Hash) :
      Phase es er .reply (.reply es.info written true sum theirs) [] []
  | replied (written : ℤ) (sum : Hash) :
      Phase es er .reply (.ret .success es.info written) [] [encodeDone es.info.id true sum]
  | finished (written : ℤ) : Phase es er (.ret .success) (.ret .success es.info written) [] []

theorem RecvPc.In.bounds {rp : RecvPc} {last taken : ℤ} (h : rp.In es er last taken) :
    last ≤ taken ∧ taken ≤ es.info.size := by
  cases rp with
  | hashPrefix m off ctx =>
    obtain ⟨_, rfl, rfl, hlt⟩ := h
    exact ⟨le_rfl, hlt.le⟩
  | chunk m hw written since =>
    obtain ⟨_, rfl, hlast, hlt⟩ := h
    exact ⟨hlast, hlt.le⟩
  | write m hw written since off data =>
    obtain ⟨_, _, rfl, hlast, hlt, hlen⟩ := h
    have heq := es.chunkLength_eq hlt
    exact ⟨by omega, by omega⟩
  | ack m hw written =>
    obtain ⟨_, rfl, hlast, hle⟩ := h
    exact ⟨hlast.le, hle⟩
  | done m hw written =>
    obtain ⟨_, rfl, rfl⟩ := h
    exact ⟨le_rfl, le_rfl⟩
  | _ => cases h

/-- The Ack at the end of the source is the receiver's last one. -/
theorem RecvPc.In.ends {rp : RecvPc} {taken : ℤ} (h : rp.In es er es.info.size taken) :
    rp.Ends es := by
  cases rp with
  | hashPrefix m off ctx =>
    obtain ⟨_, hlast, _, hlt⟩ := h
    omega
  | chunk m hw written since =>
    obtain ⟨_, _, hlast, hlt⟩ := h
    omega
  | write m hw written since off data =>
    obtain ⟨_, _, _, hlast, hlt, _⟩ := h
    omega
  | ack m hw written =>
    obtain ⟨_, _, hlast, hle⟩ := h
    omega
  | done m hw written => exact h.1
  | _ => cases h

theorem RecvPc.Answered.in {rp : RecvPc} (h : rp.Answered es er) (hlt : er.resumeOffset < es.info.size) :
    rp.In es er er.resumeOffset er.resumeOffset := by
  cases rp with
  | hashAll m off ctx => exact absurd h.2 hlt.ne
  | doneAll m sum => exact absurd h.2 hlt.ne
  | hashPrefix m off ctx => exact ⟨h.1, rfl, rfl, hlt⟩
  | chunk m hw written since =>
    obtain ⟨hm, rfl, _⟩ := h
    exact ⟨hm, rfl, le_rfl, hlt⟩
  | _ => cases h

theorem RecvPc.Answered.ends {rp : RecvPc} (h : rp.Answered es er)
    (heq : er.resumeOffset = es.info.size) : rp.Ends es := by
  cases rp with
  | hashAll m off ctx => exact h.1
  | doneAll m sum => exact h.1
  | hashPrefix m off ctx => exact absurd heq h.2.ne
  | chunk m hw written since => exact absurd heq h.2.2.ne
  | _ => cases h

/-! ## What each side makes of the frame in front of it -/

theorem answered_hashPrefixHead (hlt : er.resumeOffset < es.info.size) (off : ℤ) (ctx : Bytes) :
    (hashPrefixHead er es.info off ctx).Answered es er := by
  unfold hashPrefixHead
  split
  · exact ⟨rfl, hlt⟩
  · rw [chunkHead, if_pos hlt]
    exact ⟨rfl, rfl, hlt⟩

theorem answered_hashAllHead (heq : er.resumeOffset = es.info.size) (off : ℤ) (ctx : Bytes) :
    (hashAllHead er es.info off ctx).Answered es er := by
  unfold hashAllHead
  split
  · exact ⟨rfl, heq⟩
  · exact ⟨rfl, heq⟩

theorem answered_afterAccept (hres : Resumes es er) (hreadable : er.readable = true) :
    (afterAccept er es.info).Answered es er := by
  unfold afterAccept
  split_ifs with hall hpos
  · exact answered_hashAllHead hall 0 []
  · exact answered_hashPrefixHead (lt_of_le_of_ne hres.le_size hall) 0 []
  · have hlt : er.resumeOffset < es.info.size := lt_of_le_of_ne hres.le_size hall
    rw [chunkHead, if_pos hlt]
    exact ⟨rfl, rfl, hlt⟩

section Loop

variable {acked nextOff last taken : ℤ} {msg : Bytes} {rest : List Bytes}

/-- The sender takes the next Ack. -/
theorem SendPc.At.takesAck {sp : SendPc} (hres : 0 ≤ acked) (hsize : es.info.size < 2 ^ 63)
    (h : sp.At es acked nextOff) (hwait : sp.waiting = true)
    (hback : AcksUp es.info.id acked last (msg :: rest)) (hlast : last ≤ nextOff)
    (hnext : nextOff ≤ es.info.size) :
    ∃ c, acked < c ∧ AcksUp es.info.id c last rest ∧
      (sp.onMessage es msg).pc = windowHead es c nextOff := by
  cases sp with
  | ack a n =>
    obtain ⟨rfl, rfl, _⟩ := h
    cases hback with
    | @cons _ _ c _ hlt htail =>
      have hle := htail.le
      have hrange : ¬(c < a ∨ c > n) := by omega
      refine ⟨c, hlt, htail, ?_⟩
      simp only [SendPc.onMessage, onAck, decodeFrame_encodeAck es.info.id (v := c) (by omega)
        (by omega), if_true, ne_eq, not_true_eq_false, false_or, if_neg hrange]
  | read a n => cases hwait
  | chunk a n data => cases hwait
  | _ => cases h

/-- The receiver takes the next chunk: its own offset and the writer's are the chunk's. -/
theorem RecvPc.In.message {rp : RecvPc} {σ : Store} {hashed : Bytes} {received : List Bytes}
    (hlast : 0 ≤ last) (hsize : es.info.size < 2 ^ 63) (h : rp.In es er last taken)
    (hsound : rp.Sound er σ hashed received) (hwait : (rp.waiting er).isSome = true)
    (hto : Tiles es taken nextOff (msg :: rest)) :
    ∃ taken', (rp.onMessage er msg).In es er last taken' ∧ Tiles es taken' nextOff rest := by
  cases rp with
  | chunk m hw written since =>
    obtain ⟨rfl, rfl, hle, hlt⟩ := h
    cases hto with
    | cons _ htail =>
      have hlen := es.chunkLength_eq hlt
      have hoff : hw.offset = taken := hsound.2.1.offset_eq
      have hfit : ¬(taken + (es.chunkLength taken : ℤ) > es.info.size) := by omega
      refine ⟨taken + es.chunkLength taken, ?_, htail⟩
      simp only [RecvPc.onMessage, onChunk, onChunkWith, SendEnv.chunkAt,
        decodeFrame_encodeChunk es.info.id (v := taken) (by omega) (by omega), if_true, ne_eq,
        not_true_eq_false, Store.length_read, false_or, hoff, if_false, if_neg hfit]
      exact ⟨rfl, rfl, by simp, hle, hlt, by simp⟩
  | done m hw written =>
    obtain ⟨_, rfl, _⟩ := h
    cases hto.eq_nil
  | hashPrefix => cases hwait
  | write => cases hwait
  | ack => cases hwait
  | _ => cases h

/-- The receiver sends an Ack behind the one before. -/
theorem RecvPc.In.sent {rp : RecvPc} (h : rp.In es er last taken)
    (hout : rp.outgoing er = some msg) :
    msg = encodeAck es.info.id taken ∧ last < taken ∧ (rp.onSent er).In es er taken taken := by
  cases rp with
  | ack m hw written =>
    obtain ⟨rfl, rfl, hlt, hle⟩ := h
    refine ⟨(Option.some.inj hout).symm, hlt, ?_⟩
    simp only [RecvPc.onSent, chunkHead]
    split
    · rename_i hmore
      exact ⟨rfl, rfl, le_rfl, hmore⟩
    · have hend : taken = es.info.size := by omega
      exact ⟨rfl, hend, hend⟩
  | hashPrefix => cases hout
  | chunk => cases hout
  | write => cases hout
  | done => cases hout
  | _ => cases h

/-- The receiver goes on behind a chunk: an Ack is due, at the latest at the end. -/
theorem RecvPc.In.wrote {m : Meta} {hw hw' : HashingWriter} {written off : ℤ} {since : ℕ}
    {data : Bytes} (h : (RecvPc.write m hw written since off data).In es er last taken) :
    (afterWrite er m hw' (off + data.length) (since + 1)).In es er last taken := by
  obtain ⟨rfl, rfl, rfl, hlast, hlt, hlen⟩ := h
  have hpos := chunkLength_pos hlt
  have heq := es.chunkLength_eq hlt
  unfold afterWrite
  split
  · exact ⟨rfl, rfl, by omega, by omega⟩
  · rename_i hgo
    have hmore : off + (data.length : ℤ) < es.info.size := by
      have hend := (not_or.mp hgo).2
      omega
    rw [chunkHead, if_pos hmore]
    exact ⟨rfl, rfl, by omega, hmore⟩

end Loop

/-! ## The verdict -/

/-- The hash that the sender offers and repeats, if it has one, is that of its source. -/
def OffersHash (es : SendEnv) (sha256 : Bytes → Hash) : Prop :=
  isZeroHash es.info.hash = true ∨
    es.info.hash = sha256 (es.source.read 0 es.info.size.toNat)

theorem verify_of_hash {m : Meta} {sum : Hash} (h : isZeroHash m.hash = true ∨ m.hash = sum) :
    verify m m.hash sum = true := by
  rcases h with hzero | heq
  · simp [verify, hzero]
  · simp [verify, heq]

/-- A digest of the whole sink is a digest of the source. -/
theorem Digest.eq_source {σ : Store} {hashed : Bytes} {sum : Hash}
    (h : Digest er σ hashed es.info sum) (hreadable : er.readable = true)
    (hagree : σ.Agree es.source es.info.size) :
    sum = er.sha256 (es.source.read 0 es.info.size.toNat) := by
  obtain ⟨hcov, rfl⟩ := h hreadable
  rw [hcov.hashed_eq, hagree.read_eq]

/-- The receiver takes the Done, and finds the content right. -/
theorem RecvPc.Ends.message {rp : RecvPc} {σ : Store} {hashed : Bytes} {received : List Bytes}
    (hreadable : er.readable = true) (hhash : OffersHash es er.sha256) (h : rp.Ends es)
    (hsound : rp.Sound er σ hashed received) (hagree : σ.Agree es.source (rp.position er))
    (hwait : (rp.waiting er).isSome = true) :
    ∃ written sum theirs,
      rp.onMessage er (encodeDone es.info.id true es.info.hash) =
        .reply es.info written true sum theirs := by
  have hreply : ∀ (written : ℤ) (sum : Hash), Digest er σ hashed es.info sum →
      σ.Agree es.source es.info.size →
      onDone es.info written sum (encodeDone es.info.id true es.info.hash) =
        .reply es.info written true sum es.info.hash := by
    intro written sum hdigest hall
    have hver : verify es.info es.info.hash sum = true :=
      verify_of_hash (hhash.imp id fun heq => heq.trans (hdigest.eq_source hreadable hall).symm)
    simp only [onDone, decodeFrame_encodeDone, ne_eq, not_true_eq_false, or_self, if_false,
      verifyAndAckDone, hver]
  cases rp with
  | doneAll m sum =>
    obtain rfl : m = es.info := h
    obtain ⟨_, hall, hdigest⟩ := hsound
    exact ⟨_, _, _, hreply _ _ hdigest (hall ▸ hagree)⟩
  | done m hw written =>
    obtain rfl : m = es.info := h
    obtain ⟨_, hfol, hall⟩ := hsound
    exact ⟨_, _, _, hreply _ _ (digest_of_follows hfol hall) (hall ▸ hagree)⟩
  | hashAll => cases hwait
  | _ => cases h

/-! ## The steps of each phase -/

section Steps

variable {sp sp' : SendPc} {rp rp' : RecvPc} {toRecv toRecv' toSend toSend' : List Bytes}

theorem phase_of_offering {msg : Bytes} (henc : encodeOffer es.info = .ok msg)
    (h : CleanTrans es er (.offer msg) .offer [] [] sp' rp' toRecv' toSend') :
    Phase es er sp' rp' toRecv' toSend' := by
  cases h with
  | senderSends msg' hout =>
    obtain rfl : msg = msg' := Option.some.inj hout
    exact .offered msg henc
  | senderReceives _ _ hqueue => cases hqueue
  | senderReads _ _ hpc => cases hpc
  | receiverSends _ hout => cases hout
  | receiverReceives _ _ hqueue => cases hqueue
  | hashAll _ _ _ _ hpc => cases hpc
  | hashPrefix _ _ _ _ hpc => cases hpc
  | wrote _ _ _ _ _ _ _ hpc => cases hpc

theorem phase_of_offered (hres : Resumes es er) (htaken : Taken es er) {msg : Bytes}
    (henc : encodeOffer es.info = .ok msg)
    (h : CleanTrans es er .accept .offer [msg] [] sp' rp' toRecv' toSend') :
    Phase es er sp' rp' toRecv' toSend' := by
  cases h with
  | senderSends _ hout => cases hout
  | senderReceives _ _ hqueue => cases hqueue
  | senderReads _ _ hpc => cases hpc
  | receiverSends _ hout => cases hout
  | receiverReceives msg' rest hqueue =>
    obtain ⟨rfl, rfl⟩ := List.cons.inj hqueue
    rw [RecvPc.onMessage, onOffer_of_taken hres htaken henc]
    exact .accepting
  | hashAll _ _ _ _ hpc => cases hpc
  | hashPrefix _ _ _ _ hpc => cases hpc
  | wrote _ _ _ _ _ _ _ hpc => cases hpc

theorem phase_of_accepting (hres : Resumes es er) (hreadable : er.readable = true)
    (h : CleanTrans es er .accept (.accept es.info) [] [] sp' rp' toRecv' toSend') :
    Phase es er sp' rp' toRecv' toSend' := by
  cases h with
  | senderSends _ hout => cases hout
  | senderReceives _ _ hqueue => cases hqueue
  | senderReads _ _ hpc => cases hpc
  | receiverSends msg hout =>
    obtain rfl := Option.some.inj hout
    exact .accepted _ (answered_afterAccept hres hreadable)
  | receiverReceives _ _ hqueue => cases hqueue
  | hashAll _ _ _ _ hpc => cases hpc
  | hashPrefix _ _ _ _ hpc => cases hpc
  | wrote _ _ _ _ _ _ _ hpc => cases hpc

theorem phase_of_accepted (hres : Resumes es er) (hr : rp.Answered es er)
    (h : CleanTrans es er .accept rp [] [encodeAccept es.info.id er.resumeOffset] sp' rp' toRecv'
      toSend') :
    Phase es er sp' rp' toRecv' toSend' := by
  cases h with
  | senderSends _ hout => cases hout
  | senderReceives msg rest hqueue =>
    obtain ⟨rfl, rfl⟩ := List.cons.inj hqueue
    rw [SendPc.onMessage, onAccept_encodeAccept_pc hres.nonneg hres.le_size hres.size_lt, windowHead]
    split
    · rename_i hlt
      exact .flowing _ _ _ _ _ _ _ _ (at_fillHead es _ _) (hr.in hlt) (.nil _) (.nil _) le_rfl hlt
    · rename_i hge
      exact .closing _ (hr.ends (le_antisymm hres.le_size (not_lt.mp hge)))
  | senderReads _ _ hpc => cases hpc
  | receiverSends _ hout =>
    cases rp with
    | hashAll => cases hout
    | doneAll => cases hout
    | hashPrefix => cases hout
    | chunk => cases hout
    | _ => cases hr
  | receiverReceives _ _ hqueue => cases hqueue
  | hashAll m off ctx block hpc =>
    subst hpc
    obtain ⟨rfl, hall⟩ := hr
    exact .accepted _ (answered_hashAllHead hall _ _)
  | hashPrefix m off ctx block hpc =>
    subst hpc
    obtain ⟨rfl, hlt⟩ := hr
    exact .accepted _ (answered_hashPrefixHead hlt _ _)
  | wrote _ _ _ _ _ _ _ hpc =>
    subst hpc
    cases hr

/-- The sender leaves the loop with the Ack at the end of the source: then both queues are empty. -/
theorem phase_of_flowing (hres : Resumes es er) {σ : Store} {hashed : Bytes}
    {received : List Bytes} (hsound : rp.Sound er σ hashed received)
    {acked nextOff last taken : ℤ} (hs : sp.At es acked nextOff) (hr : rp.In es er last taken)
    (hto : Tiles es taken nextOff toRecv) (hback : AcksUp es.info.id acked last toSend)
    (hacked : er.resumeOffset ≤ acked) (hlt : acked < es.info.size)
    (h : CleanTrans es er sp rp toRecv toSend sp' rp' toRecv' toSend') :
    Phase es er sp' rp' toRecv' toSend' := by
  obtain ⟨hnonneg, _, hsize⟩ := hres
  obtain ⟨hlast, htaken⟩ := hr.bounds
  obtain ⟨hnext, hend⟩ := hto.bounds htaken
  have hup := hback.le
  cases h with
  | senderSends msg hout =>
    obtain ⟨hmore, rfl, hat⟩ := hs.sent hout
    exact .flowing _ _ _ _ _ _ _ _ hat hr (hto.snoc hmore) hback hacked hlt
  | senderReceives msg rest hqueue hwait =>
    subst hqueue
    obtain ⟨c, hc, hacks, hpc⟩ :=
      hs.takesAck (by omega) hsize hwait hback (by omega) hend
    have hcle := hacks.le
    rw [hpc, windowHead]
    split
    · rename_i hmore
      exact .flowing _ _ _ _ _ _ _ _ (at_fillHead es _ _) hr hto hacks (by omega) hmore
    · obtain rfl : c = last := by omega
      obtain rfl : c = es.info.size := by omega
      obtain rfl : es.info.size = taken := by omega
      obtain rfl := hto.eq_nil
      cases hacks with
      | nil => exact .closing _ hr.ends
      | cons hgt htail => exact absurd htail.le (not_le.mpr hgt)
  | senderReads a n hpc =>
    subst hpc
    obtain ⟨rfl, rfl, hmore⟩ := hs
    exact .flowing _ _ _ _ _ _ _ _ ⟨rfl, rfl, hmore, rfl⟩ hr hto hback hacked hlt
  | receiverSends msg hout =>
    obtain ⟨rfl, hgt, hin⟩ := hr.sent hout
    exact .flowing _ _ _ _ _ _ _ _ hs hin hto (hback.snoc hgt) hacked hlt
  | receiverReceives msg rest hqueue hwait =>
    subst hqueue
    obtain ⟨taken', hin, htiles⟩ := hr.message (by omega) hsize hsound hwait hto
    exact .flowing _ _ _ _ _ _ _ _ hs hin htiles hback hacked hlt
  | hashAll _ _ _ _ hpc =>
    subst hpc
    cases hr
  | hashPrefix m off ctx block hpc =>
    subst hpc
    obtain ⟨rfl, rfl, rfl, hmore⟩ := hr
    exact .flowing _ _ _ _ _ _ _ _ hs ((answered_hashPrefixHead hmore _ _).in hmore) hto hback hacked
      hlt
  | wrote m hw hw' written since off data hpc =>
    subst hpc
    exact .flowing _ _ _ _ _ _ _ _ hs hr.wrote hto hback hacked hlt

theorem ends_hashAllHead (off : ℤ) (ctx : Bytes) : (hashAllHead er es.info off ctx).Ends es := by
  unfold hashAllHead
  split
  · exact rfl
  · exact rfl

theorem RecvPc.Ends.not_sending (h : rp.Ends es) : rp.outgoing er = none := by
  cases rp with
  | hashAll => rfl
  | doneAll => rfl
  | done => rfl
  | _ => cases h

theorem phase_of_closing (hr : rp.Ends es)
    (h : CleanTrans es er .done rp [] [] sp' rp' toRecv' toSend') :
    Phase es er sp' rp' toRecv' toSend' := by
  cases h with
  | senderSends msg hout =>
    obtain rfl := Option.some.inj hout
    exact .closed _ hr
  | senderReceives _ _ hqueue => cases hqueue
  | senderReads _ _ hpc => cases hpc
  | receiverSends _ hout => cases hr.not_sending.symm.trans hout
  | receiverReceives _ _ hqueue => cases hqueue
  | hashAll m off ctx block hpc =>
    subst hpc
    obtain rfl : m = es.info := hr
    exact .closing _ (ends_hashAllHead _ _)
  | hashPrefix _ _ _ _ hpc =>
    subst hpc
    cases hr
  | wrote _ _ _ _ _ _ _ hpc =>
    subst hpc
    cases hr

theorem phase_of_closed (hreadable : er.readable = true) (hhash : OffersHash es er.sha256)
    {σ : Store} {hashed : Bytes} {received : List Bytes} (hsound : rp.Sound er σ hashed received)
    (hagree : σ.Agree es.source (rp.position er)) (hr : rp.Ends es)
    (h : CleanTrans es er .reply rp [encodeDone es.info.id true es.info.hash] [] sp' rp' toRecv'
      toSend') :
    Phase es er sp' rp' toRecv' toSend' := by
  cases h with
  | senderSends _ hout => cases hout
  | senderReceives _ _ hqueue => cases hqueue
  | senderReads _ _ hpc => cases hpc
  | receiverSends _ hout => cases hr.not_sending.symm.trans hout
  | receiverReceives msg rest hqueue hwait =>
    obtain ⟨rfl, rfl⟩ := List.cons.inj hqueue
    obtain ⟨written, sum, theirs, hreply⟩ := hr.message hreadable hhash hsound hagree hwait
    rw [hreply]
    exact .replying written sum theirs
  | hashAll m off ctx block hpc =>
    subst hpc
    obtain rfl : m = es.info := hr
    exact .closed _ (ends_hashAllHead _ _)
  | hashPrefix _ _ _ _ hpc =>
    subst hpc
    cases hr
  | wrote _ _ _ _ _ _ _ hpc =>
    subst hpc
    cases hr

theorem phase_of_replying {written : ℤ} {sum theirs : Hash}
    (h : CleanTrans es er .reply (.reply es.info written true sum theirs) [] [] sp' rp' toRecv'
      toSend') :
    Phase es er sp' rp' toRecv' toSend' := by
  cases h with
  | senderSends _ hout => cases hout
  | senderReceives _ _ hqueue => cases hqueue
  | senderReads _ _ hpc => cases hpc
  | receiverSends msg hout =>
    obtain rfl := Option.some.inj hout
    exact .replied written sum
  | receiverReceives _ _ hqueue => cases hqueue
  | hashAll _ _ _ _ hpc => cases hpc
  | hashPrefix _ _ _ _ hpc => cases hpc
  | wrote _ _ _ _ _ _ _ hpc => cases hpc

theorem phase_of_replied {written : ℤ} {sum : Hash}
    (h : CleanTrans es er .reply (.ret .success es.info written) []
      [encodeDone es.info.id true sum] sp' rp' toRecv' toSend') :
    Phase es er sp' rp' toRecv' toSend' := by
  cases h with
  | senderSends _ hout => cases hout
  | senderReceives msg rest hqueue =>
    obtain ⟨rfl, rfl⟩ := List.cons.inj hqueue
    simp only [SendPc.onMessage, onReply, decodeFrame_encodeDone, ne_eq, not_true_eq_false,
      or_self, if_false, Bool.not_true, Bool.false_eq_true]
    exact .finished written
  | senderReads _ _ hpc => cases hpc
  | receiverSends _ hout => cases hout
  | receiverReceives _ _ hqueue => cases hqueue
  | hashAll _ _ _ _ hpc => cases hpc
  | hashPrefix _ _ _ _ hpc => cases hpc
  | wrote _ _ _ _ _ _ _ hpc => cases hpc

theorem not_cleanTrans_of_finished {written : ℤ}
    (h : CleanTrans es er (.ret .success) (.ret .success es.info written) [] [] sp' rp' toRecv'
      toSend') : False := by
  cases h with
  | senderSends _ hout => cases hout
  | senderReceives _ _ hqueue => cases hqueue
  | senderReads _ _ hpc => cases hpc
  | receiverSends _ hout => cases hout
  | receiverReceives _ _ hqueue => cases hqueue
  | hashAll _ _ _ _ hpc => cases hpc
  | hashPrefix _ _ _ _ hpc => cases hpc
  | wrote _ _ _ _ _ _ _ hpc => cases hpc

end Steps

/-! ## Whole runs -/

/-- An honest sender and an honest receiver: the receiver takes the Offer, its sink can be read and
holds the source below the resume offset, and the sender offers its own hash or none. -/
structure HonestPair (es : SendEnv) (er : RecvEnv) (store : Store) : Prop where
  resumes : Resumes es er
  taken : Taken es er
  readable : er.readable = true
  resumed : store.Agree es.source er.resumeOffset
  hash : OffersHash es er.sha256

/-- What holds along a run of honest peers. -/
structure InStep (es : SendEnv) (er : RecvEnv) (p : Peers) : Prop where
  copies : Copies es er p
  phase : Phase es er p.send.pc p.recv.pc p.toRecv p.toSend

variable {store : Store} {p q : Peers}

theorem inStep_start (h : HonestPair es er store) : InStep es er (Peers.start es store) := by
  refine ⟨copies_start h.resumes h.resumed, ?_⟩
  obtain ⟨msg, henc⟩ := encodeOffer_of_taken h.resumes h.taken
  simp only [Peers.start, SendState.start, henc]
  exact .offering msg henc

/-- Every step of honest peers in which no call fails keeps them in step. -/
theorem InStep.step (hpair : HonestPair es er store) {ev : PeerEv} (h : InStep es er p)
    (hok : ev.faultless = true) (hstep : peerStep es er p ev = some q) : InStep es er q := by
  refine ⟨h.copies.step hpair.resumes hstep, ?_⟩
  have htrans := cleanTrans_of_step hok hstep
  have hsound : p.recv.pc.Sound er p.recv.store p.recv.hashed p.recv.received := h.copies.sound
  have hagree := h.copies.mirrors.agree
  have hphase := h.phase
  generalize p.send.pc = sp, p.recv.pc = rp, p.toRecv = toRecv, p.toSend = toSend at *
  cases hphase with
  | offering msg henc => exact phase_of_offering henc htrans
  | offered msg henc => exact phase_of_offered hpair.resumes hpair.taken henc htrans
  | accepting => exact phase_of_accepting hpair.resumes hpair.readable htrans
  | accepted rp hr => exact phase_of_accepted hpair.resumes hr htrans
  | flowing sp rp toRecv toSend acked nextOff last taken hs hr hto hback hres hlt =>
    exact phase_of_flowing hpair.resumes hsound hs hr hto hback hres hlt htrans
  | closing rp hr => exact phase_of_closing hr htrans
  | closed rp hr => exact phase_of_closed hpair.readable hpair.hash hsound hagree hr htrans
  | replying written sum theirs => exact phase_of_replying htrans
  | replied written sum => exact phase_of_replied htrans
  | finished written => exact (not_cleanTrans_of_finished htrans).elim

theorem Phase.send_ret {rp : RecvPc} {toRecv toSend : List Bytes} {err : ErrorCode}
    (h : Phase es er (.ret err) rp toRecv toSend) : err = .success := by
  cases h with
  | flowing _ _ _ _ _ _ _ _ hs => cases hs
  | finished written => rfl

theorem Phase.recv_ret {sp : SendPc} {toRecv toSend : List Bytes} {err : ErrorCode} {m : Meta}
    {written : ℤ} (h : Phase es er sp (.ret err m written) toRecv toSend) :
    err = .success ∧ m = es.info := by
  cases h with
  | accepted _ hr => cases hr
  | flowing _ _ _ _ _ _ _ _ _ hr => cases hr
  | closing _ hr => cases hr
  | closed _ hr => cases hr
  | replied written sum => exact ⟨rfl, rfl⟩
  | finished written => exact ⟨rfl, rfl⟩

/-! ## In `std::int64_t` -/

section Int64

variable {ev : PeerEv}

/-- A step in which the bounds check of the sender fits is exact. -/
theorem Copies.peerStep64_eq (hsize : es.info.size < 2 ^ 63) (h : Copies es er p)
    (hadds : p.send.pc.AddsInRange es) : peerStep64 es er p ev = peerStep es er p ev := by
  cases ev with
  | senderSends =>
    simp only [peerStep64, peerStep, peerStepWith, sendStep64_eq h.inRange hadds]
  | senderReceives =>
    simp only [peerStep64, peerStep, peerStepWith, sendStep64_eq h.inRange hadds]
  | senderReads ec =>
    simp only [peerStep64, peerStep, peerStepWith, sendStep64_eq h.inRange hadds]
  | receiverReceives =>
    simp only [peerStep64, peerStep, peerStepWith]
    split
    · rfl
    · rename_i msg rest hqueue
      have hmsg : ∀ msg', RecvEv.received (.ok msg) = .received (.ok msg') →
          p.recv.pc.AddsInRange msg' := by
        intro msg' hev
        cases hev
        exact (h.toRecv msg (by rw [hqueue]; exact List.mem_cons_self)).addsInRange hsize _
      rw [recvStep64_eq h.sound hmsg]
  | _ =>
    simp only [peerStep64, peerStep, peerStepWith]
    rw [recvStep64_eq h.sound fun _ hev => by cases hev]

/-- The sink takes what it is given and can be read; the source answers, unless it is asked for bytes that it
does not have. -/
def PeerEv.faultless64 (es : SendEnv) (p : Peers) : PeerEv → Bool
  | .senderReads ec => !ec.failed || p.send.pc.readsPast es
  | ev => ev.faultless

/-- A call that the code makes with sums that fit does not fail. -/
theorem Copies.faultless64_eq (hsize : es.info.size < 2 ^ 63) (h : Copies es er p)
    (hadds : p.send.pc.AddsInRange es) : ev.faultless64 es p = ev.faultless := by
  have hpast : p.send.pc.readsPast es = false := by
    rw [← Bool.not_eq_true, readsPast_iff hsize h.inRange, not_not]
    exact hadds
  cases ev <;> simp [PeerEv.faultless64, PeerEv.faultless, hpast]

/-- Every step of honest peers keeps them in step, except the read past the end of the source. -/
theorem InStep.step64 (hpair : HonestPair es er store) (h : InStep es er p)
    (hadds : p.send.pc.AddsInRange es) (hok : ev.faultless64 es p = true)
    (hstep : peerStep64 es er p ev = some q) : InStep es er q := by
  have hsize := hpair.resumes.size_lt
  rw [h.copies.faultless64_eq hsize hadds] at hok
  rw [h.copies.peerStep64_eq hsize hadds] at hstep
  exact h.step hpair hok hstep

/-- The sender is in front of that read. -/
theorem exists_read_of_overflow {s : SendState} (hadds : ¬s.pc.AddsInRange es)
    (hsize : es.info.size < 2 ^ 63) (hin : s.pc.InRange es) :
    ∃ acked nextOff, s.pc = .read acked nextOff := by
  cases hpc : s.pc with
  | read acked nextOff => exact ⟨acked, nextOff, rfl⟩
  | chunk acked nextOff data =>
    rw [hpc] at hin hadds
    exact absurd (inInt64_of_chunk hsize hin) hadds
  | _ =>
    rw [hpc] at hadds
    exact absurd trivial hadds

end Int64

/-- Neither side has returned an error, and when both have returned the sink holds the source. -/
structure Agreed (es : SendEnv) (p : Peers) : Prop where
  send : ∀ err, p.send.pc = .ret err → err.failed = false
  recv : ∀ err m written, p.recv.pc = .ret err m written → err.failed = false
  content : (∃ err, p.send.pc = .ret err) → (∃ err m written, p.recv.pc = .ret err m written) →
    p.recv.store.read 0 es.info.size.toNat = es.source.read 0 es.info.size.toNat

theorem InStep.agreed (h : InStep es er p) : Agreed es p := by
  obtain ⟨hcopies, hphase⟩ := h
  refine ⟨fun err hs => ?_, fun err m written hr => ?_, fun _ ⟨err, m, written, hr⟩ => ?_⟩
  · rw [hs] at hphase
    rw [hphase.send_ret]
    rfl
  · rw [hr] at hphase
    rw [hphase.recv_ret.1]
    rfl
  · have hsound := hcopies.sound
    have hagree := hcopies.mirrors.agree
    rw [RecvState.Sound, hr] at hsound
    rw [hr] at hphase hagree
    obtain ⟨rfl, rfl⟩ := hphase.recv_ret
    obtain ⟨rfl, _⟩ := hsound rfl
    exact hagree.read_eq

/-- Runs of honest peers in `std::int64_t` between a source and a sink without faults. -/
abbrev HonestRun (es : SendEnv) (er : RecvEnv) : Peers → Peers → Prop :=
  GRun (peerStep64 es er) fun p ev => ev.faultless64 es p = true

/-- As long as every bounds check fits, they stay in step. -/
theorem inStep_of_honestRun (hpair : HonestPair es er store)
    (hfits : ∀ p, HonestRun es er (Peers.start es store) p → p.send.pc.AddsInRange es)
    (h : HonestRun es er (Peers.start es store) p) : InStep es er p := by
  induction h with
  | refl => exact inStep_start hpair
  | tail hrun hlast ih =>
    obtain ⟨ev, hok, hstep⟩ := hlast
    exact ih.step64 hpair (hfits _ hrun) hok hstep

/-- Behind the first one that does not, the sender returns the error of its read. -/
theorem InStep.exists_rejected (hsize : es.info.size < 2 ^ 63) (h : InStep es er p)
    (hadds : ¬p.send.pc.AddsInRange es) :
    ∃ q, HonestRun es er p q ∧ q.send.pc = .ret Errc.other.code := by
  have hpast := (readsPast_iff hsize h.copies.inRange).mpr hadds
  obtain ⟨acked, nextOff, hpc⟩ := exists_read_of_overflow hadds hsize h.copies.inRange
  have hstep : peerStep64 es er p (.senderReads Errc.other.code) =
      some { p with send := { p.send with pc := .ret Errc.other.code } } := by
    simp only [peerStep64, peerStepWith, sendStep64, hpc]
    rfl
  exact ⟨_, (GRun.refl p).snoc (by simp [PeerEv.faultless64, hpast]) hstep, rfl⟩

/-- A run of honest peers in which a bounds check did not fit: up to the first such state they were in step. -/
theorem exists_inStep_overflow (hpair : HonestPair es er store)
    (h : HonestRun es er (Peers.start es store) p) (hadds : ¬p.send.pc.AddsInRange es) :
    ∃ q, HonestRun es er (Peers.start es store) q ∧ InStep es er q ∧ ¬q.send.pc.AddsInRange es := by
  by_contra hnone
  have hin : ∀ q, HonestRun es er (Peers.start es store) q → InStep es er q := by
    intro q hrun
    induction hrun with
    | refl => exact inStep_start hpair
    | tail hrun hlast ih =>
      obtain ⟨ev, hok, hstep⟩ := hlast
      have hfits := not_not.mp fun hover => hnone ⟨_, hrun, ih, hover⟩
      exact ih.step64 hpair hfits hok hstep
  exact hnone ⟨p, h, hin p h, hadds⟩

/-- With a size and a chunk that fit together, every one does. -/
theorem addsInRange_of_fit (hpair : HonestPair es er store)
    (hfit : es.info.size + es.chunkSize.toInt ≤ 2 ^ 63) (p : Peers)
    (h : HonestRun es er (Peers.start es store) p) : p.send.pc.AddsInRange es := by
  by_contra hadds
  obtain ⟨q, _, hin, hover⟩ := exists_inStep_overflow hpair h hadds
  exact hover (hin.copies.inRange.addsInRange hpair.resumes.size_lt hfit)

/-- **Honest peers never reject each other, where the bounds check fits.** Whatever the chunk size, the
window and the counts of the two sides and however their steps interleave, as long as the source and the sink
do not fail: if `next_off + n` fits in front of every step, neither side has returned an error, and when both
have returned the sink holds the whole source. That is so in all their runs exactly if the sum fits in all of
them, and it does if the size and a chunk fit together. -/
theorem honest_peers_agree_iff (es : SendEnv) (er : RecvEnv) (store : Store)
    (hpair : HonestPair es er store) :
    (∀ p, GRun (peerStep64 es er)
        (fun p ev => ev.faultless64 es p = true ∧ p.send.pc.AddsInRange es)
        (Peers.start es store) p → Agreed es p) ∧
      ((∀ p, HonestRun es er (Peers.start es store) p → Agreed es p) ↔
        ∀ p, HonestRun es er (Peers.start es store) p → p.send.pc.AddsInRange es) ∧
      (es.info.size + es.chunkSize.toInt ≤ 2 ^ 63 →
        ∀ p, HonestRun es er (Peers.start es store) p → p.send.pc.AddsInRange es) := by
  have hsize := hpair.resumes.size_lt
  refine ⟨fun p h => ?_, ⟨fun hagreed p h => ?_, fun hfits p h => ?_⟩, addsInRange_of_fit hpair⟩
  · refine (GRun.invariant (I := InStep es er) (fun _ _ _ hI hG hstep => ?_) h (inStep_start hpair)).agreed
    exact hI.step64 hpair hG.2 hG.1 hstep
  · by_contra hadds
    obtain ⟨q, hrun, hin, hover⟩ := exists_inStep_overflow hpair h hadds
    obtain ⟨r, hrun', hret⟩ := hin.exists_rejected hsize hover
    have hfailed := (hagreed r (hrun.trans hrun')).send _ hret
    cases hfailed
  · exact (inStep_of_honestRun hpair hfits h).agreed

/-- A sender of as many bytes as an offset can count. -/
def longestSendEnv : SendEnv where
  opts := normalize none
  maxMessageBytes := defaultConfig.maxMessageBytes
  info := longestMeta
  source := fun _ => 0

/-- A receiver that has all of it but the last byte. -/
def lastByteRecvEnv : RecvEnv := { sampleRecvEnv with resumeOffset := 2 ^ 63 - 2 }

theorem honestPair_lastByte : HonestPair longestSendEnv lastByteRecvEnv fun _ => 0 where
  resumes := ⟨by decide, by decide, by decide⟩
  taken := ⟨by decide, by decide, by intro f hf; cases hf⟩
  readable := rfl
  resumed := by intro i _ _; rfl
  hash := .inl (by decide)

/-- The sender adds 262144 to `2 ^ 63 - 2`, keeps its chunk of 262144 bytes, and gets an error for it. -/
theorem last_byte_rejected :
    HonestPair longestSendEnv lastByteRecvEnv (fun _ => 0) ∧
      ∃ p, HonestRun longestSendEnv lastByteRecvEnv (Peers.start longestSendEnv fun _ => 0) p ∧
        p.send.pc = .ret Errc.other.code ∧ ¬Agreed longestSendEnv p := by
  refine ⟨honestPair_lastByte, ?_⟩
  obtain ⟨p, hrun, hpc⟩ :
      ∃ p, HonestRun longestSendEnv lastByteRecvEnv (Peers.start longestSendEnv fun _ => 0) p ∧
        p.send.pc = .ret Errc.other.code :=
    ⟨_, grun_of_gexec (g := PeerEv.faultless64 longestSendEnv)
      [.senderSends, .receiverReceives, .receiverSends, .senderReceives, .senderReads Errc.other.code] rfl, rfl⟩
  refine ⟨p, hrun, hpc, fun hagreed => ?_⟩
  have hfailed := hagreed.send _ hpc
  cases hfailed

/-- Offer, Accept, one chunk with the whole content, its Ack, and Done both ways. -/
def honestTrace : List PeerEv :=
  [.senderSends, .receiverReceives, .receiverSends, .senderReceives, .senderReads .success,
    .senderSends, .receiverReceives, .receiverWrites .success fun _ => 0, .receiverSends,
    .senderReceives, .senderSends, .receiverReceives, .receiverSends, .senderReceives]

theorem honestPair_abc :
    HonestPair (sampleSendEnv (normalize none)) sampleRecvEnv fun _ => 0 where
  resumes := ⟨by decide, by decide, by decide⟩
  taken := ⟨by decide, by decide, by intro f hf; cases hf⟩
  readable := rfl
  resumed := Store.agree_zero _ _
  hash := .inr rfl

theorem abc_transferred :
    ∃ p, HonestRun (sampleSendEnv (normalize none)) sampleRecvEnv
        (Peers.start (sampleSendEnv (normalize none)) fun _ => 0) p ∧
      p.send.pc = .ret .success ∧ p.recv.pc = .ret .success sampleMeta 3 ∧
      p.recv.store.read 0 3 = sampleContent := by
  obtain ⟨p, hrun, hs, hr⟩ :
      ∃ p, HonestRun (sampleSendEnv (normalize none)) sampleRecvEnv
          (Peers.start (sampleSendEnv (normalize none)) fun _ => 0) p ∧
        p.send.pc = .ret .success ∧ p.recv.pc = .ret .success sampleMeta 3 :=
    ⟨_, grun_of_gexec (g := PeerEv.faultless64 (sampleSendEnv (normalize none))) honestTrace rfl, rfl, rfl⟩
  obtain ⟨-, hiff, hfits⟩ := honest_peers_agree_iff _ _ _ honestPair_abc
  exact ⟨p, hrun, hs, hr, (hiff.mpr (hfits (by decide)) p hrun).content ⟨_, hs⟩ ⟨_, _, _, hr⟩⟩

end TcpDuplex.Transfer
