import TcpDuplex.Transfer.Deadlock

/-!
# The sender against any receiver

Whatever a peer replies, `send_once` cuts the content from the accepted offset on into contiguous
chunks and never has more than a window of them unacknowledged. The code does not count the chunks in
flight: it divides the bytes between the last Ack and the next offset by the chunk size, and the peer
may acknowledge inside a chunk. `Windowed` holds what is kept instead, in bytes.
-/

namespace TcpDuplex.Transfer

open Machine

variable {e : SendEnv}

/-- Chunk frames with contiguous non-empty pieces of the source that cover everything from `a` to
`b`, none longer than `chunk_size`. -/
inductive Pieces (e : SendEnv) (a : ℤ) : ℤ → List Bytes → Prop where
  | nil : Pieces e a a []
  | snoc {b : ℤ} {l : List Bytes} (h : Pieces e a b l) (data : Bytes)
      (hdata : data = e.source.read b data.length) (hpos : 0 < data.length)
      (hle : (data.length : ℤ) ≤ e.chunkSize.toInt) :
      Pieces e a (b + data.length) (l ++ [encodeChunk e.info.id b data])

/-- The first frame received accepts the offer at offset `a`. -/
def AcceptedAt (e : SendEnv) (received : List Bytes) (a : ℤ) : Prop :=
  ∃ msg dec, received.head? = some msg ∧ decodeFrame msg = .ok dec ∧ dec.typ = kTypeAccept ∧
    dec.id = e.info.id ∧ dec.offset = a

/-- The last frame received is the Accept or an Ack of this transfer, for offset `x`. -/
def AckedAt (e : SendEnv) (received : List Bytes) (x : ℤ) : Prop :=
  ∃ msg dec, received.getLast? = some msg ∧ decodeFrame msg = .ok dec ∧
    (dec.typ = kTypeAccept ∨ dec.typ = kTypeAck) ∧ dec.id = e.info.id ∧ dec.offset = x

/-- The offsets reported so far do not decrease, and none exceeds `acked`. -/
structure Reported (progress : List (ℤ × ℤ)) (acked : ℤ) : Prop where
  sorted : (progress.map Prod.fst).Pairwise (· ≤ ·)
  le_acked : ∀ p ∈ progress, p.1 ≤ acked

/-- What has passed when the receiver accepted at `a` and acknowledged up to `acked`, and everything
below `nextOff` has been sent. -/
structure Windowed (e : SendEnv) (s : SendState) (a acked nextOff : ℤ) : Prop where
  accepted : AcceptedAt e s.received a
  acknowledged : AckedAt e s.received acked
  nonneg : 0 ≤ a
  le_acked : a ≤ acked
  acked_le : acked ≤ nextOff
  le_size : nextOff ≤ e.info.size
  in_window : nextOff - acked ≤ e.opts.window.toInt * e.chunkSize.toInt
  sent : ∃ offer chunks, encodeOffer e.info = .ok offer ∧ s.sent = offer :: chunks ∧
    Pieces e a nextOff chunks
  reported : Reported s.progress acked

/-- The frames sent so far: nothing, the Offer, or the Offer and the chunks from the accepted offset
to `b`, with the Done behind them only if `b` is the end. -/
def SentTiled (e : SendEnv) (s : SendState) : Prop :=
  s.sent = [] ∨ ∃ offer, encodeOffer e.info = .ok offer ∧
    (s.sent = [offer] ∨ ∃ chunks a b, AcceptedAt e s.received a ∧ 0 ≤ a ∧ b ≤ e.info.size ∧
      Pieces e a b chunks ∧ (s.sent = offer :: chunks ∨
        b = e.info.size ∧ s.sent = offer :: chunks ++ [encodeDone e.info.id true e.info.hash]))

/-- What is left to say when the loop is over. -/
structure Settled (e : SendEnv) (s : SendState) : Prop where
  sorted : (s.progress.map Prod.fst).Pairwise (· ≤ ·)
  sent : SentTiled e s

/-- `acked` and `next_off`, where they are live. -/
def SendPc.offsets : SendPc → Option (ℤ × ℤ)
  | .read acked nextOff => some (acked, nextOff)
  | .chunk acked nextOff _ => some (acked, nextOff)
  | .ack acked nextOff => some (acked, nextOff)
  | _ => none

/-! ## The count of chunks in flight -/

theorem window_pos (e : SendEnv) : 0 < e.opts.window.toInt :=
  Int32.lt_iff_toInt_lt.mp e.opts.window_pos

/-- Where the code finds room in the window, a whole chunk still fits into it. -/
theorem room_of_countInFlight {acked nextOff : ℤ}
    (hwin : nextOff - acked ≤ e.opts.window.toInt * e.chunkSize.toInt)
    (hroom : countInFlight acked nextOff e.chunkSize < e.opts.window) :
    nextOff - acked ≤ (e.opts.window.toInt - 1) * e.chunkSize.toInt := by
  have hcs := e.chunkSize_pos
  have hw := window_pos e
  have hw31 : e.opts.window.toInt < 2 ^ 31 := Int32.toInt_lt _
  rw [Int32.lt_iff_toInt_lt, countInFlight] at hroom
  set cs := e.chunkSize.toInt with hcsdef
  set w := e.opts.window.toInt with hwdef
  split at hroom
  · rename_i hle
    have hnonneg : 0 ≤ (w - 1) * cs := mul_nonneg (by omega) hcs.le
    omega
  · rename_i hgt
    -- the quotient is at most `w`, so the cast to `int` keeps it
    have hquot : (nextOff - acked + cs - 1) / cs ≤ w := by
      rw [← Int.lt_add_one_iff]
      refine Int.ediv_lt_of_lt_mul hcs ?_
      rw [add_mul]
      omega
    have hnonneg : 0 ≤ (nextOff - acked + cs - 1) / cs := Int.ediv_nonneg (by omega) hcs.le
    rw [Int32.toInt_ofInt_of_le (by omega) (by omega), Int.ediv_lt_iff_lt_mul hcs] at hroom
    rw [sub_mul]
    omega

/-! ## The invariant -/

/-- What holds at each counter of `send_once`. -/
def SendState.Tiled (e : SendEnv) (s : SendState) : Prop :=
  match s.pc with
  | .offer msg => encodeOffer e.info = .ok msg ∧ s.sent = [] ∧ s.received = [] ∧ s.progress = []
  | .accept =>
    ∃ offer, encodeOffer e.info = .ok offer ∧ s.sent = [offer] ∧ s.received = [] ∧ s.progress = []
  | .read acked nextOff =>
    ∃ a, Windowed e s a acked nextOff ∧ nextOff < e.info.size ∧
      nextOff - acked ≤ (e.opts.window.toInt - 1) * e.chunkSize.toInt
  | .chunk acked nextOff data =>
    ∃ a, Windowed e s a acked nextOff ∧ nextOff < e.info.size ∧
      nextOff - acked ≤ (e.opts.window.toInt - 1) * e.chunkSize.toInt ∧
      data = e.source.read nextOff (e.chunkLength nextOff)
  | .ack acked nextOff => ∃ a, Windowed e s a acked nextOff
  | .done => ∃ a, Windowed e s a e.info.size e.info.size
  | .reply | .ret _ => Settled e s

theorem Windowed.setPc {s : SendState} {a acked nextOff : ℤ} (h : Windowed e s a acked nextOff)
    (pc : SendPc) : Windowed e { s with pc := pc } a acked nextOff :=
  ⟨h.accepted, h.acknowledged, h.nonneg, h.le_acked, h.acked_le, h.le_size, h.in_window, h.sent,
    h.reported⟩

theorem AcceptedAt.append {received : List Bytes} {a : ℤ} (h : AcceptedAt e received a)
    (msg : Bytes) : AcceptedAt e (received ++ [msg]) a := by
  obtain ⟨first, dec, hfirst, hrest⟩ := h
  exact ⟨first, dec, by simp [hfirst], hrest⟩

theorem Windowed.settled {s : SendState} {a acked nextOff : ℤ} (h : Windowed e s a acked nextOff) :
    Settled e s := by
  obtain ⟨offer, chunks, henc, hsent, hpieces⟩ := h.sent
  exact ⟨h.reported.sorted, .inr ⟨offer, henc, .inr
    ⟨chunks, a, nextOff, h.accepted, h.nonneg, h.le_size, hpieces, .inl hsent⟩⟩⟩

theorem settled_of_offer {s : SendState} {offer : Bytes} (henc : encodeOffer e.info = .ok offer)
    (hsent : s.sent = [] ∨ s.sent = [offer]) (hprog : s.progress = []) : Settled e s := by
  constructor
  · rw [hprog]
    exact List.Pairwise.nil
  · rcases hsent with hnone | hone
    · exact .inl hnone
    · exact .inr ⟨offer, henc, .inl hone⟩

theorem Settled.setPc {s : SendState} (h : Settled e s) (pc : SendPc) :
    Settled e { s with pc := pc } := ⟨h.sorted, h.sent⟩

theorem tiled_fillHead {s : SendState} {a acked nextOff : ℤ} (h : Windowed e s a acked nextOff) :
    SendState.Tiled e { s with pc := fillHead e acked nextOff } := by
  unfold fillHead
  split
  · rename_i hroom
    exact ⟨a, h.setPc _, hroom.2, room_of_countInFlight h.in_window hroom.1⟩
  · exact ⟨a, h.setPc _⟩

/-- Everything is acknowledged when the outer loop ends. -/
theorem tiled_windowHead {s : SendState} {a acked nextOff : ℤ} (h : Windowed e s a acked nextOff) :
    SendState.Tiled e { s with pc := windowHead e acked nextOff } := by
  unfold windowHead
  split
  · exact tiled_fillHead h
  · rename_i hge
    have hacked : acked = e.info.size := le_antisymm (h.acked_le.trans h.le_size) (not_lt.mp hge)
    have hnext : nextOff = e.info.size := le_antisymm h.le_size (hacked ▸ h.acked_le)
    subst hacked hnext
    exact ⟨a, h.setPc _⟩

theorem Reported.report {progress : List (ℤ × ℤ)} {acked acked' : ℤ} (h : Reported progress acked)
    (hle : acked ≤ acked') : Reported (progress ++ e.report (some acked')) acked' := by
  have hbound : ∀ p ∈ progress, p.1 ≤ acked' := fun p hp => (h.le_acked p hp).trans hle
  simp only [SendEnv.report]
  split
  · constructor
    · simp only [List.map_append, List.map_cons, List.map_nil, List.pairwise_append, h.sorted,
        List.pairwise_singleton, true_and, List.mem_singleton, forall_eq]
      intro x hx
      obtain ⟨p, hp, rfl⟩ := List.mem_map.mp hx
      exact hbound p hp
    · intro p hp
      rcases List.mem_append.mp hp with hold | hnew
      · exact hbound p hold
      · rw [List.mem_singleton.mp hnew]
  · rw [List.append_nil]
    exact ⟨h.sorted, hbound⟩

/-- The state behind a message that led to `next`. -/
def SendState.next (e : SendEnv) (s : SendState) (msg : Bytes) (next : SendNext) : SendState :=
  { s with
    pc := next.pc
    received := s.received ++ [msg]
    progress := s.progress ++ e.report next.reported }

/-- Returning without a report. -/
theorem tiled_next_ret {s : SendState} (h : Settled e s) (msg : Bytes) (err : ErrorCode) :
    (s.next e msg { pc := .ret err }).Tiled e := by
  constructor
  · show ((s.progress ++ []).map Prod.fst).Pairwise (· ≤ ·)
    rw [List.append_nil]
    exact h.sorted
  · rcases h.sent with hnone | ⟨offer, henc, hone | ⟨chunks, a, b, hacc, hrest⟩⟩
    · exact .inl hnone
    · exact .inr ⟨offer, henc, .inl hone⟩
    · exact .inr ⟨offer, henc, .inr ⟨chunks, a, b, hacc.append msg, hrest⟩⟩

/-- The Accept, wherever it lets the sender start. -/
theorem windowed_of_accept {s : SendState} {offer msg : Bytes} {dec : Decoded}
    (henc : encodeOffer e.info = .ok offer) (hsent : s.sent = [offer]) (hrecv : s.received = [])
    (hprog : s.progress = []) (hdec : decodeFrame msg = .ok dec) (htyp : dec.typ = kTypeAccept)
    (hid : dec.id = e.info.id) (hlo : 0 ≤ dec.offset) (hhi : dec.offset ≤ e.info.size)
    (pc : SendPc) :
    Windowed e (s.next e msg { pc := pc, reported := some dec.offset }) dec.offset dec.offset
      dec.offset where
  accepted := ⟨msg, dec, by simp [SendState.next, hrecv], hdec, htyp, hid, rfl⟩
  acknowledged := ⟨msg, dec, by simp [SendState.next], hdec, .inl htyp, hid, rfl⟩
  nonneg := hlo
  le_acked := le_rfl
  acked_le := le_rfl
  le_size := hhi
  in_window := by
    rw [sub_self]
    exact mul_nonneg (window_pos e).le e.chunkSize_pos.le
  sent := ⟨offer, [], henc, hsent, .nil⟩
  reported := by
    have hnone : Reported s.progress dec.offset := by
      rw [hprog]
      exact ⟨List.Pairwise.nil, nofun⟩
    exact hnone.report le_rfl

theorem tiled_onAccept {s : SendState} {offer : Bytes} (henc : encodeOffer e.info = .ok offer)
    (hsent : s.sent = [offer]) (hrecv : s.received = []) (hprog : s.progress = []) (msg : Bytes) :
    (s.next e msg (onAccept e msg)).Tiled e := by
  have h := onAccept_outcome e msg
  generalize onAccept e msg = next at h ⊢
  cases h with
  | failed err _ => exact tiled_next_ret (settled_of_offer henc (.inr hsent) hprog) msg err
  | resumes dec hdec htyp hid hlo hhi =>
    exact tiled_windowHead (windowed_of_accept henc hsent hrecv hprog hdec htyp hid hlo hhi .accept)

/-- An Ack moves the window, wherever inside it the peer puts it. -/
theorem Windowed.ack {s : SendState} {a acked nextOff : ℤ} {msg : Bytes} {dec : Decoded}
    (h : Windowed e s a acked nextOff) (hdec : decodeFrame msg = .ok dec)
    (htyp : dec.typ = kTypeAck) (hid : dec.id = e.info.id) (hlo : acked ≤ dec.offset)
    (hhi : dec.offset ≤ nextOff) (pc : SendPc) :
    Windowed e (s.next e msg { pc := pc, reported := some dec.offset }) a dec.offset nextOff where
  accepted := h.accepted.append msg
  acknowledged := ⟨msg, dec, by simp [SendState.next], hdec, .inr htyp, hid, rfl⟩
  nonneg := h.nonneg
  le_acked := h.le_acked.trans hlo
  acked_le := hhi
  le_size := h.le_size
  in_window := by
    have hwin := h.in_window
    omega
  sent := h.sent
  reported := h.reported.report hlo

theorem tiled_onAck {s : SendState} {a acked nextOff : ℤ} (h : Windowed e s a acked nextOff)
    (msg : Bytes) : (s.next e msg (onAck e acked nextOff msg)).Tiled e := by
  have hout := onAck_outcome e acked nextOff msg
  generalize onAck e acked nextOff msg = next at hout ⊢
  cases hout with
  | failed err _ => exact tiled_next_ret h.settled msg err
  | moves dec hdec htyp hid hlo hhi => exact tiled_windowHead (h.ack hdec htyp hid hlo hhi .accept)

theorem tiled_onReply {s : SendState} (h : Settled e s) (msg : Bytes) :
    (s.next e msg (onReply e msg)).Tiled e := by
  have hout := onReply_outcome e msg
  generalize onReply e msg = next at hout ⊢
  cases hout <;> exact tiled_next_ret h msg _

/-- A chunk sent extends the pieces. -/
theorem Windowed.chunk {s : SendState} {a acked nextOff : ℤ} (h : Windowed e s a acked nextOff)
    (hlt : nextOff < e.info.size)
    (hroom : nextOff - acked ≤ (e.opts.window.toInt - 1) * e.chunkSize.toInt) (pc : SendPc) :
    Windowed e { s with pc := pc, sent := s.sent ++ [e.chunkAt nextOff] } a acked
      (nextOff + e.chunkLength nextOff) where
  accepted := h.accepted
  acknowledged := h.acknowledged
  nonneg := h.nonneg
  le_acked := h.le_acked
  acked_le := by
    have hle := h.acked_le
    omega
  le_size := by
    have hlen := e.chunkLength_eq hlt
    omega
  in_window := by
    have hlen := e.chunkLength_eq hlt
    rw [sub_mul] at hroom
    omega
  sent := by
    obtain ⟨offer, chunks, henc, hsent, hpieces⟩ := h.sent
    refine ⟨offer, chunks ++ [e.chunkAt nextOff], henc, by simp [hsent], ?_⟩
    have hlen := e.chunkLength_eq hlt
    have hpos := e.chunkSize_pos
    have hnext := hpieces.snoc (e.source.read nextOff (e.chunkLength nextOff)) (by simp)
      (by rw [Store.length_read]; omega) (by rw [Store.length_read]; omega)
    rwa [Store.length_read] at hnext
  reported := h.reported

theorem SendState.Tiled.settled {s : SendState} (h : s.Tiled e) : Settled e s := by
  unfold SendState.Tiled at h
  split at h
  · exact settled_of_offer h.1 (.inl h.2.1) h.2.2.2
  · obtain ⟨_, henc, hsent, _, hprog⟩ := h
    exact settled_of_offer henc (.inr hsent) hprog
  · exact h.choose_spec.1.settled
  · exact h.choose_spec.1.settled
  · exact h.choose_spec.settled
  · exact h.choose_spec.settled
  · exact h
  · exact h

theorem SendState.Tiled.onMessage {s : SendState} (h : s.Tiled e) (hwait : s.pc.waiting = true)
    (msg : Bytes) : (s.next e msg (s.pc.onMessage e msg)).Tiled e := by
  obtain ⟨pc, received, sent, progress⟩ := s
  cases pc with
  | accept =>
    obtain ⟨offer, henc, hsent, hrecv, hprog⟩ := h
    exact tiled_onAccept henc hsent hrecv hprog msg
  | ack acked nextOff =>
    obtain ⟨a, hwin⟩ := h
    exact tiled_onAck hwin msg
  | reply => exact tiled_onReply h msg
  | _ => cases hwait

theorem SendState.Tiled.onSent {s : SendState} (h : s.Tiled e) {msg : Bytes}
    (hout : s.pc.outgoing e = some msg) :
    SendState.Tiled e { s with pc := s.pc.onSent e, sent := s.sent ++ [msg] } := by
  obtain ⟨pc, received, sent, progress⟩ := s
  cases pc with
  | offer msg' =>
    obtain ⟨henc, hsent, hrecv, hprog⟩ := h
    cases hout
    exact ⟨msg, henc, congrArg (· ++ [msg]) hsent, hrecv, hprog⟩
  | chunk acked nextOff data =>
    obtain ⟨a, hwin, hlt, hroom, rfl⟩ := h
    cases hout
    simp only [SendPc.onSent, Store.length_read]
    exact tiled_fillHead (hwin.chunk hlt hroom .accept)
  | done =>
    obtain ⟨a, hwin⟩ := h
    obtain ⟨offer, chunks, henc, hsent, hpieces⟩ := hwin.sent
    cases hout
    refine ⟨hwin.reported.sorted, .inr ⟨offer, henc, .inr ⟨chunks, a, _, hwin.accepted, hwin.nonneg,
      le_rfl, hpieces, .inr ⟨rfl, ?_⟩⟩⟩⟩
    exact congrArg (· ++ [encodeDone e.info.id true e.info.hash]) hsent
  | _ => cases hout

/-- Every frame a peer can reply with, and every failure, leaves the chunks sent contiguous and within
the window. -/
theorem SendState.Tiled.step {s t : SendState} {ev : SendEv} (h : s.Tiled e)
    (hstep : sendStep e s ev = some t) : t.Tiled e := by
  cases sendTrans_of_step hstep with
  | lost => exact h.settled.setPc _
  | message msg hwait => exact h.onMessage hwait msg
  | sendFailed => exact h.settled.setPc _
  | sent msg ec hout _ => exact h.onSent hout
  | readFailed => exact h.settled.setPc _
  | read acked nextOff ec hpc _ =>
    rw [SendState.Tiled, hpc] at h
    obtain ⟨a, hwin, hlt, hroom⟩ := h
    exact ⟨a, hwin.setPc _, hlt, hroom, rfl⟩

theorem tiled_start (e : SendEnv) : (SendState.start e).Tiled e := by
  cases henc : encodeOffer e.info with
  | error err =>
    simp only [SendState.start, henc]
    exact ⟨List.Pairwise.nil, .inl rfl⟩
  | ok msg =>
    simp only [SendState.start, henc]
    exact ⟨henc, rfl, rfl, rfl⟩

theorem tiled_reachable {s : SendState} (h : Run (sendStep e) (SendState.start e) s) : s.Tiled e :=
  Run.invariant (I := SendState.Tiled e) (fun _ _ _ hI hstep => hI.step hstep) h (tiled_start e)

/-! ## What never goes back -/

/-- `acked` has reached `x`, or the loop is over. -/
def SendPc.Past (x : ℤ) (pc : SendPc) : Prop :=
  pc.Over ∨ ∃ acked nextOff, pc.offsets = some (acked, nextOff) ∧ x ≤ acked

theorem past_fillHead {x acked : ℤ} (h : x ≤ acked) (nextOff : ℤ) :
    (fillHead e acked nextOff).Past x := by
  unfold fillHead
  split
  · exact .inr ⟨acked, nextOff, rfl, h⟩
  · exact .inr ⟨acked, nextOff, rfl, h⟩

theorem past_windowHead {x acked : ℤ} (h : x ≤ acked) (nextOff : ℤ) :
    (windowHead e acked nextOff).Past x := by
  unfold windowHead
  split
  · exact past_fillHead h nextOff
  · exact .inl trivial

theorem past_onAck {x acked : ℤ} (h : x ≤ acked) (nextOff : ℤ) (msg : Bytes) :
    (onAck e acked nextOff msg).pc.Past x := by
  have hout := onAck_outcome e acked nextOff msg
  generalize onAck e acked nextOff msg = next at hout ⊢
  cases hout with
  | failed => exact .inl trivial
  | moves dec _ _ _ hlo _ => exact past_windowHead (h.trans hlo) nextOff

theorem SendPc.Past.step {x : ℤ} {s t : SendState} {ev : SendEv} (h : s.pc.Past x)
    (hstep : sendStep e s ev = some t) : t.pc.Past x := by
  rcases h with hover | ⟨acked, nextOff, hoff, hle⟩
  · exact .inl (hover.step hstep)
  · cases sendTrans_of_step hstep with
    | lost => exact .inl trivial
    | message msg hwait =>
      generalize s.pc = pc at hoff hwait ⊢
      cases pc with
      | ack acked' nextOff' =>
        cases hoff
        exact past_onAck hle nextOff msg
      | read => cases hwait
      | chunk => cases hwait
      | _ => cases hoff
    | sendFailed => exact .inl trivial
    | sent msg ec hout _ =>
      generalize s.pc = pc at hoff hout ⊢
      cases pc with
      | chunk acked' nextOff' data =>
        cases hoff
        exact past_fillHead hle _
      | read => cases hout
      | ack => cases hout
      | _ => cases hoff
    | readFailed => exact .inl trivial
    | read acked' nextOff' ec hpc _ =>
      rw [hpc] at hoff
      cases hoff
      exact .inr ⟨acked, nextOff, rfl, hle⟩

theorem acked_le_of_run {s t : SendState} (h : Run (sendStep e) s t) {acked nextOff : ℤ}
    (hs : s.pc.offsets = some (acked, nextOff)) {acked' nextOff' : ℤ}
    (ht : t.pc.offsets = some (acked', nextOff')) : acked ≤ acked' := by
  have hpast := Run.invariant (I := fun u : SendState => u.pc.Past acked)
    (fun _ _ _ hI hstep => hI.step hstep) h (.inr ⟨acked, nextOff, hs, le_rfl⟩)
  rcases hpast with hover | ⟨x, y, hxy, hle⟩
  · generalize t.pc = pc at ht hover
    cases pc with
    | done => cases ht
    | reply => cases ht
    | ret => cases ht
    | _ => cases hover
  · rw [ht] at hxy
    cases hxy
    exact hle

/-! ## Foreign frames -/

/-- A frame of another transfer ends the attempt with an error. -/
theorem foreign_ends {s t : SendState} {msg : Bytes} {dec : Decoded}
    (hdec : decodeFrame msg = .ok dec) (hid : dec.id ≠ e.info.id)
    (hstep : sendStep e s (.received (.ok msg)) = some t) :
    ∃ err, t.pc = .ret err ∧ err.failed = true := by
  have hforeign : ∀ dec', decodeFrame msg = .ok dec' → dec'.id ≠ e.info.id := by
    intro dec' hdec'
    cases hdec.symm.trans hdec'
    exact hid
  cases sendTrans_of_step hstep with
  | message _ hwait =>
    show ∃ err, (s.pc.onMessage e msg).pc = .ret err ∧ err.failed = true
    generalize s.pc = pc at hwait ⊢
    cases pc with
    | accept =>
      have hout := onAccept_outcome e msg
      rw [SendPc.onMessage]
      generalize onAccept e msg = next at hout ⊢
      cases hout with
      | failed err herr => exact ⟨err, rfl, herr⟩
      | resumes dec' hdec' _ hid' => exact absurd hid' (hforeign dec' hdec')
    | ack acked nextOff =>
      have hout := onAck_outcome e acked nextOff msg
      rw [SendPc.onMessage]
      generalize onAck e acked nextOff msg = next at hout ⊢
      cases hout with
      | failed err herr => exact ⟨err, rfl, herr⟩
      | moves dec' hdec' _ hid' => exact absurd hid' (hforeign dec' hdec')
    | reply =>
      have hout := onReply_outcome e msg
      rw [SendPc.onMessage]
      generalize onReply e msg = next at hout ⊢
      cases hout with
      | failed err herr => exact ⟨err, rfl, herr⟩
      | confirmed dec' hdec' _ hid' => exact absurd hid' (hforeign dec' hdec')
    | _ => cases hwait

/-- The offsets of the loop in a reachable state. -/
theorem windowed_reachable {s : SendState} (h : Run (sendStep e) (SendState.start e) s)
    {acked nextOff : ℤ} (hoff : s.pc.offsets = some (acked, nextOff)) :
    ∃ a, Windowed e s a acked nextOff := by
  have htiled := tiled_reachable h
  rw [SendState.Tiled] at htiled
  generalize s.pc = pc at htiled hoff
  cases pc with
  | read =>
    cases hoff
    exact ⟨_, htiled.choose_spec.1⟩
  | chunk =>
    cases hoff
    exact ⟨_, htiled.choose_spec.1⟩
  | ack =>
    cases hoff
    exact htiled
  | _ => cases hoff

/-- **The sender tiles the content and respects the window, against any receiver.** While the loop
runs, everything from the accepted offset to `next_off` has been sent in contiguous non-empty chunks
of the source, what is acknowledged lies in between, and at most a window of chunks is in flight; the
Done is sent only with everything sent and acknowledged; neither `acked` nor the reported progress
ever decreases, and a frame of another transfer ends the attempt with an error. -/
theorem sends_within_window (e : SendEnv) (s : SendState)
    (h : Run (sendStep e) (SendState.start e) s) :
    (∀ acked nextOff, s.pc.offsets = some (acked, nextOff) →
      ∃ a, Windowed e s a acked nextOff) ∧
    (∀ id ok hash, s.pc.outgoing e = some (encodeDone id ok hash) →
      ∃ a, Windowed e s a e.info.size e.info.size) ∧
    SentTiled e s ∧ (s.progress.map Prod.fst).Pairwise (· ≤ ·) ∧
    (∀ t acked nextOff acked' nextOff', Run (sendStep e) s t →
      s.pc.offsets = some (acked, nextOff) → t.pc.offsets = some (acked', nextOff') →
      acked ≤ acked') ∧
    ∀ msg dec t, sendStep e s (.received (.ok msg)) = some t → decodeFrame msg = .ok dec →
      dec.id ≠ e.info.id → ∃ err, t.pc = .ret err ∧ err.failed = true := by
  have htiled := tiled_reachable h
  refine ⟨fun acked nextOff hoff => windowed_reachable h hoff, ?_, htiled.settled.sent,
    htiled.settled.sorted, ?_, fun msg dec t hstep hdec hid => foreign_ends hdec hid hstep⟩
  · intro id ok hash hout
    rw [SendState.Tiled] at htiled
    generalize s.pc = pc at htiled hout
    cases pc with
    | offer msg =>
      obtain ⟨-, -, hframe⟩ := encodeOffer_ok htiled.1
      cases type_eq_of_frame_eq (hframe.symm.trans (Option.some.inj hout))
    | chunk acked nextOff data => cases type_eq_of_frame_eq (Option.some.inj hout)
    | done => exact htiled
    | _ => cases hout
  · intro t acked nextOff acked' nextOff' hrun hs ht
    exact acked_le_of_run hrun hs ht

/-- The first of three chunks, in a window of one. -/
def firstChunkTrace : List SendEv :=
  [.sent .success, .received (.ok (encodeAccept sampleMeta.id 0)), .read .success, .sent .success]

theorem first_chunk_within_window :
    ∃ s, Run (sendStep (sampleSendEnv narrowOptions)) (SendState.start (sampleSendEnv narrowOptions)) s ∧
      s.pc = .ack 0 1 ∧ ∃ a, Windowed (sampleSendEnv narrowOptions) s a 0 1 := by
  obtain ⟨s, hrun, hpc⟩ :
      ∃ s, Run (sendStep (sampleSendEnv narrowOptions))
        (SendState.start (sampleSendEnv narrowOptions)) s ∧ s.pc = .ack 0 1 :=
    exists_run_of_exec firstChunkTrace ⟨_, rfl, rfl⟩
  exact ⟨s, hrun, hpc, (sends_within_window _ s hrun).1 0 1 (by rw [hpc]; rfl)⟩

end TcpDuplex.Transfer
