import TcpDuplex.Transfer.Frames
import TcpDuplex.Transfer.Mirror

/-!
# Both sides in `std::int64_t`

Offsets and sizes are `std::int64_t`, and the code adds before it compares: `next_off + n > meta.size` in
`send_once` and `dec.offset + dec.data.size() > meta.size` in `receive_once`. Here are the two steps with sums
that wrap around where they do not fit, which is what compilers make of such a sum; the language gives it no
value. A source has the bytes that its size says, so a read past its end does not succeed.

As long as the sums fit, these are the exact steps.
-/

namespace TcpDuplex.Transfer

/-- The range of `std::int64_t`. -/
def InInt64 (x : ℤ) : Prop := -2 ^ 63 ≤ x ∧ x < 2 ^ 63

/-- The sum of two offsets. -/
def addInt64 (x y : ℤ) : ℤ := (x + y).bmod (2 ^ 64)

theorem addInt64_of_inInt64 {x y : ℤ} (h : InInt64 (x + y)) : addInt64 x y = x + y := by
  obtain ⟨hlo, hhi⟩ := h
  rw [addInt64, Int.bmod_def]
  split <;> omega

/-- Above the range the sum comes out below it. -/
theorem addInt64_of_ge {x y : ℤ} (hlo : 2 ^ 63 ≤ x + y) (hhi : x + y < 2 ^ 64 + 2 ^ 63) :
    addInt64 x y = x + y - 2 ^ 64 := by
  rw [addInt64, Int.bmod_def]
  split <;> omega

/-! ## `send_once` -/

/-- The length of the next chunk. -/
def SendEnv.chunkLength64 (e : SendEnv) (nextOff : ℤ) : ℕ := e.chunkLengthWith addInt64 nextOff

/-- The source has these bytes. -/
def SendEnv.holds (e : SendEnv) (off : ℤ) (n : ℕ) : Bool := decide (0 ≤ off ∧ off + n ≤ e.info.size)

/-- One step of `send_once`. -/
def sendStep64 (e : SendEnv) (s : SendState) : SendEv → Option SendState
  | .sent ec =>
    match s.pc with
    | .chunk acked nextOff data =>
      if ec.failed then some { s with pc := .ret (mapConnErr ec) }
      else
        some { s with
          pc := fillHead e acked (addInt64 nextOff data.length)
          sent := s.sent ++ [encodeChunk e.info.id nextOff data] }
    | _ => sendStep e s (.sent ec)
  | .read ec =>
    match s.pc with
    | .read acked nextOff =>
      if ec.failed then some { s with pc := .ret ec }
      else if e.holds nextOff (e.chunkLength64 nextOff) then
        some { s with
          pc := .chunk acked nextOff (e.source.read nextOff (e.chunkLength64 nextOff)) }
      else none
    | _ => none
  | ev => sendStep e s ev

/-- The additions of `send_once` around its next call: the bounds check of `next_off + n` in front of
`read_at`, and `next_off += n` behind the `send` of a chunk. -/
def SendPc.AddsInRange (e : SendEnv) : SendPc → Prop
  | .read _ nextOff => InInt64 (nextOff + e.chunkSize.toInt)
  | .chunk _ nextOff data => InInt64 (nextOff + data.length)
  | _ => True

section Send

variable {e : SendEnv} {s t : SendState} {ev : SendEv}

/-- With sums that fit, the next chunk is the same. -/
theorem chunkLength64_of_inInt64 {off : ℤ} (h : InInt64 (off + e.chunkSize.toInt)) :
    e.chunkLength64 off = e.chunkLength off := by
  simp only [SendEnv.chunkLength64, SendEnv.chunkLength, SendEnv.chunkLengthWith,
    addInt64_of_inInt64 h]

/-- Where the sum does not fit, the clamp is skipped and the chunk ends behind the source. -/
theorem holds_chunkLength64_of_ge {off : ℤ} (hsize : e.info.size < 2 ^ 63) (hlt : off < e.info.size)
    (h : 2 ^ 63 ≤ off + e.chunkSize.toInt) : e.holds off (e.chunkLength64 off) = false := by
  have hpos := e.chunkSize_pos
  have hcs : e.chunkSize.toInt < 2 ^ 31 := Int32.toInt_lt _
  have hlen : (e.chunkLength64 off : ℤ) = e.chunkSize.toInt := by
    simp only [SendEnv.chunkLength64, SendEnv.chunkLengthWith, addInt64_of_ge h (by omega)]
    split <;> omega
  simp only [SendEnv.holds, decide_eq_false_iff_not, hlen]
  omega

theorem holds_chunkLength {off : ℤ} (hlo : 0 ≤ off) (hlt : off < e.info.size) :
    e.holds off (e.chunkLength off) = true := by
  have hlen := e.chunkLength_eq hlt
  simp only [SendEnv.holds, decide_eq_true_eq]
  omega

/-- The bounds check of a sender that is inside its source fits, or its read goes past the end. -/
theorem inInt64_or_ge {off : ℤ} (hlo : 0 ≤ off) :
    InInt64 (off + e.chunkSize.toInt) ∨ 2 ^ 63 ≤ off + e.chunkSize.toInt := by
  have hpos := e.chunkSize_pos
  by_cases hge : 2 ^ 63 ≤ off + e.chunkSize.toInt
  · exact .inr hge
  · exact .inl ⟨by omega, by omega⟩

/-- `next_off += n` fits behind every chunk of the source. -/
theorem inInt64_of_chunk {acked off : ℤ} {data : Bytes} (hsize : e.info.size < 2 ^ 63)
    (h : (SendPc.chunk acked off data).InRange e) : InInt64 (off + data.length) := by
  obtain ⟨hlo, hlt, rfl⟩ := h
  have hlen := e.chunkLength_eq hlt
  rw [Store.length_read]
  exact ⟨by omega, by omega⟩

/-- With a size and a chunk that fit together, every sum does. -/
theorem SendPc.InRange.addsInRange (hin : s.pc.InRange e) (hsize : e.info.size < 2 ^ 63)
    (hfit : e.info.size + e.chunkSize.toInt ≤ 2 ^ 63) : s.pc.AddsInRange e := by
  have hpos := e.chunkSize_pos
  cases hpc : s.pc with
  | read acked nextOff =>
    rw [hpc] at hin
    obtain ⟨hlo, hlt⟩ := hin
    exact ⟨by omega, by omega⟩
  | chunk acked nextOff data =>
    rw [hpc] at hin
    exact inInt64_of_chunk hsize hin
  | _ => trivial

/-- A step in which the bounds check fits is exact. -/
theorem sendStep64_eq (hin : s.pc.InRange e) (hadds : s.pc.AddsInRange e) :
    sendStep64 e s ev = sendStep e s ev := by
  cases ev with
  | received r => rfl
  | sent ec =>
    simp only [sendStep64]
    split
    · rename_i acked nextOff data hpc
      rw [hpc] at hadds
      simp only [sendStep, hpc, SendPc.outgoing, SendPc.onSent, addInt64_of_inInt64 hadds]
    · rfl
  | read ec =>
    cases hpc : s.pc with
    | read acked nextOff =>
      rw [hpc] at hin hadds
      simp only [sendStep64, sendStep, hpc, chunkLength64_of_inInt64 hadds,
        holds_chunkLength hin.1 hin.2, if_true]
    | _ => simp only [sendStep64, sendStep, hpc]

/-- So is every other step that succeeds: where the check does not fit, the read fails. -/
theorem sendStep_of_sendStep64 (hsize : e.info.size < 2 ^ 63) (hin : s.pc.InRange e)
    (h : sendStep64 e s ev = some t) : sendStep e s ev = some t := by
  cases hpc : s.pc with
  | read acked nextOff =>
    rw [hpc] at hin
    rcases inInt64_or_ge (e := e) hin.1 with hfits | hge
    · rwa [sendStep64_eq (by rwa [hpc]) (by rwa [hpc])] at h
    · cases ev with
      | received r => exact h
      | sent ec =>
        simp only [sendStep64, hpc] at h
        exact h
      | read ec =>
        simp only [sendStep64, sendStep, hpc, holds_chunkLength64_of_ge hsize hin.2 hge,
          Bool.false_eq_true, if_false] at h ⊢
        split at h
        · rename_i hec
          rwa [if_pos hec]
        · cases h
  | chunk acked nextOff data =>
    rw [hpc] at hin
    have hfits := inInt64_of_chunk hsize hin
    rwa [sendStep64_eq (by rwa [hpc]) (by rwa [hpc])] at h
  | _ => rwa [sendStep64_eq hin (by rw [hpc]; trivial)] at h

/-- The next call asks the source for bytes that it does not have. -/
def SendPc.readsPast (e : SendEnv) : SendPc → Bool
  | .read _ nextOff => !e.holds nextOff (e.chunkLength64 nextOff)
  | _ => false

/-- That comes of a check that does not fit, and of nothing else. -/
theorem readsPast_iff (hsize : e.info.size < 2 ^ 63) (hin : s.pc.InRange e) :
    s.pc.readsPast e = true ↔ ¬s.pc.AddsInRange e := by
  cases hpc : s.pc with
  | read acked nextOff =>
    rw [hpc] at hin
    rcases inInt64_or_ge (e := e) hin.1 with hfits | hge
    · refine iff_of_false ?_ (not_not.mpr hfits)
      rw [SendPc.readsPast, chunkLength64_of_inInt64 hfits, holds_chunkLength hin.1 hin.2]
      decide
    · refine iff_of_true ?_ fun hfits => absurd hfits.2 (not_lt.mpr hge)
      rw [SendPc.readsPast, holds_chunkLength64_of_ge hsize hin.2 hge]
      rfl
  | chunk acked nextOff data =>
    rw [hpc] at hin
    exact iff_of_false nofun (not_not.mpr (inInt64_of_chunk hsize hin))
  | _ => exact iff_of_false nofun (not_not.mpr trivial)

end Send

/-! ## `receive_once` -/

/-- A message in the loop. -/
def onChunk64 (e : RecvEnv) (m : Meta) (hw : HashingWriter) (written : ℤ) (since : ℕ) (msg : Bytes) :
    RecvPc := onChunkWith addInt64 e m hw written since msg

/-- `write_at` returned. -/
def RecvState.wrote64 (e : RecvEnv) (s : RecvState) (m : Meta) (hw : HashingWriter) (written : ℤ)
    (since : ℕ) (off : ℤ) (data : Bytes) (ec : ErrorCode) (junk : Store) : RecvState :=
  s.wroteWith addInt64 e m hw written since off data ec junk

/-- One step of `receive_once`. -/
def recvStep64 (e : RecvEnv) (s : RecvState) : RecvEv → Option RecvState
  | .received (.ok msg) =>
    match s.pc with
    | .chunk m hw written since =>
      some { s with
        pc := onChunk64 e m hw written since msg
        received := s.received ++ [msg] }
    | _ => recvStep e s (.received (.ok msg))
  | .wrote ec junk =>
    match s.pc with
    | .write m hw written since off data => some (s.wrote64 e m hw written since off data ec junk)
    | _ => none
  | ev => recvStep e s ev

/-- The addition of `receive_once` in the test of a Chunk frame, where the tests before it pass. -/
def RecvPc.AddsInRange (msg : Bytes) : RecvPc → Prop
  | .chunk m _ written _ =>
    ∀ dec, decodeFrame msg = .ok dec → dec.typ = kTypeChunk → dec.id = m.id → dec.offset = written →
      InInt64 (dec.offset + dec.data.length)
  | _ => True

section Receive

variable {e : RecvEnv} {s : RecvState} {ev : RecvEv}

theorem length_encodeChunk (id : ID) (v : ℤ) (data : Bytes) :
    (encodeChunk id v data).length = kChunkFixedLen + data.length := by
  rw [encodeChunk, length_frame]
  simp [putBe64, kChunkFixedLen, kHeaderLen, kIdLen]
  omega

/-- A frame is as long as its fields. -/
theorem length_of_decodeFrame {msg : Bytes} {dec : Decoded} (h : decodeFrame msg = .ok dec) :
    (dec.typ = kTypeOffer → msg.length = kOfferFixedLen + dec.info.name.length ∧
        dec.info.name.length ≤ 0xffff ∧ dec.info.size < 2 ^ 63) ∧
      (dec.typ = kTypeChunk → msg.length = kChunkFixedLen + dec.data.length) := by
  obtain ⟨d, hparses⟩ := exists_parses_of_tfx1 (tfx1_of_decodeFrame h)
  obtain rfl : d = dec := Except.ok.inj (hparses.decodeFrame_eq.symm.trans h)
  cases hparses with
  | offer id hlo hhi hash hname =>
    refine ⟨fun _ => ⟨?_, hname, hhi⟩, fun hchunk => ?_⟩
    · rw [length_frame]
      simp [offerBody, putBe64, putBe16, hash.2, kOfferFixedLen, kHeaderLen, kIdLen]
      omega
    · cases hchunk
  | chunk id hlo hhi data =>
    refine ⟨fun hoffer => ?_, fun _ => ?_⟩
    · cases hoffer
    · exact length_encodeChunk id _ data
  | _ =>
    constructor
    · intro hoffer
      cases hoffer
    · intro hchunk
      cases hchunk

theorem size_lt_of_offered {received : List Bytes} {m : Meta} (h : Offered received m) :
    m.size < 2 ^ 63 := by
  obtain ⟨msg, dec, -, hdec, htyp, rfl⟩ := h
  exact ((length_of_decodeFrame hdec).1 htyp).2.2

/-- The sums fit for every frame of an honest sender. -/
theorem Honest.addsInRange {m : Meta} {source : Store} {msg : Bytes} (hsize : m.size < 2 ^ 63)
    (h : Honest m source msg) (pc : RecvPc) : pc.AddsInRange msg := by
  cases pc with
  | chunk m' hw written since =>
    intro dec hdec htyp _ _
    cases h with
    | offer henc =>
      rw [decodeFrame_encodeOffer hsize henc] at hdec
      cases hdec
      cases htyp
    | chunk off n hlo hhi =>
      rw [decodeFrame_encodeChunk m.id (by omega) (by omega)] at hdec
      cases hdec
      show InInt64 (off + (source.read off n).length)
      rw [Store.length_read]
      exact ⟨by omega, by omega⟩
    | done => cases (type_of_decodeFrame_frame hdec).symm.trans htyp
  | _ => trivial

theorem onChunk64_eq {m : Meta} {hw : HashingWriter} {written : ℤ} {since : ℕ} {msg : Bytes}
    (h : (RecvPc.chunk m hw written since).AddsInRange msg) :
    onChunk64 e m hw written since msg = onChunk e m hw written since msg := by
  simp only [onChunk64, onChunk, onChunkWith]
  split
  · rfl
  · rename_i dec hdec
    by_cases hchunk : dec.typ = kTypeChunk
    · have htest : (dec.id ≠ m.id ∨ dec.offset ≠ written ∨
            addInt64 dec.offset dec.data.length > m.size) ↔
          (dec.id ≠ m.id ∨ dec.offset ≠ written ∨ dec.offset + dec.data.length > m.size) := by
        refine or_congr_right' fun hid => or_congr_right' fun hoff => ?_
        rw [addInt64_of_inInt64 (h dec hdec hchunk (not_not.mp hid) (not_not.mp hoff))]
      simp only [if_pos hchunk, htest]
    · simp only [if_neg hchunk]

/-- The two calls behind which the attempt adds; every other step is exact. -/
theorem recvStep64_cases {t : RecvState} (h : recvStep64 e s ev = some t) :
    recvStep e s ev = some t ∨
      (∃ m hw written since msg, s.pc = .chunk m hw written since ∧ ev = .received (.ok msg) ∧
        t = { s with pc := onChunk64 e m hw written since msg, received := s.received ++ [msg] }) ∨
      ∃ m hw written since off data ec junk, s.pc = .write m hw written since off data ∧
        ev = .wrote ec junk ∧ t = s.wrote64 e m hw written since off data ec junk := by
  cases ev with
  | received r =>
    cases r with
    | error ec => exact .inl h
    | ok msg =>
      simp only [recvStep64] at h
      split at h
      · rename_i m hw written since hpc
        exact .inr (.inl ⟨m, hw, written, since, msg, hpc, rfl, (Option.some.inj h).symm⟩)
      · exact .inl h
  | sent ec => exact .inl h
  | read ec => exact .inl h
  | wrote ec junk =>
    simp only [recvStep64] at h
    split at h
    · rename_i m hw written since off data hpc
      exact .inr (.inr ⟨m, hw, written, since, off, data, ec, junk, hpc, rfl, (Option.some.inj h).symm⟩)
    · cases h

/-- A step in which the sums fit is exact. -/
theorem recvStep64_eq (hsound : s.Sound e)
    (hadds : ∀ msg, ev = .received (.ok msg) → s.pc.AddsInRange msg) :
    recvStep64 e s ev = recvStep e s ev := by
  cases ev with
  | received r =>
    cases r with
    | error ec => rfl
    | ok msg =>
      simp only [recvStep64]
      split
      · rename_i m hw written since hpc
        have hfits := hadds msg rfl
        rw [hpc] at hfits
        simp only [recvStep, hpc, RecvPc.waiting, RecvPc.onMessage, onChunk64_eq hfits]
      · rfl
  | sent ec => rfl
  | read ec => rfl
  | wrote ec junk =>
    cases hpc : s.pc with
    | write m hw written since off data =>
      simp only [RecvState.Sound, hpc] at hsound
      obtain ⟨hoff, hfol, rfl, hfit⟩ := hsound
      have hsize := size_lt_of_offered hoff
      have hnonneg := hfol.covers.nonneg
      have hfits : InInt64 (off + data.length) := ⟨by omega, by omega⟩
      simp only [recvStep64, recvStep, hpc, RecvState.wrote64, RecvState.wrote, RecvState.wroteWith,
        hfol.offset_eq, addInt64_of_inInt64 hfits]
    | _ => simp only [recvStep64, recvStep, hpc]

end Receive

/-- An offer of as many bytes as an offset can count, without a hash. -/
def longestMeta : Meta := { sampleMeta with size := 2 ^ 63 - 1, hash := Block.zero 32 }

end TcpDuplex.Transfer
