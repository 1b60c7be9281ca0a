import TcpDuplex.Transfer.Int64
import TcpDuplex.Transfer.Window

/-!
# The signed additions of a transfer

Offsets and sizes are `std::int64_t`, and the steps of both sides compute with them exactly. The code
adds before it compares: `next_off + n > meta.size` in `send_once` and
`dec.offset + dec.data.size() > meta.size` in `receive_once`, where `hash_reader` subtracts instead. An
addition that leaves the range of the type has no value, so the exact steps stand for the code up to the
first such addition only, and `Int64` has the steps behind it. Which runs meet one is decided here, for each
side. The count of chunks in flight and its narrowing to `int` are always exact.
-/

namespace TcpDuplex.Transfer

open Machine

/-! ## `send_once` -/

/-- `count_in_flight(acked, next_off, chunk_size)` computes within `std::int64_t`, and the cast to `int`
keeps the quotient. -/
def CountsExactly (acked nextOff : ℤ) (chunkSize : Int32) : Prop :=
  nextOff ≤ acked ∨
    InInt64 (nextOff - acked) ∧ InInt64 (nextOff - acked + chunkSize.toInt) ∧
      InInt64 (nextOff - acked + chunkSize.toInt - 1) ∧
      (countInFlight acked nextOff chunkSize).toInt =
        (nextOff - acked + chunkSize.toInt - 1) / chunkSize.toInt

section Send

variable {e : SendEnv}

/-- Within a window, the quotient is no larger than the window, which is an `int`. -/
theorem countsExactly_of_window {acked nextOff : ℤ}
    (hwin : nextOff - acked ≤ e.opts.window.toInt * e.chunkSize.toInt) :
    CountsExactly acked nextOff e.chunkSize := by
  have hcs := e.chunkSize_pos
  have hcs31 : e.chunkSize.toInt < 2 ^ 31 := Int32.toInt_lt _
  have hw := window_pos e
  have hw31 : e.opts.window.toInt < 2 ^ 31 := Int32.toInt_lt _
  by_cases hle : nextOff ≤ acked
  · exact .inl hle
  · right
    rw [countInFlight, if_neg hle]
    set cs := e.chunkSize.toInt with hcsdef
    set w := e.opts.window.toInt with hwdef
    -- a window is below `2 ^ 62`
    have hprod : w * cs ≤ (2 ^ 31 - 1) * (2 ^ 31 - 1) := by
      apply mul_le_mul <;> omega
    have hquot : (nextOff - acked + cs - 1) / cs ≤ w := by
      rw [← Int.lt_add_one_iff]
      refine Int.ediv_lt_of_lt_mul hcs ?_
      rw [add_mul]
      omega
    have hnonneg : 0 ≤ (nextOff - acked + cs - 1) / cs := Int.ediv_nonneg (by omega) hcs.le
    refine ⟨⟨by omega, by omega⟩, ⟨by omega, by omega⟩, ⟨by omega, by omega⟩, ?_⟩
    exact Int32.toInt_ofInt_of_le (by omega) (by omega)

/-- An addition stays below the size and a chunk. -/
theorem addsInRange_of_le (hcs : e.info.size + e.chunkSize.toInt ≤ 2 ^ 63) {s : SendState}
    (h : Run (sendStep e) (SendState.start e) s) : s.pc.AddsInRange e := by
  have htiled := tiled_reachable h
  have hpos := e.chunkSize_pos
  rw [SendState.Tiled] at htiled
  generalize s.pc = pc at htiled ⊢
  cases pc with
  | read acked nextOff =>
    obtain ⟨a, hwin, hlt, -⟩ := htiled
    have hnonneg := hwin.nonneg
    have hle := hwin.le_acked
    have hle' := hwin.acked_le
    exact ⟨by omega, by omega⟩
  | chunk acked nextOff data =>
    obtain ⟨a, hwin, hlt, -, hdata⟩ := htiled
    have hnonneg := hwin.nonneg
    have hle := hwin.le_acked
    have hle' := hwin.acked_le
    have hlen : (data.length : ℤ) = min e.chunkSize.toInt (e.info.size - nextOff) := by
      rw [hdata, Store.length_read, e.chunkLength_eq hlt]
    exact ⟨by omega, by omega⟩
  | _ => trivial

/-- A receiver that has all but the last byte makes the sender add a whole chunk to the last offset. -/
theorem exists_read_last (hname : e.info.name.length ≤ 0xffff) (hpos : 0 < e.info.size)
    (hsize : e.info.size < 2 ^ 63) :
    ∃ s, Run (sendStep e) (SendState.start e) s ∧
      s.pc = .read (e.info.size - 1) (e.info.size - 1) := by
  obtain ⟨offer, henc⟩ := exists_encodeOffer hpos.le hname
  have hstart : SendState.start e = { pc := .offer offer } := by
    rw [SendState.start, henc]
  have hfill : windowHead e (e.info.size - 1) (e.info.size - 1) =
      .read (e.info.size - 1) (e.info.size - 1) := by
    have hroom : countInFlight (e.info.size - 1) (e.info.size - 1) e.chunkSize < e.opts.window := by
      rw [countInFlight, if_pos le_rfl]
      exact e.opts.window_pos
    rw [windowHead, if_pos (by omega), fillHead, if_pos ⟨hroom, by omega⟩]
  have haccept : (onAccept e (encodeAccept e.info.id (e.info.size - 1))).pc =
      .read (e.info.size - 1) (e.info.size - 1) := by
    rw [onAccept_encodeAccept_pc (by omega) (by omega) hsize, hfill]
  have hout : (SendState.start e).pc.outgoing e = some offer := by
    rw [hstart]
    rfl
  have hrun := (Run.refl (SendState.start e)).snoc (sendStep_sent hout)
  have hwait : ({ SendState.start e with
      pc := (SendState.start e).pc.onSent e
      sent := (SendState.start e).sent ++ [offer] } : SendState).pc = .accept := by
    rw [hstart]
    rfl
  refine ⟨_, hrun.snoc (sendStep_received (by rw [hwait]; rfl)
    (encodeAccept e.info.id (e.info.size - 1))), ?_⟩
  dsimp only at hwait ⊢
  rw [hwait]
  exact haccept

/-- The additions of `send_once` are in range in every run if and only if the size and a chunk together
are; an offer that cannot be encoded is sent to nobody. -/
theorem addsInRange_iff (hnonneg : 0 ≤ e.info.size) (hsize : e.info.size < 2 ^ 63) :
    (∀ s, Run (sendStep e) (SendState.start e) s → s.pc.AddsInRange e) ↔
      (e.info.name.length ≤ 0xffff → e.info.size + e.chunkSize.toInt ≤ 2 ^ 63) := by
  have hcs31 : e.chunkSize.toInt < 2 ^ 31 := Int32.toInt_lt _
  constructor
  · intro hall hname
    by_cases hzero : e.info.size = 0
    · omega
    · obtain ⟨s, hrun, hpc⟩ := exists_read_last hname (by omega) hsize
      have hadds := hall s hrun
      rw [hpc] at hadds
      have hlt := hadds.2
      omega
  · intro hcond s hrun
    by_cases hname : e.info.name.length ≤ 0xffff
    · exact addsInRange_of_le (hcond hname) hrun
    · -- the attempt ends before its first call
      have htiled := tiled_reachable hrun
      have henc : ∀ offer, encodeOffer e.info ≠ .ok offer := by
        intro offer hok
        exact hname (encodeOffer_ok hok).2.1
      rw [SendState.Tiled] at htiled
      generalize s.pc = pc at htiled ⊢
      cases pc with
      | read acked nextOff =>
        obtain ⟨a, hwin, -⟩ := htiled
        obtain ⟨offer, _, hok, -⟩ := hwin.sent
        exact absurd hok (henc offer)
      | chunk acked nextOff data =>
        obtain ⟨a, hwin, -⟩ := htiled
        obtain ⟨offer, _, hok, -⟩ := hwin.sent
        exact absurd hok (henc offer)
      | _ => trivial

end Send

/-! ## `receive_once` -/

/-- The connection delivers no frame of more than `limit` bytes. -/
def Short (limit : ℕ) (_ : RecvState) (ev : RecvEv) : Prop :=
  ∀ msg, ev = .received (.ok msg) → msg.length ≤ limit

/-- The offer of `m` fits into a frame, and passes the tests of `receive_once`. -/
structure Passed (e : RecvEnv) (limit : ℕ) (m : Meta) : Prop where
  fits : kOfferFixedLen + m.name.length ≤ limit
  name_le : m.name.length ≤ 0xffff
  size_lt : m.size < 2 ^ 63
  id_eq : e.expectMeta = true → m.id = e.want.id
  accepted : ∀ f, e.opts.accept = some f → (f m).failed = false
  le_size : e.resumeOffset ≤ m.size

/-- There is something left to receive behind it, and the prefix can be hashed. -/
structure Admitted (e : RecvEnv) (limit : ℕ) (m : Meta) : Prop extends Passed e limit m where
  lt_size : e.resumeOffset < m.size
  readable : 0 < e.resumeOffset → e.readable = true

section Receive

variable {e : RecvEnv} {limit : ℕ} {m : Meta}

/-- What is known of the offer in front of each call. -/
def RecvPc.Within (e : RecvEnv) (limit : ℕ) : RecvPc → Prop
  | .accept m => Passed e limit m
  | .hashPrefix m _ _ => Admitted e limit m
  | .chunk m _ _ _ => Admitted e limit m
  | .write m _ _ _ _ _ => Admitted e limit m
  | .ack m _ _ => Admitted e limit m
  | .done m _ _ => Admitted e limit m
  | _ => True

theorem within_chunkHead (h : Admitted e limit m) (hw : HashingWriter) (written : ℤ) (since : ℕ) :
    (chunkHead m hw written since).Within e limit := by
  unfold chunkHead
  split
  · exact h
  · exact h

theorem within_hashPrefixHead (h : Admitted e limit m) (off : ℤ) (ctx : Bytes) :
    (hashPrefixHead e m off ctx).Within e limit := by
  unfold hashPrefixHead
  split
  · exact h
  · exact within_chunkHead h _ _ _

theorem within_hashAllHead (off : ℤ) (ctx : Bytes) : (hashAllHead e m off ctx).Within e limit := by
  unfold hashAllHead
  split <;> trivial

theorem within_afterAccept (h : Passed e limit m) : (afterAccept e m).Within e limit := by
  have hlt : ¬e.resumeOffset = m.size → e.resumeOffset < m.size := fun hne => lt_of_le_of_ne h.le_size hne
  unfold afterAccept
  split_ifs with hall hread hpos hread'
  · exact within_hashAllHead 0 []
  · trivial
  · exact within_hashPrefixHead ⟨h, hlt hall, fun _ => hread'⟩ 0 []
  · trivial
  · exact within_chunkHead ⟨h, hlt hall, fun hpos' => absurd hpos' hpos⟩ _ _ _

theorem within_onOffer {msg : Bytes} (hlen : msg.length ≤ limit) : (onOffer e msg).Within e limit := by
  have h := onOffer_outcome e msg
  generalize onOffer e msg = pc at h ⊢
  cases h with
  | failed => trivial
  | refused => trivial
  | taken dec hdec htyp hid hle haccept =>
    obtain ⟨hmsg, hname, hsize⟩ := (length_of_decodeFrame hdec).1 htyp
    exact ⟨by omega, hname, hsize, hid, haccept, hle⟩

theorem within_onDone (written : ℤ) (sum : Hash) (msg : Bytes) :
    (onDone m written sum msg).Within e limit := by
  have h := onDone_outcome m written sum msg
  generalize onDone m written sum msg = pc at h ⊢
  cases h <;> trivial

theorem within_onChunk (h : Admitted e limit m) (hw : HashingWriter) (written : ℤ) (since : ℕ)
    (msg : Bytes) : (onChunk e m hw written since msg).Within e limit := by
  have hout := onChunk_outcome e m hw written since msg
  generalize onChunk e m hw written since msg = pc at hout ⊢
  cases hout with
  | writes => exact h
  | _ => trivial

theorem RecvPc.Within.step {s t : RecvState} {ev : RecvEv} (h : s.pc.Within e limit)
    (hshort : Short limit s ev) (hstep : recvStep e s ev = some t) : t.pc.Within e limit := by
  cases recvTrans_of_step hstep with
  | lost m written ec _ _ => trivial
  | message msg hwait =>
    show (s.pc.onMessage e msg).Within e limit
    generalize s.pc = pc at h hwait ⊢
    cases pc with
    | offer => exact within_onOffer (hshort msg rfl)
    | doneAll m sum => exact within_onDone _ _ _
    | chunk m hw written since => exact within_onChunk h hw written since msg
    | done m hw written => exact within_onDone _ _ _
    | _ => cases hwait
  | sendFailed msg ec hout _ =>
    show (s.pc.onSendFailed e ec).Within e limit
    generalize s.pc = pc at hout ⊢
    cases pc <;> cases hout <;> trivial
  | sent msg ec hout _ =>
    show (s.pc.onSent e).Within e limit
    generalize s.pc = pc at h hout ⊢
    cases pc with
    | accept m => exact within_afterAccept h
    | ack m hw written => exact within_chunkHead h _ _ _
    | reject m reason err out => trivial
    | abort m written err => trivial
    | reply m written ok sum theirs => trivial
    | _ => cases hout
  | hashAllFailed m off ctx ec _ _ => trivial
  | hashAll m off ctx block ec _ _ _ => exact within_hashAllHead _ _
  | hashPrefixFailed m off ctx ec _ _ => trivial
  | hashPrefix m off ctx block ec hpc _ _ =>
    rw [hpc] at h
    exact within_hashPrefixHead h _ _
  | writeFailed m hw written since off data ec junk _ _ => trivial
  | wrote m hw written since off data ec junk hpc _ =>
    rw [hpc] at h
    rw [RecvState.report_pc]
    unfold afterWrite
    split
    · exact h
    · exact within_chunkHead h _ _ _

/-- An addition stays below the size and the longest chunk. -/
theorem recvAddsInRange_of_le (hres : 0 ≤ e.resumeOffset)
    (hcond : ∀ m, Admitted e limit m → m.size + (limit - kChunkFixedLen : ℕ) ≤ 2 ^ 63) {store : Store}
    {s : RecvState} (h : GRun (recvStep e) (Short limit) (RecvState.start store) s) {msg : Bytes}
    (hlen : msg.length ≤ limit) : s.pc.AddsInRange msg := by
  have hwithin : s.pc.Within e limit := GRun.invariant
    (I := fun s : RecvState => s.pc.Within e limit) (fun _ _ _ hI hG hs => hI.step hG hs) h trivial
  have hsound := sound_reachable hres h.run
  unfold RecvState.Sound at hsound
  generalize s.pc = pc at hwithin hsound ⊢
  cases pc with
  | chunk m hw written since =>
    obtain ⟨-, hfol, hlt⟩ := hsound
    have hnonneg := hfol.covers.nonneg
    intro dec hdec htyp _ hoff
    have hmsg := (length_of_decodeFrame hdec).2 htyp
    have hle := hcond m hwithin
    rw [hoff]
    exact ⟨by omega, by omega⟩
  | _ => trivial

/-! ### A run up to the last byte -/

/-- Some run with short frames stands at `pc`. -/
def Gets (e : RecvEnv) (limit : ℕ) (store : Store) (pc : RecvPc) : Prop :=
  ∃ s, GRun (recvStep e) (Short limit) (RecvState.start store) s ∧ s.pc = pc

variable {store : Store} {pc : RecvPc}

theorem Gets.received (h : Gets e limit store pc) (hwait : (pc.waiting e).isSome = true) (msg : Bytes)
    (hlen : msg.length ≤ limit) : Gets e limit store (pc.onMessage e msg) := by
  obtain ⟨s, hrun, rfl⟩ := h
  refine ⟨_, hrun.snoc ?_ (recvStep_received hwait msg), rfl⟩
  intro msg' heq
  cases heq
  exact hlen

theorem Gets.sent (h : Gets e limit store pc) {msg : Bytes} (hout : pc.outgoing e = some msg) :
    Gets e limit store (pc.onSent e) := by
  obtain ⟨s, hrun, rfl⟩ := h
  exact ⟨_, hrun.snoc (fun _ heq => by cases heq) (recvStep_sent hout), rfl⟩

theorem Gets.wrote {hw : HashingWriter} {written off : ℤ} {since : ℕ} {data : Bytes}
    (h : Gets e limit store (.write m hw written since off data)) :
    Gets e limit store (afterWrite e m ⟨hw.offset + data.length, hw.ctx ++ data⟩ (off + data.length)
      (since + 1)) := by
  obtain ⟨s, hrun, hpc⟩ := h
  exact ⟨_, hrun.snoc (fun _ heq => by cases heq) (recvStep_wrote hpc fun _ => 0),
    RecvState.wrote_success_pc⟩

/-- The prefix is hashed block by block. -/
theorem Gets.hashPrefix {off : ℤ} {ctx : Bytes} (h : Gets e limit store (hashPrefixHead e m off ctx)) :
    ∃ ctx', Gets e limit store (chunkHead m ⟨e.resumeOffset, ctx'⟩ e.resumeOffset 0) := by
  generalize hn : (e.resumeOffset - off).toNat = n
  induction n using Nat.strong_induction_on generalizing off ctx with
  | _ n ih =>
    by_cases hlt : off < e.resumeOffset
    · rw [hashPrefixHead, if_pos hlt] at h
      obtain ⟨s, hrun, hpc⟩ := h
      have hpos := blockLength_pos hlt
      exact ih _ (by omega)
        ⟨_, hrun.snoc (fun _ heq => by cases heq) (recvStep_hashPrefix hpc), rfl⟩ rfl
    · rw [hashPrefixHead, if_neg hlt] at h
      exact ⟨ctx, h⟩

/-- A chunk of one byte that is not the last one. -/
theorem Gets.chunk {hw : HashingWriter} {written : ℤ} {since : ℕ} (hsize : m.size < 2 ^ 63)
    (hnonneg : 0 ≤ written) (hlt : written + 1 < m.size) (hoff : hw.offset = written)
    (hlimit : kChunkFixedLen < limit) (h : Gets e limit store (.chunk m hw written since)) :
    ∃ hw' since', hw'.offset = written + 1 ∧
      Gets e limit store (.chunk m hw' (written + 1) since') := by
  have hdec := decodeFrame_encodeChunk m.id (v := written) (by omega) (by omega) [0]
  have hchunk : onChunk e m hw written since (encodeChunk m.id written [0]) =
      .write m hw written since written [0] := by
    simp only [onChunk, onChunkWith, hdec, if_true]
    rw [if_neg, if_neg (not_not.mpr hoff.symm)]
    simp only [ne_eq, not_true_eq_false, false_or, List.length_singleton]
    omega
  have hwrite : Gets e limit store (.write m hw written since written [0]) := by
    have hnext := h.received rfl (encodeChunk m.id written [0])
      (by rw [length_encodeChunk, List.length_singleton]; omega)
    rwa [RecvPc.onMessage, hchunk] at hnext
  have hafter := hwrite.wrote
  have hoff' : hw.offset + (([0] : Bytes).length : ℤ) = written + 1 := by
    rw [hoff]
    rfl
  have hhead : ∀ (hw' : HashingWriter) (since' : ℕ),
      chunkHead m hw' (written + 1) since' = .chunk m hw' (written + 1) since' :=
    fun hw' since' => if_pos hlt
  rw [afterWrite] at hafter
  split at hafter
  · have hacked := hafter.sent rfl
    refine ⟨⟨hw.offset + ([0] : Bytes).length, hw.ctx ++ [0]⟩, 0, hoff', ?_⟩
    rw [← hhead]
    exact hacked
  · refine ⟨⟨hw.offset + ([0] : Bytes).length, hw.ctx ++ [0]⟩, since + 1, hoff', ?_⟩
    rw [← hhead]
    exact hafter

/-- Chunks of one byte lead to any offset before the end. -/
theorem Gets.chunks {hw : HashingWriter} {written : ℤ} {since : ℕ} (hsize : m.size < 2 ^ 63)
    (hnonneg : 0 ≤ written) (hoff : hw.offset = written) (hlimit : kChunkFixedLen < limit) (n : ℕ)
    (hlt : written + n < m.size) (h : Gets e limit store (.chunk m hw written since)) :
    ∃ hw' since', Gets e limit store (.chunk m hw' (written + n) since') := by
  induction n generalizing hw written since with
  | zero => exact ⟨hw, since, by simpa using h⟩
  | succ n ih =>
    obtain ⟨hw', since', hoff', hnext⟩ := h.chunk hsize hnonneg (by omega) hoff hlimit
    obtain ⟨hw'', since'', hgets⟩ := ih (by omega) hoff' (by omega) hnext
    refine ⟨hw'', since'', ?_⟩
    have hsum : written + 1 + (n : ℤ) = written + ((n + 1 : ℕ) : ℤ) := by push_cast; ring
    rwa [hsum] at hgets

/-- An admitted offer can be received up to its last byte. -/
theorem Gets.last (store : Store) (hres : 0 ≤ e.resumeOffset) (h : Admitted e limit m) :
    ∃ hw since, Gets e limit store (.chunk m hw (m.size - 1) since) := by
  have hlt := h.lt_size
  have hle := h.le_size
  have hfits := h.fits
  obtain ⟨offer, henc⟩ := exists_encodeOffer (hres.trans hle) h.name_le
  have hdec := decodeFrame_encodeOffer h.size_lt henc
  have hoffer : Gets e limit store (.accept m) := by
    have hstart : Gets e limit store .offer := ⟨_, .refl _, rfl⟩
    have hlen : offer.length ≤ limit := by
      rw [((length_of_decodeFrame hdec).1 rfl).1]
      exact hfits
    have hnext := hstart.received rfl offer hlen
    have haccept : onOffer e offer = .accept m :=
      onOffer_eq_accept hdec rfl h.id_eq h.le_size h.accepted
    rwa [RecvPc.onMessage, haccept] at hnext
  have hloop : ∃ ctx, Gets e limit store (chunkHead m ⟨e.resumeOffset, ctx⟩ e.resumeOffset 0) := by
    have haccepted : Gets e limit store (afterAccept e m) := hoffer.sent rfl
    rw [afterAccept_of_lt hlt h.readable] at haccepted
    exact haccepted.hashPrefix
  obtain ⟨ctx, hchunk⟩ := hloop
  rw [chunkHead, if_pos hlt] at hchunk
  have hlimit : kChunkFixedLen < limit := by
    simp only [kOfferFixedLen, kChunkFixedLen, kHeaderLen, kIdLen] at hfits ⊢
    omega
  have hlast : e.resumeOffset + ((m.size - 1 - e.resumeOffset).toNat : ℤ) = m.size - 1 := by omega
  obtain ⟨hw, since, hgets⟩ := hchunk.chunks h.size_lt hres rfl hlimit
    (m.size - 1 - e.resumeOffset).toNat (by omega)
  rw [hlast] at hgets
  exact ⟨hw, since, hgets⟩

/-- The addition of `receive_once` is in range in every run over frames of at most `limit` bytes if and
only if it is for a chunk of that length at the end of every offer that the attempt admits. -/
theorem recvAddsInRange_iff (hres : 0 ≤ e.resumeOffset) (store : Store) :
    (∀ s msg, GRun (recvStep e) (Short limit) (RecvState.start store) s → msg.length ≤ limit →
      s.pc.AddsInRange msg) ↔
      ∀ m, Admitted e limit m → m.size + (limit - kChunkFixedLen : ℕ) ≤ 2 ^ 63 := by
  constructor
  · intro hall m hm
    obtain ⟨hw, since, s, hrun, hpc⟩ := Gets.last store hres hm
    have hlt := hm.lt_size
    have hsize := hm.size_lt
    have hfits := hm.fits
    let data : Bytes := List.replicate (limit - kChunkFixedLen) 0
    have hdata : data.length = limit - kChunkFixedLen := List.length_replicate
    have hlen : (encodeChunk m.id (m.size - 1) data).length ≤ limit := by
      rw [length_encodeChunk, hdata]
      simp only [kOfferFixedLen, kChunkFixedLen, kHeaderLen, kIdLen] at hfits ⊢
      omega
    have hadds := hall s _ hrun hlen
    rw [hpc] at hadds
    have hdec := decodeFrame_encodeChunk m.id (v := m.size - 1) (by omega) (by omega) data
    have hrange := (hadds _ hdec rfl rfl rfl).2
    simp only [hdata] at hrange
    omega
  · intro hcond s msg hrun hlen
    exact recvAddsInRange_of_le hres hcond hrun hlen

end Receive

/-! ## Both sides -/

/-- **Which transfers keep their additions in range.** The additions of `send_once` do in every run if and
only if the size and a chunk together stay within `2 ^ 63`, unless the offer cannot be encoded. The
addition of `receive_once` does in every run over frames of at most `limit` bytes if and only if the size
of each offer that it admits and the longest chunk together stay within `2 ^ 63`. The count of chunks in
flight is exact wherever it is computed. -/
theorem additions_in_range_iff (es : SendEnv) (hnonneg : 0 ≤ es.info.size)
    (hsize : es.info.size < 2 ^ 63) (er : RecvEnv) (hres : 0 ≤ er.resumeOffset) (limit : ℕ)
    (store : Store) :
    ((∀ s, Run (sendStep es) (SendState.start es) s → s.pc.AddsInRange es) ↔
      (es.info.name.length ≤ 0xffff → es.info.size + es.chunkSize.toInt ≤ 2 ^ 63)) ∧
      (∀ s acked nextOff, Run (sendStep es) (SendState.start es) s →
        s.pc.offsets = some (acked, nextOff) → CountsExactly acked nextOff es.chunkSize) ∧
      ((∀ s msg, GRun (recvStep er) (Short limit) (RecvState.start store) s → msg.length ≤ limit →
        s.pc.AddsInRange msg) ↔
        ∀ m, Admitted er limit m → m.size + (limit - kChunkFixedLen : ℕ) ≤ 2 ^ 63) := by
  refine ⟨addsInRange_iff hnonneg hsize, ?_, recvAddsInRange_iff hres store⟩
  intro s acked nextOff hrun hoff
  obtain ⟨a, hwin⟩ := windowed_reachable hrun hoff
  exact countsExactly_of_window hwin.in_window

/-- A receiver that takes no offer above `2 ^ 62` bytes. -/
def cautiousRecvEnv : RecvEnv :=
  { sampleRecvEnv with
    opts := normalize (some { defaultOptions with
      accept := some fun m => if m.size ≤ 2 ^ 62 then .success else Errc.rejected.code }) }

/-- A small transfer keeps its additions in range, on both sides. -/
theorem abc_additions_in_range :
    (∃ s, Run (sendStep (sampleSendEnv narrowOptions)) (SendState.start (sampleSendEnv narrowOptions)) s ∧
      s.pc = .ack 0 1 ∧ s.pc.AddsInRange (sampleSendEnv narrowOptions) ∧
      CountsExactly 0 1 (sampleSendEnv narrowOptions).chunkSize) ∧
      ∃ s, GRun (recvStep cautiousRecvEnv) (Short (2 ^ 20)) (RecvState.start fun _ => 0) s ∧
        s.pc = .chunk sampleMeta ⟨0, []⟩ 0 0 ∧
        s.pc.AddsInRange (encodeChunk sampleMeta.id 0 sampleContent) := by
  obtain ⟨hadds, hcounts, hrecv⟩ := additions_in_range_iff (sampleSendEnv narrowOptions) (by decide)
    (by decide) cautiousRecvEnv le_rfl (2 ^ 20) fun _ => 0
  constructor
  · obtain ⟨s, hrun, hpc⟩ :
        ∃ s, Run (sendStep (sampleSendEnv narrowOptions))
          (SendState.start (sampleSendEnv narrowOptions)) s ∧ s.pc = .ack 0 1 :=
      exists_run_of_exec firstChunkTrace ⟨_, rfl, rfl⟩
    exact ⟨s, hrun, hpc, hadds.mpr (fun _ => by decide) s hrun, hcounts s 0 1 hrun (by rw [hpc]; rfl)⟩
  · obtain ⟨s, hrun, hpc⟩ : Gets cautiousRecvEnv (2 ^ 20) (fun _ => 0) (.chunk sampleMeta ⟨0, []⟩ 0 0) := by
      have hstart : Gets cautiousRecvEnv (2 ^ 20) (fun _ => 0) .offer := ⟨_, .refl _, rfl⟩
      have haccept : Gets cautiousRecvEnv (2 ^ 20) (fun _ => 0) (.accept sampleMeta) :=
        hstart.received rfl (frame kTypeOffer sampleMeta.id (offerBody 3 sampleDigest [])) (by decide)
      exact haccept.sent rfl
    have hsmall : ∀ m, Admitted cautiousRecvEnv (2 ^ 20) m →
        m.size + (2 ^ 20 - kChunkFixedLen : ℕ) ≤ 2 ^ 63 := by
      intro m hm
      have hsize : m.size ≤ 2 ^ 62 := by
        by_contra hbig
        have hok := hm.accepted _ rfl
        rw [if_neg hbig] at hok
        cases hok
      have hlen : 2 ^ 20 - kChunkFixedLen ≤ 2 ^ 20 := Nat.sub_le _ _
      omega
    refine ⟨s, hrun, hpc, hrecv.mpr hsmall s _ hrun ?_⟩
    rw [length_encodeChunk]
    decide

/-- A sender of as many bytes as an offset can count. -/
def wholeRangeEnv : SendEnv where
  opts := normalize none
  maxMessageBytes := defaultConfig.maxMessageBytes
  info := { sampleMeta with size := 2 ^ 63 - 1 }
  source := fun _ => 0

/-- A receiver that has all but the last byte: the sender adds `262144` to `2 ^ 63 - 2`. -/
theorem last_offset_overflows :
    ∃ s, Run (sendStep wholeRangeEnv) (SendState.start wholeRangeEnv) s ∧
      s.pc = .read (2 ^ 63 - 2) (2 ^ 63 - 2) ∧ wholeRangeEnv.chunkSize = 262144 ∧
      ¬s.pc.AddsInRange wholeRangeEnv := by
  obtain ⟨s, hrun, hpc⟩ := exists_read_last (e := wholeRangeEnv) (by decide) (by decide) (by decide)
  have hlast : s.pc = .read (2 ^ 63 - 2) (2 ^ 63 - 2) := hpc
  refine ⟨s, hrun, hlast, by decide, fun hadds => ?_⟩
  rw [hlast] at hadds
  exact absurd hadds.2 (by decide)

end TcpDuplex.Transfer
