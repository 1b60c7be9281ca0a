import TcpDuplex.Conn.Limits
import TcpDuplex.Transfer.Deadlock
import TcpDuplex.Transfer.Mirror
import TcpDuplex.Transfer.Range

/-!
# Frames and the limit of the connection

A transfer frame is the payload of one message, and `send_for` refuses a message that is longer than
`max_message_bytes`. `effective_chunk_size` cuts the chunks to that limit. The other frames are as long as
they are: the Offer carries the name, Reject and Abort carry a text.

`needs` is what a frame asks of the limit; a limit of 63 bytes and the name is enough for all that
`send_once` sends, and one below 30 bytes lets no chunk through.
-/

namespace TcpDuplex.Transfer

open Machine

variable {e : SendEnv} {s : SendState} {msg : Bytes}

/-- The least limit that lets the next frame of `send_once` through. -/
def SendPc.needs (e : SendEnv) : SendPc → ℤ
  | .offer _ => 63 + e.info.name.length
  | .chunk _ _ _ => 30
  | .done => 54
  | _ => 0

/-- The least limit that lets the next frame of `receive_once` through. -/
def RecvPc.needs (e : RecvEnv) : RecvPc → ℤ
  | .reject _ reason _ _ => 23 + min reason.length 0xffff
  | .accept _ => 29
  | .abort _ _ err => 23 + min (reasonBytes (err.message e.ext)).length 0xffff
  | .ack _ _ _ => 29
  | .reply _ _ _ _ _ => 54
  | _ => 0

/-! ## The lengths of the frames -/

theorem length_encodeOffer {m : Meta} (h : encodeOffer m = .ok msg) :
    msg.length = 63 + m.name.length ∧ m.name.length ≤ 0xffff := by
  unfold encodeOffer at h
  split at h
  · cases h
  · split at h
    · cases h
    · rename_i hname
      obtain rfl := Except.ok.inj h
      refine ⟨?_, not_lt.mp hname⟩
      rw [length_frame]
      simp only [List.length_append, putBe64, putBe16, Bytes.length_putBeInt, Bytes.length_putBe, m.hash.2]
      omega

theorem length_encodeDone (id : ID) (ok : Bool) (hash : Hash) : (encodeDone id ok hash).length = 54 := by
  rw [encodeDone, length_frame, List.length_append, hash.2]
  rfl

theorem length_encodeReason (reason : Bytes) : (encodeReason reason).length = 2 + min reason.length 0xffff := by
  rw [encodeReason, List.length_append, putBe16, Bytes.length_putBe, List.length_take, min_comm]

/-- A size below `2 ^ 31` is checked as it is. -/
theorem sizeOk_iff_le {cfg : FrozenConfig} {n : ℕ} (hn : (n : ℤ) < 2 ^ 31) :
    Conn.sizeOk cfg n = true ↔ (n : ℤ) ≤ cfg.maxMessageBytes.toInt := by
  rw [Conn.sizeOk_iff, Int.bmod_eq_of_le (by omega) (by omega)]

/-! ## Chunks -/

/-- A chunk is no larger than the limit allows, and one byte large where it allows none. -/
theorem chunkSize_le (e : SendEnv) (hpos : 0 < e.maxMessageBytes.toInt) :
    e.chunkSize.toInt ≤ max 1 (e.maxMessageBytes.toInt - 29) := by
  have hlt : e.maxMessageBytes.toInt < 2 ^ 31 := Int32.toInt_lt _
  have hfixed : (Int32.ofNat kChunkFixedLen).toInt = 29 := rfl
  have hsub : (e.maxMessageBytes - Int32.ofNat kChunkFixedLen).toInt = e.maxMessageBytes.toInt - 29 := by
    rw [Int32.toInt_sub, hfixed, Int.bmod_eq_of_le (by omega) (by omega)]
  -- the limit behind the clamp
  have hclamp : (if e.maxMessageBytes - Int32.ofNat kChunkFixedLen < 1 then (1 : Int32)
      else e.maxMessageBytes - Int32.ofNat kChunkFixedLen).toInt ≤ max 1 (e.maxMessageBytes.toInt - 29) := by
    split
    · exact le_max_left _ _
    · rw [hsub]
      exact le_max_right _ _
  have hchoose : ∀ m want : Int32, (if want ≤ 0 ∨ want > m then m else want).toInt ≤ m.toInt := by
    intro m want
    split
    · exact le_rfl
    · rename_i hwant
      exact Int32.le_iff_toInt_le.mp (Int32.not_lt.mp (not_or.mp hwant).2)
  exact (hchoose _ _).trans hclamp

/-- A chunk frame fits if and only if the limit leaves room for one byte of data. -/
theorem chunk_fits_iff {cfg : FrozenConfig} (hmax : e.maxMessageBytes = cfg.maxMessageBytes) {off : ℤ}
    (hoff : off < e.info.size) :
    Conn.sizeOk cfg (e.chunkAt off).length = true ↔ 30 ≤ cfg.maxMessageBytes.toInt := by
  have hpos : 0 < cfg.maxMessageBytes.toInt := Int32.lt_iff_toInt_lt.mp cfg.maxMessageBytes_pos
  have hlt : cfg.maxMessageBytes.toInt < 2 ^ 31 := Int32.toInt_lt _
  have hsize := chunkSize_le e (hmax ▸ hpos)
  rw [hmax] at hsize
  have hchunk := e.chunkLength_eq hoff
  have hone : 0 < e.chunkSize.toInt := e.chunkSize_pos
  have hlen : ((e.chunkAt off).length : ℤ) = 29 + e.chunkLength off := by
    rw [SendEnv.chunkAt, length_encodeChunk, Store.length_read]
    rfl
  rw [sizeOk_iff_le (by omega), hlen]
  omega

/-! ## The frames of a run -/

theorem inRange_of_run (h : Run (sendStep e) (SendState.start e) s) : s.pc.InRange e :=
  Run.invariant (I := fun s => s.pc.InRange e) (fun _ _ _ hs hstep => hs.step hstep) h (inRange_start e)

/-- Whatever the peer answers: in every state of `send_once` that is about to send, the connection's size
check lets the frame through if and only if the limit is at least what the frame needs, and where the limit
is one that records can carry, the frame is sealed, written and read back too. A limit of 63 bytes and the
name is enough for every frame of the transfer, however large the file and the chunk size of the options. -/
theorem sender_frame_fits_iff (cfg : FrozenConfig) (e : SendEnv)
    (hmax : e.maxMessageBytes = cfg.maxMessageBytes) (s : SendState)
    (h : Run (sendStep e) (SendState.start e) s) (msg : Bytes)
    (hmsg : s.pc.outgoing e = some msg) :
    (Conn.sizeOk cfg msg.length = true ↔ s.pc.needs e ≤ cfg.maxMessageBytes.toInt) ∧
      (63 + e.info.name.length ≤ cfg.maxMessageBytes.toInt → Conn.sizeOk cfg msg.length = true) ∧
      (cfg.maxMessageBytes.toInt ≤ Conn.maxPlaintext → s.pc.needs e ≤ cfg.maxMessageBytes.toInt →
        Conn.Transmittable cfg msg) := by
  have hrange := inRange_of_run h
  have hiff : (Conn.sizeOk cfg msg.length = true ↔ s.pc.needs e ≤ cfg.maxMessageBytes.toInt) ∧
      (msg.length : ℤ) < 2 ^ 31 ∧ s.pc.needs e ≤ 63 + e.info.name.length := by
    generalize s.pc = pc at hrange hmsg
    cases pc with
    | offer m =>
      obtain rfl := Option.some.inj hmsg
      obtain ⟨hlen, hname⟩ := length_encodeOffer hrange
      refine ⟨?_, by omega, le_rfl⟩
      rw [sizeOk_iff_le (by omega), hlen, SendPc.needs]
      norm_cast
    | chunk acked nextOff data =>
      obtain ⟨-, hlt, rfl⟩ := hrange
      obtain rfl := Option.some.inj hmsg
      have hpos : 0 < cfg.maxMessageBytes.toInt := Int32.lt_iff_toInt_lt.mp cfg.maxMessageBytes_pos
      have hcap : cfg.maxMessageBytes.toInt < 2 ^ 31 := Int32.toInt_lt _
      have hsize := chunkSize_le e (hmax ▸ hpos)
      rw [hmax] at hsize
      have hchunk := e.chunkLength_eq hlt
      refine ⟨chunk_fits_iff hmax hlt, ?_, ?_⟩
      · rw [length_encodeChunk, Store.length_read, show kChunkFixedLen = 29 from rfl]
        push_cast
        omega
      · simp only [SendPc.needs]
        omega
    | done =>
      obtain rfl := Option.some.inj hmsg
      have hlen := length_encodeDone e.info.id true e.info.hash
      refine ⟨?_, by omega, ?_⟩
      · rw [sizeOk_iff_le (by omega), hlen]
        rfl
      · simp only [SendPc.needs]
        omega
    | _ => cases hmsg
  obtain ⟨hfits, hsmall, hneeds⟩ := hiff
  refine ⟨hfits, fun hroom => hfits.mpr (hneeds.trans hroom), fun hcarry hroom => ?_⟩
  have hok := hfits.mpr hroom
  refine Conn.transmittable_iff.mpr ⟨?_, hok⟩
  rw [Conn.plaintextOk_iff_le_max]
  have hle := (sizeOk_iff_le hsmall).mp hok
  omega

/-- `abc` under a limit that has room for the Offer and no more. -/
def tightEnv : SendEnv := { sampleSendEnv (normalize none) with maxMessageBytes := 64 }

def tightConfig : FrozenConfig :=
  { freezeConfig none with maxMessageBytes := 64, maxMessageBytes_pos := by decide }

theorem tight_chunk_fits : ∃ s data, Run (sendStep tightEnv) (SendState.start tightEnv) s ∧
    s.pc = .chunk 0 0 data ∧ data.length = 3 ∧
      Conn.sizeOk tightConfig (encodeChunk tightEnv.info.id 0 data).length = true := by
  obtain ⟨s, hs, hpc⟩ : ∃ s, exec (sendStep tightEnv) (SendState.start tightEnv)
      [.sent .success, .received (.ok (encodeAccept tightEnv.info.id 0)), .read .success] = some s ∧
        s.pc = .chunk 0 0 (tightEnv.source.read 0 3) := ⟨_, rfl, rfl⟩
  have hrun : Run (sendStep tightEnv) (SendState.start tightEnv) s := run_of_exec hs
  refine ⟨s, _, hrun, hpc, rfl, ?_⟩
  have hiff := (sender_frame_fits_iff tightConfig tightEnv rfl s hrun _ (by rw [hpc]; rfl)).1
  rw [hpc] at hiff
  exact hiff.mpr (by decide)

/-! ## The frames of the receiver -/

/-- The same for `receive_once`. -/
theorem receiver_frame_fits_iff {cfg : FrozenConfig} {er : RecvEnv} {pc : RecvPc}
    (hmsg : pc.outgoing er = some msg) :
    Conn.sizeOk cfg msg.length = true ↔ pc.needs er ≤ cfg.maxMessageBytes.toInt := by
  have hlen : (msg.length : ℤ) = pc.needs er := by
    cases pc with
    | reject m reason err out =>
      obtain rfl := Option.some.inj hmsg
      rw [encodeReject, length_frame, length_encodeReason, RecvPc.needs]
      push_cast
      omega
    | accept m =>
      obtain rfl := Option.some.inj hmsg
      rw [encodeAccept, length_frame, putBe64, Bytes.length_putBeInt]
      rfl
    | abort m written err =>
      obtain rfl := Option.some.inj hmsg
      rw [encodeAbort, length_frame, length_encodeReason, RecvPc.needs]
      push_cast
      omega
    | ack m hw written =>
      obtain rfl := Option.some.inj hmsg
      rw [encodeAck, length_frame, putBe64, Bytes.length_putBeInt]
      rfl
    | reply m written ok sum theirs =>
      obtain rfl := Option.some.inj hmsg
      rw [length_encodeDone]
      rfl
    | _ => cases hmsg
  have hsmall : pc.needs er < 2 ^ 31 := by
    cases pc <;> simp only [RecvPc.needs] <;> omega
  rw [sizeOk_iff_le (by omega), hlen]

end TcpDuplex.Transfer
