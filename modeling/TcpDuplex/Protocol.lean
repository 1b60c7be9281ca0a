import TcpDuplex.Errors

/-!
# Records (`protocol.hpp`, `protocol.cpp`)

A record is a 4-byte big-endian length, a type byte and a sealed blob; the length counts the type
byte and the blob. `write_record` hands the three pieces to `write_all` one after the other and stops
at the first failure, so what the socket has taken at any moment is a prefix of `recordBytes`.

`read_record` is modelled on a byte stream that holds `stream` and then ends: the stream left over is
part of the result on every path.
-/

namespace TcpDuplex.Protocol

/-- `kMsgText`. -/
def kMsgText : UInt8 := 1
/-- `kMsgPing`. -/
def kMsgPing : UInt8 := 2
/-- `kMsgPong`. -/
def kMsgPong : UInt8 := 3
/-- `kMsgClose`. -/
def kMsgClose : UInt8 := 4

/-- `kMaxRecordPayload`. -/
def kMaxRecordPayload : ℕ := 1 <<< 20

/-- `put_be32`. -/
def putBe32 (v : ℕ) : Bytes := Bytes.putBe 4 v

/-- `get_be32`. -/
def getBe32 (b : Bytes) : ℕ := Bytes.getBe b

/-! ## Reading -/

/-- `read_exact` for an `n`-byte buffer on a stream that ends after `stream`; running into the end is
the `recv() == 0` branch of `TcpSocket::read_exact`. -/
def readExact (n : ℕ) (stream : Bytes) : Except ErrorCode Bytes × Bytes :=
  if n ≤ stream.length then (.ok (stream.take n), stream.drop n)
  else (.error Errc.closed.code, [])

/-- The length check of `read_record`. -/
def lengthOk (n : ℕ) : Bool := !(n == 0 || decide (n > kMaxRecordPayload))

/-- `read_record`: the message type and the sealed blob, and what is left of the stream. -/
def readRecord (stream : Bytes) : Except ErrorCode (UInt8 × Bytes) × Bytes :=
  match readExact 4 stream with
  | (.error ec, rest) => (.error ec, rest)
  | (.ok lenBuf, rest) =>
    if lengthOk (getBe32 lenBuf) then
      match readExact (getBe32 lenBuf) rest with
      | (.error ec, rest') => (.error ec, rest')
      | (.ok payload, rest') => (.ok (payload.headD 0, payload.tail), rest')
    else (.error Errc.badFrame.code, rest)

/-! ## Writing -/

/-- The size check of `write_record`. -/
def sealedOk (n : ℕ) : Bool := !decide (n > kMaxRecordPayload - 1)

/-- The bytes of one record, in the order in which `write_record` hands them over. -/
def recordBytes (msgType : UInt8) (sealed : Bytes) : Bytes :=
  putBe32 (1 + sealed.length) ++ [msgType] ++ sealed

/-- `write_record`: the bytes it hands to `write_all`, or the refusal of an oversized blob. -/
def writeRecord (msgType : UInt8) (sealed : Bytes) : Except ErrorCode Bytes :=
  if sealedOk sealed.length then .ok (recordBytes msgType sealed) else .error Errc.badFrame.code

/-! ## Reading what was written -/

theorem readExact_append (a b : Bytes) : readExact a.length (a ++ b) = (.ok a, b) := by
  simp [readExact]

theorem length_recordBytes (t : UInt8) (sealed : Bytes) :
    (recordBytes t sealed).length = 5 + sealed.length := by
  simp only [recordBytes, putBe32, List.length_append, Bytes.length_putBe, List.length_singleton]

/-- A blob that `write_record` admits has a length field that `read_record` admits. -/
theorem lengthOk_of_sealedOk {n : ℕ} (h : sealedOk n = true) : lengthOk (1 + n) = true := by
  have hn : n ≤ 1048575 := by simpa [sealedOk, kMaxRecordPayload] using h
  simp [lengthOk, kMaxRecordPayload]
  omega

/-- The length field survives the trip through its four bytes. -/
theorem getBe32_putBe32 {n : ℕ} (h : n < 2 ^ 32) : getBe32 (putBe32 n) = n :=
  Bytes.getBe_putBe_of_lt (by omega)

/-- **One record, read back**: `read_record` returns what `write_record` wrote and leaves what
follows untouched. -/
theorem readRecord_recordBytes_append {sealed : Bytes} (t : UInt8) (more : Bytes)
    (h : sealedOk sealed.length = true) :
    readRecord (recordBytes t sealed ++ more) = (.ok (t, sealed), more) := by
  have hn : sealed.length ≤ 1048575 := by simpa [sealedOk, kMaxRecordPayload] using h
  have hlen : getBe32 (putBe32 (1 + sealed.length)) = 1 + sealed.length :=
    getBe32_putBe32 (by omega)
  have hhead : readExact 4 (recordBytes t sealed ++ more)
      = (.ok (putBe32 (1 + sealed.length)), t :: sealed ++ more) := by
    have := readExact_append (putBe32 (1 + sealed.length)) (t :: sealed ++ more)
    simpa [recordBytes, putBe32] using this
  have hbody : readExact (1 + sealed.length) (t :: sealed ++ more)
      = (.ok (t :: sealed), more) := by
    have := readExact_append (t :: sealed) more
    rwa [List.length_cons, Nat.add_comm] at this
  simp only [readRecord, hhead, hlen, lengthOk_of_sealedOk h, if_true, hbody, List.headD_cons,
    List.tail_cons]

theorem readExact_ok {n : ℕ} {stream b rest : Bytes} (h : readExact n stream = (.ok b, rest)) :
    stream = b ++ rest ∧ b.length = n := by
  unfold readExact at h
  split at h
  · rename_i hle
    simp only [Prod.mk.injEq, Except.ok.injEq] at h
    obtain ⟨rfl, rfl⟩ := h
    exact ⟨(List.take_append_drop n stream).symm, by rw [List.length_take]; omega⟩
  · simp at h

/-- Reading succeeds only on a stream that starts with the bytes of the record returned, and only
with a blob that `write_record` would admit. -/
theorem readRecord_ok {stream rest sealed : Bytes} {t : UInt8}
    (h : readRecord stream = (.ok (t, sealed), rest)) :
    stream = recordBytes t sealed ++ rest ∧ sealedOk sealed.length = true := by
  unfold readRecord at h
  split at h
  · simp at h
  · rename_i lenBuf rest₁ hhead
    obtain ⟨rfl, hlen⟩ := readExact_ok hhead
    split at h
    · rename_i hok
      split at h
      · simp at h
      · rename_i payload rest₂ hbody
        obtain ⟨rfl, hplen⟩ := readExact_ok hbody
        simp only [Prod.mk.injEq, Except.ok.injEq] at h
        obtain ⟨⟨rfl, rfl⟩, rfl⟩ := h
        have hn : 1 ≤ payload.length ∧ payload.length ≤ 1048576 := by
          rw [← hplen] at hok
          simpa [lengthOk, kMaxRecordPayload, Nat.one_le_iff_ne_zero] using hok
        -- the payload is not empty, so its first byte is a real type byte
        obtain ⟨x, xs, rfl⟩ := List.exists_cons_of_length_pos hn.1
        have hput : putBe32 (1 + xs.length) = lenBuf := by
          have hround := Bytes.putBe_getBe lenBuf
          rw [hlen] at hround
          rw [Nat.add_comm, ← List.length_cons, hplen]
          exact hround
        refine ⟨by simp [recordBytes, hput], ?_⟩
        simp only [List.length_cons] at hn
        simp [sealedOk, kMaxRecordPayload]
        omega
    · simp at h

end TcpDuplex.Protocol
