import TcpDuplex.Config
import TcpDuplex.Transfer.Codec

/-!
# Options of a transfer (`transfer.hpp`, `transfer.cpp`)

`normalize` replaces what is not positive, each field by itself. The two sides of a transfer choose
their options independently. `redial` and `on_progress` are kept as the fact that they are set; what
`redial` returns is an action of the environment.
-/

namespace TcpDuplex.Transfer

/-- `Options`. -/
structure Options where
  chunkSize : Int32
  window : Int32
  ackEvery : Int32
  maxAttempts : Int32
  redial : Bool
  onProgress : Bool
  accept : Option (Meta → ErrorCode)

/-- `default_options()`. -/
def defaultOptions : Options where
  chunkSize := (256 : Int32) <<< (10 : Int32)
  window := 32
  ackEvery := 8
  maxAttempts := 8
  redial := false
  onProgress := false
  accept := none

/-- What `normalize` guarantees. -/
structure NormalOptions extends Options where
  chunkSize_pos : 0 < chunkSize
  window_pos : 0 < window
  ackEvery_pos : 0 < ackEvery
  maxAttempts_pos : 0 < maxAttempts

/-- `normalize(opts)`; a null pointer means the defaults. -/
def normalize (opts : Option Options) : NormalOptions :=
  let d := defaultOptions
  let src := opts.getD d
  { src with
    chunkSize := orDefault d.chunkSize src.chunkSize
    window := orDefault d.window src.window
    ackEvery := orDefault d.ackEvery src.ackEvery
    maxAttempts := orDefault d.maxAttempts src.maxAttempts
    chunkSize_pos := orDefault_pos (by decide) _
    window_pos := orDefault_pos (by decide) _
    ackEvery_pos := orDefault_pos (by decide) _
    maxAttempts_pos := orDefault_pos (by decide) _ }

/-! ## Chunks and the window -/

/-- `effective_chunk_size(conn, want)`, on a connection with this `max_message_bytes()`. -/
def effectiveChunkSize (maxMessageBytes want : Int32) : Int32 :=
  let max := maxMessageBytes - Int32.ofNat kChunkFixedLen
  let max := if max < 1 then 1 else max
  if want ≤ 0 ∨ want > max then max else want

theorem effectiveChunkSize_pos (maxMessageBytes want : Int32) :
    0 < effectiveChunkSize maxMessageBytes want := by
  have hclamp : ∀ max : Int32, 0 < if max < 1 then 1 else max := by
    intro max
    split
    · decide
    · rename_i h
      exact Int32.lt_of_lt_of_le (by decide) (Int32.not_lt.mp h)
  have hchoose : ∀ max : Int32, 0 < max → 0 < if want ≤ 0 ∨ want > max then max else want := by
    intro max hmax
    split
    · exact hmax
    · rename_i h
      exact Int32.not_le.mp (not_or.mp h).1
  exact hchoose _ (hclamp _)

/-- `count_in_flight(acked, next_off, chunk_size)`: the quotient is narrowed to `int`. -/
def countInFlight (acked nextOff : ℤ) (chunkSize : Int32) : Int32 :=
  if nextOff ≤ acked then 0
  else Int32.ofInt ((nextOff - acked + chunkSize.toInt - 1) / chunkSize.toInt)

/-- Whole chunks are counted exactly. -/
theorem toInt_countInFlight {chunkSize : Int32} (hpos : 0 < chunkSize.toInt) (acked : ℤ) {k : ℕ}
    (hk : k < 2 ^ 31) :
    (countInFlight acked (acked + k * chunkSize.toInt) chunkSize).toInt = k := by
  unfold countInFlight
  split
  · rename_i hle
    have hzero : (k : ℤ) * chunkSize.toInt ≤ 0 := by omega
    have hk0 : (k : ℤ) ≤ 0 := nonpos_of_mul_nonpos_left hzero hpos
    obtain rfl : k = 0 := by omega
    rfl
  · have hquot : (acked + k * chunkSize.toInt - acked + chunkSize.toInt - 1) / chunkSize.toInt
        = k := by
      have hsum : acked + k * chunkSize.toInt - acked + chunkSize.toInt - 1
          = (chunkSize.toInt - 1) + k * chunkSize.toInt := by ring
      rw [hsum, Int.add_mul_ediv_right _ _ hpos.ne', Int.ediv_eq_zero_of_lt (by omega) (by omega),
        zero_add]
    rw [hquot]
    exact Int32.toInt_ofInt_of_le (by omega) (by omega)

/-! ## Errors between attempts -/

/-- `map_conn_err(err)`. -/
def mapConnErr (err : ErrorCode) : ErrorCode :=
  if !err.failed then .success
  else if err = TcpDuplex.Errc.closed.code then Errc.closed.code
  else err

/-- `is_retriable(err)`. -/
def isRetriable (err : ErrorCode) : Bool :=
  if !err.failed then false
  else if err = Errc.rejected.code || err = Errc.hashMismatch.code || err = Errc.sizeMismatch.code ||
      err = Errc.resumePastEnd.code || err = Errc.badFrame.code ||
      err = TcpDuplex.Errc.canceled.code || err = TcpDuplex.Errc.timedOut.code then false
  else true

/-- A connection error stays an error. -/
theorem failed_mapConnErr {err : ErrorCode} (h : err.failed = true) :
    (mapConnErr err).failed = true := by
  unfold mapConnErr
  simp only [h, Bool.not_true, Bool.false_eq_true, if_false]
  split
  · decide
  · exact h

/-- `std::size_t n = buf.size(); if (n > size - off) n = size - off`: the length of the next block of
the hashing loops, whose buffer holds 256 KiB. -/
def blockLength (off size : ℤ) : ℕ := (min ((256 <<< 10 : ℕ) : ℤ) (size - off)).toNat

theorem blockLength_pos {off size : ℤ} (h : off < size) : 0 < blockLength off size := by
  simp only [blockLength]
  omega

theorem blockLength_le {off size : ℤ} (h : off < size) : off + blockLength off size ≤ size := by
  simp only [blockLength]
  omega

end TcpDuplex.Transfer
