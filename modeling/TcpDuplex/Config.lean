import TcpDuplex.Errors

/-!
# Configuration (`config.hpp`, `config.cpp`)

The fields a running `Conn` reads. The dial and handshake timeouts, the protocol version and the
handshake secrets are used only before a `Conn` exists and are left out. `int` fields are `Int32`;
`on_message` is kept as the fact that a callback is set.
-/

namespace TcpDuplex

/-- `Config`, as the application fills it in. -/
structure Config where
  maxMessageBytes : Int32
  sendQueueDepth : Int32
  receiveQueueDepth : Int32
  onMessage : Bool
  onMessageBufferDepth : Int32
  disconnectOnSlowCallbackConsumer : Bool
  deriving DecidableEq, Repr

/-- `default_config()`. -/
def defaultConfig : Config where
  maxMessageBytes := (512 : Int32) <<< (10 : Int32)
  sendQueueDepth := 256
  receiveQueueDepth := 256
  onMessage := false
  onMessageBufferDepth := 128
  disconnectOnSlowCallbackConsumer := false

/-- The checks of `freeze_config` leave every limit positive; the buffer depth only matters, and is
only replaced, when a callback is set. -/
structure FrozenConfig extends Config where
  maxMessageBytes_pos : 0 < maxMessageBytes
  sendQueueDepth_pos : 0 < sendQueueDepth
  receiveQueueDepth_pos : 0 < receiveQueueDepth
  onMessageBufferDepth_pos : onMessage = true → 0 < onMessageBufferDepth

/-- `v <= 0 ? d : v`, the replacement rule of `freeze_config`. -/
def orDefault (d v : Int32) : Int32 := if v ≤ 0 then d else v

theorem orDefault_pos {d : Int32} (hd : 0 < d) (v : Int32) : 0 < orDefault d v := by
  unfold orDefault
  split
  · exact hd
  · rename_i h
    exact Int32.not_le.mp h

/-- `freeze_config(cfg)`; a null pointer means the defaults. -/
def freezeConfig (cfg : Option Config) : FrozenConfig :=
  let d := defaultConfig
  let src := cfg.getD d
  { maxMessageBytes := orDefault d.maxMessageBytes src.maxMessageBytes
    sendQueueDepth := orDefault d.sendQueueDepth src.sendQueueDepth
    receiveQueueDepth := orDefault d.receiveQueueDepth src.receiveQueueDepth
    onMessage := src.onMessage
    onMessageBufferDepth :=
      if src.onMessage then orDefault d.onMessageBufferDepth src.onMessageBufferDepth
      else src.onMessageBufferDepth
    disconnectOnSlowCallbackConsumer := src.disconnectOnSlowCallbackConsumer
    maxMessageBytes_pos := orDefault_pos (by decide) _
    sendQueueDepth_pos := orDefault_pos (by decide) _
    receiveQueueDepth_pos := orDefault_pos (by decide) _
    onMessageBufferDepth_pos := by
      intro h
      rw [if_pos h]
      exact orDefault_pos (by decide) _ }

/-- `static_cast<int>(n)` for a `std::size_t`: the low 32 bits, read as a signed number. -/
def castInt (n : ℕ) : Int32 := Int32.ofNat n

theorem castInt_toInt (n : ℕ) : (castInt n).toInt = (n : ℤ).bmod (2 ^ 32) :=
  Int32.toInt_ofNat'

/-- Below `2 ^ 31` the cast is exact. -/
theorem castInt_toInt_of_lt {n : ℕ} (h : n < 2 ^ 31) : (castInt n).toInt = n :=
  Int32.toInt_ofNat_of_lt h

/-- A size that an `int` bound can hold compares with it exactly. -/
theorem castInt_lt_iff {n : ℕ} {d : Int32} (h : (n : ℤ) ≤ d.toInt) :
    castInt n < d ↔ (n : ℤ) < d.toInt := by
  have hd : d.toInt < 2 ^ 31 := Int32.toInt_lt d
  rw [Int32.lt_iff_toInt_lt, castInt_toInt_of_lt (by omega)]

end TcpDuplex
