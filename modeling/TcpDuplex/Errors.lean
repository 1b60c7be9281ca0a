import TcpDuplex.Lib.Bytes

/-!
# Error codes (`errors.hpp`, `errors.cpp`, and the transfer category of `transfer.hpp`)

`std::error_code` is a pair of a value and a category. Its conversion to `bool` looks at the value
only, so a code with value `0` counts as success in *every* category: `ErrorCode.failed` keeps that,
and no function of this development tests an error code in another way.
-/

namespace TcpDuplex

/-- The error categories the library meets. `user` stands for the categories of sinks, sources and
`accept` callbacks that the application brings along. -/
inductive Category where
  | cpptcpduplex
  | transfer
  | generic
  | system
  | user (k : ℕ)
  deriving DecidableEq, Repr

/-- `std::error_code`. -/
structure ErrorCode where
  value : ℤ
  category : Category
  deriving DecidableEq, Repr

namespace ErrorCode

/-- `std::error_code{}`. -/
def success : ErrorCode := ⟨0, .system⟩

/-- `explicit operator bool`: the value is not zero, whatever the category. -/
def failed (ec : ErrorCode) : Bool := ec.value != 0

@[simp]
theorem failed_success : success.failed = false := rfl

end ErrorCode

/-! ## `cpptcpduplex::errc` -/

/-- `cpptcpduplex::errc`. -/
inductive Errc where
  | ok
  | closed
  | receiveDisabled
  | messageTooLarge
  | inboundDropped
  | slowConsumer
  | unsupportedProtocol
  | handshakeAuthentication
  | peerFingerprintMismatch
  | badHandshake
  | badFrame
  | canceled
  | timedOut
  | ioError
  | other
  deriving DecidableEq, Repr

namespace Errc

/-- The enumerators in declaration order, so that their positions are their values. -/
def all : List Errc :=
  [.ok, .closed, .receiveDisabled, .messageTooLarge, .inboundDropped, .slowConsumer,
    .unsupportedProtocol, .handshakeAuthentication, .peerFingerprintMismatch, .badHandshake,
    .badFrame, .canceled, .timedOut, .ioError, .other]

/-- `static_cast<int>(e)`. -/
def value (e : Errc) : ℤ := all.idxOf e

/-- `make_error_code(e)`. -/
def code (e : Errc) : ErrorCode := ⟨e.value, .cpptcpduplex⟩

/-- The text of one enumerator, `"error"` for `other` and for everything outside the table. -/
def text : Errc → String
  | .ok => "success"
  | .closed => "connection closed"
  | .receiveDisabled => "Receive unavailable while OnMessage is configured"
  | .messageTooLarge => "message exceeds MaxMessageBytes"
  | .inboundDropped => "inbound OnMessage buffer full"
  | .slowConsumer => "disconnected due to slow OnMessage consumer"
  | .unsupportedProtocol => "unsupported protocol version"
  | .handshakeAuthentication => "handshake authentication failed"
  | .peerFingerprintMismatch => "peer public key fingerprint mismatch"
  | .badHandshake => "invalid handshake"
  | .badFrame => "invalid frame"
  | .canceled => "operation canceled"
  | .timedOut => "operation timed out"
  | .ioError => "I/O error"
  | .other => "error"

/-- `error_category::message(ev)`. -/
def message (ev : ℤ) : String :=
  match all.find? fun e => e.value == ev with
  | some e => e.text
  | none => "error"

/-- Every enumerator but `ok` is a failure to its callers. -/
theorem failed_code (e : Errc) : e.code.failed = true ↔ e ≠ .ok := by
  cases e <;> decide

end Errc

/-! ## `cpptcpduplex::transfer::errc` -/

namespace Transfer

/-- `cpptcpduplex::transfer::errc`. -/
inductive Errc where
  | ok
  | badFrame
  | rejected
  | aborted
  | sizeMismatch
  | hashMismatch
  | resumePastEnd
  | closed
  | tooManyRetries
  | other
  deriving DecidableEq, Repr

namespace Errc

/-- The enumerators in declaration order, so that their positions are their values. -/
def all : List Errc :=
  [.ok, .badFrame, .rejected, .aborted, .sizeMismatch, .hashMismatch, .resumePastEnd, .closed,
    .tooManyRetries, .other]

/-- `static_cast<int>(e)`. -/
def value (e : Errc) : ℤ := all.idxOf e

/-- `make_error_code(e)`. -/
def code (e : Errc) : ErrorCode := ⟨e.value, .transfer⟩

/-- The text of one enumerator, `"transfer error"` for `other` and outside the table. -/
def text : Errc → String
  | .ok => "success"
  | .badFrame => "invalid frame"
  | .rejected => "offer rejected"
  | .aborted => "aborted by peer"
  | .sizeMismatch => "size mismatch"
  | .hashMismatch => "content hash mismatch"
  | .resumePastEnd => "resume offset exceeds size"
  | .closed => "connection closed during transfer"
  | .tooManyRetries => "exceeded MaxAttempts"
  | .other => "transfer error"

/-- `transfer::error_category::message(ev)`. -/
def message (ev : ℤ) : String :=
  match all.find? fun e => e.value == ev with
  | some e => e.text
  | none => "transfer error"

/-- Every enumerator but `ok` is a failure to its callers. -/
theorem failed_code (e : Errc) : e.code.failed = true ↔ e ≠ .ok := by
  cases e <;> decide

end Errc

end Transfer

/-- `ec.message()`. The texts of the categories outside the library are its parameter `ext`. -/
def ErrorCode.message (ext : ErrorCode → String) (ec : ErrorCode) : String :=
  match ec.category with
  | .cpptcpduplex => Errc.message ec.value
  | .transfer => Transfer.Errc.message ec.value
  | _ => ext ec

end TcpDuplex
