import Mathlib.Logic.Function.Basic
import TcpDuplex.Address
import TcpDuplex.Errors

/-!
# Descriptors (`TcpSocket` and `TcpListener` of `socket.cpp`)

What the two classes do to the descriptors of the process: `connect` and `listen` try the addresses that
`getaddrinfo` delivered one after another, and `close` gives a descriptor back. The receive and the send
timeout of a socket are always set together and are one value here.

What the system answers is a parameter: for every address whether there is a socket for it, with which
number, and whether `connect`, or `bind` and `listen`, succeeds on it.
-/

namespace TcpDuplex

/-- `timeval`; all zero is no timeout. -/
structure Timeval where
  sec : ℤ := 0
  usec : ℤ := 0
  deriving DecidableEq

namespace Timeval

/-- The value that `connect` and `set_deadline` make of a number of milliseconds. -/
def ofMillis (ms : ℤ) : Timeval :=
  if 0 < ms then ⟨ms.tdiv 1000, ms.tmod 1000 * 1000⟩ else {}

/-- The value is normal and stands for the same time, so a time that was asked for is not taken for none. -/
theorem ofMillis_exact {ms : ℤ} (h : 0 < ms) :
    (ofMillis ms).sec * 1000000 + (ofMillis ms).usec = ms * 1000 ∧ 0 ≤ (ofMillis ms).sec ∧
      0 ≤ (ofMillis ms).usec ∧ (ofMillis ms).usec < 1000000 ∧ ofMillis ms ≠ {} := by
  have hsec : (ofMillis ms).sec = ms / 1000 := by
    rw [ofMillis, if_pos h]
    exact Int.tdiv_eq_ediv_of_nonneg h.le
  have husec : (ofMillis ms).usec = ms % 1000 * 1000 := by
    rw [ofMillis, if_pos h]
    exact congrArg (· * 1000) (Int.tmod_eq_emod_of_nonneg h.le)
  refine ⟨by omega, by omega, by omega, by omega, fun hzero => ?_⟩
  have hsec' : (ofMillis ms).sec = 0 := congrArg Timeval.sec hzero
  have husec' : (ofMillis ms).usec = 0 := congrArg Timeval.usec hzero
  omega

end Timeval

/-- The descriptors of the process. -/
structure Sys where
  /-- The open ones, each with its timeouts. -/
  fds : ℕ → Option Timeval
  /-- The handshakes that ran: on which descriptor, and under which timeouts. -/
  ran : List (ℕ × Option Timeval) := []
  /-- A descriptor was closed that was not open. -/
  misused : Bool := false

namespace Sys

/-- `::socket`. -/
def socket (s : Sys) (fd : ℕ) : Sys := { s with fds := Function.update s.fds fd (some {}) }

/-- `::setsockopt` with `SO_RCVTIMEO` and `SO_SNDTIMEO`. -/
def setTimeout (s : Sys) (fd : ℕ) (tv : Timeval) : Sys :=
  if (s.fds fd).isSome then { s with fds := Function.update s.fds fd (some tv) } else s

/-- `::close`. -/
def close (s : Sys) (fd : ℕ) : Sys :=
  if (s.fds fd).isSome then { s with fds := Function.update s.fds fd none }
  else { s with misused := true }

/-- A handshake runs on the descriptor. -/
def handshake (s : Sys) (fd : ℕ) : Sys := { s with ran := s.ran ++ [(fd, s.fds fd)] }

end Sys

/-- One entry of the list that `getaddrinfo` delivers: the socket there is for it, and whether it could be
connected (bound and listened on). -/
structure AddrInfo where
  socket : Option ℕ
  ready : Bool

/-- The loop of `connect` and of `listen`: the first address that works, and every socket that did not is
closed. -/
def openFirst (options : Sys → ℕ → Sys) : List AddrInfo → Sys → Option ℕ × Sys
  | [], s => (none, s)
  | ai :: res, s =>
    match ai.socket with
    | none => openFirst options res s
    | some fd =>
      let s := options (s.socket fd) fd
      if ai.ready then (some fd, s) else openFirst options res (s.close fd)

namespace TcpSocket

/-- `set_deadline`. -/
def setDeadline (s : Sys) (sock : Option ℕ) (fromNow : ℤ) : Sys :=
  match sock with
  | none => s
  | some fd => s.setTimeout fd (Timeval.ofMillis fromNow)

/-- `clear_deadline`. -/
def clearDeadline (s : Sys) (sock : Option ℕ) : Sys := setDeadline s sock 0

/-- `close`, also by the destructor: `fd_` is not valid behind it. -/
def close (s : Sys) (sock : Option ℕ) : Sys × Option ℕ :=
  match sock with
  | none => (s, none)
  | some fd => (s.close fd, none)

/-- The options of a socket before `::connect`. -/
def connectOptions (timeout : ℤ) (s : Sys) (fd : ℕ) : Sys :=
  if 0 < timeout then s.setTimeout fd (Timeval.ofMillis timeout) else s

/-- `TcpSocket::connect`. -/
def connect (getaddrinfo : Bytes → Bytes → Option (List AddrInfo)) (address : Bytes) (timeout : ℤ)
    (s : Sys) : (ErrorCode × Option ℕ) × Sys :=
  match Address.parseHostPort address with
  | none => ((Errc.other.code, none), s)
  | some (host, port) =>
    match getaddrinfo host port with
    | none => ((Errc.ioError.code, none), s)
    | some res =>
      match openFirst (connectOptions timeout) res s with
      | (none, s) => ((Errc.ioError.code, none), s)
      | (some fd, s) => ((.success, some fd), clearDeadline s (some fd))

end TcpSocket

namespace TcpListener

/-- `TcpListener::listen`. The wildcard is passed on as a null pointer; `SO_REUSEADDR` leaves the timeouts
alone. -/
def listen (getaddrinfo : Option Bytes → Bytes → Option (List AddrInfo)) (address : Bytes) (s : Sys) :
    (ErrorCode × Option ℕ) × Sys :=
  match Address.parseHostPort address with
  | none => ((Errc.other.code, none), s)
  | some (host, port) =>
    let host := if host = Address.anyHost ∨ host = [] then none else some host
    match getaddrinfo host port with
    | none => ((Errc.ioError.code, none), s)
    | some res =>
      match openFirst (fun s _ => s) res s with
      | (none, s) => ((Errc.ioError.code, none), s)
      | (some fd, s) => ((.success, some fd), s)

end TcpListener

/-! ## What the loop leaves open -/

variable {s t : Sys} {res : List AddrInfo} {fd : ℕ}

/-- The numbers that the system gives out are not in use. -/
def Fresh (s : Sys) (res : List AddrInfo) : Prop := ∀ ai ∈ res, ∀ fd, ai.socket = some fd → s.fds fd = none

/-- This is the descriptor of the first address that works. -/
def FirstReady (res : List AddrInfo) (fd : ℕ) : Prop :=
  ∃ before ai after, res = before ++ ai :: after ∧ ai.socket = some fd ∧ ai.ready = true ∧
    ∀ x ∈ before, x.socket = none ∨ x.ready = false

/-- There is none. -/
def NoneReady (res : List AddrInfo) : Prop := ∀ x ∈ res, x.socket = none ∨ x.ready = false

theorem FirstReady.cons {ai : AddrInfo} (h : FirstReady res fd) (hai : ai.socket = none ∨ ai.ready = false) :
    FirstReady (ai :: res) fd := by
  obtain ⟨before, x, after, rfl, hx, hready, hbefore⟩ := h
  refine ⟨ai :: before, x, after, rfl, hx, hready, fun y hy => ?_⟩
  rcases List.mem_cons.mp hy with rfl | hy'
  · exact hai
  · exact hbefore y hy'

/-- Options that set nothing but the timeouts of the socket. -/
def SetsTimeout (options : Sys → ℕ → Sys) (tv : Timeval) : Prop :=
  ∀ (s : Sys) (fd : ℕ), options (s.socket fd) fd = { s with fds := Function.update s.fds fd (some tv) }

theorem setsTimeout_none : SetsTimeout (fun s _ => s) {} := fun _ _ => rfl

theorem Sys.setTimeout_of_update {tv tv' : Timeval} :
    Sys.setTimeout { s with fds := Function.update s.fds fd (some tv) } fd tv' =
      { s with fds := Function.update s.fds fd (some tv') } := by
  simp [Sys.setTimeout, Function.update_idem]

theorem Sys.close_of_update {tv : Timeval} (hfree : s.fds fd = none) :
    Sys.close { s with fds := Function.update s.fds fd (some tv) } fd = s := by
  have hback : Function.update (Function.update s.fds fd (some tv)) fd none = s.fds := by
    rw [Function.update_idem]
    exact Function.update_eq_self_iff.mpr hfree.symm
  simp [Sys.close, hback]

theorem setsTimeout_connect (timeout : ℤ) :
    SetsTimeout (TcpSocket.connectOptions timeout) (Timeval.ofMillis timeout) := by
  intro s fd
  rw [TcpSocket.connectOptions, Sys.socket]
  split
  · exact Sys.setTimeout_of_update
  · rename_i hnot
    rw [Timeval.ofMillis, if_neg hnot]

/-- The loop opens the socket of the first address that works, and nothing else stays open. -/
theorem openFirst_spec {options : Sys → ℕ → Sys} {tv : Timeval} (hopt : SetsTimeout options tv)
    (hfresh : Fresh s res) :
    openFirst options res s = (none, s) ∧ NoneReady res ∨
      ∃ fd, s.fds fd = none ∧ FirstReady res fd ∧
        openFirst options res s = (some fd, { s with fds := Function.update s.fds fd (some tv) }) := by
  induction res with
  | nil => exact .inl ⟨rfl, nofun⟩
  | cons ai res ih =>
    have hrest := ih fun x hx => hfresh x (List.mem_cons_of_mem ai hx)
    -- an address that does not work is passed over, and leaves the state as it was
    have hskip : (ai.socket = none ∨ ai.ready = false) →
        openFirst options (ai :: res) s = openFirst options res s →
        openFirst options (ai :: res) s = (none, s) ∧ NoneReady (ai :: res) ∨
          ∃ fd, s.fds fd = none ∧ FirstReady (ai :: res) fd ∧ openFirst options (ai :: res) s =
            (some fd, { s with fds := Function.update s.fds fd (some tv) }) := by
      intro hai heq
      rw [heq]
      rcases hrest with ⟨hopen, hnone⟩ | ⟨fd, hfree, hfirst, hopen⟩
      · refine .inl ⟨hopen, fun y hy => ?_⟩
        rcases List.mem_cons.mp hy with rfl | hy'
        · exact hai
        · exact hnone y hy'
      · exact .inr ⟨fd, hfree, hfirst.cons hai, hopen⟩
    cases hsock : ai.socket with
    | none => exact hskip (.inl hsock) (by rw [openFirst, hsock])
    | some fd =>
      have hfree : s.fds fd = none := hfresh ai List.mem_cons_self fd hsock
      cases hready : ai.ready with
      | true =>
        refine .inr ⟨fd, hfree, ⟨[], ai, res, rfl, hsock, hready, nofun⟩, ?_⟩
        simp only [openFirst, hsock, hready, hopt s fd, if_true]
      | false =>
        apply hskip (.inr hready)
        simp only [openFirst, hsock, hready, hopt s fd, Bool.false_eq_true, if_false]
        rw [Sys.close_of_update hfree]

/-- `connect` opens one descriptor, without timeouts, or fails and opens none. -/
theorem connect_spec {getaddrinfo : Bytes → Bytes → Option (List AddrInfo)} (address : Bytes) (timeout : ℤ)
    (hfresh : ∀ host port res, getaddrinfo host port = some res → Fresh s res) :
    (∃ ec, TcpSocket.connect getaddrinfo address timeout s = ((ec, none), s) ∧
        (ec = Errc.other.code ∧ Address.parseHostPort address = none ∨
          ec = Errc.ioError.code ∧ ∃ host port, Address.parseHostPort address = some (host, port) ∧
            ∀ res, getaddrinfo host port = some res → NoneReady res)) ∨
      ∃ fd host port res, TcpSocket.connect getaddrinfo address timeout s =
          ((.success, some fd), { s with fds := Function.update s.fds fd (some {}) }) ∧
        Address.parseHostPort address = some (host, port) ∧ getaddrinfo host port = some res ∧
        s.fds fd = none ∧ FirstReady res fd := by
  unfold TcpSocket.connect
  split
  · rename_i hparse
    exact .inl ⟨_, rfl, .inl ⟨rfl, hparse⟩⟩
  · rename_i host port hparse
    split
    · rename_i hinfo
      refine .inl ⟨_, rfl, .inr ⟨rfl, host, port, hparse, fun res hres => ?_⟩⟩
      rw [hinfo] at hres
      cases hres
    · rename_i res hinfo
      rcases openFirst_spec (setsTimeout_connect timeout) (hfresh host port res hinfo) with
        ⟨hopen, hnone⟩ | ⟨fd, hfree, hfirst, hopen⟩
      · rw [hopen]
        refine .inl ⟨_, rfl, .inr ⟨rfl, host, port, hparse, fun res' hres' => ?_⟩⟩
        rw [hinfo] at hres'
        cases hres'
        exact hnone
      · rw [hopen]
        refine .inr ⟨fd, host, port, res, ?_, hparse, hinfo, hfree, hfirst⟩
        simp only [TcpSocket.clearDeadline, TcpSocket.setDeadline, Sys.setTimeout_of_update]
        rfl

/-- The same of `listen`. -/
theorem listen_spec {getaddrinfo : Option Bytes → Bytes → Option (List AddrInfo)} (address : Bytes)
    (hfresh : ∀ host port res, getaddrinfo host port = some res → Fresh s res) :
    (∃ ec, TcpListener.listen getaddrinfo address s = ((ec, none), s) ∧ ec.failed = true) ∨
      ∃ fd host port res, TcpListener.listen getaddrinfo address s =
          ((.success, some fd), { s with fds := Function.update s.fds fd (some {}) }) ∧
        Address.parseHostPort address = some (host, port) ∧
        getaddrinfo (if host = Address.anyHost ∨ host = [] then none else some host) port = some res ∧
        s.fds fd = none ∧ FirstReady res fd := by
  unfold TcpListener.listen
  split
  · exact .inl ⟨_, rfl, rfl⟩
  · rename_i host port hparse
    dsimp only
    split
    · exact .inl ⟨_, rfl, rfl⟩
    · rename_i res hinfo
      rcases openFirst_spec setsTimeout_none (hfresh _ port res hinfo) with
        ⟨hopen, -⟩ | ⟨fd, hfree, hfirst, hopen⟩
      · rw [hopen]
        exact .inl ⟨_, rfl, rfl⟩
      · rw [hopen]
        exact .inr ⟨fd, host, port, res, rfl, hparse, hinfo, hfree, hfirst⟩

end TcpDuplex
