import Mathlib.Logic.Function.Basic
import TcpDuplex.Transfer.Calls

/-!
# A transfer over a connection that is cut and dialed again

One call of `send` and one call of `receive` share a family of connections: connection `0` is the one
both callers pass, and each `redial` returns an end of a connection that its side has not had before.
A cut loses any suffix of the frames in flight, in each direction by itself; whatever is sent behind it
is lost too. Any call to a connection, to the source or to the sink may fail at any time.
-/

namespace TcpDuplex.Transfer

/-- A connection: the frames in flight, oldest first. -/
structure Wire where
  toRecv : List Bytes := []
  toSend : List Bytes := []
  cut : Bool := false

/-- A frame of the sender. -/
def Wire.pushToRecv (w : Wire) (msg : Bytes) : Wire :=
  if w.cut then w else { w with toRecv := w.toRecv ++ [msg] }

/-- A frame of the receiver. -/
def Wire.pushToSend (w : Wire) (msg : Bytes) : Wire :=
  if w.cut then w else { w with toSend := w.toSend ++ [msg] }

/-- The connection breaks; the first frames in flight may still arrive. -/
def Wire.sever (w : Wire) (keepToRecv keepToSend : ℕ) : Wire where
  toRecv := w.toRecv.take keepToRecv
  toSend := w.toSend.take keepToSend
  cut := true

/-- Both calls, and the connections between them. -/
structure System where
  send : SendCall
  recv : RecvCall
  wire : ℕ → Wire
  /-- The connections the sender has had. -/
  sendConns : List ℕ
  /-- The connections the receiver has had. -/
  recvConns : List ℕ

inductive SystemEv where
  | send (ev : SendCallEv)
  | recv (ev : RecvCallEv)
  | cut (conn keepToRecv keepToSend : ℕ)

/-- What a step of the sender does to the connections; `none` when a message is not the next one. -/
def System.sendIo (es : SendCallEnv) (s : System) : SendCallEv → Option (ℕ → Wire)
  | .once (.sent ec) =>
    match s.send.pc with
    | .once conn st =>
      if ec.failed then some s.wire
      else do
        let msg ← st.pc.outgoing (es.attempt s.send.info conn)
        some (Function.update s.wire conn ((s.wire conn).pushToRecv msg))
    | _ => none
  | .once (.received (.ok msg)) =>
    match s.send.pc with
    | .once conn _ =>
      match (s.wire conn).toSend with
      | next :: rest =>
        if next = msg then
          some (Function.update s.wire conn { s.wire conn with toSend := rest })
        else none
      | [] => none
    | _ => none
  | .redialed (some conn) => if conn ∈ s.sendConns then none else some s.wire
  | _ => some s.wire

/-- What a step of the receiver does to the connections. -/
def System.recvIo (er : RecvCallEnv) (s : System) : RecvCallEv → Option (ℕ → Wire)
  | .once (.sent ec) =>
    match s.recv.pc with
    | .once conn st =>
      if ec.failed then some s.wire
      else do
        let msg ← st.pc.outgoing (er.attempt s.recv)
        some (Function.update s.wire conn ((s.wire conn).pushToSend msg))
    | _ => none
  | .once (.received (.ok msg)) =>
    match s.recv.pc with
    | .once conn _ =>
      match (s.wire conn).toRecv with
      | next :: rest =>
        if next = msg then
          some (Function.update s.wire conn { s.wire conn with toRecv := rest })
        else none
      | [] => none
    | _ => none
  | .redialed (some conn) => if conn ∈ s.recvConns then none else some s.wire
  | _ => some s.wire

/-- One step of the whole in which the calls take the steps `send` and `recv`. -/
def systemStepWith (send : SendCallEnv → SendCall → SendCallEv → Option SendCall)
    (recv : RecvCallEnv → RecvCall → RecvCallEv → Option RecvCall) (es : SendCallEnv) (er : RecvCallEnv)
    (s : System) : SystemEv → Option System
  | .send ev => do
    let c ← send es s.send ev
    let wire ← s.sendIo es ev
    let conns := match ev with
      | .redialed (some conn) => conn :: s.sendConns
      | _ => s.sendConns
    some { s with send := c, wire := wire, sendConns := conns }
  | .recv ev => do
    let c ← recv er s.recv ev
    let wire ← s.recvIo er ev
    let conns := match ev with
      | .redialed (some conn) => conn :: s.recvConns
      | _ => s.recvConns
    some { s with recv := c, wire := wire, recvConns := conns }
  | .cut conn keepToRecv keepToSend =>
    some { s with
      wire := Function.update s.wire conn ((s.wire conn).sever keepToRecv keepToSend) }

/-- One step of the whole, with exact sums. -/
def systemStep (es : SendCallEnv) (er : RecvCallEnv) (s : System) (ev : SystemEv) : Option System :=
  systemStepWith sendCallStep recvCallStep es er s ev

/-- One step of the whole, in `std::int64_t`. -/
def systemStep64 (es : SendCallEnv) (er : RecvCallEnv) (s : System) (ev : SystemEv) : Option System :=
  systemStepWith sendCallStep64 recvCallStep64 es er s ev

/-- Both calls at their start, on a sink that holds `sink`. -/
def System.start (es : SendCallEnv) (er : RecvCallEnv) (sink : Store) : System where
  send := SendCall.start es
  recv := RecvCall.start er sink
  wire := fun _ => {}
  sendConns := [0]
  recvConns := [0]

/-! ## What a step can be -/

variable (es : SendCallEnv) (er : RecvCallEnv)

/-- What a step of the sender can do to the connections. -/
inductive SendIo (s : System) : SendCallEv → (ℕ → Wire) → Prop where
  | push (conn : ℕ) (st : SendState) (msg : Bytes) (ec : ErrorCode)
      (hpc : s.send.pc = .once conn st)
      (hout : st.pc.outgoing (es.attempt s.send.info conn) = some msg) :
      SendIo s (.once (.sent ec))
        (Function.update s.wire conn ((s.wire conn).pushToRecv msg))
  | pop (conn : ℕ) (msg : Bytes) (rest : List Bytes) (hqueue : (s.wire conn).toSend = msg :: rest) :
      SendIo s (.once (.received (.ok msg)))
        (Function.update s.wire conn { s.wire conn with toSend := rest })
  | keep (ev : SendCallEv) (hev : ∀ msg, ev ≠ .once (.received (.ok msg))) : SendIo s ev s.wire

/-- What a step of the receiver can do to the connections. -/
inductive RecvIo (s : System) : RecvCallEv → (ℕ → Wire) → Prop where
  | push (conn : ℕ) (st : RecvState) (msg : Bytes) (ec : ErrorCode)
      (hpc : s.recv.pc = .once conn st) (hout : st.pc.outgoing (er.attempt s.recv) = some msg)
      (hec : ec.failed = false) :
      RecvIo s (.once (.sent ec))
        (Function.update s.wire conn ((s.wire conn).pushToSend msg))
  | pop (conn : ℕ) (msg : Bytes) (rest : List Bytes) (hqueue : (s.wire conn).toRecv = msg :: rest) :
      RecvIo s (.once (.received (.ok msg)))
        (Function.update s.wire conn { s.wire conn with toRecv := rest })
  | keep (ev : RecvCallEv) (hev : ∀ msg, ev ≠ .once (.received (.ok msg))) : RecvIo s ev s.wire

/-- The steps of the whole. -/
inductive SystemTrans (s : System) : System → Prop where
  | send (ev : SendCallEv) (c : SendCall) (wire : ℕ → Wire) (conns : List ℕ)
      (hstep : sendCallStep es s.send ev = some c) (hio : SendIo es s ev wire) :
      SystemTrans s { s with send := c, wire := wire, sendConns := conns }
  | recv (ev : RecvCallEv) (c : RecvCall) (wire : ℕ → Wire) (conns : List ℕ)
      (hstep : recvCallStep er s.recv ev = some c) (hio : RecvIo er s ev wire) :
      SystemTrans s { s with recv := c, wire := wire, recvConns := conns }
  | cut (conn keepToRecv keepToSend : ℕ) :
      SystemTrans s { s with
        wire := Function.update s.wire conn ((s.wire conn).sever keepToRecv keepToSend) }

variable {es er}

theorem sendIo_of_eq {s : System} {ev : SendCallEv} {wire : ℕ → Wire}
    (h : s.sendIo es ev = some wire) : SendIo es s ev wire := by
  unfold System.sendIo at h
  split at h
  · rename_i ec
    split at h
    · rename_i conn st hpc
      split at h
      · cases h
        exact .keep _ nofun
      · obtain ⟨msg, hout, h⟩ := Option.bind_eq_some_iff.mp h
        cases h
        exact .push conn st msg ec hpc hout
    · cases h
  · rename_i msg
    split at h
    · rename_i conn _ hpc
      split at h
      · rename_i next rest hqueue
        split at h
        · rename_i heq
          cases h
          exact .pop conn msg rest (heq ▸ hqueue)
        · cases h
      · cases h
    · cases h
  · split at h
    · cases h
    · cases h
      exact .keep _ nofun
  · rename_i hev _
    cases h
    exact .keep ev fun msg heq => hev msg heq

theorem recvIo_of_eq {s : System} {ev : RecvCallEv} {wire : ℕ → Wire}
    (h : s.recvIo er ev = some wire) : RecvIo er s ev wire := by
  unfold System.recvIo at h
  split at h
  · rename_i ec
    split at h
    · rename_i conn st hpc
      split at h
      · cases h
        exact .keep _ nofun
      · rename_i hec
        obtain ⟨msg, hout, h⟩ := Option.bind_eq_some_iff.mp h
        cases h
        exact .push conn st msg ec hpc hout (by simpa using hec)
    · cases h
  · rename_i msg
    split at h
    · rename_i conn _ hpc
      split at h
      · rename_i next rest hqueue
        split at h
        · rename_i heq
          cases h
          exact .pop conn msg rest (heq ▸ hqueue)
        · cases h
      · cases h
    · cases h
  · split at h
    · cases h
    · cases h
      exact .keep _ nofun
  · rename_i hev _
    cases h
    exact .keep ev fun msg heq => hev msg heq

theorem systemTrans_of_step {s t : System} {ev : SystemEv} (h : systemStep es er s ev = some t) :
    SystemTrans es er s t := by
  cases ev with
  | send ev =>
    obtain ⟨c, hstep, h⟩ := Option.bind_eq_some_iff.mp h
    obtain ⟨wire, hio, h⟩ := Option.bind_eq_some_iff.mp h
    cases h
    exact .send ev c wire _ hstep (sendIo_of_eq hio)
  | recv ev =>
    obtain ⟨c, hstep, h⟩ := Option.bind_eq_some_iff.mp h
    obtain ⟨wire, hio, h⟩ := Option.bind_eq_some_iff.mp h
    cases h
    exact .recv ev c wire _ hstep (recvIo_of_eq hio)
  | cut conn keepToRecv keepToSend =>
    cases h
    exact .cut conn keepToRecv keepToSend

/-! Frames in flight. -/

theorem mem_pushToRecv {w : Wire} {msg msg' : Bytes} (h : msg' ∈ (w.pushToRecv msg).toRecv) :
    msg' ∈ w.toRecv ∨ msg' = msg := by
  unfold Wire.pushToRecv at h
  split at h
  · exact .inl h
  · simpa using h

theorem mem_pushToSend {w : Wire} {msg msg' : Bytes} (h : msg' ∈ (w.pushToSend msg).toSend) :
    msg' ∈ w.toSend ∨ msg' = msg := by
  unfold Wire.pushToSend at h
  split at h
  · exact .inl h
  · simpa using h

theorem pushToRecv_toSend (w : Wire) (msg : Bytes) : (w.pushToRecv msg).toSend = w.toSend := by
  unfold Wire.pushToRecv
  split <;> rfl

theorem pushToSend_toRecv (w : Wire) (msg : Bytes) : (w.pushToSend msg).toRecv = w.toRecv := by
  unfold Wire.pushToSend
  split <;> rfl

end TcpDuplex.Transfer
