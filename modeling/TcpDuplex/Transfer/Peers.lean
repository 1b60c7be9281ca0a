import TcpDuplex.Transfer.Int64

/-!
# `send_once` against `receive_once`

The two attempts run over one connection that loses nothing: a lossless queue of frames in each
direction, and a `send` that always succeeds. The source and the sink may fail at any call. `faultyStep` adds
the faults of the connection: any `send` and any `receive` may fail, and frames on their way may be lost.
-/

namespace TcpDuplex.Transfer

/-- The two attempts and the frames between them. -/
structure Peers where
  send : SendState
  recv : RecvState
  /-- From the sender to the receiver, oldest first. -/
  toRecv : List Bytes := []
  /-- From the receiver to the sender, oldest first. -/
  toSend : List Bytes := []

/-- A side makes its next call, and how the call ends if that is not determined. -/
inductive PeerEv where
  | senderSends
  | senderReceives
  | senderReads (ec : ErrorCode)
  | receiverSends
  | receiverReceives
  | receiverReads (ec : ErrorCode)
  | receiverWrites (ec : ErrorCode) (junk : Store)

variable (es : SendEnv) (er : RecvEnv)

/-- One step of the composition in which the attempts take the steps `send` and `recv`. -/
def peerStepWith (send : SendEnv → SendState → SendEv → Option SendState)
    (recv : RecvEnv → RecvState → RecvEv → Option RecvState) (p : Peers) : PeerEv → Option Peers
  | .senderSends => do
    let msg ← p.send.pc.outgoing es
    let s ← send es p.send (.sent .success)
    some { p with send := s, toRecv := p.toRecv ++ [msg] }
  | .senderReceives =>
    match p.toSend with
    | [] => none
    | msg :: rest => do
      let s ← send es p.send (.received (.ok msg))
      some { p with send := s, toSend := rest }
  | .senderReads ec => do
    let s ← send es p.send (.read ec)
    some { p with send := s }
  | .receiverSends => do
    let msg ← p.recv.pc.outgoing er
    let s ← recv er p.recv (.sent .success)
    some { p with recv := s, toSend := p.toSend ++ [msg] }
  | .receiverReceives =>
    match p.toRecv with
    | [] => none
    | msg :: rest => do
      let s ← recv er p.recv (.received (.ok msg))
      some { p with recv := s, toRecv := rest }
  | .receiverReads ec => do
    let s ← recv er p.recv (.read ec)
    some { p with recv := s }
  | .receiverWrites ec junk => do
    let s ← recv er p.recv (.wrote ec junk)
    some { p with recv := s }

/-- One step of the composition, with exact sums. -/
def peerStep (p : Peers) (ev : PeerEv) : Option Peers := peerStepWith es er sendStep recvStep p ev

/-- One step of the composition, in `std::int64_t`. -/
def peerStep64 (p : Peers) (ev : PeerEv) : Option Peers := peerStepWith es er sendStep64 recvStep64 p ev

/-- Both attempts at their start, on a sink that holds `store`. -/
def Peers.start (store : Store) : Peers where
  send := SendState.start es
  recv := RecvState.start store

/-- The steps of the composition: which side steps, and what that does to the queues. -/
inductive PeerTransWith (send : SendEnv → SendState → SendEv → Option SendState)
    (recv : RecvEnv → RecvState → RecvEv → Option RecvState) (p : Peers) : Peers → Prop where
  | senderSends (msg : Bytes) (s : SendState) (hout : p.send.pc.outgoing es = some msg)
      (hstep : send es p.send (.sent .success) = some s) :
      PeerTransWith send recv p { p with send := s, toRecv := p.toRecv ++ [msg] }
  | senderReceives (msg : Bytes) (rest : List Bytes) (s : SendState)
      (hqueue : p.toSend = msg :: rest)
      (hstep : send es p.send (.received (.ok msg)) = some s) :
      PeerTransWith send recv p { p with send := s, toSend := rest }
  | senderReads (ec : ErrorCode) (s : SendState) (hstep : send es p.send (.read ec) = some s) :
      PeerTransWith send recv p { p with send := s }
  | receiverSends (msg : Bytes) (s : RecvState) (hout : p.recv.pc.outgoing er = some msg)
      (hstep : recv er p.recv (.sent .success) = some s) :
      PeerTransWith send recv p { p with recv := s, toSend := p.toSend ++ [msg] }
  | receiverReceives (msg : Bytes) (rest : List Bytes) (s : RecvState)
      (hqueue : p.toRecv = msg :: rest)
      (hstep : recv er p.recv (.received (.ok msg)) = some s) :
      PeerTransWith send recv p { p with recv := s, toRecv := rest }
  | receiverReads (ec : ErrorCode) (s : RecvState)
      (hstep : recv er p.recv (.read ec) = some s) :
      PeerTransWith send recv p { p with recv := s }
  | receiverWrites (ec : ErrorCode) (junk : Store) (s : RecvState)
      (hstep : recv er p.recv (.wrote ec junk) = some s) :
      PeerTransWith send recv p { p with recv := s }

/-- The steps with exact sums. -/
abbrev PeerTrans : Peers → Peers → Prop := PeerTransWith es er sendStep recvStep

/-- What a connection can do to the two: let them make their calls, fail the next `send` or `receive` of one
side, or lose the newest frame on its way. -/
inductive FaultEv where
  | step (ev : PeerEv)
  | senderFails (ec : ErrorCode)
  | receiverFails (ec : ErrorCode)
  | toRecvLost
  | toSendLost

/-- One step of the composition over such a connection. -/
def faultyStep (p : Peers) : FaultEv → Option Peers
  | .step ev => peerStep64 es er p ev
  | .senderFails ec =>
    if ec.failed then do
      let s ← sendStep64 es p.send (if (p.send.pc.outgoing es).isSome then .sent ec else .received (.error ec))
      some { p with send := s }
    else none
  | .receiverFails ec =>
    if ec.failed then do
      let s ← recvStep64 er p.recv (if (p.recv.pc.outgoing er).isSome then .sent ec else .received (.error ec))
      some { p with recv := s }
    else none
  | .toRecvLost => if p.toRecv = [] then none else some { p with toRecv := p.toRecv.dropLast }
  | .toSendLost => if p.toSend = [] then none else some { p with toSend := p.toSend.dropLast }

variable {es er}

theorem peerTransWith_of_step {send : SendEnv → SendState → SendEv → Option SendState}
    {recv : RecvEnv → RecvState → RecvEv → Option RecvState} {p q : Peers} {ev : PeerEv}
    (h : peerStepWith es er send recv p ev = some q) : PeerTransWith es er send recv p q := by
  cases ev with
  | senderSends =>
    obtain ⟨msg, hout, h⟩ := Option.bind_eq_some_iff.mp h
    obtain ⟨s, hstep, h⟩ := Option.bind_eq_some_iff.mp h
    cases h
    exact .senderSends msg s hout hstep
  | senderReceives =>
    simp only [peerStepWith] at h
    split at h
    · cases h
    · rename_i msg rest hqueue
      obtain ⟨s, hstep, h⟩ := Option.bind_eq_some_iff.mp h
      cases h
      exact .senderReceives msg rest s hqueue hstep
  | senderReads ec =>
    obtain ⟨s, hstep, h⟩ := Option.bind_eq_some_iff.mp h
    cases h
    exact .senderReads ec s hstep
  | receiverSends =>
    obtain ⟨msg, hout, h⟩ := Option.bind_eq_some_iff.mp h
    obtain ⟨s, hstep, h⟩ := Option.bind_eq_some_iff.mp h
    cases h
    exact .receiverSends msg s hout hstep
  | receiverReceives =>
    simp only [peerStepWith] at h
    split at h
    · cases h
    · rename_i msg rest hqueue
      obtain ⟨s, hstep, h⟩ := Option.bind_eq_some_iff.mp h
      cases h
      exact .receiverReceives msg rest s hqueue hstep
  | receiverReads ec =>
    obtain ⟨s, hstep, h⟩ := Option.bind_eq_some_iff.mp h
    cases h
    exact .receiverReads ec s hstep
  | receiverWrites ec junk =>
    obtain ⟨s, hstep, h⟩ := Option.bind_eq_some_iff.mp h
    cases h
    exact .receiverWrites ec junk s hstep

theorem peerTrans_of_step {p q : Peers} {ev : PeerEv} (h : peerStep es er p ev = some q) :
    PeerTrans es er p q := peerTransWith_of_step h

end TcpDuplex.Transfer
