import TcpDuplex.Conn.Calls
import TcpDuplex.Conn.Delivery
import TcpDuplex.Lib.Mail

/-!
# Programs that talk over two connections

A program uses a connection by calls of `send` and `receive`, one at a time; while a call runs, the threads
of the connection go on, and so does the peer. `Sides` is two such programs, their connections and the two
byte streams between them.

For the programs this is no more than two queues of messages (`users_refine_mail`). A call takes effect at
one of its steps, when it appends to `send_q_` or pops from `recv_q_`; this may be long before it returns,
and the peer may have received the message by then. So a program is compared as if a call whose result is
known had returned (`settled`).
-/

namespace TcpDuplex.Conn

open Protocol Mail

/-! ## A program and its connection -/

variable {σ τ ι κ : Type}

/-- The call that a program waits for. -/
inductive Waits where
  | nothing
  | send
  | receive

/-- A program, its connection, the number of calls it has made before the one it waits for, and how many
bytes of the peer's stream have been read. -/
structure Side (σ : Type) where
  user : σ
  conn : State
  waits : Waits := .nothing
  calls : ℕ := 0
  read : ℕ := 0

/-- What happens at a side. -/
inductive SideAct (ι : Type) where
  /-- The program goes on by itself. -/
  | own (i : ι)
  /-- The program makes its next call. -/
  | call
  /-- The call returns. -/
  | ret
  /-- A step of the connection other than a new call or the arrival of a record. -/
  | conn (a : Act)
  | arrive

/-- What a call of `send` with this error code returned. -/
def sendResult (ec : ErrorCode) : Option ErrorCode := if ec.failed then some ec else none

/-- One step of a side; `wire` is what the peer's socket has taken. The calls have no timeout. -/
def sideStep (e : Env) (U : User Bytes ErrorCode σ ι) (wire : Bytes) (s : Side σ) :
    SideAct ι → Option (Side σ)
  | .own i =>
    match s.waits with
    | .nothing => (U.own s.user i).map fun u => { s with user := u }
    | _ => none
  | .call =>
    match s.waits with
    | .nothing =>
      match U.outgoing s.user with
      | some msg =>
        (step e s.conn (.callSend s.calls msg false)).map fun c => { s with conn := c, waits := .send }
      | none =>
        if U.waiting s.user then
          (step e s.conn (.callReceive s.calls false)).map fun c =>
            { s with conn := c, waits := .receive }
        else none
    | _ => none
  | .ret =>
    match s.waits with
    | .nothing => none
    | .send =>
      match s.conn.senders s.calls with
      | .done ec =>
        some { s with user := U.sent s.user (sendResult ec), waits := .nothing, calls := s.calls + 1 }
      | _ => none
    | .receive =>
      match s.conn.receivers s.calls with
      | .done r =>
        some { s with user := U.received s.user r, waits := .nothing, calls := s.calls + 1 }
      | _ => none
  | .conn a =>
    if a.isCall || a.isRecord then none
    else (step e s.conn a).map fun c => { s with conn := c }
  | .arrive =>
    match readRecord (wire.drop s.read) with
    | (.ok (typ, sealed), rest) =>
      (step e s.conn (.reader (.record typ sealed))).map fun c =>
        { s with conn := c, read := s.read + ((wire.drop s.read).length - rest.length) }
    | (.error _, _) => none

/-- The program as it is once the call that it waits for has returned, if the result is known. -/
def Side.settled (U : User Bytes ErrorCode σ ι) (s : Side σ) : σ :=
  match s.waits with
  | .nothing => s.user
  | .send =>
    match (s.conn.senders s.calls).phase with
    | .done ec => U.sent s.user (sendResult ec)
    | _ => s.user
  | .receive =>
    match (s.conn.receivers s.calls).phase with
    | .done r => U.received s.user r
    | _ => s.user

/-- A call of the connection returned this error. -/
def Returned (c : State) (ec : ErrorCode) : Prop :=
  ec.failed = true ∧ ∃ i, (c.senders i).phase = .done ec ∨ (c.receivers i).phase = .done (.error ec)

/-- The steps of a side: of the program alone, of a call that begins or ends, of the connection. -/
inductive SideTrans (e : Env) (U : User Bytes ErrorCode σ ι) (wire : Bytes) (s : Side σ) :
    Side σ → Prop where
  | own {i u} (hwaits : s.waits = .nothing) (hown : U.own s.user i = some u) :
      SideTrans e U wire s { s with user := u }
  | callSend {msg c} (hwaits : s.waits = .nothing) (hout : U.outgoing s.user = some msg)
      (hstep : step e s.conn (.callSend s.calls msg false) = some c) :
      SideTrans e U wire s { s with conn := c, waits := .send }
  | callReceive {c} (hwaits : s.waits = .nothing) (hwait : U.waiting s.user = true)
      (hstep : step e s.conn (.callReceive s.calls false) = some c) :
      SideTrans e U wire s { s with conn := c, waits := .receive }
  | retSend {ec} (hwaits : s.waits = .send) (hdone : s.conn.senders s.calls = .done ec) :
      SideTrans e U wire s
        { s with user := U.sent s.user (sendResult ec), waits := .nothing, calls := s.calls + 1 }
  | retReceive {r} (hwaits : s.waits = .receive) (hdone : s.conn.receivers s.calls = .done r) :
      SideTrans e U wire s
        { s with user := U.received s.user r, waits := .nothing, calls := s.calls + 1 }
  | conn {a c} (hcall : a.isCall = false) (hrec : a.isRecord = false)
      (hstep : step e s.conn a = some c) : SideTrans e U wire s { s with conn := c }
  | arrive {typ sealed rest c} (hread : readRecord (wire.drop s.read) = (.ok (typ, sealed), rest))
      (hstep : step e s.conn (.reader (.record typ sealed)) = some c) :
      SideTrans e U wire s
        { s with conn := c, read := s.read + ((wire.drop s.read).length - rest.length) }

section Side

variable {e : Env} {U : User Bytes ErrorCode σ ι} {wire : Bytes} {s t : Side σ}

theorem sideTrans_of_step {a : SideAct ι} (h : sideStep e U wire s a = some t) :
    SideTrans e U wire s t := by
  cases a with
  | own i =>
    simp only [sideStep] at h
    split at h
    · rename_i hwaits
      obtain ⟨u, hown, rfl⟩ := Option.map_eq_some_iff.mp h
      exact .own hwaits hown
    · cases h
  | call =>
    simp only [sideStep] at h
    split at h
    · rename_i hwaits
      split at h
      · rename_i msg hout
        obtain ⟨c, hstep, rfl⟩ := Option.map_eq_some_iff.mp h
        exact .callSend hwaits hout hstep
      · split at h
        · rename_i hwait
          obtain ⟨c, hstep, rfl⟩ := Option.map_eq_some_iff.mp h
          exact .callReceive hwaits hwait hstep
        · cases h
    · cases h
  | ret =>
    simp only [sideStep] at h
    split at h
    · cases h
    · rename_i hwaits
      split at h
      · rename_i ec hdone
        cases h
        exact .retSend hwaits hdone
      · cases h
    · rename_i hwaits
      split at h
      · rename_i r hdone
        cases h
        exact .retReceive hwaits hdone
      · cases h
  | conn a =>
    simp only [sideStep] at h
    split at h
    · cases h
    · rename_i hact
      obtain ⟨hcall, hrec⟩ : a.isCall = false ∧ a.isRecord = false := by simpa using hact
      obtain ⟨c, hstep, rfl⟩ := Option.map_eq_some_iff.mp h
      exact .conn hcall hrec hstep
  | arrive =>
    simp only [sideStep] at h
    split at h
    · rename_i typ sealed rest hread
      obtain ⟨c, hstep, rfl⟩ := Option.map_eq_some_iff.mp h
      exact .arrive hread hstep
    · cases h

/-- A program that waits for a call, how far that call has got, and the program as it is for the peer. -/
inductive Serves (U : User Bytes ErrorCode σ ι) (u : σ) : Waits → CallPhase Bytes ErrorCode →
    CallPhase Unit (Except ErrorCode Bytes) → σ → Prop where
  | nothing : Serves U u .nothing .idle .idle u
  | sending {msg} (hout : U.outgoing u = some msg) : Serves U u .send (.running msg) .idle u
  | sent (ec : ErrorCode) : Serves U u .send (.done ec) .idle (U.sent u (sendResult ec))
  | receiving (hwait : U.waiting u = true) : Serves U u .receive .idle (.running ()) u
  | received (r : Except ErrorCode Bytes) : Serves U u .receive .idle (.done r) (U.received u r)

/-- The side of the queues that stands for a program and its connection: no call but the one that the
program waits for is running, and none with a later number has begun. -/
structure Served (U : User Bytes ErrorCode σ ι) (s : Side σ) (p : Post Bytes ErrorCode σ) : Prop where
  current : Serves U s.user s.waits (s.conn.senders s.calls).phase (s.conn.receivers s.calls).phase p.user
  others : ∀ i, i ≠ s.calls → (∀ x, (s.conn.senders i).phase ≠ .running x) ∧
    ∀ x, (s.conn.receivers i).phase ≠ .running x
  later : ∀ i, s.calls < i → (s.conn.senders i).phase = .idle ∧ (s.conn.receivers i).phase = .idle
  errors : ∀ ec ∈ p.errors, Returned s.conn ec

theorem Served.settled {p : Post Bytes ErrorCode σ} (h : Served U s p) : p.user = s.settled U := by
  have hcurrent := h.current
  unfold Side.settled
  generalize s.waits = w, (s.conn.senders s.calls).phase = ps, (s.conn.receivers s.calls).phase = pr,
    p.user = u at hcurrent
  cases hcurrent <;> rfl

/-- A result stays. -/
theorem CallTrans.returned {c c' : State} {ec : ErrorCode} (h : CallTrans c c') (hret : Returned c ec) :
    Returned c' ec := by
  obtain ⟨hfailed, i, hsent | hgot⟩ := hret
  · refine ⟨hfailed, i, .inl ?_⟩
    cases h with
    | none hsend _ _ _ => rw [hsend, hsent]
    | sent j p ec' hrun hdone hsend _ _ _ =>
      by_cases hj : i = j
      · rw [← hj, hsent] at hrun
        cases hrun
      · rw [hsend i hj, hsent]
    | received _ _ _ _ _ hsend _ _ _ => rw [hsend, hsent]
  · refine ⟨hfailed, i, .inr ?_⟩
    cases h with
    | none _ hrecv _ _ => rw [hrecv, hgot]
    | sent _ _ _ _ _ _ hrecv _ _ => rw [hrecv, hgot]
    | received j r hrun hdone _ _ hrecv _ _ =>
      by_cases hj : i = j
      · rw [← hj, hgot] at hrun
        cases hrun
      · rw [hrecv i hj, hgot]

variable {p : Post Bytes ErrorCode σ} {c : State}

/-- The connection moves, and only the call that the program waits for gets further. -/
theorem Served.setConn {p' : Post Bytes ErrorCode σ} {w : Waits} (h : Served U s p)
    (hsend : ∀ i, i ≠ s.calls → (c.senders i).phase = (s.conn.senders i).phase)
    (hrecv : ∀ i, i ≠ s.calls → (c.receivers i).phase = (s.conn.receivers i).phase)
    (hcurrent : Serves U s.user w (c.senders s.calls).phase (c.receivers s.calls).phase p'.user)
    (herrors : ∀ ec ∈ p'.errors, Returned c ec) : Served U { s with conn := c, waits := w } p' where
  current := hcurrent
  others i hi := by
    rw [hsend i hi, hrecv i hi]
    exact h.others i hi
  later i hi := by
    rw [hsend i (ne_of_gt hi), hrecv i (ne_of_gt hi)]
    exact h.later i hi
  errors := herrors

theorem Serves.of_running_send {u v : σ} {w : Waits} {msg : Bytes}
    {pr : CallPhase Unit (Except ErrorCode Bytes)} (h : Serves U u w (.running msg) pr v) :
    w = .send ∧ pr = .idle ∧ v = u ∧ U.outgoing u = some msg := by
  cases h with
  | sending hout => exact ⟨rfl, rfl, rfl, hout⟩

theorem Serves.of_running_receive {u v : σ} {w : Waits} {ps : CallPhase Bytes ErrorCode}
    (h : Serves U u w ps (.running ()) v) :
    w = .receive ∧ ps = .idle ∧ v = u ∧ U.waiting u = true := by
  cases h with
  | receiving hwait => exact ⟨rfl, rfl, rfl, hwait⟩

theorem returned_append {errors : List ErrorCode} {ec : ErrorCode}
    (h : ∀ ec ∈ errors, Returned c ec) (hec : Returned c ec) : ∀ ec' ∈ errors ++ [ec], Returned c ec' := by
  intro ec' hmem
  rcases List.mem_append.mp hmem with hold | hnew
  · exact h ec' hold
  · rw [List.mem_singleton.mp hnew]
    exact hec

/-- The call of `send` gets its result. -/
theorem Served.sent {msg : Bytes} {ec : ErrorCode} (h : Served U s p)
    (hrun : (s.conn.senders s.calls).phase = .running msg)
    (hdone : (c.senders s.calls).phase = .done ec)
    (hsend : ∀ i, i ≠ s.calls → (c.senders i).phase = (s.conn.senders i).phase)
    (hrecv : ∀ i, (c.receivers i).phase = (s.conn.receivers i).phase)
    (hreturned : ∀ ec ∈ p.errors, Returned c ec) :
    ∃ p', Moves U p p' (sentBy msg ec) ∧ p'.inbox = p.inbox ∧ Served U { s with conn := c } p' := by
  have hcurrent := h.current
  rw [hrun] at hcurrent
  obtain ⟨hwaits, hidle, huser, hout⟩ := hcurrent.of_running_send
  have hnow : Serves U s.user s.waits (c.senders s.calls).phase (c.receivers s.calls).phase
      (U.sent p.user (sendResult ec)) := by
    rw [hdone, hrecv, hidle, hwaits, huser]
    exact .sent ec
  rw [← huser] at hout
  by_cases hfailed : ec.failed = true
  · rw [sendResult, if_pos hfailed] at hnow
    refine ⟨{ p with user := U.sent p.user (some ec), errors := p.errors ++ [ec] },
      .inr ⟨.sendFails ec, ?_⟩, rfl, h.setConn hsend (fun i _ => hrecv i) hnow ?_⟩
    · rw [Post.step, hout, sentBy, if_pos hfailed]
      rfl
    · exact returned_append hreturned ⟨hfailed, _, .inl hdone⟩
  · rw [sendResult, if_neg hfailed] at hnow
    refine ⟨{ p with user := U.sent p.user none }, .inr ⟨.send, ?_⟩, rfl,
      h.setConn hsend (fun i _ => hrecv i) hnow hreturned⟩
    rw [Post.step, hout, sentBy, if_neg hfailed]
    rfl

/-- The call of `receive` gets its result; a message is the next one. -/
theorem Served.received {r : Except ErrorCode Bytes} {rest : List Bytes} (h : Served U s p)
    (hrun : (s.conn.receivers s.calls).phase = .running ())
    (hdone : (c.receivers s.calls).phase = .done r) (hfail : ∀ ec, r = .error ec → ec.failed = true)
    (hsend : ∀ i, (c.senders i).phase = (s.conn.senders i).phase)
    (hrecv : ∀ i, i ≠ s.calls → (c.receivers i).phase = (s.conn.receivers i).phase)
    (hreturned : ∀ ec ∈ p.errors, Returned c ec) (hnext : p.inbox = poppedBy r ++ rest) :
    ∃ p', Moves U p p' [] ∧ p'.inbox = rest ∧ Served U { s with conn := c } p' := by
  have hcurrent := h.current
  rw [hrun] at hcurrent
  obtain ⟨hwaits, hidle, huser, hwait⟩ := hcurrent.of_running_receive
  have hnow : Serves U s.user s.waits (c.senders s.calls).phase (c.receivers s.calls).phase
      (U.received p.user r) := by
    rw [hdone, hsend, hidle, hwaits, huser]
    exact .received r
  rw [← huser] at hwait
  cases r with
  | ok msg =>
    refine ⟨{ p with user := U.received p.user (.ok msg), inbox := rest }, .inr ⟨.receive, ?_⟩, rfl,
      h.setConn (fun i _ => hsend i) hrecv hnow hreturned⟩
    rw [Post.step, hnext]
    exact if_pos hwait
  | error ec =>
    refine ⟨{ p with user := U.received p.user (.error ec), errors := p.errors ++ [ec] },
      .inr ⟨.receiveFails ec, if_pos hwait⟩, hnext, h.setConn (fun i _ => hsend i) hrecv hnow ?_⟩
    exact returned_append hreturned ⟨hfail ec rfl, _, .inr hdone⟩

/-- **A step of the connection** is a move if it gives the program's call its result, and no move
otherwise. `acc` is what the peer's connection has accepted. -/
theorem Served.conn {acc : List Bytes} (h : Served U s p) (hc : CallTrans s.conn c)
    (hbox : s.conn.hist.popped ++ p.inbox = acc) (hpre : c.hist.popped <+: acc) :
    ∃ p' msgs, Moves U p p' msgs ∧ Served U { s with conn := c } p' ∧
      c.hist.accepted = s.conn.hist.accepted ++ msgs ∧ c.hist.popped ++ p'.inbox = acc := by
  have hreturned : ∀ ec ∈ p.errors, Returned c ec := fun ec hec => hc.returned (h.errors ec hec)
  cases hc with
  | none hsend hrecv hacc hpop =>
    refine ⟨p, [], .inl ⟨rfl, rfl⟩, ?_, by rw [hacc, List.append_nil], by rw [hpop, hbox]⟩
    refine h.setConn (w := s.waits) (fun i _ => hsend i) (fun i _ => hrecv i) ?_ hreturned
    rw [hsend, hrecv]
    exact h.current
  | sent i msg ec hrun hdone hsend hrecv hacc hpop =>
    obtain rfl : i = s.calls := by
      by_contra hi
      exact (h.others i hi).1 msg hrun
    obtain ⟨p', hmoves, hinbox, hserved⟩ := h.sent hrun hdone hsend hrecv hreturned
    exact ⟨p', _, hmoves, hserved, hacc, by rw [hpop, hinbox, hbox]⟩
  | received i r hrun hdone hfail hsend hrecv hacc hpop =>
    obtain rfl : i = s.calls := by
      by_contra hi
      exact (h.others i hi).2 () hrun
    -- what is popped is what the peer sent next
    obtain ⟨rest, hrest⟩ := hpre
    have hnext : p.inbox = poppedBy r ++ rest := by
      rw [← hbox, hpop, List.append_assoc] at hrest
      exact (List.append_cancel_left hrest).symm
    obtain ⟨p', hmoves, hinbox, hserved⟩ := h.received hrun hdone hfail hsend hrecv hreturned hnext
    exact ⟨p', [], hmoves, hserved, by rw [hacc, List.append_nil], by rw [hinbox, hrest]⟩

theorem Serves.of_nothing {u v : σ} {ps : CallPhase Bytes ErrorCode}
    {pr : CallPhase Unit (Except ErrorCode Bytes)} (h : Serves U u .nothing ps pr v) :
    ps = .idle ∧ pr = .idle ∧ v = u := by
  cases h
  exact ⟨rfl, rfl, rfl⟩

theorem Serves.of_done_send {u v : σ} {ec : ErrorCode} {pr : CallPhase Unit (Except ErrorCode Bytes)}
    (h : Serves U u .send (.done ec) pr v) : v = U.sent u (sendResult ec) ∧ pr = .idle := by
  cases h
  exact ⟨rfl, rfl⟩

theorem Serves.of_done_receive {u v : σ} {r : Except ErrorCode Bytes} {ps : CallPhase Bytes ErrorCode}
    (h : Serves U u .receive ps (.done r) v) : v = U.received u r ∧ ps = .idle := by
  cases h
  exact ⟨rfl, rfl⟩

/-- A call that had not begun has no result to lose. -/
theorem Returned.of_call {n : ℕ} {b : State} {ec : ErrorCode} (h : Returned b ec)
    (hidle : (b.senders n).phase = .idle ∧ (b.receivers n).phase = .idle)
    (hsend : ∀ i, i ≠ n → (c.senders i).phase = (b.senders i).phase)
    (hrecv : ∀ i, i ≠ n → (c.receivers i).phase = (b.receivers i).phase) : Returned c ec := by
  obtain ⟨hfailed, i, hres⟩ := h
  by_cases hi : i = n
  · rw [hi, hidle.1, hidle.2] at hres
    rcases hres with hres | hres
    · cases hres
    · cases hres
  · exact ⟨hfailed, i, by rwa [hsend i hi, hrecv i hi]⟩

theorem Served.callSend {msg : Bytes} (h : Served U s p) (hwaits : s.waits = .nothing)
    (hout : U.outgoing s.user = some msg) (hstep : step e s.conn (.callSend s.calls msg false) = some c) :
    Served U { s with conn := c, waits := .send } p ∧ c.hist = s.conn.hist := by
  have hnow := h.current
  rw [hwaits] at hnow
  obtain ⟨hsidle, hridle, huser⟩ := hnow.of_nothing
  cases step_inv hstep with
  | callSend _ =>
    have hsend : ∀ i, i ≠ s.calls →
        ((s.conn.setSender s.calls (.start msg false)).senders i).phase = (s.conn.senders i).phase :=
      fun i hi => by rw [senders_setSender_of_ne _ _ hi]
    refine ⟨h.setConn hsend (fun _ _ => rfl) ?_ fun ec hec => ?_, rfl⟩
    · rw [senders_setSender, huser]
      change Serves U s.user .send _ (s.conn.receivers s.calls).phase s.user
      rw [hridle]
      exact .sending hout
    · exact (h.errors ec hec).of_call ⟨hsidle, hridle⟩ hsend fun _ _ => rfl

theorem Served.callReceive (h : Served U s p) (hwaits : s.waits = .nothing)
    (hwait : U.waiting s.user = true) (hstep : step e s.conn (.callReceive s.calls false) = some c) :
    Served U { s with conn := c, waits := .receive } p ∧ c.hist = s.conn.hist := by
  have hnow := h.current
  rw [hwaits] at hnow
  obtain ⟨hsidle, hridle, huser⟩ := hnow.of_nothing
  cases step_inv hstep with
  | callReceive _ =>
    have hrecv : ∀ i, i ≠ s.calls →
        ((s.conn.setReceiver s.calls (.start false)).receivers i).phase = (s.conn.receivers i).phase :=
      fun i hi => by rw [receivers_setReceiver_of_ne _ _ hi]
    refine ⟨h.setConn (fun _ _ => rfl) hrecv ?_ fun ec hec => ?_, rfl⟩
    · rw [receivers_setReceiver, huser]
      change Serves U s.user .receive (s.conn.senders s.calls).phase _ s.user
      rw [hsidle]
      exact .receiving hwait
    · exact (h.errors ec hec).of_call ⟨hsidle, hridle⟩ (fun _ _ => rfl) hrecv

/-- The call returns, and its number is not used again. -/
theorem Served.ret (h : Served U s p) (hsend : ∀ x, (s.conn.senders s.calls).phase ≠ .running x)
    (hrecv : ∀ x, (s.conn.receivers s.calls).phase ≠ .running x) :
    Served U { s with user := p.user, waits := .nothing, calls := s.calls + 1 } p where
  current := by
    obtain ⟨hs, hr⟩ := h.later (s.calls + 1) (Nat.lt_succ_self _)
    rw [hs, hr]
    exact .nothing
  others i hi := by
    by_cases hold : i = s.calls
    · rw [hold]
      exact ⟨hsend, hrecv⟩
    · exact h.others i hold
  later i hi := h.later i (Nat.lt_of_succ_lt hi)
  errors := h.errors

/-- **A step of a side** is a move or no move, and the queues stand for what the connections have accepted
and popped. -/
theorem Served.step {acc : List Bytes} (h : Served U s p) (hstep : SideTrans e U wire s t)
    (hbox : s.conn.hist.popped ++ p.inbox = acc) (hpre : t.conn.hist.popped <+: acc) :
    ∃ p' msgs, Moves U p p' msgs ∧ Served U t p' ∧
      t.conn.hist.accepted = s.conn.hist.accepted ++ msgs ∧ t.conn.hist.popped ++ p'.inbox = acc := by
  have hcurrent := h.current
  cases hstep with
  | @own i u hwaits hown =>
    rw [hwaits] at hcurrent
    obtain ⟨hsidle, hridle, huser⟩ := hcurrent.of_nothing
    rw [← huser] at hown
    refine ⟨{ p with user := u }, [], .inr ⟨.own i, by rw [Post.step, hown]; rfl⟩, ?_, ?_, hbox⟩
    · refine ⟨?_, h.others, h.later, h.errors⟩
      rw [hsidle, hridle, hwaits]
      exact .nothing
    · rw [List.append_nil]
  | callSend hwaits hout hcall =>
    obtain ⟨hserved, hhist⟩ := h.callSend hwaits hout hcall
    exact ⟨p, [], .inl ⟨rfl, rfl⟩, hserved, by rw [hhist, List.append_nil], by rw [hhist, hbox]⟩
  | callReceive hwaits hwait hcall =>
    obtain ⟨hserved, hhist⟩ := h.callReceive hwaits hwait hcall
    exact ⟨p, [], .inl ⟨rfl, rfl⟩, hserved, by rw [hhist, List.append_nil], by rw [hhist, hbox]⟩
  | retSend hwaits hdone =>
    rw [hwaits, hdone] at hcurrent
    obtain ⟨huser, hridle⟩ := hcurrent.of_done_send
    refine ⟨p, [], .inl ⟨rfl, rfl⟩, ?_, (List.append_nil _).symm, hbox⟩
    rw [← huser]
    refine h.ret (fun x hx => ?_) fun x hx => ?_
    · rw [hdone] at hx
      cases hx
    · rw [hridle] at hx
      cases hx
  | retReceive hwaits hdone =>
    rw [hwaits, hdone] at hcurrent
    obtain ⟨huser, hsidle⟩ := hcurrent.of_done_receive
    refine ⟨p, [], .inl ⟨rfl, rfl⟩, ?_, (List.append_nil _).symm, hbox⟩
    rw [← huser]
    refine h.ret (fun x hx => ?_) fun x hx => ?_
    · rw [hsidle] at hx
      cases hx
    · rw [hdone] at hx
      cases hx
  | conn hcall _ hconn => exact h.conn (callTrans_of_step hcall hconn) hbox hpre
  | arrive _ hconn =>
    obtain ⟨p', msgs, hmoves, hserved, hrest⟩ := h.conn (callTrans_of_step rfl hconn) hbox hpre
    exact ⟨p', msgs, hmoves, ⟨hserved.current, hserved.others, hserved.later, hserved.errors⟩, hrest⟩

end Side

/-! ## The two sides -/

/-- The same link seen from the other end. -/
def Link.flip (l : Link) : Link := ⟨l.cfgB, l.cfgA, l.gcm, l.sess⟩

/-- Two programs over their connections. -/
structure Sides (σ τ : Type) where
  left : Side σ
  right : Side τ

/-- One step of one side; the records that arrive are those that the other connection wrote. -/
def sidesStep (l : Link) (U : User Bytes ErrorCode σ ι) (V : User Bytes ErrorCode τ κ) (s : Sides σ τ) :
    SideAct ι ⊕ SideAct κ → Option (Sides σ τ)
  | .inl a =>
    (sideStep l.envA U s.right.conn.hist.wire s.left a).map fun x => { s with left := x }
  | .inr a =>
    (sideStep l.envB V s.left.conn.hist.wire s.right a).map fun x => { s with right := x }

/-- Both programs at their start, over new connections. -/
def Link.start (l : Link) (u : σ) (v : τ) : Sides σ τ where
  left := { user := u, conn := Conn.init l.cfgA }
  right := { user := v, conn := Conn.init l.cfgB }

section Sides

variable {l : Link} {U : User Bytes ErrorCode σ ι} {V : User Bytes ErrorCode τ κ}

/-- What `B` has popped, `A` has accepted. -/
theorem PairInv.popped_prefix {p : Pair} (hg : l.gcm.Lawful) (h : PairInv l p) :
    p.b.hist.popped <+: p.a.hist.accepted := by
  obtain ⟨hreachA, hreachB, k, hA⟩ := h
  have hpopped : p.b.hist.popped <+: p.b.hist.pushed := by
    rw [← (incoming_reachable hreachB).queue]
    exact List.prefix_append _ _
  have hall : texts ((emitted l.envA p.a).take k) <+: texts (emitted l.envA p.a) :=
    isPrefix_texts (List.take_prefix _ _)
  exact ((hpopped.trans hA.received.pushed).trans hall).trans
    (outgoing_reachable hg hreachA).isPrefix_texts_emitted

/-- The two streams between the connections of a side and its peer. -/
structure Linked (l : Link) (x : Side σ) (y : Side τ) : Prop where
  there : PairInv l ⟨x.conn, y.conn, y.read⟩
  back : PairInv l.flip ⟨y.conn, x.conn, x.read⟩

theorem Linked.symm {x : Side σ} {y : Side τ} (h : Linked l x y) : Linked l.flip y x := ⟨h.back, h.there⟩

theorem Linked.step {x x' : Side σ} {y : Side τ} (hg : l.gcm.Lawful) (hcbA : l.cfgA.onMessage = false)
    (hcbB : l.cfgB.onMessage = false) (h : Linked l x y)
    (hstep : SideTrans l.envA U y.conn.hist.wire x x') : Linked l x' y := by
  have hconn : ∀ {a c}, a.isRecord = false → Conn.step l.envA x.conn a = some c →
      Linked l { x with conn := c } y := by
    intro a c hrec ha
    refine ⟨h.there.step (a := .a a) hg hcbB ?_, h.back.step (a := .b a) hg hcbA ?_⟩
    · rw [pairStep, ha]
      rfl
    · rw [pairStep, if_neg (by rw [hrec]; exact Bool.false_ne_true)]
      exact Option.map_eq_some_iff.mpr ⟨c, ha, rfl⟩
  cases hstep with
  | own _ _ => exact ⟨h.there, h.back⟩
  | callSend _ _ ha => exact ⟨(hconn rfl ha).there, (hconn rfl ha).back⟩
  | callReceive _ _ ha => exact ⟨(hconn rfl ha).there, (hconn rfl ha).back⟩
  | retSend _ _ => exact ⟨h.there, h.back⟩
  | retReceive _ _ => exact ⟨h.there, h.back⟩
  | conn _ hrec ha => exact hconn hrec ha
  | @arrive typ sealed rest c hread ha =>
    refine ⟨h.there.step (a := .a (.reader (.record typ sealed))) hg hcbB ?_,
      h.back.step (a := .arrive) hg hcbA ?_⟩
    · rw [pairStep, ha]
      rfl
    · simp only [pairStep, Pair.unread, hread]
      exact Option.map_eq_some_iff.mpr ⟨c, ha, rfl⟩

/-- The queues stand for the two connections: what one of them has accepted and the other has not yet
popped is under way. -/
structure Stands (l : Link) (U : User Bytes ErrorCode σ ι) (V : User Bytes ErrorCode τ κ) (s : Sides σ τ)
    (m : Posts Bytes ErrorCode σ τ) : Prop where
  linked : Linked l s.left s.right
  left : Served U s.left m.left
  right : Served V s.right m.right
  toRight : s.right.conn.hist.popped ++ m.right.inbox = s.left.conn.hist.accepted
  toLeft : s.left.conn.hist.popped ++ m.left.inbox = s.right.conn.hist.accepted

variable {s : Sides σ τ} {m : Posts Bytes ErrorCode σ τ}

theorem Stands.symm (h : Stands l U V s m) : Stands l.flip V U ⟨s.right, s.left⟩ ⟨m.right, m.left⟩ :=
  ⟨h.linked.symm, h.right, h.left, h.toLeft, h.toRight⟩

/-- A step of the left side. -/
theorem Stands.stepLeft {x : Side σ} (hg : l.gcm.Lawful) (hcbA : l.cfgA.onMessage = false)
    (hcbB : l.cfgB.onMessage = false) (h : Stands l U V s m)
    (hstep : SideTrans l.envA U s.right.conn.hist.wire s.left x) :
    ∃ p msgs, Moves U m.left p msgs ∧ Stands l U V { s with left := x } ⟨p, m.right.deliver msgs⟩ := by
  have hlinked : Linked l x s.right := h.linked.step hg hcbA hcbB hstep
  have hpre : x.conn.hist.popped <+: s.right.conn.hist.accepted := hlinked.back.popped_prefix (l := l.flip) hg
  obtain ⟨p, msgs, hmoves, hserved, hacc, hbox⟩ := h.left.step hstep h.toLeft hpre
  refine ⟨p, msgs, hmoves, hlinked, hserved, ?_, ?_, hbox⟩
  · exact ⟨h.right.current, h.right.others, h.right.later, h.right.errors⟩
  · rw [hacc, ← h.toRight, List.append_assoc]
    rfl

theorem stands_start (l : Link) (U : User Bytes ErrorCode σ ι) (V : User Bytes ErrorCode τ κ) (u : σ)
    (v : τ) : Stands l U V (l.start u v) (Mail.start u v) where
  linked := ⟨pairInv_init l, pairInv_init l.flip⟩
  left := ⟨.nothing, fun _ _ => ⟨nofun, nofun⟩, fun _ _ => ⟨rfl, rfl⟩, nofun⟩
  right := ⟨.nothing, fun _ _ => ⟨nofun, nofun⟩, fun _ _ => ⟨rfl, rfl⟩, nofun⟩
  toRight := rfl
  toLeft := rfl

/-- Every run of two programs over connections is one over queues. -/
theorem stands_of_run {u : σ} {v : τ} (hg : l.gcm.Lawful) (hcbA : l.cfgA.onMessage = false)
    (hcbB : l.cfgB.onMessage = false) (h : Machine.Run (sidesStep l U V) (l.start u v) s) :
    ∃ m, Machine.Run (Mail.step U V) (Mail.start u v) m ∧ Stands l U V s m := by
  refine Machine.GRun.simulates ?_ h (stands_start l U V u v)
  intro s a t m hS _ hstep
  cases a with
  | inl a =>
    obtain ⟨x, hx, rfl⟩ := Option.map_eq_some_iff.mp hstep
    obtain ⟨p, msgs, hmoves, hS'⟩ := hS.stepLeft hg hcbA hcbB (sideTrans_of_step hx)
    exact ⟨_, run_of_moves_left hmoves, hS'⟩
  | inr a =>
    obtain ⟨x, hx, rfl⟩ := Option.map_eq_some_iff.mp hstep
    obtain ⟨p, msgs, hmoves, hS'⟩ := hS.symm.stepLeft (l := l.flip) hg hcbB hcbA (sideTrans_of_step hx)
    exact ⟨_, run_of_moves_right hmoves, hS'.symm⟩

/-- **A pair of connections is a pair of queues.** Whatever two programs do with their connections, one
call at a time, and whatever the threads, the sockets and the network do meanwhile: the programs are as
they can be over two queues of messages, where a message that was sent is received in its turn or not at
all. The errors are those that their own calls returned, and the queues hold what one side has accepted and
the other has not popped. -/
theorem users_refine_mail (l : Link) (hg : l.gcm.Lawful) (hcbA : l.cfgA.onMessage = false)
    (hcbB : l.cfgB.onMessage = false) (U : User Bytes ErrorCode σ ι) (V : User Bytes ErrorCode τ κ)
    (u : σ) (v : τ) (s : Sides σ τ) (h : Machine.Run (sidesStep l U V) (l.start u v) s) :
    ∃ m, Machine.Run (Mail.step U V) (Mail.start u v) m ∧
      m.left.user = s.left.settled U ∧ m.right.user = s.right.settled V ∧
      (∀ ec ∈ m.left.errors, Returned s.left.conn ec) ∧
      (∀ ec ∈ m.right.errors, Returned s.right.conn ec) ∧
      s.right.conn.hist.popped ++ m.right.inbox = s.left.conn.hist.accepted ∧
      s.left.conn.hist.popped ++ m.left.inbox = s.right.conn.hist.accepted := by
  obtain ⟨m, hrun, hS⟩ := stands_of_run hg hcbA hcbB h
  exact ⟨m, hrun, hS.left.settled, hS.right.settled, hS.left.errors, hS.right.errors, hS.toRight,
    hS.toLeft⟩

/-- Sends `7` and ends. -/
def sampleTeller : User Bytes ErrorCode Bool Unit where
  outgoing told := if told then none else some [7]
  waiting _ := false
  sent _ _ := true
  received told _ := told
  own _ _ := none

/-- Keeps what it receives. -/
def sampleKeeper : User Bytes ErrorCode (List Bytes) Unit where
  outgoing _ := none
  waiting _ := true
  sent kept _ := kept
  received kept
    | .ok msg => kept ++ [msg]
    | .error _ => kept
  own _ _ := none

/-- The message is received before the call that sent it returns. -/
def earlyTrace : List (SideAct Unit ⊕ SideAct Unit) :=
  [.inl .call, .inl (.conn (.sender 0)), .inl (.conn (.sender 0)), .inl (.conn (.writer .none)),
    .inl (.conn (.writer (.nonce (some (nonceEndingIn 7))))), .inl (.conn (.writer (.sent 34))),
    .inr .arrive, .inr (.conn (.reader .none)), .inr (.conn (.reader .none)), .inr .call,
    .inr (.conn (.receiver 0)), .inr (.conn (.receiver 0)), .inr .ret]

theorem earlyTrace_refined :
    ∃ s, Machine.Run (sidesStep shortLink sampleTeller sampleKeeper) (shortLink.start false []) s ∧
      s.left.user = false ∧ s.right.user = [[7]] ∧
      ∃ m, Machine.Run (Mail.step sampleTeller sampleKeeper) (Mail.start false []) m ∧
        m.left.user = true ∧ m.right.user = [[7]] := by
  obtain ⟨s, hrun, hleft, hright, hleft', hright'⟩ :
      ∃ s, Machine.Run (sidesStep shortLink sampleTeller sampleKeeper) (shortLink.start false []) s ∧
        s.left.user = false ∧ s.right.user = [[7]] ∧ s.left.settled sampleTeller = true ∧
        s.right.settled sampleKeeper = [[7]] :=
    Machine.exists_run_of_exec earlyTrace ⟨_, rfl, rfl, rfl, rfl, rfl⟩
  obtain ⟨m, hm, hml, hmr, -⟩ := users_refine_mail shortLink shortGcm_lawful rfl rfl sampleTeller
    sampleKeeper false [] s hrun
  exact ⟨s, hrun, hleft, hright, m, hm, hml.trans hleft', hmr.trans hright'⟩

end Sides

end TcpDuplex.Conn
