import TcpDuplex.Conn.Trans

/-!
# Calls of `send_for` and `receive_for`

For the application a call runs and then has a result. A step of the connection gives at most one call its
result; a `send_for` that succeeds has then appended its payload, and a `receive_for` that succeeds has
popped it (`callTrans_of_step`).
-/

namespace TcpDuplex.Conn

open Protocol

/-- How far a call has got. -/
inductive CallPhase (α β : Type) where
  | idle
  | running (arg : α)
  | done (result : β)

def SendPc.phase : SendPc → CallPhase Bytes ErrorCode
  | .idle => .idle
  | .start p _ => .running p
  | .acquire p _ _ => .running p
  | .park p _ => .running p
  | .parked p _ => .running p
  | .done ec => .done ec

def RecvPc.phase : RecvPc → CallPhase Unit (Except ErrorCode Bytes)
  | .idle => .idle
  | .start _ => .running ()
  | .acquire _ _ => .running ()
  | .park _ => .running ()
  | .parked _ => .running ()
  | .done r => .done r

@[simp]
theorem SendPc.phase_wake (pc : SendPc) : pc.wake.phase = pc.phase := by
  cases pc <;> rfl

@[simp]
theorem RecvPc.phase_wake (pc : RecvPc) : pc.wake.phase = pc.phase := by
  cases pc <;> rfl

/-- The payloads that a call of `send_for` with this result has appended to `send_q_`. -/
def sentBy (p : Bytes) (ec : ErrorCode) : List Bytes := if ec.failed then [] else [p]

/-- The payloads that a call of `receive_for` with this result has popped from `recv_q_`. -/
def poppedBy : Except ErrorCode Bytes → List Bytes
  | .ok p => [p]
  | .error _ => []

/-- What a step of a connection can do to the calls: nothing, or give one of them its result. -/
inductive CallTrans (s t : State) : Prop where
  | none (hsend : ∀ i, (t.senders i).phase = (s.senders i).phase)
      (hrecv : ∀ i, (t.receivers i).phase = (s.receivers i).phase)
      (hacc : t.hist.accepted = s.hist.accepted) (hpop : t.hist.popped = s.hist.popped)
  | sent (i : ℕ) (p : Bytes) (ec : ErrorCode) (hrun : (s.senders i).phase = .running p)
      (hdone : (t.senders i).phase = .done ec)
      (hsend : ∀ j, j ≠ i → (t.senders j).phase = (s.senders j).phase)
      (hrecv : ∀ j, (t.receivers j).phase = (s.receivers j).phase)
      (hacc : t.hist.accepted = s.hist.accepted ++ sentBy p ec)
      (hpop : t.hist.popped = s.hist.popped)
  | received (i : ℕ) (r : Except ErrorCode Bytes) (hrun : (s.receivers i).phase = .running ())
      (hdone : (t.receivers i).phase = .done r) (hfail : ∀ ec, r = .error ec → ec.failed = true)
      (hsend : ∀ j, (t.senders j).phase = (s.senders j).phase)
      (hrecv : ∀ j, j ≠ i → (t.receivers j).phase = (s.receivers j).phase)
      (hacc : t.hist.accepted = s.hist.accepted)
      (hpop : t.hist.popped = s.hist.popped ++ poppedBy r)

section Calls

variable {e : Env} {s t : State} {i : ℕ}

@[simp]
theorem senders_setSender (s : State) (i : ℕ) (pc : SendPc) : (s.setSender i pc).senders i = pc :=
  Function.update_self ..

theorem senders_setSender_of_ne (s : State) {i j : ℕ} (pc : SendPc) (h : j ≠ i) :
    (s.setSender i pc).senders j = s.senders j :=
  Function.update_of_ne h ..

@[simp]
theorem receivers_setReceiver (s : State) (i : ℕ) (pc : RecvPc) :
    (s.setReceiver i pc).receivers i = pc :=
  Function.update_self ..

theorem receivers_setReceiver_of_ne (s : State) {i j : ℕ} (pc : RecvPc) (h : j ≠ i) :
    (s.setReceiver i pc).receivers j = s.receivers j :=
  Function.update_of_ne h ..

/-- A call that moves on and is not done. -/
theorem phase_setSender_of_running {p : Bytes} {pc : SendPc} (hrun : (s.senders i).phase = .running p)
    (hpc : pc.phase = .running p) (j : ℕ) :
    ((s.setSender i pc).senders j).phase = (s.senders j).phase := by
  by_cases hj : j = i
  · rw [hj, senders_setSender, hpc, hrun]
  · rw [senders_setSender_of_ne s pc hj]

theorem phase_setReceiver_of_running {pc : RecvPc} (hrun : (s.receivers i).phase = .running ())
    (hpc : pc.phase = .running ()) (j : ℕ) :
    ((s.setReceiver i pc).receivers j).phase = (s.receivers j).phase := by
  by_cases hj : j = i
  · rw [hj, receivers_setReceiver, hpc, hrun]
  · rw [receivers_setReceiver_of_ne s pc hj]

/-- A `send_for` that returns an error. -/
theorem callTrans_refused {p : Bytes} {ec : ErrorCode} (hrun : (s.senders i).phase = .running p)
    (hfailed : ec.failed = true) : CallTrans s (s.setSender i (.done ec)) := by
  refine .sent i p ec hrun (by rw [senders_setSender]; rfl) ?_ (fun _ => rfl) ?_ rfl
  · intro j hj
    rw [senders_setSender_of_ne s _ hj]
  · rw [sentBy, if_pos hfailed, List.append_nil]
    rfl

/-- A `receive_for` that returns an error. -/
theorem callTrans_notReceived {ec : ErrorCode} (hrun : (s.receivers i).phase = .running ())
    (hfailed : ec.failed = true) : CallTrans s (s.finishReceive i (.error ec)) := by
  refine .received i (.error ec) hrun (congrArg RecvPc.phase (receivers_setReceiver s i _)) ?_
    (fun _ => rfl) ?_ rfl (List.append_nil _).symm
  · rintro ec' ⟨⟩
    exact hfailed
  · intro j hj
    exact congrArg RecvPc.phase (receivers_setReceiver_of_ne s _ hj)

theorem SenderTrans.callTrans (h : SenderTrans e s i t) : CallTrans s t := by
  cases h with
  | refuseClosed hpc _ => exact callTrans_refused (congrArg SendPc.phase hpc) rfl
  | refuseLarge hpc _ _ => exact callTrans_refused (congrArg SendPc.phase hpc) rfl
  | refuseStop hpc _ _ => exact callTrans_refused (congrArg SendPc.phase hpc) rfl
  | timeout hpc _ _ _ => exact callTrans_refused (congrArg SendPc.phase hpc) rfl
  | enter hpc _ _ =>
    exact .none (phase_setSender_of_running (congrArg SendPc.phase hpc) rfl) (fun _ => rfl) rfl rfl
  | full hpc _ _ _ =>
    exact .none (phase_setSender_of_running (congrArg SendPc.phase hpc) rfl) (fun _ => rfl) rfl rfl
  | park hpc =>
    exact .none (phase_setSender_of_running (congrArg SendPc.phase hpc) rfl) (fun _ => rfl) rfl rfl
  | @push p _ _ hpc _ _ _ =>
    refine .sent i p .success (congrArg SendPc.phase hpc)
      (congrArg SendPc.phase (senders_setSender _ i _)) ?_ (fun _ => rfl) rfl rfl
    intro j hj
    exact (congrArg SendPc.phase (senders_setSender_of_ne _ _ hj)).trans (SendPc.phase_wake _)

theorem ReceiverTrans.callTrans (h : ReceiverTrans e s i t) : CallTrans s t := by
  cases h with
  | disabled hpc _ => exact callTrans_notReceived (congrArg RecvPc.phase hpc) rfl
  | fail hpc _ _ _ =>
    refine callTrans_notReceived (congrArg RecvPc.phase hpc) ?_
    split_ifs with hfailed
    · exact hfailed
    · rfl
  | timeout hpc _ _ _ => exact callTrans_notReceived (congrArg RecvPc.phase hpc) rfl
  | enter hpc _ =>
    exact .none (fun _ => rfl) (phase_setReceiver_of_running (congrArg RecvPc.phase hpc) rfl) rfl rfl
  | empty hpc _ _ _ =>
    exact .none (fun _ => rfl) (phase_setReceiver_of_running (congrArg RecvPc.phase hpc) rfl) rfl rfl
  | park hpc =>
    exact .none (fun _ => rfl) (phase_setReceiver_of_running (congrArg RecvPc.phase hpc) rfl) rfl rfl
  | @pop _ _ p _ hpc _ _ =>
    refine .received i (.ok p) (congrArg RecvPc.phase hpc)
      (congrArg RecvPc.phase (receivers_setReceiver _ i _)) nofun (fun _ => rfl) ?_ rfl rfl
    intro j hj
    exact congrArg RecvPc.phase (receivers_setReceiver_of_ne s _ hj)

/-- A step that leaves the calls alone, but for waking them. -/
theorem callTrans_of_wake (hsend : ∀ i, t.senders i = s.senders i ∨ t.senders i = (s.senders i).wake)
    (hrecv : ∀ i, t.receivers i = s.receivers i ∨ t.receivers i = (s.receivers i).wake)
    (hacc : t.hist.accepted = s.hist.accepted) (hpop : t.hist.popped = s.hist.popped) :
    CallTrans s t := by
  refine .none (fun i => ?_) (fun i => ?_) hacc hpop
  · rcases hsend i with h | h
    · rw [h]
    · rw [h, SendPc.phase_wake]
  · rcases hrecv i with h | h
    · rw [h]
    · rw [h, RecvPc.phase_wake]

/-- The step of an application: a new call of `send_for` or `receive_for`. -/
def Act.isCall : Act → Bool
  | .callSend _ _ _ => true
  | .callReceive _ _ => true
  | _ => false

theorem callTrans_of_step {a : Act} (hcall : a.isCall = false) (h : step e s a = some t) :
    CallTrans s t := by
  have hstay : ∀ {u : State}, u.senders = s.senders → u.receivers = s.receivers →
      u.hist.accepted = s.hist.accepted → u.hist.popped = s.hist.popped → CallTrans s u := by
    intro u hs hr hacc hpop
    refine callTrans_of_wake (fun i => .inl ?_) (fun i => .inl ?_) hacc hpop
    · rw [hs]
    · rw [hr]
  cases step_inv h with
  | callSend _ => cases hcall
  | callReceive _ => cases hcall
  | callShutdownAgain _ => exact hstay rfl rfl rfl rfl
  | callShutdown _ => exact hstay rfl rfl rfl rfl
  | expireSend hpc =>
    exact .none (phase_setSender_of_running (congrArg SendPc.phase hpc) rfl) (fun _ => rfl) rfl rfl
  | expireReceive hpc =>
    exact .none (fun _ => rfl) (phase_setReceiver_of_running (congrArg RecvPc.phase hpc) rfl) rfl rfl
  | expireShutdown _ => exact hstay rfl rfl rfl rfl
  | sender h => exact h.callTrans
  | receiver h => exact h.callTrans
  | shutdown h =>
    cases h with
    | notifySend _ => exact callTrans_of_wake (fun _ => .inr rfl) (fun _ => .inl rfl) rfl rfl
    | _ => exact hstay rfl rfl rfl rfl
  | writer h =>
    cases h with
    | pop _ _ _ => exact callTrans_of_wake (fun _ => .inr rfl) (fun _ => .inl rfl) rfl rfl
    | _ => exact hstay rfl rfl rfl rfl
  | reader h =>
    cases h with
    | pingPush _ _ _ _ => exact callTrans_of_wake (fun _ => .inr rfl) (fun _ => .inl rfl) rfl rfl
    | textPush _ _ _ _ => exact callTrans_of_wake (fun _ => .inl rfl) (fun _ => .inr rfl) rfl rfl
    | abortFirst _ _ _ => exact callTrans_of_wake (fun _ => .inl rfl) (fun _ => .inr rfl) rfl rfl
    | @leave held _ => cases held <;> exact hstay rfl rfl rfl rfl
    | _ => exact hstay rfl rfl rfl rfl
  | deliver h => cases h <;> exact hstay rfl rfl rfl rfl

end Calls

end TcpDuplex.Conn
