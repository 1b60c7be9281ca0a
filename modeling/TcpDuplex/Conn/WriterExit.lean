import TcpDuplex.Conn.Flags

/-!
# A `send_for` call behind an exited writer

Once `write_loop` has returned nobody empties `send_q_`, so a call of `send_for` that starts later
should fail with `closed`. What makes it fail is `closed_`, which only `shutdown` sets. `write_loop`
also returns when a `write_out` fails, and that branch tells nobody. The late calls are refused
exactly when `closed_` was set when the writer left (`lateSendsRefused_iff`).
-/

namespace TcpDuplex.Conn

open Protocol

variable {e : Env} {s t u v : State}

/-- What must not happen to a `send_for` call behind an exited writer: it waits for space in the
queue, or it returns anything but `closed`. -/
def SendPc.misled : SendPc → Bool
  | .park _ _ => true
  | .parked _ _ => true
  | .done ec => ec ≠ Errc.closed.code
  | _ => false

/-- In every continuation, every `send_for` call that starts from now on is refused. -/
def LateSendsRefused (e : Env) (s : State) : Prop :=
  ∀ r i p timed u v, Machine.Run (step e) s r → step e r (.callSend i p timed) = some u →
    Machine.Run (step e) u v → (v.senders i).misled = false

/-! ## A closed connection refuses at once -/

/-- `closed_` is never cleared. -/
theorem closed_of_step {a : Act} (h : step e s a = some t) (hc : s.closed = true) :
    t.closed = true := by
  cases step_inv h with
  | sender h => cases h <;> exact hc
  | receiver h => cases h <;> exact hc
  | shutdown h =>
      cases h with
      | markClosed _ => rfl
      | _ => exact hc
  | writer h => cases h <;> exact hc
  | reader h =>
      cases h with
      | @leave held _ => cases held <;> exact hc
      | _ => exact hc
  | deliver h => cases h <;> exact hc
  | _ => exact hc

theorem closed_of_run (h : Machine.Run (step e) s t) (hc : s.closed = true) : t.closed = true :=
  Machine.Run.invariant (I := fun s => s.closed = true) (fun _ _ _ hI ha => closed_of_step ha hI) h hc

/-- A call on a closed connection has not begun, or has returned `closed`. -/
def RefusedAt (i : ℕ) (p : Bytes) (timed : Bool) (s : State) : Prop :=
  s.closed = true ∧ (s.senders i = .start p timed ∨ s.senders i = .done Errc.closed.code)

/-- A step of another call leaves this one where it is. -/
theorem RefusedAt.setSender {i j : ℕ} {p : Bytes} {timed : Bool} {pc : SendPc}
    (h : RefusedAt i p timed s) (hij : i ≠ j) : RefusedAt i p timed (s.setSender j pc) := by
  refine ⟨h.1, ?_⟩
  simp only [State.setSender, Function.update_of_ne hij]
  exact h.2

/-- A notify does not reach a call that is not parked. -/
theorem RefusedAt.notifySendCv {i : ℕ} {p : Bytes} {timed : Bool} (h : RefusedAt i p timed s) :
    RefusedAt i p timed s.notifySendCv := by
  refine ⟨h.1, ?_⟩
  rcases h.2 with h | h
  · exact Or.inl (by simp only [State.notifySendCv, h, SendPc.wake])
  · exact Or.inr (by simp only [State.notifySendCv, h, SendPc.wake])

/-- The call itself can only return `closed`. -/
theorem RefusedAt.sender {i j : ℕ} {p : Bytes} {timed : Bool} (h : RefusedAt i p timed s)
    (hs : SenderTrans e s j t) : RefusedAt i p timed t := by
  by_cases hij : i = j
  · subst hij
    obtain ⟨hclosed, hpc⟩ := h
    cases hs with
    | refuseClosed _ _ => exact ⟨hclosed, Or.inr (Function.update_self ..)⟩
    | refuseLarge _ hopen _ => simp [hclosed] at hopen
    | enter _ hopen _ => simp [hclosed] at hopen
    | refuseStop hpc' _ _ => simp [hpc'] at hpc
    | push hpc' _ _ _ => simp [hpc'] at hpc
    | timeout hpc' _ _ _ => simp [hpc'] at hpc
    | full hpc' _ _ _ => simp [hpc'] at hpc
    | park hpc' => simp [hpc'] at hpc
  · cases hs with
    | push _ _ _ _ => exact h.notifySendCv.setSender hij
    | _ => exact h.setSender hij

theorem RefusedAt.step {i : ℕ} {p : Bytes} {timed : Bool} {a : Act} (h : RefusedAt i p timed s)
    (ha : step e s a = some t) : RefusedAt i p timed t := by
  have hclosed := closed_of_step ha h.1
  cases step_inv ha with
  | @callSend j _ _ hpc =>
      refine h.setSender ?_
      rintro rfl
      rcases h.2 with h | h <;> simp [hpc] at h
  | @expireSend j _ hpc =>
      refine h.setSender ?_
      rintro rfl
      rcases h.2 with h | h <;> simp [hpc] at h
  | sender hs => exact h.sender hs
  | receiver hs => cases hs <;> exact h
  | shutdown hs =>
      cases hs with
      | notifySend _ => exact h.notifySendCv
      | _ => exact ⟨hclosed, h.2⟩
  | writer hs =>
      cases hs with
      | pop _ _ _ => exact h.notifySendCv
      | _ => exact h
  | reader hs =>
      cases hs with
      | pingPush _ _ _ _ => exact h.notifySendCv
      | @leave held _ => cases held <;> exact h
      | _ => exact h
  | deliver hs => cases hs <;> exact h
  | _ => exact h

/-- On a closed connection a new call stands before its first test or has returned `closed`. -/
theorem refusedAt_of_closed {i : ℕ} {p : Bytes} {timed : Bool} (hclosed : s.closed = true)
    (hcall : step e s (.callSend i p timed) = some u) (hrun : Machine.Run (step e) u v) :
    RefusedAt i p timed v := by
  refine Machine.Run.invariant (I := RefusedAt i p timed) (fun _ _ _ hI ha => hI.step ha) hrun ?_
  cases step_inv hcall with
  | callSend _ => exact ⟨hclosed, Or.inl (Function.update_self ..)⟩

/-- The first step of a call on a closed connection returns `closed`. -/
theorem RefusedAt.returns {i : ℕ} {p : Bytes} {timed : Bool} (h : RefusedAt i p timed s)
    (hpc : s.senders i = .start p timed) :
    Conn.step e s (.sender i) = some (s.setSender i (.done Errc.closed.code)) := by
  simp only [Conn.step, senderStep, hpc, h.1, if_true]

theorem lateSendsRefused_of_closed (hclosed : s.closed = true) : LateSendsRefused e s := by
  intro r i p timed u v hsr hcall huv
  obtain ⟨-, h | h⟩ := refusedAt_of_closed (closed_of_run hsr hclosed) hcall huv
  · rw [h]
    rfl
  · rw [h]
    simp [SendPc.misled]

/-! ## An open connection misleads

If `closed_` is not set, `stop_send_` is not set either, so a new call gets as far as the queue: it
is accepted if there is room and parks if there is none. -/

/-- Only finitely many call numbers are in use. -/
theorem exists_idle_sender (h : Reachable e s) : ∃ n, ∀ i, n ≤ i → s.senders i = .idle := by
  have hupdate : ∀ {s : State} {i : ℕ} {pc : SendPc}, (∃ n, ∀ i, n ≤ i → s.senders i = .idle) →
      ∃ n, ∀ j, n ≤ j → (s.setSender i pc).senders j = .idle := by
    rintro s i pc ⟨n, hn⟩
    refine ⟨max n (i + 1), fun j hj => ?_⟩
    have hji : j ≠ i := by omega
    simp only [State.setSender, Function.update_of_ne hji]
    exact hn j (by omega)
  have hwake : ∀ {s : State}, (∃ n, ∀ i, n ≤ i → s.senders i = .idle) →
      ∃ n, ∀ j, n ≤ j → s.notifySendCv.senders j = .idle := by
    rintro s ⟨n, hn⟩
    exact ⟨n, fun j hj => by simp only [State.notifySendCv, hn j hj, SendPc.wake]⟩
  refine Machine.Run.invariant (I := fun s => ∃ n, ∀ i, n ≤ i → s.senders i = .idle) ?_ h
    ⟨0, fun _ _ => rfl⟩
  intro s a t hI ha
  cases step_inv ha with
  | callSend _ => exact hupdate hI
  | expireSend _ => exact hupdate hI
  | sender hs =>
      cases hs with
      | push _ _ _ _ => exact hupdate (hwake hI)
      | _ => exact hupdate hI
  | receiver hs => cases hs <;> exact hI
  | shutdown hs =>
      cases hs with
      | notifySend _ => exact hwake hI
      | _ => exact hI
  | writer hs =>
      cases hs with
      | pop _ _ _ => exact hwake hI
      | _ => exact hI
  | reader hs =>
      cases hs with
      | pingPush _ _ _ _ => exact hwake hI
      | @leave held _ => cases held <;> exact hI
      | _ => exact hI
  | deliver hs => cases hs <;> exact hI
  | _ => exact hI

/-- A call at the queue of an open connection, with `send_mu_` free, is accepted or parks. -/
theorem misled_of_acquire {i : ℕ} {p : Bytes} (hpc : s.senders i = .acquire p false false)
    (hmu : s.sendMu = none) (hstop : s.stopSend = false) :
    ∃ t, step e s (.sender i) = some t ∧ (t.senders i).misled = true := by
  refine ⟨sendForTest e s i p false false, ?_, ?_⟩
  · simp only [step, senderStep, hpc, hmu, if_true]
  · cases hroom : sendRoom e.cfg s with
    | true =>
        simp only [sendForTest, hstop, hroom, Bool.false_or, if_true, Bool.false_eq_true, if_false,
          State.setSender, Function.update_self, SendPc.misled]
        decide
    | false =>
        simp only [sendForTest, hstop, hroom, Bool.or_self, Bool.false_eq_true, if_false,
          State.setSender, Function.update_self, SendPc.misled]

/-- While `stop_send_` is not set, whoever holds `send_mu_` is about to park and let go of it. -/
theorem release_sendMu {i : ℕ} {p : Bytes} (hL : Locks s) (hF : Flags s)
    (hpc : s.senders i = .acquire p false false) (hstop : s.stopSend = false) :
    ∃ t, Machine.Run (step e) s t ∧ t.senders i = .acquire p false false ∧ t.sendMu = none ∧
      t.stopSend = false := by
  cases hmu : s.sendMu with
  | none => exact ⟨s, Machine.Run.refl s, hpc, hmu, hstop⟩
  | some u =>
      have hheld := hL.send.holds_of_eq hmu
      cases u with
      | sender j =>
          simp only [State.holdsSend] at hheld
          cases hj : s.senders j with
          | park q timed =>
              have hij : i ≠ j := by
                rintro rfl
                simp [hpc] at hj
              refine ⟨{ s.setSender j (.parked q timed) with sendMu := none }, ?_, ?_, rfl, hstop⟩
              · exact (Machine.Run.refl s).snoc (a := .sender j) (by simp only [step, senderStep, hj])
              · simp only [State.setSender, Function.update_of_ne hij, hpc]
          | _ => simp [hj, SendPc.holds] at hheld
      | writer =>
          cases hw : s.writer with
          | park =>
              exact ⟨{ s with sendMu := none, writer := .parked },
                (Machine.Run.refl s).snoc (a := .writer .none) (by simp only [step, writerStep, hw]),
                hpc, rfl, hstop⟩
          | _ => simp [State.holdsSend, hw, WriterPc.holds] at hheld
      | reader =>
          simp only [State.holdsSend] at hheld
          cases hr : s.reader with
          | pingPark pt =>
              exact ⟨{ s with sendMu := none, reader := .pingParked pt },
                (Machine.Run.refl s).snoc (a := .reader .none) (by simp only [step, readerStep, hr]),
                hpc, rfl, hstop⟩
          | _ =>
              -- it gives up, which it does only under `stop_send_`
              have hgive : s.reader.held = .send ∨ s.reader.held = .recvSend := by
                simpa [hr, ReaderPc.holdsSend] using hheld
              simp [hF.held hgive] at hstop
      | _ => simp [State.holdsSend] at hheld

/-- A new call on an open connection can be accepted, or parks. -/
theorem not_lateSendsRefused (h : Reachable e s) (hclosed : s.closed = false) :
    ¬ LateSendsRefused e s := by
  intro hlate
  obtain ⟨n, hn⟩ := exists_idle_sender h
  have hidle : s.senders n = .idle := hn n le_rfl
  -- the call starts, passes the tests of `closed_` and of the size, and wants `send_mu_`
  have hcall : step e s (.callSend n [] false) = some (s.setSender n (.start [] false)) := by
    simp only [step, hidle]
  have hsize : sizeOk e.cfg ([] : Bytes).length = true := by
    have hpos := e.cfg.maxMessageBytes_pos
    simpa [sizeOk, castInt] using Int32.le_of_lt hpos
  have hfirst : step e (s.setSender n (.start [] false)) (.sender n) =
      some ((s.setSender n (.start [] false)).setSender n (.acquire [] false false)) := by
    have hstart : (s.setSender n (.start [] false)).senders n = .start [] false :=
      Function.update_self ..
    have hopen : (s.setSender n (.start [] false)).closed = false := hclosed
    simp only [step, senderStep, hstart, hopen, hsize, Bool.false_eq_true, if_false, if_true]
  have hreach := (h.snoc hcall).snoc hfirst
  set w := (s.setSender n (.start [] false)).setSender n (.acquire [] false false) with hw
  have hF := flags_reachable hreach
  have hstop : w.stopSend = false := by
    by_contra hc
    have hc' := hF.closed_of_stopSend (by simpa using hc)
    rw [show w.closed = s.closed from rfl, hclosed] at hc'
    cases hc'
  obtain ⟨r, hrun, hpc, hmu, hstop'⟩ := release_sendMu (e := e) (locks_reachable hreach).2 hF
    (Function.update_self ..) hstop
  obtain ⟨v, hv, hmisled⟩ := misled_of_acquire (e := e) hpc hmu hstop'
  have hfalse := hlate s n [] false _ v (Machine.Run.refl s) hcall
    ((((Machine.Run.refl _).snoc hfirst).trans hrun).snoc hv)
  rw [hmisled] at hfalse
  cases hfalse

/-! ## The writer's exit -/

/-- The condition on a step: `write_loop` returns only when `closed_` is set. -/
def exitsClosed (s : State) : Act → Bool
  | .writer .none =>
    match s.writer with
    | .notifyDone => s.closed
    | _ => true
  | _ => true

/-- An exited writer left a closed connection behind. -/
def ExitedClosed (s : State) : Prop := s.writer = .exited → s.closed = true

/-- Only its own last step makes `write_loop` exited. -/
theorem exit_step {a : Act} (ha : step e s a = some t) (hs : s.writer ≠ .exited)
    (ht : t.writer = .exited) :
    a = .writer .none ∧ s.writer = .notifyDone ∧ t.closed = s.closed := by
  by_cases hne : ∀ io, a ≠ .writer io
  · have hwake : s.writer.wake = .exited → s.writer = .exited := by
      cases s.writer <;> simp [WriterPc.wake]
    rcases writer_of_step ha hne with h | h
    · exact absurd (h ▸ ht) hs
    · exact absurd (hwake (h ▸ ht)) hs
  · cases step_inv ha with
    | writer h =>
        cases h with
        | notifyDone hpc => exact ⟨rfl, hpc, rfl⟩
        | @sentAll site _ _ _ => cases site <;> cases ht
        | _ => cases ht
    | _ => simp at hne

theorem ExitedClosed.step {a : Act} (hI : ExitedClosed s) (hG : exitsClosed s a = true)
    (ha : step e s a = some t) : ExitedClosed t := by
  intro ht
  by_cases hs : s.writer = .exited
  · exact closed_of_step ha (hI hs)
  · obtain ⟨rfl, hpc, hclosed⟩ := exit_step ha hs ht
    simp only [exitsClosed, hpc] at hG
    rw [hclosed, hG]

/-- **A dead writer is visible**: in every run in which `write_loop` returns only once `closed_` is
set, every `send_for` call behind its exit is refused, by its first step. The step with which the
writer leaves keeps it so exactly when `closed_` is set then. -/
theorem lateSends_refused_iff_exitsClosed
    (h : Machine.GRun (step e) (fun s a => exitsClosed s a = true) (init e.cfg) s) :
    (s.writer = .exited →
      LateSendsRefused e s ∧
        ∀ r i p timed u v, Machine.Run (step e) s r → step e r (.callSend i p timed) = some u →
          Machine.Run (step e) u v → v.senders i = .start p timed →
            step e v (.sender i) = some (v.setSender i (.done Errc.closed.code))) ∧
    ∀ a t, step e s a = some t → s.writer ≠ .exited → t.writer = .exited →
      (LateSendsRefused e t ↔ exitsClosed s a = true) := by
  refine ⟨fun hw => ?_, fun a t ha hs ht => ?_⟩
  · have hclosed : s.closed = true :=
      Machine.GRun.invariant (I := ExitedClosed) (fun _ _ _ hI hG ha => hI.step hG ha) h
        (fun h => by cases h) hw
    refine ⟨lateSendsRefused_of_closed hclosed, fun r i p timed u v hsr hcall huv hpc => ?_⟩
    exact (refusedAt_of_closed (closed_of_run hsr hclosed) hcall huv).returns hpc
  · obtain ⟨rfl, hpc, hclosed⟩ := exit_step ha hs ht
    simp only [exitsClosed, hpc, ← hclosed]
    constructor
    · intro hlate
      by_contra hopen
      exact not_lateSendsRefused (h.run.snoc ha) (by simpa using hopen) hlate
    · exact lateSendsRefused_of_closed

/-- A connection with the default configuration. -/
def defaultEnv : Env where
  cfg := freezeConfig none
  gcm := shortGcm
  sess := ⟨List.replicate 32 0⟩

/-- One message is accepted, the socket fails under it and `write_loop` returns. -/
def deadWriterTrace : List Act :=
  [.callSend 0 [1] false, .sender 0, .sender 0, .writer .none,
    .writer (.nonce (some (nonceEndingIn 1))), .writer .failed, .writer .none,
    .writer .none]

/-- Behind that exit the next call of `send_for` returns success. -/
theorem deadWriterTrace_misleads :
    ¬ ∀ (e : Env) (s : State), Reachable e s → s.writer = .exited → LateSendsRefused e s := by
  intro h
  obtain ⟨s, hrun, hexit, u, hcall, v, huv, hmisled⟩ :
      ∃ s, Reachable defaultEnv s ∧ s.writer = .exited ∧
        ∃ u, step defaultEnv s (.callSend 1 [2] false) = some u ∧
          ∃ v, Machine.Run (step defaultEnv) u v ∧ v.senders 1 = .done .success :=
    Machine.exists_run_of_exec deadWriterTrace
      ⟨_, rfl, rfl, _, rfl, Machine.exists_run_of_exec [.sender 1, .sender 1] ⟨_, rfl, rfl⟩⟩
  have hfalse := h defaultEnv s hrun hexit s 1 [2] false u v (Machine.Run.refl s) hcall huv
  rw [hmisled] at hfalse
  revert hfalse
  decide

/-- A graceful close: `shutdown` sets its flags, then `write_loop` writes Close and returns. -/
def closeTrace : List Act :=
  [.callShutdown false, .shutdown, .shutdown, .shutdown, .writer .none, .writer .none,
    .writer (.nonce (some (nonceEndingIn 0))), .writer (.sent 33), .writer .none,
    .writer .none]

theorem lateSends_refused_after_close :
    ∃ s, Machine.GRun (step defaultEnv) (fun s a => exitsClosed s a = true)
        (init defaultEnv.cfg) s ∧ s.writer = .exited ∧ LateSendsRefused defaultEnv s := by
  obtain ⟨s, hexec, hexit⟩ : ∃ s, Machine.gexec (step defaultEnv) exitsClosed
      (init defaultEnv.cfg) closeTrace = some s ∧ s.writer = .exited := ⟨_, rfl, rfl⟩
  have hrun := Machine.grun_of_gexec _ hexec
  exact ⟨s, hrun, hexit, ((lateSends_refused_iff_exitsClosed hrun).1 hexit).1⟩

end TcpDuplex.Conn
