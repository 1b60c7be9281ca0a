import TcpDuplex.Transfer.Mirror
import TcpDuplex.Transfer.Reconnect

/-!
# A resumed transfer loses, repeats and misplaces nothing

The resume offset passes through three places: `written_out` of an attempt, the loop of `receive`, and
the Accept that restarts the sender. `Resuming` ties them together over any number of connections:
every frame on its way to the receiver is honest, the sink equals the source below `written`, and a
Done with `ok` is on its way back only once the receiver has decided success.
-/

namespace TcpDuplex.Transfer

open Machine

/-! ## The sender's call -/

/-- The metadata that every attempt offers. -/
def SendCallEnv.filled (e : SendCallEnv) : Meta where
  id := e.id
  name := e.info.name
  size := e.info.size
  hash :=
    if isZeroHash e.info.hash then e.sha256 (e.source.read 0 e.info.size.toNat) else e.info.hash

/-- The invariant of a call of `send`. -/
def SendCall.Ok (e : SendCallEnv) (c : SendCall) : Prop :=
  match c.pc with
  | .hash off ctx =>
    c.info = { e.info with id := e.id } ∧ isZeroHash e.info.hash = true ∧ off < e.info.size ∧
      Covers e.source ctx off
  | .once conn s => c.info = e.filled ∧ s.pc.InRange (e.attempt e.filled conn)
  | .redial => c.info = e.filled
  | .ret _ => True

/-- The call has returned success, or its attempt has. -/
def SendCall.Succeeded (c : SendCall) : Prop :=
  match c.pc with
  | .ret err => err.failed = false
  | .once _ s => ∃ err, s.pc = .ret err ∧ err.failed = false
  | _ => False

variable {es : SendCallEnv} {er : RecvCallEnv}

theorem failed_encodeOffer {m : Meta} {err : ErrorCode} (h : encodeOffer m = .error err) :
    err.failed = true := by
  unfold encodeOffer at h
  split_ifs at h <;> cases h <;> rfl

theorem ok_sendAttempt {c : SendCall} (h : c.info = es.filled) (conn : ℕ) :
    (c.attempt es conn).Ok es := by
  simp only [SendCall.attempt]
  split
  · trivial
  · exact ⟨h, by rw [h]; exact inRange_start _⟩

theorem not_succeeded_sendAttempt (c : SendCall) (conn : ℕ) : ¬(c.attempt es conn).Succeeded := by
  simp only [SendCall.attempt]
  split
  · simp only [SendCall.Succeeded]
    split
    · rename_i hfail
      simp [hfail]
    · decide
  · rintro ⟨err, hpc, hok⟩
    cases henc : encodeOffer c.info with
    | error err' =>
      have hfail := failed_encodeOffer henc
      simp only [SendState.start, SendCallEnv.attempt, henc, SendPc.ret.injEq] at hpc
      rw [← hpc, hfail] at hok
      cases hok
    | ok msg => simp [SendState.start, SendCallEnv.attempt, henc] at hpc

theorem ok_sendHashHead {c : SendCall} (hinfo : c.info = { es.info with id := es.id })
    (hzero : isZeroHash es.info.hash = true) {off : ℤ} {ctx : Bytes} (hle : off ≤ es.info.size)
    (hcov : Covers es.source ctx off) : (c.hashHead es off ctx).Ok es := by
  unfold SendCall.hashHead
  split
  · rename_i hlt
    rw [hinfo] at hlt
    exact ⟨hinfo, hzero, hlt, hcov⟩
  · rename_i hge
    rw [hinfo] at hge
    obtain rfl : off = es.info.size := le_antisymm hle (not_lt.mp hge)
    refine ok_sendAttempt ?_ 0
    simp only [hinfo, SendCallEnv.filled, hzero, if_true, hcov.hashed_eq]

theorem not_succeeded_sendHashHead (c : SendCall) (off : ℤ) (ctx : Bytes) :
    ¬(c.hashHead es off ctx).Succeeded := by
  unfold SendCall.hashHead
  split
  · exact id
  · exact not_succeeded_sendAttempt _ _

theorem ok_sendStart (es : SendCallEnv) : (SendCall.start es).Ok es := by
  simp only [SendCall.start]
  split_ifs with hneg hzero
  · trivial
  · exact ok_sendHashHead rfl hzero (not_lt.mp hneg) (covers_zero _)
  · refine ok_sendAttempt ?_ 0
    simp only [SendCallEnv.filled, hzero, Bool.false_eq_true, if_false]

theorem not_succeeded_sendStart (es : SendCallEnv) : ¬(SendCall.start es).Succeeded := by
  simp only [SendCall.start]
  split_ifs
  · exact fun h => by cases h
  · exact not_succeeded_sendHashHead _ _ _
  · exact not_succeeded_sendAttempt _ _

theorem SendCall.Ok.step {c c' : SendCall} {ev : SendCallEv} (h : c.Ok es)
    (hstep : sendCallStep es c ev = some c') : c'.Ok es := by
  cases sendCallTrans_of_step hstep with
  | readFailed => trivial
  | read off ctx block ec hpc hblock =>
    simp only [SendCall.Ok, hpc] at h
    obtain ⟨hinfo, hzero, hlt, hcov⟩ := h
    rw [hinfo] at hblock
    obtain ⟨hle, hnext⟩ := hcov.block hlt hblock
    exact ok_sendHashHead hinfo hzero hle hnext
  | once conn s s' ev hpc hs =>
    simp only [SendCall.Ok, hpc] at h
    obtain ⟨hinfo, hrange⟩ := h
    rw [hinfo] at hs
    exact ⟨hinfo, hrange.step hs⟩
  | leave conn s err hpc hret =>
    simp only [SendCall.Ok, hpc] at h
    simp only [SendCall.onResult]
    split_ifs
    · trivial
    · trivial
    · exact h.1
  | noConn => trivial
  | redialed conn hpc =>
    simp only [SendCall.Ok, hpc] at h
    exact ok_sendAttempt h conn

/-! ### Success -/

/-- A Done frame that says `ok`. -/
def DoneOk (msg : Bytes) : Prop :=
  ∃ dec, decodeFrame msg = .ok dec ∧ dec.typ = kTypeDone ∧ dec.ok = true

/-- The attempt has not returned success. -/
def SendPc.Unsuccessful : SendPc → Prop
  | .ret err => err.failed = true
  | _ => True

theorem unsuccessful_windowHead (e : SendEnv) (acked nextOff : ℤ) :
    (windowHead e acked nextOff).Unsuccessful := by
  unfold windowHead fillHead
  split_ifs <;> trivial

theorem unsuccessful_onAccept (e : SendEnv) (msg : Bytes) : (onAccept e msg).pc.Unsuccessful := by
  have h := onAccept_outcome e msg
  generalize onAccept e msg = next at h ⊢
  cases h with
  | failed err herr => exact herr
  | resumes => exact unsuccessful_windowHead _ _ _

theorem unsuccessful_onAck (e : SendEnv) (acked nextOff : ℤ) (msg : Bytes) :
    (onAck e acked nextOff msg).pc.Unsuccessful := by
  have h := onAck_outcome e acked nextOff msg
  generalize onAck e acked nextOff msg = next at h ⊢
  cases h with
  | failed err herr => exact herr
  | moves => exact unsuccessful_windowHead _ _ _

theorem unsuccessful_onReply (e : SendEnv) (msg : Bytes) :
    (onReply e msg).pc.Unsuccessful ∨ DoneOk msg := by
  have h := onReply_outcome e msg
  generalize onReply e msg = next at h ⊢
  cases h with
  | failed err herr => exact .inl herr
  | confirmed dec hdec htyp _ hok => exact .inr ⟨dec, hdec, htyp, hok⟩

/-- An attempt to send succeeds only on a Done with `ok`. -/
theorem unsuccessful_of_sendStep {e : SendEnv} {s t : SendState} {ev : SendEv}
    (hstep : sendStep e s ev = some t) :
    t.pc.Unsuccessful ∨ ∃ msg, ev = .received (.ok msg) ∧ DoneOk msg := by
  cases sendTrans_of_step hstep with
  | lost ec _ hec => exact .inl (failed_mapConnErr hec)
  | message msg hwait =>
    generalize s.pc = pc at hwait ⊢
    cases pc with
    | accept => exact .inl (unsuccessful_onAccept e msg)
    | ack acked nextOff => exact .inl (unsuccessful_onAck e acked nextOff msg)
    | reply => exact (unsuccessful_onReply e msg).imp id fun h => ⟨msg, rfl, h⟩
    | _ => cases hwait
  | sendFailed _ ec _ hec => exact .inl (failed_mapConnErr hec)
  | sent msg ec hout _ =>
    refine .inl ?_
    generalize s.pc = pc at hout ⊢
    cases pc with
    | offer msg' => trivial
    | chunk acked nextOff data =>
      simp only [SendPc.onSent, fillHead]
      split <;> trivial
    | done => trivial
    | _ => cases hout
  | readFailed acked nextOff ec hpc hec => exact .inl hec
  | read acked nextOff ec hpc hec => exact .inl trivial

/-- A call of `send` comes to success only on a Done with `ok`. -/
theorem succeeded_of_step {c c' : SendCall} {ev : SendCallEv}
    (hstep : sendCallStep es c ev = some c') (h : c'.Succeeded) :
    c.Succeeded ∨ ∃ msg, ev = .once (.received (.ok msg)) ∧ DoneOk msg := by
  cases sendCallTrans_of_step hstep with
  | readFailed off ctx ec hpc hec => cases hec.symm.trans h
  | read off ctx block ec _ _ => exact absurd h (not_succeeded_sendHashHead _ _ _)
  | once conn s s' ev hpc hs =>
    obtain ⟨err, hret, hok⟩ := h
    rcases unsuccessful_of_sendStep hs with hun | ⟨msg, rfl, hdone⟩
    · rw [hret] at hun
      cases hun.symm.trans hok
    · exact .inr ⟨msg, rfl, hdone⟩
  | leave conn s err hpc hret =>
    refine .inl ?_
    simp only [SendCall.Succeeded, hpc]
    refine ⟨err, hret, ?_⟩
    by_contra hfail
    simp only [SendCall.onResult, Bool.not_eq_false] at h hfail
    simp only [hfail, Bool.not_true, Bool.false_eq_true, if_false] at h
    split_ifs at h
    · cases hfail.symm.trans h
    · exact h
  | noConn => cases h
  | redialed conn _ => exact absurd h (not_succeeded_sendAttempt _ _)

/-! ## The receiver's call -/

/-- The sink, wherever the call is. -/
def RecvCall.store (c : RecvCall) : Store :=
  match c.pc with
  | .once _ s => s.store
  | _ => c.sink

/-- The call has returned success, or its attempt has: all that is left is to return it. -/
def RecvCall.Decided (c : RecvCall) : Prop :=
  match c.pc with
  | .ret err => err.failed = false
  | .once _ s => ∃ err m written, s.pc = .ret err m written ∧ err.failed = false
  | .redial => False

/-- The invariant of a call of `receive` that is fed honest frames. -/
structure RecvCall.Ok (es : SendCallEnv) (er : RecvCallEnv) (c : RecvCall) : Prop where
  nonneg : 0 ≤ c.written
  le_size : c.written ≤ es.info.size
  agree : c.store.Agree es.source c.written
  attempt : ∀ conn s, c.pc = .once conn s →
    s.Sound (er.attempt c) ∧ (∀ msg ∈ s.received, Honest es.filled es.source msg) ∧
      s.Mirrors (er.attempt c) es.source es.info.size
  decided : c.Decided → c.store.Agree es.source es.info.size

/-- The first frame of an attempt that is fed honest frames can only be the sender's offer. -/
theorem eq_filled_of_offered (hsize : es.info.size < 2 ^ 63) {received : List Bytes} {m : Meta}
    (hhonest : ∀ msg ∈ received, Honest es.filled es.source msg) (h : Offered received m) :
    m = es.filled := by
  obtain ⟨msg, dec, hhead, hdec, htyp, rfl⟩ := h
  exact (hhonest msg (List.mem_of_mem_head? hhead)).info_eq hsize hdec htyp

/-- No attempt is going on. -/
def RecvCallPc.Idle : RecvCallPc → Prop
  | .once .. => False
  | _ => True

/-- Between two attempts, and behind the last. -/
theorem ok_of_sink {c : RecvCall} (hidle : c.pc.Idle) (hnonneg : 0 ≤ c.written)
    (hle : c.written ≤ es.info.size) (hagree : c.sink.Agree es.source c.written)
    (hdecided : c.Decided → c.sink.Agree es.source es.info.size) : c.Ok es er := by
  have hpc : ∀ conn s, c.pc ≠ .once conn s := by
    intro conn s honce
    rw [honce] at hidle
    exact hidle
  have hstore : c.store = c.sink := by
    unfold RecvCall.store
    split
    · rename_i conn s h
      exact absurd h (hpc conn s)
    · rfl
  exact ⟨hnonneg, hle, hstore ▸ hagree, fun conn s h => absurd h (hpc conn s), hstore ▸ hdecided⟩

/-- In an attempt. -/
theorem ok_of_once (hsize : es.info.size < 2 ^ 63) {c : RecvCall} {conn : ℕ} {s : RecvState}
    (hpc : c.pc = .once conn s) (hnonneg : 0 ≤ c.written) (hle : c.written ≤ es.info.size)
    (hsound : s.Sound (er.attempt c))
    (hhonest : ∀ msg ∈ s.received, Honest es.filled es.source msg)
    (hmirrors : s.Mirrors (er.attempt c) es.source es.info.size) : c.Ok es er := by
  have hstore : c.store = s.store := by simp only [RecvCall.store, hpc]
  refine ⟨hnonneg, hle, ?_, ?_, ?_⟩
  · rw [hstore]
    exact hmirrors.agree.mono hmirrors.resume_le
  · intro conn' s' h
    obtain ⟨_, rfl⟩ := RecvCallPc.once.inj (hpc.symm.trans h)
    exact ⟨hsound, hhonest, hmirrors⟩
  · intro hdec
    simp only [RecvCall.Decided, hpc] at hdec
    obtain ⟨err, m, written, hret, hok⟩ := hdec
    have hagree := hmirrors.agree
    simp only [RecvState.Sound, hret] at hsound
    simp only [hret, RecvPc.position] at hagree
    obtain ⟨hwritten, sum, theirs, hver⟩ := hsound hok
    have hm := eq_filled_of_offered hsize hhonest hver.offered
    rw [hwritten, hm] at hagree
    rw [hstore]
    exact hagree

theorem ok_recvAttempt (hsize : es.info.size < 2 ^ 63) {c : RecvCall} (hnonneg : 0 ≤ c.written)
    (hle : c.written ≤ es.info.size) (hagree : c.sink.Agree es.source c.written) (conn : ℕ) :
    (c.attempt er conn).Ok es er := by
  simp only [RecvCall.attempt]
  split
  · refine ok_of_sink trivial hnonneg hle hagree fun hdec => ?_
    simp only [RecvCall.Decided] at hdec
    split at hdec
    · rename_i hfail
      cases hfail.symm.trans hdec
    · cases hdec
  · exact ok_of_once hsize rfl hnonneg hle ⟨rfl, rfl⟩ nofun ⟨le_rfl, hle, hagree, trivial⟩

theorem ok_recvStart (hpos : 0 ≤ es.info.size) (hsize : es.info.size < 2 ^ 63)
    (hres : er.resumeOffset = 0) (sink : Store) : (RecvCall.start er sink).Ok es er := by
  simp only [RecvCall.start, hres, lt_self_iff_false, if_false]
  exact ok_recvAttempt hsize le_rfl hpos (Store.agree_zero _ _) 0

theorem received_of_recvStep {e : RecvEnv} {s t : RecvState} {ev : RecvEv}
    (hstep : recvStep e s ev = some t) :
    t.received = s.received ∨
      ∃ msg, ev = .received (.ok msg) ∧ t.received = s.received ++ [msg] := by
  cases recvTrans_of_step hstep with
  | message msg _ => exact .inr ⟨msg, rfl, rfl⟩
  | sent => exact .inl (RecvState.reportSent_received _ _)
  | wrote => exact .inl (RecvState.report_received _ _ _ _)
  | _ => exact .inl rfl

theorem RecvCall.Ok.step (hsize : es.info.size < 2 ^ 63) {c c' : RecvCall} {ev : RecvCallEv}
    (h : c.Ok es er)
    (hmsg : ∀ msg, ev = .once (.received (.ok msg)) → Honest es.filled es.source msg)
    (hstep : recvCallStep er c ev = some c') : c'.Ok es er := by
  obtain ⟨hnonneg, hle, hagree, hattempt, hdecided⟩ := h
  cases recvCallTrans_of_step hstep with
  | once conn s s' ev hpc hs =>
    obtain ⟨hsound, hhonest, hmirrors⟩ := hattempt conn s hpc
    have hchunk : ∀ msg, ev = .received (.ok msg) → ChunkOf es.source msg :=
      fun msg hev dec hdec htyp => (hmsg msg (by rw [hev])).data_eq (m := es.filled) hsize hdec htyp
    have hoffer : ∀ m, Offered s.received m → m.size = es.info.size := by
      intro m hoff
      rw [eq_filled_of_offered hsize hhonest hoff]
      rfl
    refine ok_of_once hsize rfl hnonneg hle (hsound.step hnonneg hs) ?_
      (hmirrors.step hsound hoffer hchunk hs)
    rcases received_of_recvStep hs with heq | ⟨msg, rfl, heq⟩
    · rwa [heq]
    · rw [heq]
      intro msg' hmem
      rcases List.mem_append.mp hmem with hold | hnew
      · exact hhonest msg' hold
      · rw [List.mem_singleton.mp hnew]
        exact hmsg msg rfl
  | leave conn s err got n hpc hret =>
    obtain ⟨hsound, hhonest, hmirrors⟩ := hattempt conn s hpc
    have hstore : c.store = s.store := by simp only [RecvCall.store, hpc]
    have hposition : s.pc.position (er.attempt c) = n := by rw [hret]; rfl
    have hn := hmirrors.le_size
    have hagree' := hmirrors.agree
    rw [hposition] at hn hagree'
    rw [hstore] at hagree hdecided
    cases hok : err.failed with
    | false =>
      simp only [RecvCall.onResult, hok, Bool.not_false, if_true]
      refine ok_of_sink trivial hnonneg hle hagree fun _ => hdecided ?_
      simp only [RecvCall.Decided, hpc]
      exact ⟨err, got, n, hret, hok⟩
    | true =>
      obtain ⟨hwritten, hsink, hpc'⟩ := c.onResult_failed er hok got n s.store
      refine ok_of_sink ?_ (by omega) (by omega) ?_ ?_
      · rcases hpc' with hret' | hredial
        · rw [hret']
          trivial
        · rw [hredial]
          trivial
      · rw [hsink, hwritten]
        rcases max_choice c.written n with hmax | hmax <;> rw [hmax]
        · exact hagree
        · exact hagree'
      · intro hdec
        unfold RecvCall.Decided at hdec
        rcases hpc' with hret' | hredial
        · rw [hret'] at hdec
          cases hok.symm.trans hdec
        · rw [hredial] at hdec
          cases hdec
  | noConn hpc =>
    have hstore : c.store = c.sink := by simp only [RecvCall.store, hpc]
    rw [hstore] at hagree
    refine ok_of_sink trivial hnonneg hle hagree fun hdec => ?_
    have hfail : Errc.other.code.failed = false := hdec
    cases hfail
  | redialed conn hpc =>
    have hstore : c.store = c.sink := by simp only [RecvCall.store, hpc]
    rw [hstore] at hagree
    exact ok_recvAttempt hsize hnonneg hle hagree conn

/-- The resume offset never goes back. -/
theorem written_le_of_step {c c' : RecvCall} {ev : RecvCallEv}
    (hstep : recvCallStep er c ev = some c') : c.written ≤ c'.written := by
  cases recvCallTrans_of_step hstep with
  | once => exact le_rfl
  | leave conn s err got n hpc hret =>
    cases hok : err.failed with
    | false =>
      simp only [RecvCall.onResult, hok, Bool.not_false, if_true]
      exact le_rfl
    | true =>
      rw [(c.onResult_failed er hok got n s.store).1]
      exact le_max_left _ _
  | noConn => exact le_rfl
  | redialed conn =>
    simp only [RecvCall.attempt]
    split <;> exact le_rfl

/-- A receiver that has decided success can only return it. -/
theorem RecvCall.Decided.step {c c' : RecvCall} {ev : RecvCallEv} (h : c.Decided)
    (hstep : recvCallStep er c ev = some c') : c'.Decided := by
  cases recvCallTrans_of_step hstep with
  | once conn s s' ev hpc hs =>
    simp only [RecvCall.Decided, hpc] at h
    obtain ⟨err, m, written, hret, _⟩ := h
    exact absurd hret (not_ret_of_step hs err m written)
  | leave conn s err got n hpc hret =>
    simp only [RecvCall.Decided, hpc] at h
    obtain ⟨err', m, written, hret', hok⟩ := h
    obtain ⟨rfl, rfl, rfl⟩ := RecvPc.ret.inj (hret.symm.trans hret')
    simp only [RecvCall.onResult, hok, Bool.not_false, if_true]
    rfl
  | noConn hpc =>
    simp only [RecvCall.Decided, hpc] at h
  | redialed conn hpc =>
    simp only [RecvCall.Decided, hpc] at h

/-- The receiver sends a Done with `ok` only as its last word. -/
theorem eq_reply_of_doneOk {e : RecvEnv} {pc : RecvPc} {msg : Bytes}
    (hout : pc.outgoing e = some msg) (hdone : DoneOk msg) :
    ∃ m written sum theirs, pc = .reply m written true sum theirs := by
  obtain ⟨dec, hdec, htyp, hok⟩ := hdone
  cases pc with
  | reject m reason err out =>
    cases hout
    cases (type_of_decodeFrame_frame hdec).symm.trans htyp
  | accept m =>
    cases hout
    cases (type_of_decodeFrame_frame hdec).symm.trans htyp
  | abort m written err =>
    cases hout
    cases (type_of_decodeFrame_frame hdec).symm.trans htyp
  | ack m hw written =>
    cases hout
    cases (type_of_decodeFrame_frame hdec).symm.trans htyp
  | reply m written ok sum theirs =>
    cases hout
    rw [decodeFrame_encodeDone] at hdec
    cases hdec
    obtain rfl : ok = true := hok
    exact ⟨m, written, sum, theirs, rfl⟩
  | _ => cases hout

theorem decided_of_doneOk {c : RecvCall} {conn : ℕ} {s s' : RecvState} {msg : Bytes}
    {ec : ErrorCode} (hout : s.pc.outgoing (er.attempt c) = some msg) (hdone : DoneOk msg)
    (hec : ec.failed = false) (hstep : recvStep (er.attempt c) s (.sent ec) = some s') :
    RecvCall.Decided { c with pc := .once conn s' } := by
  obtain ⟨m, written, sum, theirs, hpc⟩ := eq_reply_of_doneOk hout hdone
  cases recvTrans_of_step hstep with
  | sendFailed _ _ _ hfail => cases hec.symm.trans hfail
  | sent _ _ _ _ => exact ⟨.success, m, written, by simp only [hpc, RecvPc.onSent, if_true], rfl⟩

/-! ## The whole -/

/-- Every frame on its way to the receiver is honest. -/
def Wire.Honest (es : SendCallEnv) (w : Wire) : Prop :=
  ∀ msg ∈ w.toRecv, Transfer.Honest es.filled es.source msg

/-- A Done with `ok` is on its way to the sender only behind the decision of `c`. -/
def Wire.Follows (c : RecvCall) (w : Wire) : Prop := ∀ msg ∈ w.toSend, DoneOk msg → c.Decided

/-- The invariant of the two calls and the connections between them. -/
structure Resuming (es : SendCallEnv) (er : RecvCallEnv) (s : System) : Prop where
  send_ok : s.send.Ok es
  recv_ok : s.recv.Ok es er
  honest : ∀ k, (s.wire k).Honest es
  done : ∀ k, (s.wire k).Follows s.recv
  success : s.send.Succeeded → s.recv.Decided

theorem forall_update {P : Wire → Prop} {wire : ℕ → Wire} {conn : ℕ} {w : Wire} (hw : P w)
    (h : ∀ k, P (wire k)) : ∀ k, P (Function.update wire conn w k) :=
  (Function.forall_update_iff wire fun _ => P).mpr ⟨hw, fun k _ => h k⟩

variable {s t : System}

theorem resuming_start (hpos : 0 ≤ es.info.size) (hsize : es.info.size < 2 ^ 63)
    (hres : er.resumeOffset = 0) (sink : Store) : Resuming es er (System.start es er sink) where
  send_ok := ok_sendStart es
  recv_ok := ok_recvStart hpos hsize hres sink
  honest := nofun
  done := nofun
  success := fun h => absurd h (not_succeeded_sendStart es)

theorem honest_of_sendCall {c : SendCall} (h : c.Ok es) {conn : ℕ} {st : SendState} {msg : Bytes}
    (hpc : c.pc = .once conn st) (hout : st.pc.outgoing (es.attempt c.info conn) = some msg) :
    Honest es.filled es.source msg := by
  simp only [SendCall.Ok, hpc] at h
  obtain ⟨hinfo, hrange⟩ := h
  rw [hinfo] at hout
  exact honest_of_outgoing hrange hout

/-- A step of the sender. -/
theorem Resuming.send (h : Resuming es er s) {ev : SendCallEv} {c : SendCall} {wire : ℕ → Wire}
    (hstep : sendCallStep es s.send ev = some c) (hio : SendIo es s ev wire) (conns : List ℕ) :
    Resuming es er { s with send := c, wire := wire, sendConns := conns } where
  send_ok := h.send_ok.step hstep
  recv_ok := h.recv_ok
  honest := by
    cases hio with
    | push conn st msg ec hpc hout =>
      refine forall_update (fun msg' hmem => ?_) h.honest
      rcases mem_pushToRecv hmem with hold | rfl
      · exact h.honest conn msg' hold
      · exact honest_of_sendCall h.send_ok hpc hout
    | pop conn msg rest hqueue => exact forall_update (h.honest conn) h.honest
    | keep => exact h.honest
  done := by
    cases hio with
    | push conn st msg ec hpc hout =>
      refine forall_update (fun msg' hmem => h.done conn msg' ?_) h.done
      rwa [pushToRecv_toSend] at hmem
    | pop conn msg rest hqueue =>
      refine forall_update (fun msg' hmem => h.done conn msg' ?_) h.done
      rw [hqueue]
      exact List.mem_cons_of_mem _ hmem
    | keep => exact h.done
  success := by
    intro hsucc
    rcases succeeded_of_step hstep hsucc with hold | ⟨msg, rfl, hdone⟩
    · exact h.success hold
    · cases hio with
      | pop conn _ rest hqueue =>
        exact h.done conn msg (by rw [hqueue]; exact List.mem_cons_self) hdone
      | keep _ hev => exact absurd rfl (hev msg)

/-- A step of the receiver. -/
theorem Resuming.recv (hsize : es.info.size < 2 ^ 63) (h : Resuming es er s) {ev : RecvCallEv}
    {c : RecvCall} {wire : ℕ → Wire} (hstep : recvCallStep er s.recv ev = some c)
    (hio : RecvIo er s ev wire) (conns : List ℕ) :
    Resuming es er { s with recv := c, wire := wire, recvConns := conns } where
  send_ok := h.send_ok
  recv_ok := by
    refine h.recv_ok.step hsize (fun msg hev => ?_) hstep
    subst hev
    cases hio with
    | pop conn _ rest hqueue =>
      exact h.honest conn msg (by rw [hqueue]; exact List.mem_cons_self)
    | keep _ hev => exact absurd rfl (hev msg)
  honest := by
    cases hio with
    | push conn st msg ec hpc hout =>
      refine forall_update (fun msg' hmem => h.honest conn msg' ?_) h.honest
      rwa [pushToSend_toRecv] at hmem
    | pop conn msg rest hqueue =>
      refine forall_update (fun msg' hmem => h.honest conn msg' ?_) h.honest
      rw [hqueue]
      exact List.mem_cons_of_mem _ hmem
    | keep => exact h.honest
  done := by
    have hold : ∀ k, (s.wire k).Follows c :=
      fun k msg hmem hdone => (h.done k msg hmem hdone).step hstep
    cases hio with
    | push conn st msg ec hpc hout hec =>
      refine forall_update (fun msg' hmem hdone => ?_) hold
      rcases mem_pushToSend hmem with hmem | rfl
      · exact hold conn msg' hmem hdone
      · cases recvCallTrans_of_step hstep with
        | once conn' st' s' _ hpc' hs =>
          obtain ⟨rfl, rfl⟩ := RecvCallPc.once.inj (hpc.symm.trans hpc')
          exact decided_of_doneOk hout hdone hec hs
    | pop conn msg rest hqueue => exact forall_update (hold conn) hold
    | keep => exact hold
  success := fun hsucc => (h.success hsucc).step hstep

/-- A cut leaves a prefix of what was in flight. -/
theorem Resuming.cut (h : Resuming es er s) (conn keepToRecv keepToSend : ℕ) :
    Resuming es er { s with
      wire := Function.update s.wire conn ((s.wire conn).sever keepToRecv keepToSend) } where
  send_ok := h.send_ok
  recv_ok := h.recv_ok
  honest := forall_update (fun msg hmem => h.honest conn msg (List.mem_of_mem_take hmem)) h.honest
  done := forall_update (fun msg hmem => h.done conn msg (List.mem_of_mem_take hmem)) h.done
  success := h.success

theorem Resuming.step (hsize : es.info.size < 2 ^ 63) (h : Resuming es er s) {ev : SystemEv}
    (hstep : systemStep es er s ev = some t) : Resuming es er t := by
  cases systemTrans_of_step hstep with
  | send ev c wire conns hs hio => exact h.send hs hio conns
  | recv ev c wire conns hs hio => exact h.recv hsize hs hio conns
  | cut conn keepToRecv keepToSend => exact h.cut conn keepToRecv keepToSend

theorem resuming_reachable (hpos : 0 ≤ es.info.size) (hsize : es.info.size < 2 ^ 63)
    (hres : er.resumeOffset = 0) {sink : Store}
    (h : Run (systemStep es er) (System.start es er sink) s) : Resuming es er s :=
  Run.invariant (I := Resuming es er) (fun _ _ _ hI hstep => hI.step hsize hstep) h
    (resuming_start hpos hsize hres sink)

theorem written_le_of_run (h : Run (systemStep es er) s t) : s.recv.written ≤ t.recv.written := by
  refine Run.invariant (I := fun u => s.recv.written ≤ u.recv.written) ?_ h le_rfl
  intro u ev v hle hstep
  cases systemTrans_of_step hstep with
  | send => exact hle
  | recv ev c wire conns hs _ => exact hle.trans (written_le_of_step hs)
  | cut => exact hle

/-! ## The result -/

/-- The bytes that are sent. -/
def SendCallEnv.content (e : SendCallEnv) : Bytes := e.source.read 0 e.info.size.toNat

theorem read_of_agree {σ : Store} {n : ℤ} (h : σ.Agree es.source n) (hle : n ≤ es.info.size) :
    σ.read 0 n.toNat = es.content.take n.toNat := by
  rw [SendCallEnv.content, Store.take_read _ _ (by omega)]
  exact h.read_eq

/-! ## In `std::int64_t` -/

/-- No sum of the sender's call leaves the range, but for the one in front of a read that fails. -/
theorem sendCallStep_of_sendCallStep64 (hsize : es.info.size < 2 ^ 63) {c c' : SendCall} {ev : SendCallEv}
    (h : c.Ok es) (hstep : sendCallStep64 es c ev = some c') : sendCallStep es c ev = some c' := by
  cases ev with
  | once ev =>
    simp only [sendCallStep64, sendCallStep, sendCallStepWith] at hstep ⊢
    cases hpc : c.pc with
    | once conn s =>
      simp only [hpc] at hstep ⊢
      simp only [SendCall.Ok, hpc] at h
      obtain ⟨hinfo, hrange⟩ := h
      rw [hinfo] at hstep ⊢
      obtain ⟨s', hs, rfl⟩ := Option.map_eq_some_iff.mp hstep
      exact Option.map_eq_some_iff.mpr ⟨s', sendStep_of_sendStep64 (e := es.attempt es.filled conn)
        hsize hrange hs, rfl⟩
    | _ => simp [hpc] at hstep
  | _ => exact hstep

/-- No sum of a receiver's call that is fed honest frames leaves the range. -/
theorem recvCallStep64_eq (hsize : es.info.size < 2 ^ 63) {c : RecvCall} {ev : RecvCallEv} (h : c.Ok es er)
    (hmsg : ∀ msg, ev = .once (.received (.ok msg)) → Honest es.filled es.source msg) :
    recvCallStep64 er c ev = recvCallStep er c ev := by
  cases ev with
  | once ev =>
    simp only [recvCallStep64, recvCallStep, recvCallStepWith]
    cases hpc : c.pc with
    | once conn s =>
      have hsound := (h.attempt conn s hpc).1
      have hfits : ∀ msg, ev = .received (.ok msg) → s.pc.AddsInRange msg := by
        intro msg hev
        exact (hmsg msg (by rw [hev])).addsInRange (m := es.filled) hsize s.pc
      simp only [recvStep64_eq hsound hfits]
    | _ => rfl
  | _ => rfl

/-- A step in `std::int64_t` is an exact step. -/
theorem Resuming.systemStep_of_systemStep64 (hsize : es.info.size < 2 ^ 63) (h : Resuming es er s)
    {ev : SystemEv} (hstep : systemStep64 es er s ev = some t) : systemStep es er s ev = some t := by
  cases ev with
  | send ev =>
    obtain ⟨c, hc, hrest⟩ := Option.bind_eq_some_iff.mp hstep
    exact Option.bind_eq_some_iff.mpr ⟨c, sendCallStep_of_sendCallStep64 hsize h.send_ok hc, hrest⟩
  | recv ev =>
    obtain ⟨c, hc, hrest⟩ := Option.bind_eq_some_iff.mp hstep
    obtain ⟨wire, hio, -⟩ := Option.bind_eq_some_iff.mp hrest
    have hmsg : ∀ msg, ev = .once (.received (.ok msg)) → Honest es.filled es.source msg := by
      rintro msg rfl
      cases recvIo_of_eq hio with
      | pop conn _ rest hqueue =>
        exact h.honest conn msg (by rw [hqueue]; exact List.mem_cons_self)
      | keep _ hev => exact absurd rfl (hev msg)
    rw [recvCallStep64_eq hsize h.recv_ok hmsg] at hc
    exact Option.bind_eq_some_iff.mpr ⟨c, hc, hrest⟩
  | cut conn keepToRecv keepToSend => exact hstep

/-- A run in `std::int64_t` is an exact run. -/
theorem Resuming.run_of_run64 (hsize : es.info.size < 2 ^ 63) (h : Resuming es er s)
    (hrun : Run (systemStep64 es er) s t) : Run (systemStep es er) s t := by
  have hboth : Resuming es er t ∧ Run (systemStep es er) s t := by
    refine Run.invariant (I := fun u => Resuming es er u ∧ Run (systemStep es er) s u) ?_ hrun
      ⟨h, Run.refl s⟩
    rintro u ev v ⟨hu, hsu⟩ hstep
    have hexact := hu.systemStep_of_systemStep64 hsize hstep
    exact ⟨hu.step hsize hexact, hsu.snoc hexact⟩
  exact hboth.2

/-- **A resumed transfer is exact.** Over any number of connections, cut at any moment, and under any
failures of the source and the sink: the sink starts with the first `written` bytes of the content,
both for the counter of `receive` and for the one of the attempt that is going on, which is never behind
it; `written` never decreases; and when `send` returns success, `receive` has decided success and the
sink starts with the whole content. -/
theorem resumed_transfer_exact (es : SendCallEnv) (er : RecvCallEnv) (hpos : 0 ≤ es.info.size)
    (hsize : es.info.size < 2 ^ 63) (hres : er.resumeOffset = 0) (sink : Store) (s : System)
    (h : Run (systemStep64 es er) (System.start es er sink) s) :
    (s.recv.written ≤ es.info.size ∧
      s.recv.store.read 0 s.recv.written.toNat = es.content.take s.recv.written.toNat) ∧
    (∀ conn st, s.recv.pc = .once conn st →
      s.recv.written ≤ st.pc.position (er.attempt s.recv) ∧
        st.pc.position (er.attempt s.recv) ≤ es.info.size ∧
        s.recv.store.read 0 (st.pc.position (er.attempt s.recv)).toNat =
          es.content.take (st.pc.position (er.attempt s.recv)).toNat) ∧
    (∀ t, Run (systemStep64 es er) s t → s.recv.written ≤ t.recv.written) ∧
    ∀ err, s.send.pc = .ret err → err.failed = false →
      s.recv.Decided ∧ s.recv.store.read 0 es.info.size.toNat = es.content := by
  have hexact := (resuming_start hpos hsize hres sink).run_of_run64 hsize h
  have hinv := resuming_reachable hpos hsize hres hexact
  refine ⟨⟨hinv.recv_ok.le_size, read_of_agree hinv.recv_ok.agree hinv.recv_ok.le_size⟩, ?_,
    fun t hrun => written_le_of_run (hinv.run_of_run64 hsize hrun), ?_⟩
  · intro conn st hpc
    obtain ⟨_, _, hmirrors⟩ := hinv.recv_ok.attempt conn st hpc
    have hstore : s.recv.store = st.store := by simp only [RecvCall.store, hpc]
    rw [hstore]
    exact ⟨hmirrors.resume_le, hmirrors.le_size, read_of_agree hmirrors.agree hmirrors.le_size⟩
  · intro err hret hok
    have hdecided : s.recv.Decided := hinv.success (by simp only [SendCall.Succeeded, hret, hok])
    exact ⟨hdecided, (hinv.recv_ok.decided hdecided).read_eq⟩

/-! ### A transfer that is cut and resumed -/

/-- A sender of `abc`, one byte at a time, that can redial; the hash is left to `send`. -/
def sampleSendCallEnv : SendCallEnv where
  opts := some { defaultOptions with chunkSize := 1, redial := true }
  info := { sampleMeta with hash := Block.zero 32 }
  source := Store.write (fun _ => 0) 0 sampleContent
  newId := Block.zero kIdLen
  maxMessageBytes := fun _ => defaultConfig.maxMessageBytes
  sha256 := sampleSha256

/-- A receiver that can redial. -/
def sampleRecvCallEnv : RecvCallEnv where
  opts := some { defaultOptions with redial := true }
  readable := true
  resumeOffset := 0
  sha256 := sampleSha256
  ext := fun _ => ""

/-- The first byte arrives, the connection is cut, and the other two arrive on the next one. -/
def sampleCutTrace : List SystemEv :=
  [.send (.read .success), .send (.once (.sent .success)),
    .recv (.once (.received (encodeOffer sampleMeta))), .recv (.once (.sent .success)),
    .send (.once (.received (.ok (encodeAccept sampleMeta.id 0)))),
    .send (.once (.read .success)), .send (.once (.sent .success)),
    .recv (.once (.received (.ok (encodeChunk sampleMeta.id 0 [0x61])))),
    .recv (.once (.wrote .success fun _ => 0)), .cut 0 0 0,
    .send (.once (.read .success)), .send (.once (.sent TcpDuplex.Errc.closed.code)), .send .leave,
    .send (.redialed (some 1)), .recv (.once (.received (.error TcpDuplex.Errc.closed.code))),
    .recv .leave, .recv (.redialed (some 1)), .send (.once (.sent .success)),
    .recv (.once (.received (encodeOffer sampleMeta))), .recv (.once (.sent .success)),
    .recv (.once (.read .success)),
    .send (.once (.received (.ok (encodeAccept sampleMeta.id 1)))),
    .send (.once (.read .success)), .send (.once (.sent .success)),
    .send (.once (.read .success)), .send (.once (.sent .success)),
    .recv (.once (.received (.ok (encodeChunk sampleMeta.id 1 [0x62])))),
    .recv (.once (.wrote .success fun _ => 0)),
    .recv (.once (.received (.ok (encodeChunk sampleMeta.id 2 [0x63])))),
    .recv (.once (.wrote .success fun _ => 0)), .recv (.once (.sent .success)),
    .send (.once (.received (.ok (encodeAck sampleMeta.id 3)))), .send (.once (.sent .success)),
    .recv (.once (.received (.ok (encodeDone sampleMeta.id true sampleDigest)))),
    .recv (.once (.sent .success)),
    .send (.once (.received (.ok (encodeDone sampleMeta.id true sampleDigest)))), .send .leave]

theorem abc_resumed :
    ∃ s, Run (systemStep64 sampleSendCallEnv sampleRecvCallEnv)
        (System.start sampleSendCallEnv sampleRecvCallEnv fun _ => 0) s ∧
      s.send.pc = .ret .success ∧ s.recv.Decided ∧ s.recv.store.read 0 3 = sampleContent := by
  obtain ⟨s, hrun, hret⟩ :
      ∃ s, Run (systemStep64 sampleSendCallEnv sampleRecvCallEnv)
        (System.start sampleSendCallEnv sampleRecvCallEnv fun _ => 0) s ∧
          s.send.pc = .ret .success :=
    exists_run_of_exec sampleCutTrace ⟨_, rfl, rfl⟩
  obtain ⟨_, _, _, hsuccess⟩ := resumed_transfer_exact sampleSendCallEnv sampleRecvCallEnv
    (by decide) (by decide) rfl _ s hrun
  obtain ⟨hdecided, hcontent⟩ := hsuccess .success hret rfl
  exact ⟨s, hrun, hret, hdecided, hcontent⟩

end TcpDuplex.Transfer
