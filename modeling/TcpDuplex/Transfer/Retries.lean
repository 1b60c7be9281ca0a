import TcpDuplex.Lib.Retry
import TcpDuplex.Transfer.Calls
import TcpDuplex.Transfer.Verified

/-!
# The retry loops of `send` and `receive`

Both calls are written as the same loop, once each. Next to a call stands its journal: the attempts with
their connections and results, what `redial` returned, and for `receive` the offers it answered. The
journal is a history of `Retry.Loop`: the attempt that reaches the limit is followed by a `redial` whose
connection is not used, since the counter is tested at the head of the loop only. With the largest `int` for
`max_attempts` the test never fails: behind it the counter wraps around.
-/

namespace TcpDuplex.Transfer

open Machine

/-- What the loops go by. The limit is `max_attempts`, and no counter is above the largest `int`; connection
`0` is the caller's. -/
def retryPolicy (opts : Option Options) : Retry.Policy ℕ ErrorCode where
  first := 0
  limit := (normalize opts).maxAttempts.toInt.toNat
  endless := (normalize opts).maxAttempts = Int32.maxValue
  again := isRetriable
  noConn := Errc.other.code

/-- The result of an attempt: a code with value `0` is success, whatever its category. -/
def attemptResult (err : ErrorCode) : ErrorCode := if err.failed then err else .success

theorem retryPolicy_limit (opts : Option Options) :
    ((retryPolicy opts).limit : ℤ) = (normalize opts).maxAttempts.toInt ∧
      0 < (retryPolicy opts).limit := by
  have hpos : 0 < (normalize opts).maxAttempts.toInt :=
    Int32.lt_iff_toInt_lt.mp (normalize opts).maxAttempts_pos
  have hlimit : ((retryPolicy opts).limit : ℤ) = (normalize opts).maxAttempts.toInt :=
    Int.toNat_of_nonneg hpos.le
  exact ⟨hlimit, by omega⟩

/-- `++attempts` below the largest `int`. -/
theorem toInt_add_one {n : Int32} (h : n.toInt < 2 ^ 31 - 1) : (n + 1).toInt = n.toInt + 1 := by
  have hlo := Int32.le_toInt n
  rw [Int32.toInt_add, Int32.toInt_one]
  exact Int.bmod_eq_of_le (by norm_num; omega) (by norm_num; omega)

/-- The test at the head of the loop below the limit. -/
theorem not_gt_of_lt {opts : Option Options} {n : Int32}
    (h : (retryPolicy opts).endless = true ∨ n.toInt < (retryPolicy opts).limit) :
    ¬n + 1 > (normalize opts).maxAttempts := by
  rw [gt_iff_lt, Int32.not_lt, Int32.le_iff_toInt_le]
  rcases h with hendless | hlt
  · rw [show (normalize opts).maxAttempts = Int32.maxValue by simpa [retryPolicy] using hendless]
    exact Int32.toInt_le (n + 1)
  · have hlimit := (retryPolicy_limit opts).1
    have hmax := Int32.toInt_le (normalize opts).maxAttempts
    rw [Int32.toInt_maxValue] at hmax
    rw [toInt_add_one (by omega)]
    omega

/-- The test at the limit. -/
theorem gt_of_eq {opts : Option Options} {n : Int32} (hends : (retryPolicy opts).endless = false)
    (h : n.toInt = (retryPolicy opts).limit) : n + 1 > (normalize opts).maxAttempts := by
  have hlimit := (retryPolicy_limit opts).1
  have hne : (normalize opts).maxAttempts ≠ Int32.maxValue := by simpa [retryPolicy] using hends
  have hlt : (normalize opts).maxAttempts.toInt ≠ Int32.maxValue.toInt := fun heq =>
    hne (Int32.toInt_inj.mp heq)
  have hmax := Int32.toInt_le (normalize opts).maxAttempts
  rw [Int32.toInt_maxValue] at hlt hmax
  rw [gt_iff_lt, Int32.lt_iff_toInt_lt, toInt_add_one (by omega)]
  omega

theorem attemptResult_of_failed {err : ErrorCode} (h : err.failed = true) :
    attemptResult err = err := if_pos h

theorem attemptResult_of_success {err : ErrorCode} (h : err.failed = false) :
    attemptResult err = .success := if_neg (by rw [h]; simp)

/-! ## The variables of a loop against its journal -/

section Tracks

variable {P : Retry.Policy ℕ ErrorCode} {log : List (Retry.Entry ℕ ErrorCode)} {n : Int32} {conn : ℕ}
  {err lastErr : ErrorCode}

/-- `attempts` and `last_err` of a loop with this journal: an attempt is counted when it starts, unless the
loop has no limit, and the error of the last one is kept for the case that there is no other. -/
def Tracks (P : Retry.Policy ℕ ErrorCode) (log : List (Retry.Entry ℕ ErrorCode)) (n : Int32)
    (lastErr : ErrorCode) (phase : Retry.Phase ℕ ErrorCode) : Prop :=
  Retry.Loop P log phase ∧
    match phase with
    | .trying _ => P.endless = false → n.toInt = (Retry.attempts log).length + 1
    | .dialing =>
      (P.endless = false → n.toInt = (Retry.attempts log).length) ∧ lastErr.failed = true ∧
        ∃ c, (Retry.attempts log).getLast? = some (c, lastErr)
    | .ended _ => True

theorem Tracks.stop {n' : Int32} {lastErr' : ErrorCode} (h : Tracks P log n lastErr (.trying conn))
    (hr : P.again err = false) :
    Tracks P (log ++ [.attempted conn err]) n' lastErr' (.ended err) :=
  ⟨h.1.stop hr, trivial⟩

theorem Tracks.again (h : Tracks P log n lastErr (.trying conn)) (hr : P.again err = true)
    (herr : err.failed = true) : Tracks P (log ++ [.attempted conn err]) n err .dialing := by
  obtain ⟨hloop, hcount⟩ := h
  refine ⟨hloop.again hr, fun hends => ?_, herr, conn, ?_⟩
  · rw [Retry.attempts_attempted, List.length_append, List.length_singleton]
    exact hcount hends
  · rw [Retry.attempts_attempted, List.getLast?_concat]

theorem Tracks.noConn {n' : Int32} {lastErr' : ErrorCode} (h : Tracks P log n lastErr .dialing) :
    Tracks P (log ++ [.dialed none]) n' lastErr' (.ended P.noConn) :=
  ⟨h.1.noConn, trivial⟩

end Tracks

section Head

variable {opts : Option Options} {log : List (Retry.Entry ℕ ErrorCode)} {n : Int32}
  {lastErr : ErrorCode}

/-- `++attempts` behind a `redial` that brought a connection: one more attempt, unless that was the last. -/
theorem Tracks.head (conn : ℕ) (h : Tracks (retryPolicy opts) log n lastErr .dialing) :
    (¬n + 1 > (normalize opts).maxAttempts ∧
        Tracks (retryPolicy opts) (log ++ [.dialed (some conn)]) (n + 1) lastErr (.trying conn)) ∨
      n + 1 > (normalize opts).maxAttempts ∧ lastErr.failed = true ∧
        ∀ n' lastErr',
          Tracks (retryPolicy opts) (log ++ [.dialed (some conn)]) n' lastErr' (.ended lastErr) := by
  obtain ⟨hloop, hcount, hfailed, c, hlast⟩ := h
  have hpos := (retryPolicy_limit opts).2
  have hlimit := (retryPolicy_limit opts).1
  by_cases hmore : (retryPolicy opts).endless = true ∨ (Retry.attempts log).length < (retryPolicy opts).limit
  · left
    have hnot : (retryPolicy opts).endless = true ∨ n.toInt < (retryPolicy opts).limit := by
      by_cases hends : (retryPolicy opts).endless = true
      · exact .inl hends
      · right
        have hlt := hmore.resolve_left hends
        have heq := hcount (Bool.eq_false_iff.mpr hends)
        omega
    refine ⟨not_gt_of_lt hnot, hloop.redial hmore, fun hends => ?_⟩
    have heq := hcount hends
    have hlt := hmore.resolve_left (by simp [hends])
    have hmax := Int32.toInt_le (normalize opts).maxAttempts
    rw [Int32.toInt_maxValue] at hmax
    rw [toInt_add_one (by omega), Retry.attempts_dialed, heq]
  · right
    rw [not_or, Bool.not_eq_true, not_lt] at hmore
    obtain ⟨hends, hle⟩ := hmore
    have hfew := hloop.few hpos hends
    have hfull : (Retry.attempts log).length = (retryPolicy opts).limit := le_antisymm hfew hle
    refine ⟨gt_of_eq hends (by rw [hcount hends, hfull]), hfailed, fun _ _ => ?_⟩
    exact ⟨hloop.giveUp hends hle hlast, trivial⟩

end Head

/-! ## `send` -/

/-- A call of `send` and its journal. -/
structure SendJournal where
  call : SendCall
  log : List (Retry.Entry ℕ ErrorCode) := []

/-- What an event adds to the journal. -/
def SendCall.entry (c : SendCall) : SendCallEv → List (Retry.Entry ℕ ErrorCode)
  | .leave =>
    match c.pc with
    | .once conn s =>
      match s.pc with
      | .ret err => [.attempted conn (attemptResult err)]
      | _ => []
    | _ => []
  | .redialed conn => [.dialed conn]
  | _ => []

/-- One step of a call of `send`, with its journal. -/
def sendJournalStep (e : SendCallEnv) (j : SendJournal) (ev : SendCallEv) : Option SendJournal :=
  (sendCallStep e j.call ev).map fun c => { call := c, log := j.log ++ j.call.entry ev }

/-- A call that has made no attempt yet. -/
def SendJournal.start (e : SendCallEnv) : SendJournal := { call := SendCall.start e }

/-- Where the loop of a call of `send` is; none before it begins. -/
def SendCallPc.phase : SendCallPc → Option (Retry.Phase ℕ ErrorCode)
  | .hash _ _ => none
  | .once conn _ => some (.trying conn)
  | .redial => some .dialing
  | .ret err => some (.ended err)

/-- The journal of a call of `send`: nothing before the loop, a history of the loop behind. -/
inductive SendJournal.Ok (e : SendCallEnv) (j : SendJournal) : Prop where
  | before (hlog : j.log = []) (hattempts : j.call.attempts = 0)
      (hpc : (∃ off ctx, j.call.pc = .hash off ctx) ∨ ∃ err, j.call.pc = .ret err)
  | looping (phase : Retry.Phase ℕ ErrorCode) (hpc : j.call.pc.phase = some phase)
      (h : Tracks (retryPolicy e.opts) j.log j.call.attempts j.call.lastErr phase)

variable {e : SendCallEnv} {c : SendCall}

/-- The head of the loop, where the test lets it go on. -/
theorem SendCall.attempt_of_not_gt (conn : ℕ) (h : ¬c.attempts + 1 > (normalize e.opts).maxAttempts) :
    c.attempt e conn =
      { c with
        attempts := c.attempts + 1
        pc := .once conn (SendState.start (e.attempt c.info conn)) } := by
  unfold SendCall.attempt
  dsimp only
  rw [if_neg h]

/-- The head of the loop, where it does not. -/
theorem SendCall.attempt_of_gt (conn : ℕ) (h : c.attempts + 1 > (normalize e.opts).maxAttempts)
    (hfailed : c.lastErr.failed = true) : (c.attempt e conn).pc = .ret c.lastErr := by
  simp only [SendCall.attempt, if_pos h, if_pos hfailed]

/-- The first attempt. -/
theorem ok_firstAttempt (hattempts : c.attempts = 0) : SendJournal.Ok e ⟨c.attempt e 0, []⟩ := by
  have hpos := (retryPolicy_limit e.opts).2
  have hlt : c.attempts.toInt < (retryPolicy e.opts).limit := by
    rw [hattempts]
    exact Int.natCast_pos.mpr hpos
  rw [SendCall.attempt_of_not_gt 0 (not_gt_of_lt (.inr hlt))]
  refine .looping (.trying 0) rfl ⟨.start, fun _ => ?_⟩
  show (c.attempts + 1).toInt = _
  rw [hattempts]
  rfl

theorem ok_hashHead (hattempts : c.attempts = 0) (off : ℤ) (ctx : Bytes) :
    SendJournal.Ok e ⟨c.hashHead e off ctx, []⟩ := by
  unfold SendCall.hashHead
  split
  · exact .before rfl hattempts (.inl ⟨off, ctx, rfl⟩)
  · exact ok_firstAttempt hattempts

theorem ok_sendJournal_start (e : SendCallEnv) : (SendJournal.start e).Ok e := by
  unfold SendJournal.start SendCall.start
  split_ifs
  · exact .before rfl rfl (.inr ⟨_, rfl⟩)
  · exact ok_hashHead rfl 0 []
  · exact ok_firstAttempt rfl

/-- Behind an attempt, with `redial` set. -/
theorem SendCall.onResult_tracks (hredial : (normalize e.opts).redial = true)
    (h : Tracks (retryPolicy e.opts) log c.attempts c.lastErr (.trying conn)) (err : ErrorCode) :
    ∃ phase, (c.onResult e err).pc.phase = some phase ∧
      Tracks (retryPolicy e.opts) (log ++ [.attempted conn (attemptResult err)])
        (c.onResult e err).attempts (c.onResult e err).lastErr phase := by
  unfold SendCall.onResult
  by_cases hfailed : err.failed = true
  · rw [if_neg (by rw [hfailed]; simp), attemptResult_of_failed hfailed]
    by_cases hagain : isRetriable err = true
    · rw [if_neg (by rw [hredial, hagain]; simp)]
      exact ⟨_, rfl, h.again hagain hfailed⟩
    · rw [if_pos (by simp [hagain])]
      exact ⟨_, rfl, h.stop (Bool.eq_false_iff.mpr hagain)⟩
  · rw [if_pos (by simpa using hfailed), attemptResult_of_success (by simpa using hfailed)]
    exact ⟨_, rfl, h.stop rfl⟩

theorem SendJournal.Ok.step (hredial : (normalize e.opts).redial = true) {j j' : SendJournal}
    {ev : SendCallEv} (h : j.Ok e) (hstep : sendJournalStep e j ev = some j') : j'.Ok e := by
  obtain ⟨c', hc, rfl⟩ := Option.map_eq_some_iff.mp hstep
  obtain ⟨c, log⟩ := j
  dsimp only at hc ⊢
  cases h with
  | before hlog hattempts hpc =>
    dsimp only at hlog hattempts hpc
    subst hlog
    cases sendCallTrans_of_step hc with
    | readFailed off ctx ec _ _ => exact .before rfl hattempts (.inr ⟨ec, rfl⟩)
    | read off ctx block ec _ _ => exact ok_hashHead hattempts _ _
    | once conn s s' ev hpc' _ => rw [hpc'] at hpc; simp at hpc
    | leave conn s err hpc' _ => rw [hpc'] at hpc; simp at hpc
    | noConn hpc' => rw [hpc'] at hpc; simp at hpc
    | redialed conn hpc' => rw [hpc'] at hpc; simp at hpc
  | looping phase hpc htracks =>
    dsimp only at hpc htracks
    cases sendCallTrans_of_step hc with
    | readFailed off ctx ec hpc' _ => rw [hpc'] at hpc; cases hpc
    | read off ctx block ec hpc' _ => rw [hpc'] at hpc; cases hpc
    | once conn s s' ev hpc' _ =>
      rw [hpc'] at hpc
      cases hpc
      refine .looping (.trying conn) rfl ?_
      simpa [SendCall.entry] using htracks
    | leave conn s err hpc' hret =>
      rw [hpc'] at hpc
      cases hpc
      obtain ⟨phase, hphase, htracks'⟩ := SendCall.onResult_tracks hredial htracks err
      refine .looping phase hphase ?_
      simpa [SendCall.entry, hpc', hret] using htracks'
    | noConn hpc' =>
      rw [hpc'] at hpc
      cases hpc
      exact .looping _ rfl htracks.noConn
    | redialed conn hpc' =>
      rw [hpc'] at hpc
      cases hpc
      rcases htracks.head conn with ⟨hnot, hnext⟩ | ⟨hover, hfailed, hended⟩
      · rw [SendCall.attempt_of_not_gt conn hnot]
        exact .looping (.trying conn) rfl hnext
      · refine .looping (.ended c.lastErr) ?_ (hended _ _)
        rw [SendCall.attempt_of_gt conn hover hfailed]
        rfl

/-! ## `receive` -/

/-- An offer that `receive` answered: behind how many attempts, and whether with an Accept. -/
structure OfferAnswer where
  attempt : ℕ
  accepted : Bool
  info : Meta

/-- A call of `receive` and its journal. -/
structure RecvJournal where
  call : RecvCall
  log : List (Retry.Entry ℕ ErrorCode) := []
  answers : List OfferAnswer := []

/-- What an event adds to the journal. -/
def RecvCall.entry (c : RecvCall) : RecvCallEv → List (Retry.Entry ℕ ErrorCode)
  | .leave =>
    match c.pc with
    | .once conn s =>
      match s.pc with
      | .ret err _ _ => [.attempted conn (attemptResult err)]
      | _ => []
    | _ => []
  | .redialed conn => [.dialed conn]
  | _ => []

/-- The offer that an event answers behind `k` attempts, whether the call of `send` succeeds or not. -/
def RecvCall.answer (k : ℕ) (c : RecvCall) : RecvCallEv → List OfferAnswer
  | .once (.sent _) =>
    match c.pc with
    | .once _ s =>
      match s.pc with
      | .accept m => [⟨k, true, m⟩]
      | .reject m _ _ _ => [⟨k, false, m⟩]
      | _ => []
    | _ => []
  | _ => []

/-- One step of a call of `receive`, with its journal. -/
def recvJournalStep (e : RecvCallEnv) (j : RecvJournal) (ev : RecvCallEv) : Option RecvJournal :=
  (recvCallStep e j.call ev).map fun c =>
    { call := c
      log := j.log ++ j.call.entry ev
      answers := j.answers ++ j.call.answer (Retry.attempts j.log).length ev }

/-- A call that has made no attempt yet. -/
def RecvJournal.start (e : RecvCallEnv) (sink : Store) : RecvJournal :=
  { call := RecvCall.start e sink }

/-- Where the loop of a call of `receive` is. -/
def RecvCallPc.phase : RecvCallPc → Retry.Phase ℕ ErrorCode
  | .once conn _ => .trying conn
  | .redial => .dialing
  | .ret err => .ended err

/-- The journal of a call of `receive`: nothing when it returns before the loop, else a history of the
loop. -/
inductive RecvJournal.Ok (e : RecvCallEnv) (j : RecvJournal) : Prop where
  | before (hlog : j.log = []) (hpc : ∃ err, j.call.pc = .ret err)
  | looping (h : Tracks (retryPolicy e.opts) j.log j.call.attempts j.call.lastErr j.call.pc.phase)

section Receive

variable {e : RecvCallEnv} {c : RecvCall}

/-- The head of the loop, where the test lets it go on. -/
theorem RecvCall.attempt_of_not_gt (conn : ℕ) (h : ¬c.attempts + 1 > (normalize e.opts).maxAttempts) :
    c.attempt e conn =
      { c with attempts := c.attempts + 1, pc := .once conn (RecvState.start c.sink) } := by
  unfold RecvCall.attempt
  dsimp only
  rw [if_neg h]

/-- The head of the loop, where it does not. -/
theorem RecvCall.attempt_of_gt (conn : ℕ) (h : c.attempts + 1 > (normalize e.opts).maxAttempts)
    (hfailed : c.lastErr.failed = true) : (c.attempt e conn).pc = .ret c.lastErr := by
  simp only [RecvCall.attempt, if_pos h, if_pos hfailed]

theorem ok_recvJournal_start (e : RecvCallEnv) (sink : Store) : (RecvJournal.start e sink).Ok e := by
  have hpos := (retryPolicy_limit e.opts).2
  have hlt : (0 : Int32).toInt < (retryPolicy e.opts).limit := Int.natCast_pos.mpr hpos
  unfold RecvJournal.start RecvCall.start
  split_ifs
  · exact .before rfl ⟨_, rfl⟩
  · have hnot : ¬(0 : Int32) + 1 > (normalize e.opts).maxAttempts := not_gt_of_lt (.inr hlt)
    rw [RecvCall.attempt_of_not_gt]
    · refine .looping ⟨.start, fun _ => ?_⟩
      show ((0 : Int32) + 1).toInt = 0 + 1
      rfl
    · exact hnot

/-- Behind an attempt, with `redial` set. -/
theorem RecvCall.onResult_tracks (hredial : (normalize e.opts).redial = true)
    (h : Tracks (retryPolicy e.opts) log c.attempts c.lastErr (.trying conn)) (err : ErrorCode)
    (got : Meta) (n : ℤ) (sink : Store) :
    Tracks (retryPolicy e.opts) (log ++ [.attempted conn (attemptResult err)])
      (c.onResult e err got n sink).attempts (c.onResult e err got n sink).lastErr
      (c.onResult e err got n sink).pc.phase := by
  unfold RecvCall.onResult
  by_cases hfailed : err.failed = true
  · rw [if_neg (by rw [hfailed]; simp), attemptResult_of_failed hfailed]
    by_cases hagain : isRetriable err = true
    · rw [if_neg (by rw [hredial, hagain]; simp)]
      exact h.again hagain hfailed
    · rw [if_pos (by simp [hagain])]
      exact h.stop (Bool.eq_false_iff.mpr hagain)
  · rw [if_pos (by simpa using hfailed), attemptResult_of_success (by simpa using hfailed)]
    exact h.stop rfl

theorem RecvJournal.Ok.step (hredial : (normalize e.opts).redial = true) {j j' : RecvJournal}
    {ev : RecvCallEv} (h : j.Ok e) (hstep : recvJournalStep e j ev = some j') : j'.Ok e := by
  obtain ⟨c', hc, rfl⟩ := Option.map_eq_some_iff.mp hstep
  obtain ⟨c, log, answers⟩ := j
  dsimp only at hc ⊢
  cases h with
  | before _ hpc =>
    obtain ⟨err, hpc⟩ := hpc
    cases recvCallTrans_of_step hc with
    | once conn s s' ev hpc' _ => rw [hpc'] at hpc; cases hpc
    | leave conn s err got n hpc' _ => rw [hpc'] at hpc; cases hpc
    | noConn hpc' => rw [hpc'] at hpc; cases hpc
    | redialed conn hpc' => rw [hpc'] at hpc; cases hpc
  | looping htracks =>
    refine .looping ?_
    dsimp only at htracks ⊢
    cases recvCallTrans_of_step hc with
    | once conn s s' ev hpc _ =>
      have hentry : c.entry (.once ev) = [] := rfl
      rw [hpc] at htracks
      rw [hentry, List.append_nil]
      exact htracks
    | leave conn s err got n hpc hret =>
      rw [hpc] at htracks
      have htracks' := RecvCall.onResult_tracks hredial htracks err got n s.store
      simpa [RecvCall.entry, hpc, hret] using htracks'
    | noConn hpc =>
      rw [hpc] at htracks
      exact htracks.noConn
    | redialed conn hpc =>
      rw [hpc] at htracks
      rcases htracks.head conn with ⟨hnot, hnext⟩ | ⟨hover, hfailed, hended⟩
      · rw [RecvCall.attempt_of_not_gt conn hnot]
        exact hnext
      · rw [RecvCall.attempt_of_gt conn hover hfailed]
        exact hended _ _

end Receive

/-! ## The id of the offers that `receive` accepts -/

/-- The offer that an attempt has taken up, or `out_meta` where it has returned. -/
def RecvPc.info? : RecvPc → Option Meta
  | .offer => none
  | .reject _ _ _ _ => none
  | .accept m => some m
  | .hashAll m _ _ => some m
  | .doneAll m _ => some m
  | .hashPrefix m _ _ => some m
  | .abort m _ _ => some m
  | .chunk m _ _ _ => some m
  | .write m _ _ _ _ _ => some m
  | .ack m _ _ => some m
  | .done m _ _ => some m
  | .reply m _ _ _ _ => some m
  | .ret _ out _ => some out

/-- An attempt takes up no offer with another id than the expected one, and one that rejects an offer is
not repeated. -/
def RecvPc.KeepsId (e : RecvEnv) : RecvPc → Prop
  | .offer => True
  | .reject _ _ err _ => isRetriable err = false
  | .ret err out _ =>
    isRetriable err = true → out.id ≠ Block.zero kIdLen → e.expectMeta = true → out.id = e.want.id
  | pc => ∀ m, pc.info? = some m → e.expectMeta = true → m.id = e.want.id

section TakenUp

variable {e : RecvEnv} {m : Meta}

theorem Onward.info?_eq {w : ℤ} {pc : RecvPc} (h : Onward e m w pc) : pc.info? = some m := by
  cases h <;> rfl

theorem info?_onDone (written : ℤ) (sum : Hash) (msg : Bytes) :
    (onDone m written sum msg).info? = some m := by
  have h := onDone_outcome m written sum msg
  generalize onDone m written sum msg = pc at h ⊢
  cases h <;> rfl

theorem info?_onChunk (hw : HashingWriter) (written : ℤ) (since : ℕ) (msg : Bytes) :
    (onChunk e m hw written since msg).info? = some m := by
  have h := onChunk_outcome e m hw written since msg
  generalize onChunk e m hw written since msg = pc at h ⊢
  cases h <;> rfl

/-- An offer that was taken up is kept to the end of the attempt. -/
theorem info?_step {s t : RecvState} {ev : RecvEv} (h : s.pc.info? = some m)
    (hstep : recvStep e s ev = some t) : t.pc.info? = some m := by
  cases recvTrans_of_step hstep with
  | lost m' written ec hwait _ =>
    show (RecvPc.ret (mapConnErr ec) m' written).info? = some m
    generalize s.pc = pc at h hwait
    cases pc <;> cases hwait <;> cases h <;> rfl
  | message msg hwait =>
    show (s.pc.onMessage e msg).info? = some m
    generalize s.pc = pc at h hwait ⊢
    cases pc with
    | offer => cases h
    | doneAll m' sum =>
      cases h
      exact info?_onDone _ _ _
    | chunk m' hw written since =>
      cases h
      exact info?_onChunk _ _ _ _
    | done m' hw written =>
      cases h
      exact info?_onDone _ _ _
    | _ => cases hwait
  | sendFailed msg ec hout _ =>
    show (s.pc.onSendFailed e ec).info? = some m
    generalize s.pc = pc at h hout ⊢
    cases pc <;> cases hout <;> cases h <;> rfl
  | sent msg ec hout _ =>
    show (s.pc.onSent e).info? = some m
    generalize s.pc = pc at h hout ⊢
    cases pc with
    | reject m' reason err out => cases h
    | accept m' =>
      cases h
      exact (onward_afterAccept e m).info?_eq
    | abort m' written err =>
      cases h
      rfl
    | ack m' hw written =>
      cases h
      exact (onward_chunkHead e m hw written 0).info?_eq
    | reply m' written ok sum theirs =>
      cases h
      rfl
    | _ => cases hout
  | hashAllFailed m' off ctx ec hpc _ =>
    rw [hpc] at h
    exact h
  | hashAll m' off ctx block ec hpc _ _ =>
    rw [hpc] at h
    cases h
    exact (onward_hashAllHead e m _ _).info?_eq
  | hashPrefixFailed m' off ctx ec hpc _ =>
    rw [hpc] at h
    exact h
  | hashPrefix m' off ctx block ec hpc _ _ =>
    rw [hpc] at h
    cases h
    exact (onward_hashPrefixHead e m _ _).info?_eq
  | writeFailed m' hw written since off data ec junk hpc _ =>
    rw [hpc] at h
    exact h
  | wrote m' hw written since off data ec junk hpc _ =>
    rw [hpc] at h
    cases h
    rw [RecvState.report_pc]
    exact (onward_afterWrite e m _ _ _).info?_eq

/-- An offer that was taken up has the expected id. -/
theorem RecvPc.KeepsId.info {pc : RecvPc} (h : pc.KeepsId e) (hm : pc.info? = some m)
    (hnot : ∀ err out n, pc ≠ .ret err out n) : e.expectMeta = true → m.id = e.want.id := by
  cases pc with
  | offer => cases hm
  | reject m' reason err out => cases hm
  | ret err out n => exact absurd rfl (hnot err out n)
  | _ => exact h m hm

theorem keepsId_of_info {pc : RecvPc} (hm : pc.info? = some m)
    (hid : e.expectMeta = true → m.id = e.want.id) : pc.KeepsId e := by
  cases pc with
  | offer => trivial
  | reject m' reason err out => cases hm
  | ret err out n =>
    cases hm
    exact fun _ _ hexpect => hid hexpect
  | _ =>
    intro m' hm'
    rw [hm] at hm'
    cases hm'
    exact hid

/-- What comes before the offer sets no `out_meta`. -/
theorem keepsId_ret_empty (err : ErrorCode) (n : ℤ) : (RecvPc.ret err {} n).KeepsId e :=
  fun _ hid => absurd rfl hid

theorem keepsId_onOffer (e : RecvEnv) (msg : Bytes) : (onOffer e msg).KeepsId e := by
  have h := onOffer_outcome e msg
  generalize onOffer e msg = pc at h ⊢
  cases h with
  | failed err _ => exact keepsId_ret_empty _ _
  | refused m reason err out _ hfinal => exact hfinal
  | taken dec _ _ hid _ _ => exact keepsId_of_info (m := dec.info) rfl hid

theorem RecvPc.KeepsId.step {s t : RecvState} {ev : RecvEv} (h : s.pc.KeepsId e)
    (hstep : recvStep e s ev = some t) : t.pc.KeepsId e := by
  cases hm : s.pc.info? with
  | some m => exact keepsId_of_info (info?_step hm hstep) (h.info hm (not_ret_of_step hstep))
  | none =>
    -- the offer has not come yet, or is being rejected
    generalize hpc : s.pc = pc at h hm
    cases pc with
    | offer =>
      cases recvTrans_of_step hstep with
      | lost m written ec hwait _ =>
        rw [hpc] at hwait
        cases hwait
        exact keepsId_ret_empty _ _
      | message msg _ =>
        show (s.pc.onMessage e msg).KeepsId e
        rw [hpc]
        exact keepsId_onOffer e msg
      | sendFailed msg ec hout _ => rw [hpc] at hout; cases hout
      | sent msg ec hout _ => rw [hpc] at hout; cases hout
      | _ => simp_all
    | reject m reason err out =>
      cases recvTrans_of_step hstep with
      | lost m written ec hwait _ => rw [hpc] at hwait; cases hwait
      | message msg hwait => rw [hpc] at hwait; cases hwait
      | sendFailed msg ec _ _ =>
        show (s.pc.onSendFailed e ec).KeepsId e
        rw [hpc]
        exact fun hagain => by rw [show isRetriable err = false from h] at hagain; cases hagain
      | sent msg ec _ _ =>
        show (s.pc.onSent e).KeepsId e
        rw [hpc]
        exact fun hagain => by rw [show isRetriable err = false from h] at hagain; cases hagain
      | _ => simp_all
    | _ => cases hm

end TakenUp

/-- Once an offer with an id was answered, later attempts send an Accept only to an offer with that id. -/
def SameId (answers : List OfferAnswer) : Prop :=
  ∀ a ∈ answers, a.info.id ≠ Block.zero kIdLen →
    ∀ b ∈ answers, a.attempt < b.attempt → b.accepted = true → b.info.id = a.info.id

/-- Behind `k` attempts the call knows the id of an offer that it answered: from an earlier attempt, or in
this one. An attempt that ends with an error that is not retriable need not, since there is no later one. -/
def RecvCall.Knows (k : ℕ) (c : RecvCall) (a : OfferAnswer) : Prop :=
  match c.pc with
  | .once _ s =>
    (c.haveMeta = true ∧ c.info.id = a.info.id) ∨
      a.attempt = k ∧
        (s.pc.info? = some a.info ∨ ∃ err out n, s.pc = .ret err out n ∧ isRetriable err = false)
  | .redial => c.haveMeta = true ∧ c.info.id = a.info.id
  | .ret _ => True

/-- The invariant of the answers. -/
structure RecvJournal.Consistent (e : RecvCallEnv) (j : RecvJournal) : Prop where
  recent : ∀ a ∈ j.answers, a.attempt ≤ (Retry.attempts j.log).length
  same : SameId j.answers
  known : ∀ a ∈ j.answers, a.info.id ≠ Block.zero kIdLen → j.call.Knows (Retry.attempts j.log).length a
  keeps : ∀ conn s, j.call.pc = .once conn s → s.pc.KeepsId (e.attempt j.call)

section Answers

variable {e : RecvCallEnv} {c : RecvCall} {answers : List OfferAnswer}
  {log : List (Retry.Entry ℕ ErrorCode)} {n conn : ℕ}

/-- One more answer, in the attempt under way. -/
theorem SameId.snoc (h : SameId answers) (hrecent : ∀ a ∈ answers, a.attempt ≤ n) {b : OfferAnswer}
    (hb : b.attempt = n)
    (hsame : b.accepted = true → ∀ a ∈ answers, a.info.id ≠ Block.zero kIdLen → a.attempt < n →
      b.info.id = a.info.id) : SameId (answers ++ [b]) := by
  intro a ha hid b' hb' hlt hacc
  rw [List.mem_append, List.mem_singleton] at ha hb'
  rcases ha with ha | rfl
  · rcases hb' with hb' | rfl
    · exact h a ha hid b' hb' hlt hacc
    · exact hsame hacc a ha hid (by omega)
  · rcases hb' with hb' | rfl
    · have hle := hrecent b' hb'
      omega
    · omega

/-- What an attempt adds to the answers. -/
theorem RecvCall.answer_cases (k : ℕ) (ev : RecvCallEv) :
    c.answer k ev = [] ∨ ∃ ec conn s m accepted, ev = .once (.sent ec) ∧ c.pc = .once conn s ∧
      c.answer k ev = [⟨k, accepted, m⟩] ∧
      (accepted = true ∧ s.pc = .accept m ∨
        accepted = false ∧ ∃ reason err out, s.pc = .reject m reason err out) := by
  unfold RecvCall.answer
  split
  · rename_i ec
    split
    · rename_i conn s hpc
      split
      · rename_i m hs
        exact .inr ⟨ec, conn, s, m, true, rfl, hpc, rfl, .inl ⟨rfl, hs⟩⟩
      · rename_i m reason err out hs
        exact .inr ⟨ec, conn, s, m, false, rfl, hpc, rfl, .inr ⟨rfl, reason, err, out, hs⟩⟩
      · exact .inl rfl
    · exact .inl rfl
  · exact .inl rfl

/-- An attempt goes on. -/
theorem RecvJournal.Consistent.once {s s' : RecvState} {ev : RecvEv}
    (h : RecvJournal.Consistent e ⟨c, log, answers⟩) (hpc : c.pc = .once conn s)
    (hstep : recvStep (e.attempt c) s ev = some s') :
    RecvJournal.Consistent e ⟨{ c with pc := .once conn s' }, log,
      answers ++ c.answer (Retry.attempts log).length (.once ev)⟩ := by
  obtain ⟨hrecent, hsame, hknown, hkeeps⟩ := h
  have hkeep := hkeeps conn s hpc
  have hnext : s'.pc.KeepsId (e.attempt c) := hkeep.step hstep
  have hknown' : ∀ a ∈ answers, a.info.id ≠ Block.zero kIdLen →
      RecvCall.Knows (Retry.attempts log).length { c with pc := .once conn s' } a := by
    intro a ha hid
    have hk := hknown a ha hid
    rw [RecvCall.Knows, hpc] at hk
    rcases hk with hold | ⟨hattempt, hinfo | ⟨err, out, k, hret, -⟩⟩
    · exact .inl hold
    · exact .inr ⟨hattempt, .inl (info?_step hinfo hstep)⟩
    · exact absurd hret (not_ret_of_step hstep err out k)
  have hkeeps' : ∀ conn' t, RecvCallPc.once conn s' = .once conn' t →
      t.pc.KeepsId (e.attempt { c with pc := .once conn s' }) := by
    intro conn' t ht
    cases ht
    exact hnext
  rcases RecvCall.answer_cases (c := c) (Retry.attempts log).length (.once ev) with
    hnone | ⟨ec, conn', t, m, accepted, hev, hpc', hans, hcase⟩
  · rw [hnone, List.append_nil]
    exact ⟨hrecent, hsame, hknown', hkeeps'⟩
  · rw [hpc] at hpc'
    cases hpc'
    cases hev
    rw [hans]
    refine ⟨?_, ?_, ?_, hkeeps'⟩
    · intro a ha
      rw [List.mem_append, List.mem_singleton] at ha
      rcases ha with ha | rfl
      · exact hrecent a ha
      · exact le_rfl
    · refine hsame.snoc hrecent rfl fun hacc a ha hid hlt => ?_
      -- the offer to which an Accept is sent has the id of the earlier attempts
      rcases hcase with ⟨-, hs⟩ | ⟨hrej, -⟩
      · have hk := hknown a ha hid
        rw [RecvCall.Knows, hpc] at hk
        rcases hk with ⟨hhave, hinfo⟩ | ⟨hattempt, -⟩
        · rw [hs] at hkeep
          rw [← hinfo]
          exact hkeep m rfl hhave
        · omega
      · rw [hrej] at hacc
        cases hacc
    · intro a ha hid
      rw [List.mem_append, List.mem_singleton] at ha
      rcases ha with ha | rfl
      · exact hknown' a ha hid
      · refine .inr ⟨rfl, ?_⟩
        rcases hcase with ⟨-, hs⟩ | ⟨-, reason, err, out, hs⟩
        · exact .inl (info?_step (by rw [hs]; rfl) hstep)
        · right
          rw [hs] at hkeep
          refine ⟨err, out, e.attempt c |>.resumeOffset, ?_, hkeep⟩
          cases recvTrans_of_step hstep with
          | sendFailed msg ec _ _ =>
            show s.pc.onSendFailed _ _ = _
            rw [hs]
            rfl
          | sent msg ec _ _ =>
            show s.pc.onSent _ = _
            rw [hs]
            rfl

/-- The loop keeps the id of the offer that the attempt took up. -/
theorem RecvJournal.Consistent.leave {s : RecvState} {err : ErrorCode} {got : Meta} {k : ℤ}
    (h : RecvJournal.Consistent e ⟨c, log, answers⟩) (hpc : c.pc = .once conn s)
    (hret : s.pc = .ret err got k) (l : List (Retry.Entry ℕ ErrorCode)) :
    RecvJournal.Consistent e ⟨c.onResult e err got k s.store, log ++ l, answers⟩ := by
  obtain ⟨hrecent, hsame, hknown, hkeeps⟩ := h
  have hrecent : ∀ a ∈ answers, a.attempt ≤ (Retry.attempts (log ++ l)).length := fun a ha =>
    (hrecent a ha).trans (Retry.length_attempts_le log l)
  have hkeep := hkeeps conn s hpc
  rw [hret] at hkeep
  unfold RecvCall.onResult
  by_cases hfailed : err.failed = true
  · rw [if_neg (by rw [hfailed]; simp)]
    dsimp only
    split_ifs with hover
    · exact ⟨hrecent, hsame, fun _ _ _ => trivial, fun _ _ honce => by cases honce⟩
    · have hagain : isRetriable err = true := by
        simp only [Bool.or_eq_true, Bool.not_eq_true', not_or, Bool.not_eq_false] at hover
        exact hover.2
      refine ⟨hrecent, hsame, fun a ha hid => ?_, fun _ _ honce => by cases honce⟩
      have hk := hknown a ha hid
      rw [RecvCall.Knows, hpc] at hk
      show (c.keep err got k s.store).haveMeta = true ∧
        (c.keep err got k s.store).info.id = a.info.id
      unfold RecvCall.keep
      dsimp only
      rcases hk with ⟨hhave, hinfo⟩ | ⟨-, hinfo | ⟨err', out, k', hret', hstop⟩⟩
      · by_cases hgot : got.id ≠ Block.zero kIdLen
        · rw [if_pos hgot, if_pos hgot]
          exact ⟨rfl, (hkeep hagain hgot hhave).trans hinfo⟩
        · rw [if_neg hgot, if_neg hgot]
          exact ⟨hhave, hinfo⟩
      · rw [hret] at hinfo
        cases hinfo
        rw [if_pos hid, if_pos hid]
        exact ⟨rfl, rfl⟩
      · rw [hret] at hret'
        cases hret'
        rw [hstop] at hagain
        cases hagain
  · rw [if_pos (by simpa using hfailed)]
    exact ⟨hrecent, hsame, fun _ _ _ => trivial, fun _ _ honce => by cases honce⟩

/-- The head of the loop. -/
theorem RecvJournal.Consistent.attempt (h : RecvJournal.Consistent e ⟨c, log, answers⟩)
    (hpc : c.pc = .redial) (conn : ℕ) (l : List (Retry.Entry ℕ ErrorCode)) :
    RecvJournal.Consistent e ⟨c.attempt e conn, log ++ l, answers⟩ := by
  obtain ⟨hrecent, hsame, hknown, -⟩ := h
  have hrecent' : ∀ a ∈ answers, a.attempt ≤ (Retry.attempts (log ++ l)).length := fun a ha =>
    (hrecent a ha).trans (Retry.length_attempts_le log l)
  unfold RecvCall.attempt
  dsimp only
  split
  · exact ⟨hrecent', hsame, fun _ _ _ => trivial, fun _ _ honce => by cases honce⟩
  · refine ⟨hrecent', hsame, fun a ha hid => ?_, fun conn' s honce => ?_⟩
    · have hk := hknown a ha hid
      rw [RecvCall.Knows, hpc] at hk
      exact .inl hk
    · cases honce
      trivial

theorem consistent_start (e : RecvCallEnv) (sink : Store) : (RecvJournal.start e sink).Consistent e := by
  have hnone : ∀ a, a ∉ (RecvJournal.start e sink).answers := fun a => List.not_mem_nil
  refine ⟨fun a ha => absurd ha (hnone a), fun a ha => absurd ha (hnone a),
    fun a ha => absurd ha (hnone a), fun conn s hpc => ?_⟩
  have hpc' : (RecvCall.start e sink).pc = .once conn s := hpc
  unfold RecvCall.start at hpc'
  split at hpc'
  · cases hpc'
  · unfold RecvCall.attempt at hpc'
    dsimp only at hpc'
    split at hpc'
    · cases hpc'
    · cases hpc'
      trivial

theorem RecvJournal.Consistent.step {j j' : RecvJournal} {ev : RecvCallEv} (h : j.Consistent e)
    (hstep : recvJournalStep e j ev = some j') : j'.Consistent e := by
  obtain ⟨c', hc, rfl⟩ := Option.map_eq_some_iff.mp hstep
  obtain ⟨c, log, answers⟩ := j
  dsimp only at hc ⊢
  cases recvCallTrans_of_step hc with
  | once conn s s' ev hpc hs =>
    show RecvJournal.Consistent e ⟨_, log ++ [], _⟩
    rw [List.append_nil]
    exact h.once hpc hs
  | leave conn s err got k hpc hret =>
    show RecvJournal.Consistent e ⟨_, _, answers ++ []⟩
    rw [List.append_nil]
    exact h.leave hpc hret _
  | noConn hpc =>
    show RecvJournal.Consistent e ⟨_, _, answers ++ []⟩
    rw [List.append_nil]
    refine ⟨fun a ha => ?_, h.same, fun _ _ _ => trivial, fun _ _ honce => by cases honce⟩
    exact (h.recent a ha).trans (Retry.length_attempts_le log _)
  | redialed conn hpc =>
    show RecvJournal.Consistent e ⟨_, _, answers ++ []⟩
    rw [List.append_nil]
    exact h.attempt hpc conn _

end Answers

/-! ## Both loops -/

/-- Some attempt within the limit ends with success or with an error that is not retriable, or some
`redial` within the limit fails. -/
def EndsInTime (opts : Option Options) (results : ℕ → ErrorCode) (conns : ℕ → Option ℕ) : Prop :=
  (∃ i < (normalize opts).maxAttempts.toInt.toNat, isRetriable (results i) = false) ∨
    ∃ i < (normalize opts).maxAttempts.toInt.toNat, conns i = none

/-- The journal of a call that returned `err` is a disciplined one if and only if the results of its
attempts and of `redial` let it end in time; one that made no attempt is. -/
def DisciplinedInTime (opts : Option Options) (log : List (Retry.Entry ℕ ErrorCode))
    (err : ErrorCode) : Prop :=
  (log = [] → Retry.Disciplined (retryPolicy opts) log err) ∧
    (log ≠ [] → ∀ results conns, Retry.Answers results conns log →
      (Retry.Disciplined (retryPolicy opts) log err ↔ EndsInTime opts results conns))

theorem disciplinedInTime_nil (opts : Option Options) (err : ErrorCode) :
    DisciplinedInTime opts [] err := by
  have hpos := (retryPolicy_limit opts).2
  refine ⟨fun _ => ?_, fun hne => absurd rfl hne⟩
  exact ⟨Nat.zero_le _, by simp, by simp, fun hlen => by simp at hlen; omega, rfl⟩

theorem Tracks.disciplinedInTime {opts : Option Options}
    (h : Tracks (retryPolicy opts) log n lastErr (.ended err)) : DisciplinedInTime opts log err := by
  have hpos := (retryPolicy_limit opts).2
  refine ⟨fun hnil => ?_, fun _ results conns hans => ?_⟩
  · rw [hnil]
    exact (disciplinedInTime_nil opts err).1 rfl
  · exact Retry.disciplined_iff hpos h.1 hans

/-- The policy has a limit unless it is the largest `int`. -/
theorem endless_eq_false {opts : Option Options} (h : (normalize opts).maxAttempts ≠ Int32.maxValue) :
    (retryPolicy opts).endless = false := decide_eq_false h

theorem SendJournal.Ok.few {e : SendCallEnv} {j : SendJournal} (h : j.Ok e)
    (hmax : (normalize e.opts).maxAttempts ≠ Int32.maxValue) :
    (Retry.attempts j.log).length + (j.call.pc.phase.map Retry.Phase.underWay).getD 0 ≤
      (normalize e.opts).maxAttempts.toInt.toNat := by
  have hpos := (retryPolicy_limit e.opts).2
  cases h with
  | before hlog _ hpc =>
    rw [hlog]
    rcases hpc with ⟨off, ctx, hpc⟩ | ⟨err, hpc⟩
    · rw [hpc]
      exact Nat.zero_le _
    · rw [hpc]
      exact Nat.zero_le _
  | looping phase hphase htracks =>
    rw [hphase]
    exact htracks.1.few hpos (endless_eq_false hmax)

theorem RecvJournal.Ok.few {e : RecvCallEnv} {j : RecvJournal} (h : j.Ok e)
    (hmax : (normalize e.opts).maxAttempts ≠ Int32.maxValue) :
    (Retry.attempts j.log).length + j.call.pc.phase.underWay ≤
      (normalize e.opts).maxAttempts.toInt.toNat := by
  have hpos := (retryPolicy_limit e.opts).2
  cases h with
  | before hlog hpc =>
    obtain ⟨err, hpc⟩ := hpc
    rw [hlog, hpc]
    exact Nat.zero_le _
  | looping htracks => exact htracks.1.few hpos (endless_eq_false hmax)

/-! ### No call is stuck in its loop -/

/-- A call of `send` whose attempt has returned makes one step: it returns that result, or dials. Behind a
`redial` it returns `other`, starts an attempt on the new connection, or returns the error of the last one. -/
structure SendCall.GoesOn (e : SendCallEnv) (c : SendCall) : Prop where
  only : ∀ conn s err, c.pc = .once conn s → s.pc = .ret err → ∀ ev, (sendCallStep e c ev).isSome →
    ev = .leave
  leaves : ∀ conn s err, c.pc = .once conn s → s.pc = .ret err → ∃ c', sendCallStep e c .leave = some c' ∧
    c'.pc = if isRetriable (attemptResult err) then .redial else .ret (attemptResult err)
  fails : c.pc = .redial → ∃ c', sendCallStep e c (.redialed none) = some c' ∧ c'.pc = .ret Errc.other.code
  dials : c.pc = .redial → ∀ conn, ∃ c', sendCallStep e c (.redialed (some conn)) = some c' ∧
    ((∃ s, c'.pc = .once conn s) ∨ ∃ err, c'.pc = .ret err)

/-- The same for a call of `receive`. -/
structure RecvCall.GoesOn (e : RecvCallEnv) (c : RecvCall) : Prop where
  only : ∀ conn s err got k, c.pc = .once conn s → s.pc = .ret err got k →
    ∀ ev, (recvCallStep e c ev).isSome → ev = .leave
  leaves : ∀ conn s err got k, c.pc = .once conn s → s.pc = .ret err got k →
    ∃ c', recvCallStep e c .leave = some c' ∧
      c'.pc = if isRetriable (attemptResult err) then .redial else .ret (attemptResult err)
  fails : c.pc = .redial → ∃ c', recvCallStep e c (.redialed none) = some c' ∧ c'.pc = .ret Errc.other.code
  dials : c.pc = .redial → ∀ conn, ∃ c', recvCallStep e c (.redialed (some conn)) = some c' ∧
    ((∃ s, c'.pc = .once conn s) ∨ ∃ err, c'.pc = .ret err)

theorem SendCall.onResult_pc {e : SendCallEnv} (hredial : (normalize e.opts).redial = true) (c : SendCall)
    (err : ErrorCode) :
    (c.onResult e err).pc =
      if isRetriable (attemptResult err) then .redial else .ret (attemptResult err) := by
  unfold SendCall.onResult
  by_cases hfailed : err.failed = true
  · rw [if_neg (by rw [hfailed]; simp), attemptResult_of_failed hfailed]
    by_cases hagain : isRetriable err = true
    · rw [if_neg (by rw [hredial, hagain]; simp), if_pos hagain]
    · rw [if_pos (by simp [hagain]), if_neg hagain]
  · rw [if_pos (by simpa using hfailed), attemptResult_of_success (by simpa using hfailed)]
    rfl

theorem RecvCall.onResult_pc {e : RecvCallEnv} (hredial : (normalize e.opts).redial = true) (c : RecvCall)
    (err : ErrorCode) (got : Meta) (k : ℤ) (sink : Store) :
    (c.onResult e err got k sink).pc =
      if isRetriable (attemptResult err) then .redial else .ret (attemptResult err) := by
  unfold RecvCall.onResult
  by_cases hfailed : err.failed = true
  · rw [if_neg (by rw [hfailed]; simp), attemptResult_of_failed hfailed]
    by_cases hagain : isRetriable err = true
    · rw [if_neg (by rw [hredial, hagain]; simp), if_pos hagain]
    · rw [if_pos (by simp [hagain]), if_neg hagain]
  · rw [if_pos (by simpa using hfailed), attemptResult_of_success (by simpa using hfailed)]
    rfl

theorem SendCall.goesOn {e : SendCallEnv} (hredial : (normalize e.opts).redial = true) (c : SendCall) :
    c.GoesOn e where
  only conn s err hpc hret ev hsome := by
    obtain ⟨c', hc⟩ := Option.isSome_iff_exists.mp hsome
    cases sendCallTrans_of_step hc with
    | leave => rfl
    | once conn' s₁ s' ev hpc' hstep =>
      rw [hpc] at hpc'
      cases hpc'
      rcases ev with (_ | _) | _ | _ <;> simp [sendStep, hret, SendPc.waiting, SendPc.outgoing] at hstep
    | readFailed off ctx ec hpc' => rw [hpc] at hpc'; cases hpc'
    | read off ctx block ec hpc' => rw [hpc] at hpc'; cases hpc'
    | noConn hpc' => rw [hpc] at hpc'; cases hpc'
    | redialed conn hpc' => rw [hpc] at hpc'; cases hpc'
  leaves conn s err hpc hret :=
    ⟨_, by simp only [sendCallStep, sendCallStepWith, hpc, hret], SendCall.onResult_pc hredial c err⟩
  fails hpc := ⟨{ c with pc := .ret Errc.other.code }, by simp only [sendCallStep, sendCallStepWith, hpc], rfl⟩
  dials hpc conn := by
    refine ⟨c.attempt e conn, by simp only [sendCallStep, sendCallStepWith, hpc], ?_⟩
    unfold SendCall.attempt
    dsimp only
    split
    · exact .inr ⟨_, rfl⟩
    · exact .inl ⟨_, rfl⟩

theorem RecvCall.goesOn {e : RecvCallEnv} (hredial : (normalize e.opts).redial = true) (c : RecvCall) :
    c.GoesOn e where
  only conn s err got k hpc hret ev hsome := by
    obtain ⟨c', hc⟩ := Option.isSome_iff_exists.mp hsome
    cases recvCallTrans_of_step hc with
    | leave => rfl
    | once conn' s₁ s' ev hpc' hstep =>
      rw [hpc] at hpc'
      cases hpc'
      exact absurd hret (not_ret_of_step hstep err got k)
    | noConn hpc' => rw [hpc] at hpc'; cases hpc'
    | redialed conn hpc' => rw [hpc] at hpc'; cases hpc'
  leaves conn s err got k hpc hret :=
    ⟨_, by simp only [recvCallStep, recvCallStepWith, hpc, hret],
      RecvCall.onResult_pc hredial c err got k s.store⟩
  fails hpc :=
    ⟨{ c with pc := .ret Errc.other.code, outMeta := c.info },
      by simp only [recvCallStep, recvCallStepWith, hpc], rfl⟩
  dials hpc conn := by
    refine ⟨c.attempt e conn, by simp only [recvCallStep, recvCallStepWith, hpc], ?_⟩
    unfold RecvCall.attempt
    dsimp only
    split
    · exact .inr ⟨_, rfl⟩
    · exact .inl ⟨_, rfl⟩

/-- **The discipline of the retry loops.** With `redial` set, neither `send` nor `receive` makes more
than `max_attempts` attempts, unless that is the largest `int`, and `receive` sends an Accept to no offer with
another id than one that an earlier attempt answered. Behind an attempt that returned a call returns that
result or dials, and it is stuck in neither. A call that returned ended as the loop says: with the first
result that is not retriable, with `other`, or with the error of its last attempt. It kept the discipline if
and only if it could end before the limit: with an attempt that succeeded or failed for good, or with a
`redial` that failed. Otherwise it dialed for one connection more than it made attempts on, or its counter
wrapped around. -/
theorem retry_discipline_iff (es : SendCallEnv) (er : RecvCallEnv) (sink : Store) :
    ((normalize es.opts).redial = true →
      ∀ j, Run (sendJournalStep es) (SendJournal.start es) j →
        ((normalize es.opts).maxAttempts ≠ Int32.maxValue →
          (Retry.attempts j.log).length + (j.call.pc.phase.map Retry.Phase.underWay).getD 0 ≤
            (normalize es.opts).maxAttempts.toInt.toNat) ∧
          j.call.GoesOn es ∧
          ∀ err, j.call.pc = .ret err →
            (j.log ≠ [] → Retry.Ended (retryPolicy es.opts) j.log err) ∧
              DisciplinedInTime es.opts j.log err) ∧
      ((normalize er.opts).redial = true →
        ∀ j, Run (recvJournalStep er) (RecvJournal.start er sink) j →
          ((normalize er.opts).maxAttempts ≠ Int32.maxValue →
            (Retry.attempts j.log).length + j.call.pc.phase.underWay ≤
              (normalize er.opts).maxAttempts.toInt.toNat) ∧
            SameId j.answers ∧ j.call.GoesOn er ∧
            ∀ err, j.call.pc = .ret err →
              (j.log ≠ [] → Retry.Ended (retryPolicy er.opts) j.log err) ∧
                DisciplinedInTime er.opts j.log err) := by
  constructor
  · intro hredial j hrun
    have hok : j.Ok es := Run.invariant (I := fun j => j.Ok es)
      (fun _ _ _ h hstep => h.step hredial hstep) hrun (ok_sendJournal_start es)
    refine ⟨hok.few, j.call.goesOn hredial, fun err hret => ?_⟩
    cases hok with
    | before hlog _ _ =>
      rw [hlog]
      exact ⟨fun hne => absurd rfl hne, disciplinedInTime_nil es.opts err⟩
    | looping phase hphase htracks =>
      rw [hret] at hphase
      cases hphase
      exact ⟨fun _ => htracks.1.shape (retryPolicy_limit es.opts).2, htracks.disciplinedInTime⟩
  · intro hredial j hrun
    have hok : j.Ok er := Run.invariant (I := fun j => j.Ok er)
      (fun _ _ _ h hstep => h.step hredial hstep) hrun (ok_recvJournal_start er sink)
    have hcons : j.Consistent er := Run.invariant (I := fun j => j.Consistent er)
      (fun _ _ _ h hstep => h.step hstep) hrun (consistent_start er sink)
    refine ⟨hok.few, hcons.same, j.call.goesOn hredial, fun err hret => ?_⟩
    cases hok with
    | before hlog _ =>
      rw [hlog]
      exact ⟨fun hne => absurd rfl hne, disciplinedInTime_nil er.opts err⟩
    | looping htracks =>
      rw [hret] at htracks
      exact ⟨fun _ => htracks.1.shape (retryPolicy_limit er.opts).2, htracks.disciplinedInTime⟩

/-! ### A connection that is not used -/

/-- A call with one attempt. -/
def dialOnce : Options := { defaultOptions with maxAttempts := 1, redial := true }

/-- A sender of `abc` with one attempt. -/
def dialOnceSend : SendCallEnv where
  opts := some dialOnce
  info := sampleMeta
  source := Store.write (fun _ => 0) 0 sampleContent
  newId := Block.zero kIdLen
  maxMessageBytes := fun _ => defaultConfig.maxMessageBytes
  sha256 := sampleSha256

/-- A receiver with one attempt. -/
def dialOnceRecv : RecvCallEnv where
  opts := some dialOnce
  readable := true
  resumeOffset := 0
  sha256 := sampleSha256
  ext := fun _ => ""

/-- The only attempt finds its connection closed. -/
def closedOnce : Retry.Entry ℕ ErrorCode := .attempted 0 Errc.closed.code

/-- When `redial` fails behind the only attempt, both calls keep the discipline. -/
theorem no_conn_disciplined :
    (∃ j, Run (sendJournalStep dialOnceSend) (SendJournal.start dialOnceSend) j ∧
      j.log = [closedOnce, .dialed none] ∧ j.call.pc = .ret Errc.other.code ∧
      Retry.Disciplined (retryPolicy (some dialOnce)) j.log Errc.other.code) ∧
      ∃ j, Run (recvJournalStep dialOnceRecv) (RecvJournal.start dialOnceRecv fun _ => 0) j ∧
        j.log = [closedOnce, .dialed none] ∧ j.call.pc = .ret Errc.other.code ∧
        Retry.Disciplined (retryPolicy (some dialOnce)) j.log Errc.other.code := by
  have hans : Retry.Answers (fun _ => Errc.closed.code) (fun _ => none)
      [closedOnce, .dialed none] := by
    constructor
    · intro i a h
      cases i <;> simp [Retry.attempts, closedOnce] at h
      rw [← h]
    · intro i d h
      cases i <;> simp [Retry.dials, closedOnce] at h
      exact h.symm
  have hends : EndsInTime (some dialOnce) (fun _ => Errc.closed.code) fun _ => none :=
    .inr ⟨0, by decide, rfl⟩
  constructor
  · obtain ⟨j, hrun, hlog, hret⟩ : ∃ j, Run (sendJournalStep dialOnceSend)
        (SendJournal.start dialOnceSend) j ∧ j.log = [closedOnce, .dialed none] ∧
          j.call.pc = .ret Errc.other.code :=
      exists_run_of_exec [.once (.sent TcpDuplex.Errc.closed.code), .leave, .redialed none]
        ⟨_, rfl, rfl, rfl⟩
    obtain ⟨-, -, hended⟩ := (retry_discipline_iff dialOnceSend dialOnceRecv fun _ => 0).1 rfl j hrun
    have hdisc := (hended _ hret).2.2 (by simp [hlog]) _ _ (hlog ▸ hans)
    exact ⟨j, hrun, hlog, hret, hdisc.mpr hends⟩
  · obtain ⟨j, hrun, hlog, hret⟩ : ∃ j, Run (recvJournalStep dialOnceRecv)
        (RecvJournal.start dialOnceRecv fun _ => 0) j ∧ j.log = [closedOnce, .dialed none] ∧
          j.call.pc = .ret Errc.other.code :=
      exists_run_of_exec
        [.once (.received (.error TcpDuplex.Errc.closed.code)), .leave, .redialed none]
        ⟨_, rfl, rfl, rfl⟩
    obtain ⟨-, -, -, hended⟩ := (retry_discipline_iff dialOnceSend dialOnceRecv fun _ => 0).2 rfl j hrun
    have hdisc := (hended _ hret).2.2 (by simp [hlog]) _ _ (hlog ▸ hans)
    exact ⟨j, hrun, hlog, hret, hdisc.mpr hends⟩

/-- When it succeeds, connection `1` is dialed for and no attempt is made on it. -/
theorem last_connection_unused :
    (∃ j, Run (sendJournalStep dialOnceSend) (SendJournal.start dialOnceSend) j ∧
      j.log = [closedOnce, .dialed (some 1)] ∧ j.call.pc = .ret Errc.closed.code ∧
      ¬Retry.Disciplined (retryPolicy (some dialOnce)) j.log Errc.closed.code) ∧
      ∃ j, Run (recvJournalStep dialOnceRecv) (RecvJournal.start dialOnceRecv fun _ => 0) j ∧
        j.log = [closedOnce, .dialed (some 1)] ∧ j.call.pc = .ret Errc.closed.code ∧
        ¬Retry.Disciplined (retryPolicy (some dialOnce)) j.log Errc.closed.code := by
  have hunused : ¬Retry.Disciplined (retryPolicy (some dialOnce)) [closedOnce, .dialed (some 1)]
      Errc.closed.code := by
    intro hdisc
    have hused := hdisc.used
    simp [Retry.attempts, Retry.dials, closedOnce, List.reduceOption] at hused
  constructor
  · obtain ⟨j, hrun, hlog, hret⟩ : ∃ j, Run (sendJournalStep dialOnceSend)
        (SendJournal.start dialOnceSend) j ∧ j.log = [closedOnce, .dialed (some 1)] ∧
          j.call.pc = .ret Errc.closed.code :=
      exists_run_of_exec [.once (.sent TcpDuplex.Errc.closed.code), .leave, .redialed (some 1)]
        ⟨_, rfl, rfl, rfl⟩
    exact ⟨j, hrun, hlog, hret, hlog ▸ hunused⟩
  · obtain ⟨j, hrun, hlog, hret⟩ : ∃ j, Run (recvJournalStep dialOnceRecv)
        (RecvJournal.start dialOnceRecv fun _ => 0) j ∧ j.log = [closedOnce, .dialed (some 1)] ∧
          j.call.pc = .ret Errc.closed.code :=
      exists_run_of_exec
        [.once (.received (.error TcpDuplex.Errc.closed.code)), .leave, .redialed (some 1)]
        ⟨_, rfl, rfl, rfl⟩
    exact ⟨j, hrun, hlog, hret, hlog ▸ hunused⟩

end TcpDuplex.Transfer
