import TcpDuplex.Conn.Rest

/-!
# The destructor of a connection

`~Conn` calls `shutdown` with a wait of five seconds and joins the three threads. Its wait is bounded, so
that a lost notify of `done_cv_` costs it only time; its joins are not. `read_loop` can be parked on
`recv_cv_` with a text record for which there was no room, or it can wait in `abort_recv` for the `recv_mu_`
that it holds (`ReaderPc.hung`), and then the destructor never returns. And it can be blocked in `recv`, which
the `::close` in `shutdown` does not wake: on a connection whose peer is silent the destructor waits for as
long as that call does. The same goes for `write_loop` in `send`.
-/

namespace TcpDuplex.Conn

open Machine Protocol

variable {e : Env} {s t : State}

/-! ## The destructor -/

/-- How far `~Conn` has got. -/
inductive DtorPc where
  | idle
  /-- In its call of `shutdown`. -/
  | shutdown
  | joinReader
  | joinWriter
  | joinDeliver
  | done
  deriving DecidableEq

def DtorPc.next : DtorPc → DtorPc
  | .idle => .idle
  | .shutdown => .joinReader
  | .joinReader => .joinWriter
  | .joinWriter => .joinDeliver
  | .joinDeliver => .done
  | .done => .done

def DtorPc.stage : DtorPc → ℕ
  | .idle => 0
  | .shutdown => 1
  | .joinReader => 2
  | .joinWriter => 3
  | .joinDeliver => 4
  | .done => 5

/-- A call of `shutdown` has begun and not returned. -/
def ShutPc.underWay : ShutPc → Bool
  | .idle => false
  | .done _ => false
  | _ => true

/-- `deliver_loop` has returned, or there is no thread to join. -/
def DeliverPc.ended : DeliverPc → Bool
  | .absent => true
  | .exited => true
  | _ => false

/-- What the destructor waits for has come about. -/
def DtorPc.passes (s : State) : DtorPc → Bool
  | .idle => false
  | .shutdown => !s.shutdown.underWay
  | .joinReader => decide (s.reader = .exited)
  | .joinWriter => decide (s.writer = .exited)
  | .joinDeliver => s.deliver.ended
  | .done => false

/-- A connection and the thread that destroys it. -/
structure Owned where
  conn : State
  dtor : DtorPc

inductive OwnedAct where
  | conn (a : Act)
  | destroy
  | dtor

/-- A connection with its destructor. The object may not be destroyed while `shutdown` runs on it, and from
then on nobody calls it. -/
def ownedStep (e : Env) (o : Owned) : OwnedAct → Option Owned
  | .conn a =>
    if o.dtor ≠ .idle ∧ a.isNew = true then none
    else (step e o.conn a).map fun s => { o with conn := s }
  | .destroy =>
    if o.dtor = .idle ∧ o.conn.shutdown.underWay = false then
      (step e o.conn (.callShutdown true)).map fun s => ⟨s, .shutdown⟩
    else none
  | .dtor => if o.dtor.passes o.conn then some { o with dtor := o.dtor.next } else none

def Owned.start (cfg : FrozenConfig) : Owned := ⟨init cfg, .idle⟩

/-- No thread can take a step, but for the calls of `recv` and `send` that have not returned; the deadline of
`shutdown` has run out, and the destructor cannot go on. -/
structure Owned.Still (e : Env) (o : Owned) : Prop where
  threads : Conn.Still e o.conn
  deadline : step e o.conn .expireShutdown = none
  dtor : o.dtor.passes o.conn = false

/-- A call of `recv` or `send` returns. -/
def OwnedAct.isSocket : OwnedAct → Bool
  | .conn a => a.isSocket
  | _ => false

/-- A call of `recv` or `send` on the closed socket succeeds. -/
def OwnedAct.served : OwnedAct → Bool
  | .conn a => a.served
  | _ => false

/-- The steps of a connection with its destructor. -/
inductive OwnedTrans (e : Env) (o : Owned) : OwnedAct → Owned → Prop
  | conn {a c} (hold : o.dtor ≠ .idle → a.isNew = false) (h : step e o.conn a = some c) :
      OwnedTrans e o (.conn a) { o with conn := c }
  | destroy {c} (hdtor : o.dtor = .idle) (hquiet : o.conn.shutdown.underWay = false)
      (h : step e o.conn (.callShutdown true) = some c) :
      OwnedTrans e o .destroy ⟨c, .shutdown⟩
  | dtor (h : o.dtor.passes o.conn = true) : OwnedTrans e o .dtor { o with dtor := o.dtor.next }

theorem ownedStep_inv {o u : Owned} {a : OwnedAct} (h : ownedStep e o a = some u) :
    OwnedTrans e o a u := by
  cases a with
  | conn a =>
    simp only [ownedStep] at h
    split at h
    · cases h
    · rename_i hnot
      obtain ⟨s, hs, rfl⟩ := Option.map_eq_some_iff.mp h
      refine .conn (fun hdtor => ?_) hs
      by_contra hnew
      exact hnot ⟨hdtor, Bool.eq_true_of_not_eq_false hnew⟩
  | destroy =>
    simp only [ownedStep] at h
    split at h
    · rename_i hquiet
      obtain ⟨s, hs, rfl⟩ := Option.map_eq_some_iff.mp h
      exact .destroy hquiet.1 hquiet.2 hs
    · cases h
  | dtor =>
    simp only [ownedStep] at h
    split at h
    · rename_i hpass
      cases h
      exact .dtor hpass
    · cases h

/-! ## What stays as it is -/

/-- What a thread or call has come to and does not leave. -/
structure Stays (s t : State) : Prop where
  reader : s.reader = .exited → t.reader = .exited
  hung : s.reader.hung = true → t.reader.hung = true
  writer : s.writer = .exited → t.writer = .exited
  deliver : s.deliver.ended = true → t.deliver.ended = true

theorem ReaderPc.hung_wakeSend (pc : ReaderPc) : pc.wakeSend.hung = pc.hung := by
  cases pc <;> rfl

theorem DeliverPc.ended_wake (pc : DeliverPc) : pc.wake.ended = pc.ended := by
  cases pc <;> rfl

theorem Stays.notifySendCv (s : State) : Stays s s.notifySendCv where
  reader h := by simp only [State.notifySendCv, h, ReaderPc.wakeSend]
  hung h := by simp only [State.notifySendCv, ReaderPc.hung_wakeSend, h]
  writer h := by simp only [State.notifySendCv, h, WriterPc.wake]
  deliver h := h

theorem stays_writer {io : WriteIo} (h : WriterTrans e s io t) : Stays s t := by
  have hlive : s.writer ≠ .exited := by
    intro hexited
    cases h <;> simp_all
  have hsame : (s.reader = .exited → t.reader = .exited) ∧ t.reader.hung = s.reader.hung ∧
      t.deliver = s.deliver := by
    cases h with
    | pop =>
      have hwake := Stays.notifySendCv s
      exact ⟨hwake.reader, s.reader.hung_wakeSend, rfl⟩
    | _ => exact ⟨id, rfl, rfl⟩
  obtain ⟨hreader, hhung, hdeliver⟩ := hsame
  exact ⟨hreader, fun h => hhung ▸ h, fun h => absurd h hlive, fun h => hdeliver ▸ h⟩

theorem stays_reader {io : ReadIo} (hL : Locks s) (h : ReaderTrans e s io t) : Stays s t := by
  -- `read_loop` gets no further in `abort_recv` while it holds `recv_mu_`
  have hfree : s.recvMu = none → s.reader.held ≠ .recvSend := by
    intro hmu hheld
    have hholds : s.holdsRecv .reader = true := by
      cases hr : s.reader <;> simp_all [State.holdsRecv, ReaderPc.holdsRecv, ReaderPc.held]
    cases hmu.symm.trans (hL.recv.eq_some hholds)
  have hlive : s.reader ≠ .exited ∧ s.reader.hung = false := by
    cases h with
    | @abortAgain err held hpc hmu _ =>
      have hne := hfree hmu
      cases held <;> simp_all [ReaderPc.hung, ReaderPc.held]
    | @abortFirst err held hpc hmu _ =>
      have hne := hfree hmu
      cases held <;> simp_all [ReaderPc.hung, ReaderPc.held]
    | _ => simp_all [ReaderPc.hung]
  have hsame : (s.writer = .exited → t.writer = .exited) ∧ t.deliver.ended = s.deliver.ended := by
    cases h with
    | pingPush => exact ⟨(Stays.notifySendCv s).writer, rfl⟩
    | jobPush => exact ⟨id, s.deliver.ended_wake⟩
    | @leave held => cases held <;> exact ⟨id, rfl⟩
    | _ => exact ⟨id, rfl⟩
  exact ⟨fun h => absurd h hlive.1, fun h => absurd (hlive.2.symm.trans h) Bool.false_ne_true, hsame.1,
    fun h => hsame.2 ▸ h⟩

theorem stays_step {a : Act} (hL : Locks s) (h : step e s a = some t) : Stays s t := by
  cases step_inv h with
  | sender hs =>
    cases hs with
    | push => exact { Stays.notifySendCv s with }
    | _ => exact ⟨id, id, id, id⟩
  | receiver hs => cases hs <;> exact ⟨id, id, id, id⟩
  | shutdown hs =>
    cases hs with
    | notifySend => exact { Stays.notifySendCv s with }
    | notifyJobs => exact ⟨id, id, id, fun hended => s.deliver.ended_wake.trans hended⟩
    | _ => exact ⟨id, id, id, id⟩
  | writer hs => exact stays_writer hs
  | reader hs => exact stays_reader hL hs
  | deliver hs =>
    have hlive : s.deliver.ended = false := by
      cases hs <;> simp_all [DeliverPc.ended]
    have hsame : t.reader = s.reader ∧ t.writer = s.writer := by
      cases hs <;> exact ⟨rfl, rfl⟩
    exact ⟨fun h => hsame.1.trans h, fun h => hsame.1.symm ▸ h, fun h => hsame.2.trans h,
      fun h => absurd (hlive.symm.trans h) Bool.false_ne_true⟩
  | _ => exact ⟨id, id, id, id⟩

/-! ## The call of `shutdown` -/

/-- The wait of the call of `shutdown` is bounded, or the call has returned. -/
def ShutPc.bounded : ShutPc → Bool
  | .idle => true
  | .markClosed timed => timed
  | .setStop timed => timed
  | .notifySend timed => timed
  | .await _ timed _ _ => timed
  | .park _ timed _ => timed
  | .parked _ timed _ => timed
  | .setDeliverStop timed _ => timed
  | .notifyJobs timed _ => timed
  | .closeSock timed _ => timed
  | .done _ => true

theorem ShutPc.bounded_wake (pc : ShutPc) : pc.wake.bounded = pc.bounded := by
  cases pc <;> rfl

/-- How a step that is no call of `shutdown` moves the one that runs. -/
structure ShutMove (pc pc' : ShutPc) : Prop where
  phase : pc.phase ≤ pc'.phase
  bounded : pc.bounded = true → pc'.bounded = true

theorem ShutMove.refl (pc : ShutPc) : ShutMove pc pc := ⟨le_rfl, id⟩

theorem ShutMove.wake (pc : ShutPc) : ShutMove pc pc.wake :=
  ⟨pc.phase_wake.ge, fun h => pc.bounded_wake.trans h⟩

theorem ShutMove.after (flag : Flag) (timed expired : Bool) (ec ec2 : ErrorCode) :
    ShutMove (.await flag timed expired ec) (.after flag timed ec ec2) := by
  cases flag with
  | writeDone => exact ⟨by simp [ShutPc.phase, ShutPc.after], id⟩
  | readDone => exact ⟨by simp [ShutPc.phase, ShutPc.after], fun _ => rfl⟩

theorem shutMove_shutdown (h : ShutdownTrans s t) : ShutMove s.shutdown t.shutdown := by
  cases h with
  | flagSet hpc =>
    rw [hpc]
    exact .after _ _ _ _ _
  | timeout hpc =>
    rw [hpc]
    exact .after _ _ _ _ _
  | @flagUnset flag timed ec hpc =>
    rw [hpc]
    exact ⟨by cases flag <;> simp [ShutPc.phase], id⟩
  | @park flag timed ec hpc =>
    rw [hpc]
    exact ⟨by cases flag <;> simp [ShutPc.phase], id⟩
  | _ hpc =>
    rw [hpc]
    exact ⟨by simp [ShutPc.phase], id⟩

/-- A step moves the call of `shutdown` that runs, or it is the first one. -/
theorem shutdown_step {a : Act} (h : step e s a = some t) :
    (t.shutdownStarted = s.shutdownStarted ∧ ShutMove s.shutdown t.shutdown) ∨
      ∃ timed, a = .callShutdown timed ∧ t.shutdownStarted = true ∧ t.shutdown = .markClosed timed := by
  cases step_inv h with
  | @callShutdown timed => exact .inr ⟨timed, rfl, rfl, rfl⟩
  | @expireShutdown flag ec hpc =>
    refine .inl ⟨rfl, ?_⟩
    rw [hpc]
    exact ⟨by cases flag <;> simp [ShutPc.phase], id⟩
  | shutdown hs =>
    refine .inl ⟨?_, shutMove_shutdown hs⟩
    cases hs <;> rfl
  | sender hs => exact .inl (by cases hs <;> exact ⟨rfl, .refl _⟩)
  | receiver hs => exact .inl (by cases hs <;> exact ⟨rfl, .refl _⟩)
  | writer hs =>
    cases hs with
    | notifyDone => exact .inl ⟨rfl, .wake _⟩
    | _ => exact .inl ⟨rfl, .refl _⟩
  | reader hs =>
    cases hs with
    | notifyDone => exact .inl ⟨rfl, .wake _⟩
    | @leave held => cases held <;> exact .inl ⟨rfl, .refl _⟩
    | _ => exact .inl ⟨rfl, .refl _⟩
  | deliver hs => exact .inl (by cases hs <;> exact ⟨rfl, .refl _⟩)
  | _ => exact .inl ⟨rfl, .refl _⟩

theorem shutMove_of_old {a : Act} (hold : a.isNew = false) (h : step e s a = some t) :
    ShutMove s.shutdown t.shutdown := by
  rcases shutdown_step h with ⟨-, hmove⟩ | ⟨timed, rfl, -⟩
  · exact hmove
  · cases hold

/-- A call of `shutdown` that was made has a program counter. -/
theorem started_reachable (h : Reachable e s) : s.shutdownStarted = true → 1 ≤ s.shutdown.phase := by
  refine Run.invariant (I := fun s => s.shutdownStarted = true → 1 ≤ s.shutdown.phase) ?_ h nofun
  intro s a t hs ha hstarted
  rcases shutdown_step ha with ⟨hsame, hmove⟩ | ⟨timed, -, -, hpc⟩
  · exact (hs (hsame ▸ hstarted)).trans hmove.phase
  · rw [hpc]
    exact le_rfl

/-- A call of `shutdown` that was made and is not under way has returned. -/
theorem ShutPc.eq_done {pc : ShutPc} (hcalled : 1 ≤ pc.phase) (hquiet : pc.underWay = false) :
    ∃ ec, pc = .done ec := by
  cases pc with
  | idle => cases hcalled
  | done ec => exact ⟨ec, rfl⟩
  | _ => cases hquiet

theorem ShutMove.eq_done {pc : ShutPc} {ec : ErrorCode} (h : ShutMove (.done ec) pc) :
    ∃ ec', pc = .done ec' := by
  have hphase := h.phase
  cases pc with
  | done ec' => exact ⟨ec', rfl⟩
  | await flag _ _ _ => cases flag <;> simp [ShutPc.phase] at hphase
  | park flag _ _ => cases flag <;> simp [ShutPc.phase] at hphase
  | parked flag _ _ => cases flag <;> simp [ShutPc.phase] at hphase
  | _ => simp [ShutPc.phase] at hphase

/-! ## The invariant -/

/-- The destructor has called `shutdown`, and what it has waited for since then is still so. -/
structure Destroying (e : Env) (o : Owned) : Prop where
  conn : Reachable e o.conn
  called : o.dtor ≠ .idle → 1 ≤ o.conn.shutdown.phase
  bounded : o.dtor ≠ .idle → o.conn.shutdown.bounded = true
  passed : ∀ pc : DtorPc, pc ≠ .idle → pc.stage < o.dtor.stage → pc.passes o.conn = true

theorem DtorPc.passes_step {a : Act} {pc : DtorPc} (hL : Locks s) (hcalled : 1 ≤ s.shutdown.phase)
    (hold : a.isNew = false) (h : step e s a = some t) (hpass : pc.passes s = true) :
    pc.passes t = true := by
  have hstays := stays_step hL h
  cases pc with
  | idle => cases hpass
  | shutdown =>
    obtain ⟨ec, hpc⟩ := ShutPc.eq_done hcalled (by simpa [DtorPc.passes] using hpass)
    have hmove := shutMove_of_old hold h
    rw [hpc] at hmove
    obtain ⟨ec', hpc'⟩ := hmove.eq_done
    simp [DtorPc.passes, hpc', ShutPc.underWay]
  | joinReader => exact decide_eq_true (hstays.reader (of_decide_eq_true hpass))
  | joinWriter => exact decide_eq_true (hstays.writer (of_decide_eq_true hpass))
  | joinDeliver => exact hstays.deliver hpass
  | done => cases hpass

theorem DtorPc.ne_idle_of_lt {pc pc' : DtorPc} (h : pc.stage < pc'.stage) : pc' ≠ .idle := by
  rintro rfl
  cases h

theorem Destroying.step_conn {o : Owned} {a : Act} (hD : Destroying e o)
    (hold : o.dtor ≠ .idle → a.isNew = false) (h : step e o.conn a = some t) :
    Destroying e { o with conn := t } where
  conn := hD.conn.snoc h
  called hbegun := (hD.called hbegun).trans (shutMove_of_old (hold hbegun) h).phase
  bounded hbegun := (shutMove_of_old (hold hbegun) h).bounded (hD.bounded hbegun)
  passed pc hpc hlt := by
    have hbegun := DtorPc.ne_idle_of_lt hlt
    exact DtorPc.passes_step (locks_reachable hD.conn).2 (hD.called hbegun) (hold hbegun) h
      (hD.passed pc hpc hlt)

/-- The destructor begins: its call of `shutdown` is the first one, or an earlier one has returned. -/
theorem Destroying.begin {o : Owned} (hD : Destroying e o) (hquiet : o.conn.shutdown.underWay = false)
    (h : step e o.conn (.callShutdown true) = some t) : Destroying e ⟨t, .shutdown⟩ := by
  have hshut : 1 ≤ t.shutdown.phase ∧ t.shutdown.bounded = true := by
    cases step_inv h with
    | callShutdownAgain hstarted =>
      obtain ⟨ec, hpc⟩ := ShutPc.eq_done (started_reachable hD.conn hstarted) hquiet
      exact ⟨started_reachable hD.conn hstarted, by rw [hpc]; rfl⟩
    | callShutdown => exact ⟨le_rfl, rfl⟩
  refine ⟨hD.conn.snoc h, fun _ => hshut.1, fun _ => hshut.2, fun pc hpc hlt => ?_⟩
  cases pc <;> simp [DtorPc.stage] at hpc hlt

/-- The destructor goes on. -/
theorem Destroying.pass {o : Owned} (hD : Destroying e o) (h : o.dtor.passes o.conn = true) :
    Destroying e { o with dtor := o.dtor.next } := by
  have hbegun : o.dtor ≠ .idle := by
    intro hidle
    rw [hidle] at h
    cases h
  refine ⟨hD.conn, fun _ => hD.called hbegun, fun _ => hD.bounded hbegun, fun pc hpc hlt => ?_⟩
  by_cases hbehind : pc.stage < o.dtor.stage
  · exact hD.passed pc hpc hbehind
  · obtain rfl : pc = o.dtor := by
      revert hlt hbehind
      cases pc <;> cases o.dtor <;> simp [DtorPc.stage, DtorPc.next]
    exact h

theorem Destroying.step {o u : Owned} {a : OwnedAct} (hD : Destroying e o)
    (h : ownedStep e o a = some u) : Destroying e u := by
  cases ownedStep_inv h with
  | conn hold hs => exact hD.step_conn hold hs
  | destroy _ hquiet hs => exact hD.begin hquiet hs
  | dtor hpass => exact hD.pass hpass

theorem destroying_reachable {o : Owned} (h : Run (ownedStep e) (Owned.start e.cfg) o) :
    Destroying e o :=
  Run.invariant (I := Destroying e) (fun _ _ _ hD ha => hD.step ha) h
    ⟨Run.refl _, fun hbegun => absurd rfl hbegun, fun hbegun => absurd rfl hbegun, fun _ _ hlt => by cases hlt⟩

/-- Behind its call of `shutdown` the call has returned. -/
theorem Destroying.returned {o : Owned} (hD : Destroying e o) (h : 2 ≤ o.dtor.stage) :
    ∃ ec, o.conn.shutdown = .done ec := by
  have hlt : DtorPc.shutdown.stage < o.dtor.stage := h
  have hpass := hD.passed .shutdown (by simp) hlt
  exact ShutPc.eq_done (hD.called (DtorPc.ne_idle_of_lt hlt)) (by simpa [DtorPc.passes] using hpass)

/-- Once the destructor has returned, the threads have ended. -/
theorem Destroying.joined {o : Owned} (hD : Destroying e o) (h : o.dtor = .done) :
    o.conn.reader = .exited ∧ o.conn.writer = .exited ∧ o.conn.deliver.ended = true := by
  have hpassed : ∀ pc : DtorPc, pc ≠ .idle → pc.stage < 5 → pc.passes o.conn = true := by
    intro pc hpc hlt
    exact hD.passed pc hpc (by rw [h]; exact hlt)
  exact ⟨of_decide_eq_true (hpassed .joinReader (by simp) (by simp [DtorPc.stage])),
    of_decide_eq_true (hpassed .joinWriter (by simp) (by simp [DtorPc.stage])),
    hpassed .joinDeliver (by simp) (by simp [DtorPc.stage])⟩

/-! ## The destructor returns, or a loop keeps it -/

/-- A call of `shutdown` whose wait is bounded is never stuck: its deadline runs out. -/
theorem shutdown_of_still (h : Reachable e s) (hbounded : s.shutdown.bounded = true) (hstill : Still e s)
    (hexpire : step e s .expireShutdown = none) : s.shutdown.underWay = false := by
  have hM := (woken_reachable h).1
  have hnone := hstill .shutdown rfl rfl
  cases hpc : s.shutdown with
  | idle => rfl
  | done ec => rfl
  | setStop timed =>
    -- `stop_send_` is not set yet, so `read_loop` does not hold `send_mu_` in `abort_recv`
    have hself : ∀ err, s.reader ≠ .abort err .recvSend := by
      intro err hr
      have hstop := hM.flags.held (.inr (by rw [hr]; rfl))
      rw [hM.flags.stopSend, hpc] at hstop
      simp [ShutPc.phase] at hstop
    simp [step, shutdownStep, hpc, sendMu_free hM.locks hself hstill] at hnone
  | await flag timed expired ec =>
    simp only [step, shutdownStep, hpc, doneMu_free hM.locks hstill, if_true] at hnone
    split_ifs at hnone
  | parked flag timed ec =>
    obtain rfl : timed = true := by
      rw [hpc] at hbounded
      exact hbounded
    simp [step, hpc] at hexpire
  | setDeliverStop timed ec => simp [step, shutdownStep, hpc, jobsMu_free hM.locks hstill] at hnone
  | _ => simp [step, shutdownStep, hpc] at hnone

/-- Where nothing can move, the destructor has returned, or it waits for a loop. -/
theorem Destroying.of_still {o : Owned} (hD : Destroying e o) (hbegun : o.dtor ≠ .idle)
    (hstill : o.Still e) : (o.dtor = .done ∧ AtRest o.conn) ∨
      (o.dtor = .joinReader ∧ (o.conn.reader.hung = true ∨ o.conn.reader = .recv)) ∨
      (o.dtor = .joinWriter ∧ ∃ site rest, o.conn.writer = .send site rest) := by
  obtain ⟨hthreads, hexpire, hpass⟩ := hstill
  have hquiet := shutdown_of_still hD.conn (hD.bounded hbegun) hthreads hexpire
  have hshut := ShutPc.eq_done (hD.called hbegun) hquiet
  have hphase : 8 ≤ o.conn.shutdown.phase := by
    obtain ⟨ec, hdone⟩ := hshut
    simp [hdone, ShutPc.phase]
  have hsettled : o.conn.reader.hung = false → Settled o.conn :=
    fun hhung => settled_of_still hD.conn hphase (fun _ => hshut) hhung hthreads
  have hreader : 2 < o.dtor.stage → o.conn.reader = .exited :=
    fun hlt => of_decide_eq_true (hD.passed .joinReader (by simp) hlt)
  have hnotHung : 2 < o.dtor.stage → o.conn.reader.hung = false := by
    intro hlt
    rw [hreader hlt]
    rfl
  cases hpc : o.dtor with
  | idle => exact absurd hpc hbegun
  | shutdown => simp [hpc, DtorPc.passes, hquiet] at hpass
  | joinReader =>
    refine .inr (.inl ⟨rfl, ?_⟩)
    have hlive : o.conn.reader ≠ .exited := by simpa [hpc, DtorPc.passes] using hpass
    cases hhung : o.conn.reader.hung with
    | true => exact .inl rfl
    | false => exact .inr ((hsettled hhung).reader.resolve_left hlive)
  | joinWriter =>
    have hlive : o.conn.writer ≠ .exited := by simpa [hpc, DtorPc.passes] using hpass
    have hwriter := (hsettled (hnotHung (by simp [hpc, DtorPc.stage]))).writer
    exact .inr (.inr ⟨rfl, hwriter.resolve_left hlive⟩)
  | joinDeliver =>
    rcases (hsettled (hnotHung (by simp [hpc, DtorPc.stage]))).deliver with hended | hended
    all_goals simp [hpc, DtorPc.passes, hended, DeliverPc.ended] at hpass
  | done =>
    obtain ⟨hexited, hwriter, -⟩ := hD.joined hpc
    refine .inl ⟨rfl, (hsettled (hnotHung (by simp [hpc, DtorPc.stage]))).atRest (fun site rest hw => ?_) ?_⟩
    · cases hwriter.symm.trans hw
    · rw [hexited]
      simp

/-- A `read_loop` that hangs does so for good. -/
theorem hung_run {o u : Owned} (hD : Destroying e o) (hhung : o.conn.reader.hung = true)
    (h : Run (ownedStep e) o u) : Destroying e u ∧ u.conn.reader.hung = true := by
  refine Run.invariant (I := fun u => Destroying e u ∧ u.conn.reader.hung = true) ?_ h ⟨hD, hhung⟩
  rintro o a u ⟨hD, hhung⟩ ha
  refine ⟨hD.step ha, ?_⟩
  have hL := (locks_reachable hD.conn).2
  cases ownedStep_inv ha with
  | conn _ hs => exact (stays_step hL hs).hung hhung
  | destroy _ _ hs => exact (stays_step hL hs).hung hhung
  | dtor => exact hhung

/-- `read_loop` stays in `recv` until the call returns. -/
theorem recv_step {a : Act} (hrecv : s.reader = .recv) (hsocket : a.isSocket = false)
    (h : step e s a = some t) : t.reader = .recv := by
  have hwake : s.notifySendCv.reader = .recv := by simp only [State.notifySendCv, hrecv, ReaderPc.wakeSend]
  cases step_inv h with
  | sender hs =>
    cases hs with
    | push => exact hwake
    | _ => exact hrecv
  | receiver hs => cases hs <;> exact hrecv
  | shutdown hs =>
    cases hs with
    | notifySend => exact hwake
    | _ => exact hrecv
  | writer hs =>
    cases hs with
    | pop => exact hwake
    | _ => exact hrecv
  | @reader io =>
    cases io with
    | none => simp [step, readerStep, hrecv] at h
    | _ => cases hsocket
  | deliver hs => cases hs <;> exact hrecv
  | _ => exact hrecv

/-- `write_loop` stays in `send` until the call returns. -/
theorem send_step {a : Act} {site : WriteSite} {rest : Bytes} (hsend : s.writer = .send site rest)
    (hsocket : a.isSocket = false) (h : step e s a = some t) : t.writer = .send site rest := by
  have hwake : s.notifySendCv.writer = .send site rest := by
    simp only [State.notifySendCv, hsend, WriterPc.wake]
  cases step_inv h with
  | sender hs =>
    cases hs with
    | push => exact hwake
    | _ => exact hsend
  | receiver hs => cases hs <;> exact hsend
  | shutdown hs =>
    cases hs with
    | notifySend => exact hwake
    | _ => exact hsend
  | @writer io =>
    cases io with
    | none => simp [step, writerStep, hsend] at h
    | nonce n => simp [step, writerStep, hsend] at h
    | _ => cases hsocket
  | reader hs =>
    cases hs with
    | pingPush => exact hwake
    | @leave held => cases held <;> exact hsend
    | _ => exact hsend
  | deliver hs => cases hs <;> exact hsend
  | _ => exact hsend

/-- For as long as the calls of the socket do not return, a loop that is in one stays in it. -/
theorem inSocket_run {o u : Owned} (hD : Destroying e o)
    (hin : o.conn.reader = .recv ∨ ∃ site rest, o.conn.writer = .send site rest)
    (h : GRun (ownedStep e) (fun _ a => a.isSocket = false) o u) :
    Destroying e u ∧ (u.conn.reader = .recv ∨ ∃ site rest, u.conn.writer = .send site rest) := by
  refine GRun.invariant (I := fun u => Destroying e u ∧
    (u.conn.reader = .recv ∨ ∃ site rest, u.conn.writer = .send site rest)) ?_ h ⟨hD, hin⟩
  rintro o a u ⟨hD, hin⟩ hsocket ha
  refine ⟨hD.step ha, ?_⟩
  have hconn : ∀ {a c}, a.isSocket = false → step e o.conn a = some c →
      c.reader = .recv ∨ ∃ site rest, c.writer = .send site rest := by
    intro a c hsocket hs
    rcases hin with hrecv | ⟨site, rest, hsend⟩
    · exact .inl (recv_step hrecv hsocket hs)
    · exact .inr ⟨site, rest, send_step hsend hsocket hs⟩
  cases ownedStep_inv ha with
  | conn _ hs => exact hconn hsocket hs
  | destroy _ _ hs => exact hconn rfl hs
  | dtor => exact hin

/-- The steps left to a connection that is being destroyed. -/
def Owned.rank (n : ℕ) (o : Owned) : ℕ := o.conn.rank n + (5 - o.dtor.stage)

/-- Behind the close a step lowers the rank, unless it is a call of the socket that succeeds. -/
theorem rank_owned {n : ℕ} {o u : Owned} {a : OwnedAct} (hD : Destroying e o) (hbegun : o.dtor ≠ .idle)
    (hsock : o.conn.sockClosed = true) (hbelow : CallsBelow n o.conn) (h : ownedStep e o a = some u) :
    u.rank n < o.rank n + (if a.served then 3 * n + 5 else 0) ∧ u.dtor ≠ .idle ∧
      u.conn.sockClosed = true ∧ CallsBelow n u.conn := by
  cases ownedStep_inv h with
  | @conn a c hold hs =>
    have hwind : wind e o.conn a = some c := by rw [wind, hold hbegun, if_neg Bool.false_ne_true, hs]
    have hF := (woken_reachable hD.conn).1.flags
    obtain ⟨hlt, hbelow'⟩ := rank_wind hF hsock hbelow hwind
    have hless : c.rank n < o.conn.rank n + if (OwnedAct.conn a).served then 3 * n + 5 else 0 := hlt
    refine ⟨?_, hbegun, sockClosed_step hsock hs, hbelow'⟩
    simp only [Owned.rank]
    omega
  | destroy hidle => exact absurd hidle hbegun
  | dtor hpass =>
    have hnext : o.dtor.next.stage = o.dtor.stage + 1 ∧ o.dtor.stage < 5 := by
      cases hpc : o.dtor with
      | idle => exact absurd hpc hbegun
      | done => simp [hpc, DtorPc.passes] at hpass
      | _ => exact ⟨rfl, by simp [DtorPc.stage]⟩
    refine ⟨?_, fun hidle => ?_, hsock, hbelow⟩
    · simp only [Owned.rank, OwnedAct.served]
      omega
    · have hstage := hnext.1
      simp only at hidle
      rw [hidle] at hstage
      simp [DtorPc.stage] at hstage

/-- **The destructor returns, or a loop keeps it.** In every run of a connection with its destructor, where
nothing can move any more `~Conn` has returned and everything is at rest, or it waits for a `read_loop` that
hangs or is in `recv`, or for a `write_loop` that is in `send`. A `read_loop` that hangs keeps it for good, and
a call of the socket for as long as it does not return; once the destructor has returned no thread runs; and
behind the close of the socket the number of steps is bounded under every schedule, with a `recv` or `send`
that still succeeds adding to the bound. -/
theorem destructor_returns_or_hangs (e : Env) (o : Owned) (h : Run (ownedStep e) (Owned.start e.cfg) o)
    (hbegun : o.dtor ≠ .idle) :
    (o.Still e → (o.dtor = .done ∧ AtRest o.conn) ∨
      (o.dtor = .joinReader ∧ (o.conn.reader.hung = true ∨ o.conn.reader = .recv)) ∨
      (o.dtor = .joinWriter ∧ ∃ site rest, o.conn.writer = .send site rest)) ∧
    (o.conn.reader.hung = true → ∀ u, Run (ownedStep e) o u → u.dtor ≠ .done) ∧
    (o.conn.reader = .recv ∨ (∃ site rest, o.conn.writer = .send site rest) →
      ∀ u, GRun (ownedStep e) (fun _ a => a.isSocket = false) o u → u.dtor ≠ .done) ∧
    (o.dtor = .done → o.conn.reader = .exited ∧ o.conn.writer = .exited ∧ o.conn.deliver.ended = true) ∧
    (o.conn.sockClosed = true → ∀ n as u, CallsBelow n o.conn → exec (ownedStep e) o as = some u →
      as.length ≤ 14 * n + 3 * o.conn.msgJobs.length + 38 + (3 * n + 5) * as.countP OwnedAct.served) := by
  have hD := destroying_reachable h
  refine ⟨hD.of_still hbegun, fun hhung u hu hdone => ?_, fun hin u hu hdone => ?_, hD.joined,
    fun hsock n as u hbelow hrun => ?_⟩
  · obtain ⟨hDu, hstill⟩ := hung_run hD hhung hu
    rw [(hDu.joined hdone).1] at hstill
    cases hstill
  · obtain ⟨hDu, hrecv | ⟨site, rest, hsend⟩⟩ := inSocket_run hD hin hu
    · cases (hDu.joined hdone).1.symm.trans hrecv
    · cases (hDu.joined hdone).2.1.symm.trans hsend
  · let I : Owned → Prop := fun u =>
      Destroying e u ∧ u.dtor ≠ .idle ∧ u.conn.sockClosed = true ∧ CallsBelow n u.conn
    have hI : ∀ u a v, I u → ownedStep e u a = some v → I v := fun u a v hu ha =>
      ⟨hu.1.step ha, (rank_owned hu.1 hu.2.1 hu.2.2.1 hu.2.2.2 ha).2⟩
    have hlen := length_add_rank_le_cost (r := Owned.rank n) OwnedAct.served (3 * n + 5) hI
      (fun u a v hu ha => (rank_owned hu.1 hu.2.1 hu.2.2.1 hu.2.2.2 ha).1) ⟨hD, hbegun, hsock, hbelow⟩ hrun
    have hbound := rank_le n o.conn
    simp only [Owned.rank] at hlen
    omega

/-! ### The ends of a destructor -/

theorem Owned.still_of {o : Owned} (hshut : ∃ ec, o.conn.shutdown = .done ec)
    (hreader : o.conn.reader = .exited ∨ o.conn.reader = .recv ∨ ∃ pt, o.conn.reader = .textParked pt)
    (hwriter : o.conn.writer = .exited) (hdeliver : o.conn.deliver = .absent)
    (hcalls : ∀ i, o.conn.senders i = .idle ∧ o.conn.receivers i = .idle)
    (hpass : o.dtor.passes o.conn = false) : o.Still e := by
  refine ⟨.of_parked (.inl hshut) hreader hwriter hdeliver (fun i => (hcalls i).1)
    (fun i => .inl (hcalls i).2), ?_, hpass⟩
  obtain ⟨ec, hshut⟩ := hshut
  simp [step, hshut]

/-- The destructor of a connection on which these records have come in, up to where `shutdown` waits for
`read_loop`. -/
def destroyTrace (records : List Act) : List OwnedAct :=
  records.map .conn ++ [.destroy] ++ (closeTrace.tail ++ List.replicate 6 Act.shutdown).map .conn

/-- The deadline of `shutdown` runs out. -/
def expireTrace : List OwnedAct := [.conn .expireShutdown, .conn .shutdown, .dtor]

/-- `recv` fails on the closed socket, and `read_loop` ends. -/
def joinTrace : List OwnedAct :=
  [.conn (.reader (.error Errc.closed.code))] ++ List.replicate 4 (.conn (.reader .none)) ++
    [.conn .shutdown] ++ List.replicate 4 .dtor

/-- With room for one message, a second text record that nobody receives hangs the destructor; on an idle
connection it waits for as long as `recv` does; and where `recv` fails it returns. -/
theorem second_record_hangs_destructor :
    (∃ o, Run (ownedStep tightEnv) (Owned.start tightEnv.cfg) o ∧ o.dtor = .joinReader ∧
      o.Still tightEnv ∧ ∀ u, Run (ownedStep tightEnv) o u → u.dtor ≠ .done) ∧
    (∃ o, Run (ownedStep tightEnv) (Owned.start tightEnv.cfg) o ∧ o.dtor = .joinReader ∧
      o.Still tightEnv ∧ o.conn.sockClosed = true ∧ o.conn.reader = .recv ∧
      ∀ u, GRun (ownedStep tightEnv) (fun _ a => a.isSocket = false) o u → u.dtor ≠ .done) ∧
    ∃ o, Run (ownedStep tightEnv) (Owned.start tightEnv.cfg) o ∧ o.dtor = .done ∧ AtRest o.conn := by
  refine ⟨?_, ?_, ?_⟩
  · obtain ⟨o, hrun, hdtor, hshut, hreader, hwriter, hdeliver, hcalls⟩ :
        ∃ o, Run (ownedStep tightEnv) (Owned.start tightEnv.cfg) o ∧ o.dtor = .joinReader ∧
          o.conn.shutdown = .done Errc.timedOut.code ∧ o.conn.reader = .textParked [2] ∧
          o.conn.writer = .exited ∧ o.conn.deliver = .absent ∧
          (∀ i, o.conn.senders i = .idle ∧ o.conn.receivers i = .idle) :=
      exists_run_of_exec (destroyTrace (readText [1] ++ readText [2]) ++ expireTrace)
        ⟨_, rfl, rfl, rfl, rfl, rfl, rfl, fun _ => ⟨rfl, rfl⟩⟩
    have hstill := Owned.still_of (e := tightEnv) ⟨_, hshut⟩ (.inr (.inr ⟨_, hreader⟩)) hwriter hdeliver
      hcalls (by simp [hdtor, DtorPc.passes, hreader])
    have hhangs := (destructor_returns_or_hangs tightEnv o hrun (by rw [hdtor]; simp)).2.1
    exact ⟨o, hrun, hdtor, hstill, hhangs (by rw [hreader]; rfl)⟩
  · obtain ⟨o, hrun, hdtor, hshut, hreader, hwriter, hdeliver, hcalls, hsock⟩ :
        ∃ o, Run (ownedStep tightEnv) (Owned.start tightEnv.cfg) o ∧ o.dtor = .joinReader ∧
          o.conn.shutdown = .done Errc.timedOut.code ∧ o.conn.reader = .recv ∧
          o.conn.writer = .exited ∧ o.conn.deliver = .absent ∧
          (∀ i, o.conn.senders i = .idle ∧ o.conn.receivers i = .idle) ∧ o.conn.sockClosed = true :=
      exists_run_of_exec (destroyTrace [] ++ expireTrace)
        ⟨_, rfl, rfl, rfl, rfl, rfl, rfl, fun _ => ⟨rfl, rfl⟩, rfl⟩
    have hstill := Owned.still_of (e := tightEnv) ⟨_, hshut⟩ (.inr (.inl hreader)) hwriter hdeliver hcalls
      (by simp [hdtor, DtorPc.passes, hreader])
    have hwaits := (destructor_returns_or_hangs tightEnv o hrun (by rw [hdtor]; simp)).2.2.1
    exact ⟨o, hrun, hdtor, hstill, hsock, hreader, hwaits (.inl hreader)⟩
  · obtain ⟨o, hrun, hdtor, hshut, hreader, hwriter, hdeliver, hcalls⟩ :
        ∃ o, Run (ownedStep tightEnv) (Owned.start tightEnv.cfg) o ∧ o.dtor = .done ∧
          o.conn.shutdown = .done .success ∧ o.conn.reader = .exited ∧
          o.conn.writer = .exited ∧ o.conn.deliver = .absent ∧
          (∀ i, o.conn.senders i = .idle ∧ o.conn.receivers i = .idle) :=
      exists_run_of_exec (destroyTrace (readText [1]) ++ joinTrace)
        ⟨_, rfl, rfl, rfl, rfl, rfl, rfl, fun _ => ⟨rfl, rfl⟩⟩
    have hstill := Owned.still_of (e := tightEnv) ⟨_, hshut⟩ (.inl hreader) hwriter hdeliver hcalls
      (by simp [hdtor, DtorPc.passes])
    have hends := (destructor_returns_or_hangs tightEnv o hrun (by rw [hdtor]; simp)).1
    rcases hends hstill with ⟨-, hrest⟩ | ⟨hjoin, -⟩ | ⟨hjoin, -⟩
    · exact ⟨o, hrun, hdtor, hrest⟩
    · cases hdtor.symm.trans hjoin
    · cases hdtor.symm.trans hjoin

end TcpDuplex.Conn
