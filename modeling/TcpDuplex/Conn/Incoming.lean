import TcpDuplex.Conn.Outgoing

/-!
# The incoming side of a connection

What `read_loop` does with the records it is given and what `receive_for` returns. `read_loop` calls
`abort_recv` once, on its way out, so `recv_closed_` tells how far it has got and `recv_err_` is the
first error for good. From a Close record on nothing is appended to `recv_q_`, and the calls of
`receive_for` first empty it and then all fail alike (`Drained`).
-/

namespace TcpDuplex.Conn

open Protocol

variable {e : Env} {s t : State}

/-- `read_loop` still takes records. -/
def ReaderPc.live : ReaderPc → Bool
  | .abort _ _ => false
  | .storeDone _ => false
  | .notifyDone _ => false
  | .leave _ => false
  | .exited => false
  | _ => true

/-- `read_loop` is past `abort_recv`. -/
def ReaderPc.aborted : ReaderPc → Bool
  | .storeDone _ => true
  | .notifyDone _ => true
  | .leave _ => true
  | .exited => true
  | _ => false

/-- The text payload that `read_loop` is taking to `recv_q_`. -/
def ReaderPc.inHand : ReaderPc → List Bytes
  | .text pt => [pt]
  | .textPark pt => [pt]
  | .textParked pt => [pt]
  | .textStop pt => [pt]
  | _ => []

@[simp]
theorem ReaderPc.aborted_wakeSend (pc : ReaderPc) : pc.wakeSend.aborted = pc.aborted := by
  cases pc <;> rfl

@[simp]
theorem ReaderPc.live_wakeSend (pc : ReaderPc) : pc.wakeSend.live = pc.live := by
  cases pc <;> rfl

@[simp]
theorem ReaderPc.inHand_wakeSend (pc : ReaderPc) : pc.wakeSend.inHand = pc.inHand := by
  cases pc <;> rfl

theorem ReaderPc.aborted_of_live {pc : ReaderPc} (h : pc.live = true) : pc.aborted = false := by
  cases pc <;> first | rfl | cases h

/-! ## The receive queue and the recorded error -/

/-- The incoming side of a connection in every reachable state. -/
structure Incoming (s : State) : Prop where
  queue : s.hist.popped ++ s.recvQ = s.hist.pushed
  closed : s.recvClosed = s.reader.aborted
  sawClose : s.hist.sawClose = true → s.reader = .abort Errc.closed.code .nothing ∨
    (s.reader.aborted = true ∧ s.recvErr = Errc.closed.code)

namespace Incoming

theorem not_live_of_sawClose (hI : Incoming s) (h : s.hist.sawClose = true) :
    s.reader.live = false := by
  rcases hI.sawClose h with h | ⟨h, -⟩
  · rw [h]
    rfl
  · cases hlive : s.reader.live with
    | false => rfl
    | true =>
        rw [ReaderPc.aborted_of_live hlive] at h
        cases h

theorem sawClose_of_live (hI : Incoming s) (h : s.reader.live = true) : s.hist.sawClose = false := by
  cases hsaw : s.hist.sawClose with
  | false => rfl
  | true =>
      rw [hI.not_live_of_sawClose hsaw] at h
      cases h

theorem notifySendCv (hI : Incoming s) : Incoming s.notifySendCv where
  queue := hI.queue
  closed := by
    simp only [State.notifySendCv, ReaderPc.aborted_wakeSend]
    exact hI.closed
  sawClose h := by
    simp only [State.notifySendCv, ReaderPc.aborted_wakeSend]
    exact (hI.sawClose h).imp_left fun h' => by rw [h']; rfl

/-- `read_loop` moves on while it takes records: no Close record has been seen. -/
theorem setLive {pc : ReaderPc} (hI : Incoming s) (hpc : s.reader = pc) (hlive : pc.live = true)
    (pc' : ReaderPc) (h' : pc'.aborted = false) : Incoming { s with reader := pc' } where
  queue := hI.queue
  closed := by
    rw [hI.closed, hpc, ReaderPc.aborted_of_live hlive]
    exact h'.symm
  sawClose h := by
    have := hI.sawClose_of_live (by rw [hpc]; exact hlive)
    rw [show s.hist.sawClose = true from h] at this
    cases this

/-- `read_loop` moves on behind `abort_recv`. -/
theorem setAborted {pc : ReaderPc} (hI : Incoming s) (hpc : s.reader = pc)
    (habort : pc.aborted = true) (pc' : ReaderPc) (h' : pc'.aborted = true) :
    Incoming { s with reader := pc' } where
  queue := hI.queue
  closed := by rw [hI.closed, hpc, habort, h']
  sawClose h := by
    rcases hI.sawClose h with h | ⟨-, herr⟩
    · rw [hpc] at h
      rw [h] at habort
      cases habort
    · exact Or.inr ⟨h', herr⟩

theorem reader {io : ReadIo} (hI : Incoming s) (h : ReaderTrans e s io t) : Incoming t := by
  cases h with
  | recvFail hpc _ => exact hI.setLive hpc rfl _ rfl
  | openFail hpc _ => exact hI.setLive hpc rfl _ rfl
  | gotText hpc _ _ _ => exact hI.setLive hpc rfl _ rfl
  | gotJob hpc _ _ _ => exact hI.setLive hpc rfl _ rfl
  | gotLarge hpc _ _ => exact hI.setLive hpc rfl _ rfl
  | gotPing hpc _ => exact hI.setLive hpc rfl _ rfl
  | gotPong hpc _ => exact hI.setLive hpc rfl _ rfl
  | gotClose hpc _ =>
      have hmid := hI.setLive hpc rfl (.abort Errc.closed.code .nothing) rfl
      exact ⟨hmid.queue, hmid.closed, fun _ => Or.inl rfl⟩
  | gotBad hpc _ _ _ _ _ => exact hI.setLive hpc rfl _ rfl
  | @textGo pt hpc _ _ => exact { hI.setLive hpc rfl (.textStop pt) rfl with }
  | @textFull pt hpc _ _ _ _ => exact { hI.setLive hpc rfl (.textPark pt) rfl with }
  | @textPark pt hpc => exact { hI.setLive hpc rfl (.textParked pt) rfl with }
  | textGiveUp hpc _ _ _ =>
      exact { hI.setLive hpc rfl (.abort Errc.closed.code .recvSend) rfl with }
  | textSkip hpc _ _ => exact { hI.setLive hpc rfl .recv rfl with }
  | @textPush pt hpc _ _ _ =>
      have hmid := hI.setLive hpc rfl .recv rfl
      refine ⟨?_, hmid.closed, hmid.sawClose⟩
      simp only [State.notifyRecvCv, ← List.append_assoc, hI.queue]
  | jobPush hpc _ _ => exact { hI.setLive hpc rfl .recv rfl with }
  | jobSlow hpc _ _ _ =>
      exact { hI.setLive hpc rfl (.abort Errc.slowConsumer.code .jobs) rfl with }
  | jobDrop hpc _ _ _ => exact { hI.setLive hpc rfl .recv rfl with }
  | pingGiveUp hpc _ _ =>
      exact { hI.setLive hpc rfl (.abort Errc.closed.code .send) rfl with }
  | pingPush hpc _ _ _ =>
      have hmid := hI.setLive hpc rfl .recv rfl
      exact notifySendCv { hmid with }
  | @pingFull pt hpc _ _ _ => exact { hI.setLive hpc rfl (.pingPark pt) rfl with }
  | @pingPark pt hpc => exact { hI.setLive hpc rfl (.pingParked pt) rfl with }
  | abortAgain hpc _ hclosed =>
      -- `abort_recv` runs once
      rw [hI.closed, hpc] at hclosed
      cases hclosed
  | @abortFirst err held hpc _ _ =>
      refine ⟨hI.queue, rfl, fun h => Or.inr ⟨rfl, ?_⟩⟩
      rcases hI.sawClose h with h | ⟨h, -⟩
      · obtain ⟨rfl, -⟩ := ReaderPc.abort.inj (hpc.symm.trans h)
        rfl
      · rw [hpc] at h
        cases h
  | storeDone hpc => exact { hI.setAborted hpc rfl (.notifyDone _) rfl with }
  | notifyDone hpc => exact { hI.setAborted hpc rfl (.leave _) rfl with }
  | @leave held hpc =>
      have hmid := hI.setAborted hpc rfl .exited rfl
      cases held <;> exact { hmid with }

theorem step {a : Act} (hI : Incoming s) (h : step e s a = some t) : Incoming t := by
  cases step_inv h with
  | sender h =>
      cases h with
      | push _ _ _ _ => exact { hI.notifySendCv with }
      | _ => exact { hI with }
  | receiver h =>
      cases h with
      | @pop _ _ p rest _ _ hq =>
          refine { hI with queue := ?_ }
          have hqueue := hI.queue
          rw [hq] at hqueue
          simpa [State.finishReceive, State.setReceiver] using hqueue
      | _ => exact { hI with }
  | shutdown h =>
      cases h with
      | notifySend _ => exact { hI.notifySendCv with }
      | _ => exact { hI with }
  | writer h =>
      cases h with
      | pop _ _ _ => exact { hI.notifySendCv with }
      | _ => exact { hI with }
  | reader h => exact hI.reader h
  | deliver h => cases h <;> exact { hI with }
  | _ => exact { hI with }

end Incoming

theorem incoming_init (cfg : FrozenConfig) : Incoming (init cfg) := ⟨rfl, rfl, nofun⟩

theorem incoming_reachable (h : Reachable e s) : Incoming s :=
  Machine.Run.invariant (I := Incoming) (fun _ _ _ hI ha => hI.step ha) h (incoming_init e.cfg)

/-! ## What is appended, against what has arrived -/

/-- The payloads appended so far, against the text payloads `arrived` of the records taken so far:
all of them, but for the one in hand, while `read_loop` is live; a prefix once it gives up; and again
all of them if it gave up on a Close record. -/
structure Received (s : State) (arrived : List Bytes) : Prop where
  live : s.reader.live = true → s.hist.pushed ++ s.reader.inHand = arrived
  pushed : s.hist.pushed <+: arrived
  close : s.hist.sawClose = true → s.hist.pushed = arrived

namespace Received

variable {arrived : List Bytes}

theorem notifySendCv (hR : Received s arrived) : Received s.notifySendCv arrived where
  live h := by
    simp only [State.notifySendCv, ReaderPc.live_wakeSend, ReaderPc.inHand_wakeSend] at h ⊢
    exact hR.live h
  pushed := hR.pushed
  close := hR.close

/-- `read_loop` moves on with the same payload in hand. -/
theorem setReader {pc : ReaderPc} (hR : Received s arrived) (hpc : s.reader = pc)
    (hlive : pc.live = true) (pc' : ReaderPc) (h' : pc'.live = true → pc'.inHand = pc.inHand) :
    Received { s with reader := pc' } arrived :=
  { hR with
    live := by
      intro hl
      have := hR.live (by rw [hpc]; exact hlive)
      rw [hpc] at this
      rw [h' hl]
      exact this }

/-- The steps of `read_loop` that take no record. -/
theorem reader {io : ReadIo} (hR : Received s arrived) (hI : Incoming s)
    (hio : ∀ typ sealed, io ≠ .record typ sealed) (h : ReaderTrans e s io t) :
    Received t arrived := by
  -- a reader that has given up is not live
  have dead : ∀ {p : Prop}, false = true → p := fun h => absurd h Bool.false_ne_true
  cases h with
  | recvFail hpc _ => exact hR.setReader hpc rfl _ dead
  | @textGo pt hpc _ _ => exact { hR.setReader hpc rfl (.textStop pt) fun _ => rfl with }
  | @textFull pt hpc _ _ _ _ => exact { hR.setReader hpc rfl (.textPark pt) fun _ => rfl with }
  | @textPark pt hpc => exact { hR.setReader hpc rfl (.textParked pt) fun _ => rfl with }
  | textGiveUp hpc _ _ _ =>
      exact { hR.setReader hpc rfl (.abort Errc.closed.code .recvSend) dead with }
  | textSkip hpc _ hclosed =>
      -- `recv_closed_` is not set while `read_loop` is live
      rw [hI.closed, hpc] at hclosed
      cases hclosed
  | @textPush pt hpc _ _ _ =>
      have hlive := hR.live (by rw [hpc]; rfl)
      rw [hpc] at hlive
      refine ⟨fun _ => ?_, ?_, fun h => ?_⟩
      · simpa [State.notifyRecvCv, ReaderPc.wakeRecv, ReaderPc.inHand] using hlive
      · exact ⟨[], by rw [List.append_nil]; exact hlive⟩
      · exact hlive
  | jobPush hpc _ _ => exact { hR.setReader hpc rfl .recv fun _ => rfl with }
  | jobSlow hpc _ _ _ =>
      exact { hR.setReader hpc rfl (.abort Errc.slowConsumer.code .jobs) dead with }
  | jobDrop hpc _ _ _ => exact { hR.setReader hpc rfl .recv fun _ => rfl with }
  | pingGiveUp hpc _ _ =>
      exact { hR.setReader hpc rfl (.abort Errc.closed.code .send) dead with }
  | pingPush hpc _ _ _ =>
      have hmid := hR.setReader hpc rfl .recv fun _ => rfl
      exact notifySendCv { hmid with }
  | @pingFull pt hpc _ _ _ => exact { hR.setReader hpc rfl (.pingPark pt) fun _ => rfl with }
  | @pingPark pt hpc => exact { hR.setReader hpc rfl (.pingParked pt) fun _ => rfl with }
  | abortAgain _ _ _ => exact { hR with live := dead }
  | abortFirst _ _ _ => exact { hR with live := dead }
  | storeDone _ => exact { hR with live := dead }
  | notifyDone _ => exact { hR with live := dead }
  | @leave held _ => cases held <;> exact { hR with live := dead }
  | _ => exact absurd rfl (hio _ _)

theorem step {a : Act} (hR : Received s arrived) (hI : Incoming s)
    (ha : ∀ typ sealed, a ≠ .reader (.record typ sealed)) (h : step e s a = some t) :
    Received t arrived := by
  cases step_inv h with
  | sender h =>
      cases h with
      | push _ _ _ _ => exact { hR.notifySendCv with }
      | _ => exact { hR with }
  | receiver h => cases h <;> exact { hR with }
  | shutdown h =>
      cases h with
      | notifySend _ => exact { hR.notifySendCv with }
      | _ => exact { hR with }
  | writer h =>
      cases h with
      | pop _ _ _ => exact { hR.notifySendCv with }
      | _ => exact { hR with }
  | reader h => exact hR.reader hI (fun typ sealed hio => ha typ sealed (by rw [hio])) h
  | deliver h => cases h <;> exact { hR with }
  | _ => exact { hR with }

/-- `read_loop` takes a record in queue mode. -/
theorem record {typ : UInt8} {sealed pt : Bytes} (hR : Received s arrived) (hI : Incoming s)
    (hcb : e.cfg.onMessage = false) (hopen : e.sess.openSealed e.gcm sealed = .ok pt)
    (h : ReaderTrans e s (.record typ sealed) t) :
    Received t (arrived ++ texts [⟨typ, pt⟩]) := by
  -- `read_loop` had nothing in hand and had seen no Close record
  have hstart : s.reader = .recv → s.hist.pushed = arrived ∧ s.hist.sawClose = false := by
    intro hpc
    refine ⟨?_, hI.sawClose_of_live (by rw [hpc]; rfl)⟩
    simpa [hpc, ReaderPc.inHand] using hR.live (by rw [hpc]; rfl)
  -- it goes on with nothing in hand after a record that is no text
  have hother : ∀ (pc' : ReaderPc), s.reader = .recv → typ ≠ kMsgText →
      (pc'.live = true → pc'.inHand = []) →
      Received { s with reader := pc' } (arrived ++ texts [⟨typ, pt⟩]) := by
    intro pc' hpc htyp hhand
    rw [texts_of_ne (show Outbound.typ ⟨typ, pt⟩ ≠ kMsgText from htyp), List.append_nil]
    exact hR.setReader hpc rfl pc' hhand
  -- it gives up
  have hgiveUp : ∀ {err : ErrorCode}, s.reader = .recv →
      Received { s with reader := .abort err .nothing } (arrived ++ texts [⟨typ, pt⟩]) := by
    intro err hpc
    obtain ⟨hall, hsaw⟩ := hstart hpc
    refine ⟨nofun, hall ▸ List.prefix_append _ _, fun h => ?_⟩
    rw [show s.hist.sawClose = true from h] at hsaw
    cases hsaw
  cases h with
  | openFail _ hfail =>
      rw [hopen] at hfail
      cases hfail
  | @gotText _ pt' hpc hopen' _ _ =>
      obtain ⟨hall, hsaw⟩ := hstart hpc
      obtain rfl := Except.ok.inj (hopen.symm.trans hopen')
      refine ⟨fun _ => ?_, hall ▸ List.prefix_append _ _, fun h => ?_⟩
      · simp [ReaderPc.inHand, hall]
      · rw [show s.hist.sawClose = true from h] at hsaw
        cases hsaw
  | gotJob _ _ _ hcb' =>
      rw [hcb] at hcb'
      cases hcb'
  | gotLarge hpc _ _ => exact hgiveUp hpc
  | gotPing hpc _ => exact hother _ hpc (by decide) fun _ => rfl
  | gotPong hpc _ => exact hother _ hpc (by decide) fun _ => rfl
  | gotClose hpc _ =>
      obtain ⟨hall, -⟩ := hstart hpc
      have hmid := hother (.abort Errc.closed.code .nothing) hpc (by decide) nofun
      refine ⟨nofun, hmid.pushed, fun _ => ?_⟩
      rw [texts_of_ne (show kMsgClose ≠ kMsgText by decide), List.append_nil]
      exact hall
  | gotBad hpc _ _ _ _ _ => exact hgiveUp hpc

end Received

/-! ## What the calls return behind a Close record -/

/-- From `s` to `t` the calls have returned the front of the queue, then, once it was empty, their
own timeouts as long as `abort_recv` had not run, and then only the error it recorded. -/
structure Drained (s t : State) (payloads : List Bytes) (m n : ℕ) : Prop where
  results : t.hist.results = s.hist.results ++ payloads.map .ok ++
    List.replicate m (.error Errc.timedOut.code) ++ List.replicate n (.error Errc.closed.code)
  queue : payloads ++ t.recvQ = s.recvQ
  empty : 0 < m + n → t.recvQ = []
  recorded : 0 < n → t.recvClosed = true
  stays : s.recvClosed = true → t.recvClosed = true
  noTimeout : s.recvClosed = true → m = 0

/-- Only a record can change whether a Close record has been seen. -/
theorem sawClose_eq_of_step {a : Act} (h : step e s a = some t)
    (ha : ∀ typ sealed, a ≠ .reader (.record typ sealed)) : t.hist.sawClose = s.hist.sawClose := by
  cases step_inv h with
  | sender h => cases h <;> rfl
  | receiver h => cases h <;> rfl
  | shutdown h => cases h <;> rfl
  | writer h => cases h <;> rfl
  | reader h =>
      cases h with
      | gotClose _ _ => exact absurd rfl (ha _ _)
      | @leave held _ => cases held <;> rfl
      | _ => rfl
  | deliver h => cases h <;> rfl
  | _ => rfl

/-- A Close record stays seen. -/
theorem sawClose_of_step {a : Act} (h : step e s a = some t) (hsaw : s.hist.sawClose = true) :
    t.hist.sawClose = true := by
  by_cases ha : ∀ typ sealed, a ≠ .reader (.record typ sealed)
  · rw [sawClose_eq_of_step h ha, hsaw]
  · cases step_inv h with
    | reader h =>
        cases h with
        | gotClose _ _ => rfl
        | @leave held _ => cases held <;> exact hsaw
        | _ => exact hsaw
    | _ => simp at ha

namespace Drained

variable {u : State} {payloads : List Bytes} {m n : ℕ}

/-- A step that returns nothing to a caller. -/
theorem frame (hD : Drained s t payloads m n) (hres : u.hist.results = t.hist.results)
    (hq : u.recvQ = t.recvQ) (hc : t.recvClosed = true → u.recvClosed = true) :
    ∃ payloads m n, Drained s u payloads m n :=
  ⟨payloads, m, n, by rw [hres, hD.results], by rw [hq, hD.queue], by rw [hq]; exact hD.empty,
    fun h => hc (hD.recorded h), fun h => hc (hD.stays h), hD.noTimeout⟩

theorem receiver {i : ℕ} (hcb : e.cfg.onMessage = false) (hD : Drained s t payloads m n)
    (hI : Incoming t) (hsaw : t.hist.sawClose = true) (h : ReceiverTrans e t i u) :
    ∃ payloads m n, Drained s u payloads m n := by
  cases h with
  | disabled _ hcb' =>
      rw [hcb] at hcb'
      cases hcb'
  | @pop _ _ p rest _ _ hq =>
      -- the queue was not empty, so no call has failed yet
      obtain ⟨rfl, rfl⟩ : m = 0 ∧ n = 0 := by
        by_contra hne
        have := hD.empty (by omega)
        rw [hq] at this
        cases this
      refine ⟨payloads ++ [p], 0, 0, ?_, ?_, nofun, nofun, hD.stays, fun _ => rfl⟩
      · simp [State.finishReceive, State.setReceiver, hD.results]
      · rw [List.append_assoc, ← hD.queue, hq, List.singleton_append]
  | fail _ _ hq hclosed =>
      have herr : t.recvErr = Errc.closed.code := by
        rcases hI.sawClose hsaw with h | ⟨-, h⟩
        · rw [hI.closed, h] at hclosed
          cases hclosed
        · exact h
      refine ⟨payloads, m, n + 1, ?_, hD.queue, fun _ => hq, fun _ => hclosed, hD.stays,
        hD.noTimeout⟩
      simp [State.finishReceive, State.setReceiver, hD.results, herr, List.replicate_succ']
  | timeout _ _ hq hopen =>
      obtain rfl : n = 0 := by
        by_contra hne
        have := hD.recorded (by omega)
        rw [hopen] at this
        cases this
      refine ⟨payloads, m + 1, 0, ?_, hD.queue, fun _ => hq, nofun, hD.stays, fun h => ?_⟩
      · simp [State.finishReceive, State.setReceiver, hD.results, List.replicate_succ']
      · rw [hD.stays h] at hopen
        cases hopen
  | enter _ _ => exact hD.frame rfl rfl id
  | empty _ _ _ _ => exact hD.frame rfl rfl id
  | park _ => exact hD.frame rfl rfl id

theorem step {a : Act} (hcb : e.cfg.onMessage = false) (hD : Drained s t payloads m n)
    (hI : Incoming t) (hsaw : t.hist.sawClose = true) (h : step e t a = some u) :
    ∃ payloads m n, Drained s u payloads m n := by
  cases step_inv h with
  | sender h => cases h <;> exact hD.frame rfl rfl id
  | receiver h => exact hD.receiver hcb hI hsaw h
  | shutdown h => cases h <;> exact hD.frame rfl rfl id
  | writer h => cases h <;> exact hD.frame rfl rfl id
  | reader h =>
      cases h with
      | textPush hpc _ _ _ =>
          -- `read_loop` is not live behind a Close record
          have := hI.not_live_of_sawClose hsaw
          rw [hpc] at this
          cases this
      | abortFirst _ _ _ => exact hD.frame rfl rfl fun _ => rfl
      | @leave held _ => cases held <;> exact hD.frame rfl rfl id
      | _ => exact hD.frame rfl rfl id
  | deliver h => cases h <;> exact hD.frame rfl rfl id
  | _ => exact hD.frame rfl rfl id

end Drained

/-- **Behind a Close record** every run only drains the queue and then fails every call. -/
theorem drained_of_run (hcb : e.cfg.onMessage = false) (hI : Incoming s)
    (hsaw : s.hist.sawClose = true) (h : Machine.Run (step e) s t) :
    ∃ payloads m n, Drained s t payloads m n := by
  have hinv : (Incoming t ∧ t.hist.sawClose = true) ∧ ∃ payloads m n, Drained s t payloads m n := by
    refine Machine.Run.invariant (I := fun t =>
      (Incoming t ∧ t.hist.sawClose = true) ∧ ∃ payloads m n, Drained s t payloads m n) ?_ h
      ⟨⟨hI, hsaw⟩, [], 0, 0, by simp, rfl, nofun, nofun, id, fun _ => rfl⟩
    rintro t a u ⟨⟨hIt, hst⟩, payloads, m, n, hD⟩ ha
    exact ⟨⟨hIt.step ha, sawClose_of_step ha hst⟩, hD.step hcb hIt hst ha⟩
  exact hinv.2

end TcpDuplex.Conn
