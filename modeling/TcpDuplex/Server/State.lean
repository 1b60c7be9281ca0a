import Mathlib.Logic.Function.Basic
import TcpDuplex.Lib.Runs
import TcpDuplex.Socket

/-!
# The server (`server.hpp`, `server.cpp`)

`Server::serve` accepts sockets until `stopping_` is set or `accept` fails, starts a thread for each, and
at its end joins all of them under `workers_mu_`. `stop` and `close` set the flag and close the listener;
the destructor does both and joins what is left.

Any number of calls of `serve`, `close` and `stop` may run at once; each is a program counter, numbered in
the order of the calls. The destructor starts when all of them have returned, and then there are no new
ones. What `accept` and `serve_conn` come to is part of the action. A callback returns and does not throw,
and starting a thread does not fail.
-/

namespace TcpDuplex.Server

/-- A call of `serve(on_connect, ec)`. -/
inductive ServePc where
  | idle
  | start (onConnect : Bool)
  /-- The condition of the loop. -/
  | loop
  /-- `ln_->accept`, before it looks at `fd_`. -/
  | accept
  /-- In the system call. -/
  | blocked
  /-- `accept` delivered this socket: wants `workers_mu_`, to start its thread. -/
  | spawn (sock : ℕ)
  /-- `accept` delivered nothing, for this reason. -/
  | failed (ec : ErrorCode)
  /-- Behind the loop: wants `workers_mu_`. -/
  | lock (ec : ErrorCode)
  /-- The join loop, at this position of `workers_`. -/
  | join (ec : ErrorCode) (pos : ℕ)
  | done (ec : ErrorCode)
  deriving DecidableEq

/-- A call of `close()` or `stop()`. -/
inductive ClosePc where
  | idle
  | store
  | closeListener
  | done
  deriving DecidableEq

/-- `~Server`. It calls `stop` and then `close`, which do the same. -/
inductive DtorPc where
  | idle
  | store (again : Bool)
  | closeListener (again : Bool)
  /-- Wants `workers_mu_`. -/
  | lock
  | join (pos : ℕ)
  | done
  deriving DecidableEq

/-- The thread of one peer. -/
inductive WorkerPc where
  /-- In `serve_conn`. -/
  | handshake
  /-- In `on_connect`. -/
  | callback
  /-- Returned; `connected` says whether there was a connection. -/
  | finished (connected : Bool)
  deriving DecidableEq

/-- A thread: its socket, the call of `serve` that started it, and its counter. -/
structure Worker where
  sock : ℕ
  caller : ℕ
  pc : WorkerPc
  deriving DecidableEq

/-- A `std::thread` in `workers_`. -/
structure Handle where
  thread : ℕ
  joinable : Bool
  deriving DecidableEq

/-- Who can hold `workers_mu_`. -/
inductive Tid where
  | serve (i : ℕ)
  | dtor
  deriving DecidableEq

/-- A server with the calls that use it. -/
structure State where
  stopping : Bool := false
  /-- The listener has a valid `fd_`. -/
  listening : Bool := true
  workersMu : Option Tid := none
  workers : List Handle := []
  threads : ℕ → Option Worker := fun _ => none
  /-- How many threads were started. -/
  started : ℕ := 0
  serves : ℕ → ServePc := fun _ => .idle
  serveCalls : ℕ := 0
  closes : ℕ → ClosePc := fun _ => .idle
  closeCalls : ℕ := 0
  dtor : DtorPc := .idle
  /-- How many sockets `accept` delivered. -/
  sockets : ℕ := 0
  /-- The sockets for which `on_connect` was called. -/
  connected : List ℕ := []
  /-- A handle was destroyed while it was joinable: `std::terminate`. -/
  terminated : Bool := false

/-- What `accept` came to: a socket, or a failure with this value in `errno`. -/
inductive AcceptIo where
  | none
  | socket
  | error (errno : Int32)

inductive Act where
  | callServe (onConnect : Bool)
  | callClose
  | callDtor
  | serve (i : ℕ) (io : AcceptIo)
  | close (i : ℕ)
  | dtor
  /-- A worker's thread; `ok` says whether `serve_conn` returned a connection. -/
  | worker (k : ℕ) (ok : Bool)

def ServePc.returned : ServePc → Bool
  | .done _ => true
  | _ => false

def WorkerPc.isFinished : WorkerPc → Bool
  | .finished _ => true
  | _ => false

namespace State

def setServe (s : State) (i : ℕ) (pc : ServePc) : State :=
  { s with serves := Function.update s.serves i pc }

/-- The thread of this handle has returned. -/
def isFinished (s : State) (thread : ℕ) : Bool :=
  match s.threads thread with
  | some w => w.pc.isFinished
  | none => false

/-- `workers_.emplace_back(…)`: a thread for the socket. -/
def spawn (s : State) (i sock : ℕ) : State :=
  { s with
    threads := Function.update s.threads s.started (some ⟨sock, i, .handshake⟩)
    workers := s.workers ++ [⟨s.started, true⟩]
    started := s.started + 1 }

/-- `t.join()`. -/
def joined (s : State) (pos : ℕ) (h : Handle) : State :=
  { s with workers := s.workers.set pos { h with joinable := false } }

/-- The handles are destroyed. -/
def clearWorkers (s : State) : State :=
  { s with
    terminated := s.terminated || s.workers.any Handle.joinable
    workers := [] }

/-- One round of a join loop at `pos`: the state behind it, if the thread has returned. -/
def joinAt (s : State) (pos : ℕ) (h : Handle) : Option State :=
  if h.joinable then
    if s.isFinished h.thread then some (s.joined pos h) else none
  else some s

end State

/-- One step of a call of `serve`. -/
def serveStep (s : State) (i : ℕ) : AcceptIo → Option State
  | .none =>
    match s.serves i with
    | .start onConnect =>
      some (s.setServe i (if onConnect then .loop else .done Errc.other.code))
    | .loop => some (s.setServe i (if s.stopping then .lock .success else .accept))
    | .accept =>
      some (s.setServe i (if s.listening then .blocked else .failed Errc.closed.code))
    | .failed ec =>
      some (s.setServe i (.lock (if s.stopping then Errc.canceled.code else ec)))
    | .spawn sock =>
      if s.workersMu = none then some ((s.spawn i sock).setServe i .loop) else none
    | .lock ec =>
      if s.workersMu = none then
        some { s.setServe i (.join ec 0) with workersMu := some (.serve i) }
      else none
    | .join ec pos =>
      match s.workers[pos]? with
      | some h => (s.joinAt pos h).map fun t => t.setServe i (.join ec (pos + 1))
      | none => some { s.clearWorkers.setServe i (.done ec) with workersMu := none }
    | _ => none
  | .socket =>
    match s.serves i with
    | .blocked => some { s.setServe i (.spawn s.sockets) with sockets := s.sockets + 1 }
    | _ => none
  | .error errno =>
    match s.serves i with
    | .blocked =>
      if errno = 0 then none else some (s.setServe i (.failed (lastSocketError errno)))
    | _ => none

/-- One step of `close` or `stop`. -/
def closeStep (s : State) (i : ℕ) : Option State :=
  match s.closes i with
  | .store => some { s with stopping := true, closes := Function.update s.closes i .closeListener }
  | .closeListener => some { s with listening := false, closes := Function.update s.closes i .done }
  | _ => none

/-- One step of the destructor. -/
def dtorStep (s : State) : Option State :=
  match s.dtor with
  | .store again => some { s with stopping := true, dtor := .closeListener again }
  | .closeListener again =>
    some { s with listening := false, dtor := if again then .lock else .store true }
  | .lock =>
    if s.workersMu = none then some { s with workersMu := some .dtor, dtor := .join 0 } else none
  | .join pos =>
    match s.workers[pos]? with
    | some h => (s.joinAt pos h).map fun t => { t with dtor := .join (pos + 1) }
    | none => some { s.clearWorkers with workersMu := none, dtor := .done }
  | _ => none

/-- One step of a worker. -/
def workerStep (s : State) (k : ℕ) (ok : Bool) : Option State :=
  match s.threads k with
  | some w =>
    match w.pc with
    | .handshake =>
      if ok then
        some { s with
          threads := Function.update s.threads k (some { w with pc := .callback })
          connected := s.connected ++ [w.sock] }
      else
        some { s with
          threads := Function.update s.threads k (some { w with pc := .finished false }) }
    | .callback =>
      some { s with threads := Function.update s.threads k (some { w with pc := .finished true }) }
    | .finished _ => none
  | none => none

/-- Every call that was made has returned. -/
def State.quiet (s : State) : Bool :=
  decide ((∀ i < s.serveCalls, (s.serves i).returned = true) ∧
    ∀ i < s.closeCalls, s.closes i = .done)

def step (s : State) : Act → Option State
  | .callServe onConnect =>
    if s.dtor = .idle then
      some { s.setServe s.serveCalls (.start onConnect) with serveCalls := s.serveCalls + 1 }
    else none
  | .callClose =>
    if s.dtor = .idle then
      some { s with
        closes := Function.update s.closes s.closeCalls .store
        closeCalls := s.closeCalls + 1 }
    else none
  | .callDtor =>
    if s.dtor = .idle ∧ s.quiet = true then some { s with dtor := .store false } else none
  | .serve i io => serveStep s i io
  | .close i => closeStep s i
  | .dtor => dtorStep s
  | .worker k ok => workerStep s k ok

/-- The states that a server comes to behind `listen`. -/
def Reachable (s : State) : Prop := Machine.Run step {} s

/-! ## What a step can do -/

variable {s t : State}

/-- The transitions of the calls of `serve`. -/
inductive ServeTrans (s : State) (i : ℕ) : State → Prop
  | enter (hpc : s.serves i = .start true) : ServeTrans s i (s.setServe i .loop)
  | refuse (hpc : s.serves i = .start false) :
      ServeTrans s i (s.setServe i (.done Errc.other.code))
  | stop (hpc : s.serves i = .loop) (hstop : s.stopping = true) :
      ServeTrans s i (s.setServe i (.lock .success))
  | go (hpc : s.serves i = .loop) (hstop : s.stopping = false) :
      ServeTrans s i (s.setServe i .accept)
  | block (hpc : s.serves i = .accept) (hln : s.listening = true) :
      ServeTrans s i (s.setServe i .blocked)
  | closed (hpc : s.serves i = .accept) (hln : s.listening = false) :
      ServeTrans s i (s.setServe i (.failed Errc.closed.code))
  | socket (hpc : s.serves i = .blocked) :
      ServeTrans s i { s.setServe i (.spawn s.sockets) with sockets := s.sockets + 1 }
  | error {errno} (hpc : s.serves i = .blocked) (herrno : errno ≠ 0) :
      ServeTrans s i (s.setServe i (.failed (lastSocketError errno)))
  | canceled {ec} (hpc : s.serves i = .failed ec) (hstop : s.stopping = true) :
      ServeTrans s i (s.setServe i (.lock Errc.canceled.code))
  | leave {ec} (hpc : s.serves i = .failed ec) (hstop : s.stopping = false) :
      ServeTrans s i (s.setServe i (.lock ec))
  | spawn {sock} (hpc : s.serves i = .spawn sock) (hmu : s.workersMu = none) :
      ServeTrans s i ((s.spawn i sock).setServe i .loop)
  | lock {ec} (hpc : s.serves i = .lock ec) (hmu : s.workersMu = none) :
      ServeTrans s i { s.setServe i (.join ec 0) with workersMu := some (.serve i) }
  | joined {ec pos h} (hpc : s.serves i = .join ec pos) (hget : s.workers[pos]? = some h)
      (hfin : s.isFinished h.thread = true) :
      ServeTrans s i ((s.joined pos h).setServe i (.join ec (pos + 1)))
  | skip {ec pos h} (hpc : s.serves i = .join ec pos) (hget : s.workers[pos]? = some h)
      (hnot : h.joinable = false) :
      ServeTrans s i (s.setServe i (.join ec (pos + 1)))
  | clear {ec pos} (hpc : s.serves i = .join ec pos) (hend : s.workers[pos]? = none) :
      ServeTrans s i { s.clearWorkers.setServe i (.done ec) with workersMu := none }

theorem joinAt_inv {pos : ℕ} {h : Handle} (hj : s.joinAt pos h = some t) :
    s.isFinished h.thread = true ∧ t = s.joined pos h ∨ h.joinable = false ∧ t = s := by
  unfold State.joinAt at hj
  split at hj
  · split at hj
    · rename_i hfin
      exact .inl ⟨hfin, (Option.some.inj hj).symm⟩
    · cases hj
  · rename_i hnot
    exact .inr ⟨by simpa using hnot, (Option.some.inj hj).symm⟩

theorem serveStep_inv {i : ℕ} {io : AcceptIo} (h : serveStep s i io = some t) : ServeTrans s i t := by
  cases io with
  | none =>
      simp only [serveStep] at h
      split at h
      · rename_i onConnect hpc
        cases onConnect <;> cases h
        · exact .refuse hpc
        · exact .enter hpc
      · rename_i hpc
        cases hstop : s.stopping <;> rw [hstop] at h <;> cases h
        · exact .go hpc hstop
        · exact .stop hpc hstop
      · rename_i hpc
        cases hln : s.listening <;> rw [hln] at h <;> cases h
        · exact .closed hpc hln
        · exact .block hpc hln
      · rename_i ec hpc
        cases hstop : s.stopping <;> rw [hstop] at h <;> cases h
        · exact .leave hpc hstop
        · exact .canceled hpc hstop
      · rename_i sock hpc
        split at h
        · rename_i hmu
          cases h
          exact .spawn hpc hmu
        · cases h
      · rename_i ec hpc
        split at h
        · rename_i hmu
          cases h
          exact .lock hpc hmu
        · cases h
      · rename_i ec pos hpc
        split at h
        · rename_i hd hget
          obtain ⟨t', ht', rfl⟩ := Option.map_eq_some_iff.mp h
          rcases joinAt_inv ht' with ⟨hfin, rfl⟩ | ⟨hnot, rfl⟩
          · exact .joined hpc hget hfin
          · exact .skip hpc hget hnot
        · rename_i hend
          cases h
          exact .clear hpc hend
      · cases h
  | socket =>
      simp only [serveStep] at h
      split at h
      · rename_i hpc
        cases h
        exact .socket hpc
      · cases h
  | error errno =>
      simp only [serveStep] at h
      split at h
      · rename_i hpc
        split at h
        · cases h
        · rename_i herrno
          cases h
          exact .error hpc herrno
      · cases h

/-- The transitions of the destructor. -/
inductive DtorTrans (s : State) : State → Prop
  | store {again} (hpc : s.dtor = .store again) :
      DtorTrans s { s with stopping := true, dtor := .closeListener again }
  | once (hpc : s.dtor = .closeListener false) :
      DtorTrans s { s with listening := false, dtor := .store true }
  | twice (hpc : s.dtor = .closeListener true) :
      DtorTrans s { s with listening := false, dtor := .lock }
  | lock (hpc : s.dtor = .lock) (hmu : s.workersMu = none) :
      DtorTrans s { s with workersMu := some .dtor, dtor := .join 0 }
  | joined {pos h} (hpc : s.dtor = .join pos) (hget : s.workers[pos]? = some h)
      (hfin : s.isFinished h.thread = true) :
      DtorTrans s { s.joined pos h with dtor := .join (pos + 1) }
  | skip {pos h} (hpc : s.dtor = .join pos) (hget : s.workers[pos]? = some h)
      (hnot : h.joinable = false) :
      DtorTrans s { s with dtor := .join (pos + 1) }
  | clear {pos} (hpc : s.dtor = .join pos) (hend : s.workers[pos]? = none) :
      DtorTrans s { s.clearWorkers with workersMu := none, dtor := .done }

theorem dtorStep_inv (h : dtorStep s = some t) : DtorTrans s t := by
  unfold dtorStep at h
  split at h
  · rename_i again hpc
    cases h
    exact .store hpc
  · rename_i again hpc
    cases again <;> cases h
    · exact .once hpc
    · exact .twice hpc
  · rename_i hpc
    split at h
    · rename_i hmu
      cases h
      exact .lock hpc hmu
    · cases h
  · rename_i pos hpc
    split at h
    · rename_i hd hget
      obtain ⟨t', ht', rfl⟩ := Option.map_eq_some_iff.mp h
      rcases joinAt_inv ht' with ⟨hfin, rfl⟩ | ⟨hnot, rfl⟩
      · exact .joined hpc hget hfin
      · exact .skip hpc hget hnot
    · rename_i hend
      cases h
      exact .clear hpc hend
  · cases h

/-- The transitions of a worker. -/
inductive WorkerTrans (s : State) (k : ℕ) : State → Prop
  | connected {w} (hw : s.threads k = some w) (hpc : w.pc = .handshake) :
      WorkerTrans s k
        { s with
          threads := Function.update s.threads k (some { w with pc := .callback })
          connected := s.connected ++ [w.sock] }
  | refused {w} (hw : s.threads k = some w) (hpc : w.pc = .handshake) :
      WorkerTrans s k
        { s with threads := Function.update s.threads k (some { w with pc := .finished false }) }
  | returned {w} (hw : s.threads k = some w) (hpc : w.pc = .callback) :
      WorkerTrans s k
        { s with threads := Function.update s.threads k (some { w with pc := .finished true }) }

theorem workerStep_inv {k : ℕ} {ok : Bool} (h : workerStep s k ok = some t) : WorkerTrans s k t := by
  unfold workerStep at h
  split at h
  · rename_i w hw
    split at h
    · rename_i hpc
      cases ok <;> cases h
      · exact .refused hw hpc
      · exact .connected hw hpc
    · rename_i hpc
      cases h
      exact .returned hw hpc
    · cases h
  · cases h

/-- The transitions of the whole. -/
inductive Transition (s : State) : Act → State → Prop
  | callServe {onConnect} (hd : s.dtor = .idle) :
      Transition s (.callServe onConnect)
        { s.setServe s.serveCalls (.start onConnect) with serveCalls := s.serveCalls + 1 }
  | callClose (hd : s.dtor = .idle) :
      Transition s .callClose
        { s with
          closes := Function.update s.closes s.closeCalls .store
          closeCalls := s.closeCalls + 1 }
  | callDtor (hd : s.dtor = .idle) (hquiet : s.quiet = true) :
      Transition s .callDtor { s with dtor := .store false }
  | serve {i io} {t : State} (h : ServeTrans s i t) : Transition s (.serve i io) t
  | store {i} (hpc : s.closes i = .store) :
      Transition s (.close i)
        { s with stopping := true, closes := Function.update s.closes i .closeListener }
  | closeListener {i} (hpc : s.closes i = .closeListener) :
      Transition s (.close i)
        { s with listening := false, closes := Function.update s.closes i .done }
  | dtor {t : State} (h : DtorTrans s t) : Transition s .dtor t
  | worker {k ok} {t : State} (h : WorkerTrans s k t) : Transition s (.worker k ok) t

theorem step_inv {a : Act} (h : step s a = some t) : Transition s a t := by
  cases a with
  | callServe onConnect =>
      simp only [step] at h
      split at h
      · rename_i hd
        cases h
        exact .callServe hd
      · cases h
  | callClose =>
      simp only [step] at h
      split at h
      · rename_i hd
        cases h
        exact .callClose hd
      · cases h
  | callDtor =>
      simp only [step] at h
      split at h
      · rename_i hd
        cases h
        exact .callDtor hd.1 hd.2
      · cases h
  | serve i io => exact .serve (serveStep_inv h)
  | close i =>
      simp only [step, closeStep] at h
      split at h
      · rename_i hpc
        cases h
        exact .store hpc
      · rename_i hpc
        cases h
        exact .closeListener hpc
      · cases h
  | dtor => exact .dtor (dtorStep_inv h)
  | worker k ok => exact .worker (workerStep_inv h)

end TcpDuplex.Server
