import TcpDuplex.Lib.Placement
import TcpDuplex.Server.Workers

/-!
# The accepted sockets

A socket that `accept` delivers is in one pair of hands from then on: first those of the call of `serve`,
between `accept` and `emplace_back`, and then those of one thread. `on_connect` is called once for it if its
handshake succeeded, and else not at all. When all calls of `serve` have returned, every accepted socket has
been through its thread.
-/

namespace TcpDuplex.Server

variable {s t : State}

/-- The socket in the hands of a call: accepted, its thread not started. -/
def ServePc.sock : ServePc → Option ℕ
  | .spawn sock => some sock
  | _ => none

/-- `serve_conn` has returned a connection. -/
def WorkerPc.connected : WorkerPc → Bool
  | .handshake => false
  | .callback => true
  | .finished connected => connected

/-- Who can have a socket. -/
inductive Holder where
  | call (i : ℕ)
  | thread (k : ℕ)
  deriving DecidableEq

/-- The socket somebody has. -/
def State.sockOf (s : State) : Holder → Option ℕ
  | .call i => (s.serves i).sock
  | .thread k => (s.threads k).map Worker.sock

/-- No socket is lost and none is in two hands. -/
def Kept (s : State) : Prop := Placed s.sockOf s.sockets

theorem sockOf_of_thread {k : ℕ} {w : Worker} (hw : s.threads k = some w) :
    s.sockOf (.thread k) = some w.sock := by
  rw [State.sockOf, hw]
  rfl

/-- A step of a call gives it this socket. -/
theorem sockOf_setServe {i : ℕ} {pc : ServePc} :
    (s.setServe i pc).sockOf = Function.update s.sockOf (.call i) pc.sock := by
  funext p
  cases p with
  | call j =>
      by_cases hj : j = i
      · subst hj
        simp [State.sockOf, State.setServe]
      · have hne : Holder.call j ≠ .call i := fun h => hj (Holder.call.inj h)
        simp [State.sockOf, State.setServe, hj, hne]
  | thread k => simp [State.sockOf, State.setServe]

/-- A thread that is started takes the socket. -/
theorem sockOf_spawn {i sock : ℕ} :
    (s.spawn i sock).sockOf = Function.update s.sockOf (.thread s.started) (some sock) := by
  funext p
  cases p with
  | call j => simp [State.sockOf, State.spawn]
  | thread k =>
      by_cases hk : k = s.started
      · subst hk
        simp [State.sockOf, State.spawn]
      · have hne : Holder.thread k ≠ .thread s.started := fun h => hk (Holder.thread.inj h)
        simp [State.sockOf, State.spawn, hk, hne]

/-- A worker keeps its socket. -/
theorem sockOf_work {k : ℕ} {w : Worker} {pc : WorkerPc} {conn : List ℕ} (hw : s.threads k = some w) :
    State.sockOf { s with
      threads := Function.update s.threads k (some { w with pc := pc }), connected := conn } =
        s.sockOf := by
  funext p
  cases p with
  | call j => rfl
  | thread j =>
      by_cases hj : j = k
      · subst hj
        simp [State.sockOf, hw]
      · simp [State.sockOf, hj]

namespace Kept

/-- A call that had no socket goes on and has none. -/
theorem move (hK : Kept s) {i : ℕ} {c : ServePc} (hold : (s.serves i).sock = none)
    (hnew : c.sock = none) : Kept (s.setServe i c) := by
  have hsame : (s.setServe i c).sockOf = s.sockOf := by
    rw [sockOf_setServe, hnew]
    exact Function.update_eq_self_iff.mpr hold.symm
  rw [Kept, hsame]
  exact hK

theorem serve (hK : Kept s) (hT : Tracked s) {i : ℕ} (h : ServeTrans s i t) : Kept t := by
  cases h with
  | enter hpc => exact hK.move (by rw [hpc]; rfl) rfl
  | refuse hpc => exact hK.move (by rw [hpc]; rfl) rfl
  | stop hpc _ => exact hK.move (by rw [hpc]; rfl) rfl
  | go hpc _ => exact hK.move (by rw [hpc]; rfl) rfl
  | block hpc _ => exact hK.move (by rw [hpc]; rfl) rfl
  | closed hpc _ => exact hK.move (by rw [hpc]; rfl) rfl
  | error hpc _ => exact hK.move (by rw [hpc]; rfl) rfl
  | canceled hpc _ => exact hK.move (by rw [hpc]; rfl) rfl
  | leave hpc _ => exact hK.move (by rw [hpc]; rfl) rfl
  | @lock ec hpc _ => exact hK.move (c := .join ec 0) (by rw [hpc]; rfl) rfl
  | @joined ec pos _ hpc _ _ =>
      exact hK.move (c := .join ec (pos + 1)) (by rw [hpc]; rfl) rfl
  | skip hpc _ _ => exact hK.move (by rw [hpc]; rfl) rfl
  | @clear ec _ hpc _ => exact hK.move (c := .done ec) (by rw [hpc]; rfl) rfl
  | socket hpc =>
      show Placed (s.setServe i (.spawn s.sockets)).sockOf (s.sockets + 1)
      rw [sockOf_setServe]
      exact Placed.arrive hK (by simp [State.sockOf, hpc, ServePc.sock])
  | @spawn sock hpc _ =>
      show Placed ((s.spawn i sock).setServe i .loop).sockOf s.sockets
      -- from the hands of the call into those of the new thread
      rw [sockOf_setServe, sockOf_spawn, Function.update_comm (by nofun)]
      refine Placed.move hK ?_ ?_
      · simp [State.sockOf, hpc, ServePc.sock]
      · simp [State.sockOf, hT.fresh _ le_rfl]

theorem step {a : Act} (hK : Kept s) (hN : Numbered s) (hT : Tracked s) (h : step s a = some t) :
    Kept t := by
  cases step_inv h with
  | callServe _ =>
      exact hK.move (i := s.serveCalls) (c := .start _) (by rw [hN _ le_rfl]; rfl) rfl
  | callClose _ => exact hK
  | callDtor _ _ => exact hK
  | serve h => exact hK.serve hT h
  | store _ => exact hK
  | closeListener _ => exact hK
  | dtor h => cases h <;> exact hK
  | worker h =>
      cases h with
      | connected hw _ =>
          rw [Kept, sockOf_work hw]
          exact hK
      | refused hw _ =>
          rw [Kept, sockOf_work hw]
          exact hK
      | returned hw _ =>
          rw [Kept, sockOf_work hw]
          exact hK

end Kept

/-- `on_connect` was called for the sockets of the threads that have come so far, once each. -/
structure CalledOnce (s : State) : Prop where
  count : ∀ k w, s.threads k = some w → s.connected.count w.sock = if w.pc.connected then 1 else 0
  mem : ∀ n ∈ s.connected, ∃ k w, s.threads k = some w ∧ w.sock = n

namespace CalledOnce

/-- A worker goes on without calling `on_connect`. -/
theorem quiet (hC : CalledOnce s) {k : ℕ} {w : Worker} {pc : WorkerPc} (hw : s.threads k = some w)
    (hpc : pc.connected = w.pc.connected) :
    CalledOnce { s with threads := Function.update s.threads k (some { w with pc := pc }) } := by
  refine ⟨fun j v hv => ?_, fun n hn => ?_⟩
  · by_cases hj : j = k
    · subst hj
      replace hv : some { w with pc := pc } = some v := by simpa using hv
      obtain rfl := Option.some.inj hv
      show s.connected.count w.sock = _
      rw [hC.count j w hw, hpc]
    · exact hC.count j v (by simpa [Function.update_of_ne hj] using hv)
  · obtain ⟨j, v, hv, rfl⟩ := hC.mem n hn
    by_cases hj : j = k
    · subst hj
      obtain rfl : w = v := Option.some.inj (hw.symm.trans hv)
      exact ⟨j, _, Function.update_self .., rfl⟩
    · exact ⟨j, v, by simpa [Function.update_of_ne hj] using hv, rfl⟩

/-- A worker calls `on_connect`: no other thread has its socket. -/
theorem call (hC : CalledOnce s) (hK : Kept s) {k : ℕ} {w : Worker} (hw : s.threads k = some w)
    (hpc : w.pc = .handshake) :
    CalledOnce { s with
      threads := Function.update s.threads k (some { w with pc := .callback })
      connected := s.connected ++ [w.sock] } := by
  refine ⟨fun j v hv => ?_, fun n hn => ?_⟩
  · by_cases hj : j = k
    · subst hj
      replace hv : some { w with pc := .callback } = some v := by simpa using hv
      obtain rfl := Option.some.inj hv
      have hzero := hC.count j w hw
      rw [hpc] at hzero
      show (s.connected ++ [w.sock]).count w.sock = 1
      rw [List.count_append, hzero]
      simp [WorkerPc.connected]
    · replace hv : s.threads j = some v := by simpa [Function.update_of_ne hj] using hv
      have hne : w.sock ≠ v.sock := by
        intro heq
        have hthread := hK.unique _ _ _ (sockOf_of_thread hv) (heq ▸ sockOf_of_thread hw)
        exact hj (Holder.thread.inj hthread)
      show (s.connected ++ [w.sock]).count v.sock = _
      rw [List.count_append, hC.count j v hv, List.count_singleton]
      simp [hne]
  · rcases List.mem_append.mp hn with hold | hnew
    · obtain ⟨j, v, hv, rfl⟩ := hC.mem n hold
      by_cases hj : j = k
      · subst hj
        obtain rfl : w = v := Option.some.inj (hw.symm.trans hv)
        exact ⟨j, _, Function.update_self .., rfl⟩
      · exact ⟨j, v, by simpa [Function.update_of_ne hj] using hv, rfl⟩
    · refine ⟨k, _, Function.update_self .., ?_⟩
      exact (List.mem_singleton.mp hnew).symm

/-- A thread is started for a socket that no thread had. -/
theorem spawn (hC : CalledOnce s) (hK : Kept s) (hT : Tracked s) {i sock : ℕ}
    (hpc : s.serves i = .spawn sock) : CalledOnce (s.spawn i sock) := by
  have hcall : s.sockOf (.call i) = some sock := by simp [State.sockOf, hpc, ServePc.sock]
  refine ⟨fun k w hw => ?_, fun n hn => ?_⟩
  · replace hw : Function.update s.threads s.started (some ⟨sock, i, .handshake⟩) k = some w := hw
    by_cases hk : k = s.started
    · subst hk
      rw [Function.update_self] at hw
      obtain rfl := Option.some.inj hw
      show s.connected.count sock = 0
      rw [List.count_eq_zero]
      intro hmem
      obtain ⟨j, v, hv, hsock⟩ := hC.mem sock hmem
      have := hK.unique _ _ _ hcall (hsock ▸ sockOf_of_thread hv)
      cases this
    · rw [Function.update_of_ne hk] at hw
      exact hC.count k w hw
  · obtain ⟨k, w, hw, hsock⟩ := hC.mem n hn
    have hk : k ≠ s.started := by
      rintro rfl
      rw [hT.fresh _ le_rfl] at hw
      cases hw
    refine ⟨k, w, ?_, hsock⟩
    show Function.update s.threads s.started _ k = some w
    rwa [Function.update_of_ne hk]

theorem step {a : Act} (hC : CalledOnce s) (hK : Kept s) (hT : Tracked s) (h : step s a = some t) :
    CalledOnce t := by
  cases step_inv h with
  | callServe _ => exact ⟨hC.count, hC.mem⟩
  | callClose _ => exact ⟨hC.count, hC.mem⟩
  | callDtor _ _ => exact ⟨hC.count, hC.mem⟩
  | serve h =>
      cases h with
      | spawn hpc _ =>
          have hC' := hC.spawn hK hT hpc
          exact ⟨hC'.count, hC'.mem⟩
      | _ => exact ⟨hC.count, hC.mem⟩
  | store _ => exact ⟨hC.count, hC.mem⟩
  | closeListener _ => exact ⟨hC.count, hC.mem⟩
  | dtor h => cases h <;> exact ⟨hC.count, hC.mem⟩
  | worker h =>
      cases h with
      | connected hw hpc => exact hC.call hK hw hpc
      | refused hw hpc => exact hC.quiet hw (by rw [hpc]; rfl)
      | returned hw hpc => exact hC.quiet hw (by rw [hpc]; rfl)

end CalledOnce

theorem Reachable.handled (h : Reachable s) : Sound s ∧ Kept s ∧ CalledOnce s := by
  refine Machine.Run.invariant (I := fun s => Sound s ∧ Kept s ∧ CalledOnce s) ?_ h ?_
  · rintro s a t ⟨hS, hK, hC⟩ ha
    exact ⟨hS.step ha, hK.step hS.numbered hS.tracked ha, hC.step hK hS.tracked ha⟩
  · refine ⟨Sound.init, ?_, nofun, nofun⟩
    have hnone : State.sockOf {} = fun _ => none := by
      funext p
      cases p <;> rfl
    rw [Kept, hnone]
    exact Placed.empty

/-- Who has a socket when all calls have returned. -/
theorem exists_thread_of_returned (hK : Kept s) {n : ℕ} (hn : n < s.sockets)
    (hret : ∀ i, s.serves i = .idle ∨ (s.serves i).returned = true) :
    ∃ k w, s.threads k = some w ∧ w.sock = n := by
  obtain ⟨p, hp⟩ := hK.somewhere n hn
  cases p with
  | call i =>
      rw [State.sockOf] at hp
      rcases hret i with hidle | hdone
      · rw [hidle] at hp
        cases hp
      · cases hpc : s.serves i with
        | done ec => rw [hpc] at hp; cases hp
        | _ => rw [hpc] at hdone; cases hdone
  | thread k =>
      obtain ⟨w, hw, hsock⟩ := Option.map_eq_some_iff.mp hp
      exact ⟨k, w, hw, hsock⟩

/-- A socket that `accept` delivered is always in exactly one pair of hands, and `on_connect` is called for
it at most once, namely when its thread got a connection. When all calls of `serve` have returned, the
socket has been through a thread, which has returned. -/
theorem socket_handled_once (h : Reachable s) {n : ℕ} (hn : n < s.sockets) :
    (∃! p, s.sockOf p = some n) ∧ s.connected.count n ≤ 1 ∧
      (n ∈ s.connected ↔ ∃ k w, s.threads k = some w ∧ w.sock = n ∧ w.pc.connected = true) ∧
      ((∀ i < s.serveCalls, (s.serves i).returned = true) →
        ∃ k w c, s.threads k = some w ∧ w.sock = n ∧ w.pc = .finished c ∧
          s.connected.count n = if c then 1 else 0) := by
  obtain ⟨hS, hK, hC⟩ := h.handled
  have hmem : n ∈ s.connected → ∃ k w, s.threads k = some w ∧ w.sock = n ∧ w.pc.connected = true := by
    intro hn
    obtain ⟨k, w, hw, rfl⟩ := hC.mem n hn
    refine ⟨k, w, hw, rfl, ?_⟩
    by_contra hnot
    have hcount := hC.count k w hw
    rw [if_neg hnot, List.count_eq_zero] at hcount
    exact hcount hn
  refine ⟨hK.existsUnique hn, ?_, ⟨hmem, ?_⟩, fun hall => ?_⟩
  · by_cases hin : n ∈ s.connected
    · obtain ⟨k, w, hw, rfl, hconn⟩ := hmem hin
      rw [hC.count k w hw, if_pos hconn]
    · rw [List.count_eq_zero_of_not_mem hin]
      exact Nat.zero_le 1
  · rintro ⟨k, w, hw, rfl, hconn⟩
    have hcount := hC.count k w hw
    rw [if_pos hconn] at hcount
    exact List.count_pos_iff.mp (by omega)
  · have hret : ∀ i, s.serves i = .idle ∨ (s.serves i).returned = true := by
      intro i
      by_cases hi : i < s.serveCalls
      · exact .inr (hall i hi)
      · exact .inl (hS.numbered i (Nat.le_of_not_lt hi))
    obtain ⟨k, w, hw, rfl⟩ := exists_thread_of_returned hK hn hret
    have hcaller : (s.serves w.caller).returned = true := by
      rcases hret w.caller with hidle | hdone
      · have hentered := hS.waited.entered k w hw
        rw [hidle] at hentered
        cases hentered
      · exact hdone
    have hfin := hS.waited.finished k w hw hcaller
    have hcount := hC.count k w hw
    cases hpc : w.pc with
    | handshake => rw [hpc] at hfin; cases hfin
    | callback => rw [hpc] at hfin; cases hfin
    | finished c =>
        rw [hpc] at hcount
        exact ⟨k, w, c, hw, rfl, hpc, hcount⟩

/-- The run of two calls goes on: the first call finds the server stopped, and nothing left to join. -/
theorem twoServes_handled : ∃ s, Reachable s ∧ s.sockets = 2 ∧
    (∀ i < s.serveCalls, (s.serves i).returned = true) ∧
      ∃ k w c, s.threads k = some w ∧ w.sock = 0 ∧ w.pc = .finished c ∧
        s.connected.count 0 = if c then 1 else 0 := by
  obtain ⟨s, hs, hsock, hcalls, h0, h1⟩ : ∃ s,
      Machine.exec step {} (twoServes ++ List.replicate 3 (.serve 0 .none)) = some s ∧
        s.sockets = 2 ∧ s.serveCalls = 2 ∧ s.serves 0 = .done .success ∧ s.serves 1 = .done .success :=
    ⟨_, rfl, rfl, rfl, rfl, rfl⟩
  have hreach : Reachable s := Machine.run_of_exec hs
  have hret : ∀ i < s.serveCalls, (s.serves i).returned = true := by
    intro i hi
    have hi' : i = 0 ∨ i = 1 := by omega
    rcases hi' with rfl | rfl
    · rw [h0]; rfl
    · rw [h1]; rfl
  exact ⟨s, hreach, hsock, hret, (socket_handled_once hreach (n := 0) (by omega)).2.2.2 hret⟩

end TcpDuplex.Server
