import TcpDuplex.Lib.Interleave
import TcpDuplex.Conn.Trans

/-!
# Conservation in callback mode

With `on_message` set, `read_loop` hands every text payload it admits to `deliver_loop` through the
bounded queue `msg_jobs_`, and drops and counts it when the queue is full. `Conserved` says that every
payload is accounted for: delivered, in the hand of `deliver_loop`, queued, or dropped and counted.

Two steps break the account. The main loop of `deliver_loop` passes a payload to `on_message` only if
it is not empty, so an empty one vanishes (the drain loop delivers it); and the 64-bit counter wraps.
In a run without these two, every state is conserved.
-/

namespace TcpDuplex.Conn

open Protocol

variable {e : Env} {s t : State}

/-- The payload `deliver_loop` has taken from the queue and not yet dealt with. -/
def DeliverPc.inHand : DeliverPc → List Bytes
  | .call p => [p]
  | .drainCall p => [p]
  | _ => []

/-- What `deliver_loop` has delivered, holds and will find in the queue, in order. -/
def State.pipeline (s : State) : List Bytes :=
  s.hist.delivered ++ s.deliver.inHand ++ s.msgJobs

/-- The text payloads processed so far are an interleaving of the dropped ones, as many as
`callback_dropped()` says, with the delivered, held and queued ones. -/
def Conserved (s : State) : Prop :=
  ∃ dropped, Interleave dropped s.pipeline s.hist.texts ∧
    dropped.length = s.callbackDropped.toNat

/-- The condition on a step: `deliver_loop` does not take the branch that skips an empty payload, and
`read_loop` does not count past the largest value of the counter. -/
def accountsFor (e : Env) (s : State) : Act → Bool
  | .deliver =>
    match s.deliver with
    | .call p => !p.isEmpty
    | _ => true
  | .reader .none =>
    match s.reader with
    | .jobs _ => jobsRoom e.cfg s || decide (s.callbackDropped.toNat + 1 < 2 ^ 64)
    | _ => true
  | _ => true

/-- `jobs_cv_` wakes `deliver_loop` only with empty hands. -/
@[simp]
theorem DeliverPc.inHand_wake (pc : DeliverPc) : pc.wake.inHand = pc.inHand := by
  cases pc <;> rfl

/-- How much is accounted for. -/
theorem Conserved.length_texts (hC : Conserved s) :
    s.hist.texts.length = s.callbackDropped.toNat + s.pipeline.length := by
  obtain ⟨dropped, hmerge, hlen⟩ := hC
  rw [hmerge.length_eq, hlen]

/-- A step that moves payloads along the pipeline. -/
theorem Conserved.frame (hC : Conserved s) (hp : t.pipeline = s.pipeline)
    (ht : t.hist.texts = s.hist.texts) (hd : t.callbackDropped = s.callbackDropped) :
    Conserved t := by
  obtain ⟨dropped, hmerge, hlen⟩ := hC
  exact ⟨dropped, by rwa [hp, ht], by rwa [hd]⟩

theorem toNat_succ_of_lt {n : UInt64} (h : n.toNat + 1 < 2 ^ 64) : (n + 1).toNat = n.toNat + 1 := by
  rw [UInt64.toNat_add, UInt64.toNat_one]
  omega

theorem Conserved.reader {io : ReadIo} (hslow : e.cfg.disconnectOnSlowCallbackConsumer = false)
    (hC : Conserved s) (hG : accountsFor e s (.reader io) = true) (h : ReaderTrans e s io t) :
    Conserved t := by
  cases h with
  | @jobPush pt _ _ _ =>
      obtain ⟨dropped, hmerge, hlen⟩ := hC
      refine ⟨dropped, ?_, hlen⟩
      have hpipe : (State.notifyJobsCv { s with
          msgJobs := s.msgJobs ++ [pt]
          reader := .recv
          hist.texts := s.hist.texts ++ [pt] }).pipeline = s.pipeline ++ [pt] := by
        simp [State.pipeline, State.notifyJobsCv, List.append_assoc]
      rw [hpipe]
      exact hmerge.right pt
  | jobSlow _ _ _ hslow' =>
      rw [hslow] at hslow'
      cases hslow'
  | @jobDrop pt hpc _ hroom _ =>
      obtain ⟨dropped, hmerge, hlen⟩ := hC
      have hlt : s.callbackDropped.toNat + 1 < 2 ^ 64 := by
        simpa [accountsFor, hpc, hroom] using hG
      refine ⟨dropped ++ [pt], hmerge.left pt, ?_⟩
      rw [List.length_append, List.length_singleton, hlen]
      exact (toNat_succ_of_lt hlt).symm
  | @leave held _ => cases held <;> exact hC
  | _ => exact hC

theorem Conserved.deliver (hC : Conserved s) (hG : accountsFor e s .deliver = true)
    (h : DeliverTrans s t) : Conserved t := by
  cases h with
  | pop hpc _ hq => exact hC.frame (by simp [State.pipeline, hpc, hq, DeliverPc.inHand]) rfl rfl
  | stop hpc _ _ _ => exact hC.frame (by simp [State.pipeline, hpc, DeliverPc.inHand]) rfl rfl
  | empty hpc _ _ _ => exact hC.frame (by simp [State.pipeline, hpc, DeliverPc.inHand]) rfl rfl
  | park hpc => exact hC.frame (by simp [State.pipeline, hpc, DeliverPc.inHand]) rfl rfl
  | @call p hpc =>
      have hp : p.isEmpty = false := by simpa [accountsFor, hpc] using hG
      exact hC.frame (by simp [State.pipeline, hpc, hp, DeliverPc.inHand]) rfl rfl
  | drainPop hpc hq => exact hC.frame (by simp [State.pipeline, hpc, hq, DeliverPc.inHand]) rfl rfl
  | drainEnd hpc _ => exact hC.frame (by simp [State.pipeline, hpc, DeliverPc.inHand]) rfl rfl
  | drainCall hpc => exact hC.frame (by simp [State.pipeline, hpc, DeliverPc.inHand]) rfl rfl
  | drainRelock hpc _ => exact hC.frame (by simp [State.pipeline, hpc, DeliverPc.inHand]) rfl rfl

theorem Conserved.step {a : Act} (hslow : e.cfg.disconnectOnSlowCallbackConsumer = false)
    (hC : Conserved s) (hG : accountsFor e s a = true) (h : step e s a = some t) : Conserved t := by
  cases step_inv h with
  | sender h => cases h <;> exact hC
  | receiver h => cases h <;> exact hC
  | shutdown h =>
      cases h with
      | notifyJobs _ => exact hC.frame (by simp [State.pipeline, State.notifyJobsCv]) rfl rfl
      | _ => exact hC
  | writer h => cases h <;> exact hC
  | reader h => exact hC.reader hslow hG h
  | deliver h => exact hC.deliver hG h
  | _ => exact hC

theorem conserved_init (cfg : FrozenConfig) : Conserved (init cfg) := by
  refine ⟨[], ?_, rfl⟩
  have hpipe : (init cfg).pipeline = [] := by
    unfold State.pipeline init
    split <;> rfl
  rw [hpipe]
  exact Interleave.nil

/-- The branch that skips an empty payload takes it out of the account. -/
theorem not_conserved_of_call_empty (hC : Conserved s) (hpc : s.deliver = .call [])
    (h : DeliverTrans s t) : ¬ Conserved t := by
  intro hC'
  have hbefore := hC.length_texts
  have hafter := hC'.length_texts
  cases h with
  | call hpc' =>
      obtain rfl := DeliverPc.call.inj (hpc.symm.trans hpc')
      simp only [State.pipeline, hpc, DeliverPc.inHand, List.isEmpty_nil, if_true, List.length_append,
        List.length_singleton, List.length_nil] at hbefore hafter
      omega
  | pop hpc' _ _ => simp [hpc] at hpc'
  | stop hpc' _ _ _ => simp [hpc] at hpc'
  | empty hpc' _ _ _ => simp [hpc] at hpc'
  | park hpc' => simp [hpc] at hpc'
  | drainPop hpc' _ => simp [hpc] at hpc'
  | drainEnd hpc' _ => simp [hpc] at hpc'
  | drainCall hpc' => simp [hpc] at hpc'
  | drainRelock hpc' _ => simp [hpc] at hpc'

/-- A drop at the largest value of the counter resets it to zero. -/
theorem not_conserved_of_wrap {pt : Bytes} (hslow : e.cfg.disconnectOnSlowCallbackConsumer = false)
    (hC : Conserved s) (hpc : s.reader = .jobs pt) (hroom : jobsRoom e.cfg s = false)
    (hmax : 2 ^ 64 ≤ s.callbackDropped.toNat + 1) (h : step e s (.reader .none) = some t) :
    ¬ Conserved t := by
  intro hC'
  have hbefore := hC.length_texts
  have hafter := hC'.length_texts
  have ht : t = { s with
      callbackDropped := s.callbackDropped + 1
      reader := .recv
      hist.texts := s.hist.texts ++ [pt] } := by
    simp only [step, readerStep, hpc, jobsTest, hroom, hslow, Bool.false_eq_true, if_false] at h
    split at h
    · exact (Option.some_inj.mp h).symm
    · cases h
  subst ht
  have hzero : (s.callbackDropped + 1).toNat = 0 := by
    have hlt := s.callbackDropped.toNat_lt
    rw [UInt64.toNat_add, UInt64.toNat_one]
    omega
  simp only [State.pipeline, List.length_append, List.length_singleton, hzero] at hbefore hafter
  omega

/-- The steps outside the condition break the account. -/
theorem not_conserved_of_step {a : Act} (hslow : e.cfg.disconnectOnSlowCallbackConsumer = false)
    (hC : Conserved s) (hG : accountsFor e s a = false) (h : step e s a = some t) :
    ¬ Conserved t := by
  unfold accountsFor at hG
  split at hG
  · split at hG
    · rename_i p hpc
      obtain rfl : p = [] := by simpa using hG
      exact not_conserved_of_call_empty hC hpc (deliverStep_inv h)
    · cases hG
  · split at hG
    · rename_i pt hpc
      simp only [Bool.or_eq_false_iff, decide_eq_false_iff_not, not_lt] at hG
      exact not_conserved_of_wrap hslow hC hpc hG.1 hG.2 h
    · cases hG
  · cases hG

/-- **Callback-mode conservation**: in every run whose steps all account for the payload they move,
every state is conserved; and a step keeps it so exactly when it does account for its payload. -/
theorem conserved_iff_accountsFor (hslow : e.cfg.disconnectOnSlowCallbackConsumer = false)
    (h : Machine.GRun (step e) (fun s a => accountsFor e s a = true) (init e.cfg) s) :
    Conserved s ∧ ∀ a t, step e s a = some t → (Conserved t ↔ accountsFor e s a = true) := by
  have hC : Conserved s :=
    Machine.GRun.invariant (I := Conserved) (fun _ _ _ hI hG ha => hI.step hslow hG ha) h
      (conserved_init e.cfg)
  refine ⟨hC, fun a t ha => ⟨fun hC' => ?_, fun hG => hC.step hslow hG ha⟩⟩
  by_contra hG
  exact not_conserved_of_step hslow hC (by simpa using hG) ha hC'

/-- A connection with a callback that drops what it cannot queue. -/
def callbackEnv : Env where
  cfg := freezeConfig (some { defaultConfig with onMessage := true, onMessageBufferDepth := 1 })
  gcm := shortGcm
  sess := ⟨List.replicate 32 0⟩

/-- `read_loop` takes up a text record and queues it, or drops it. -/
def readJob (pt : Bytes) : List Act :=
  [.reader (.record kMsgText (shortSealed pt)), .reader .none]

/-- One empty text record: it is neither delivered nor counted. -/
theorem empty_payload_not_conserved :
    ¬ ∀ (e : Env) (s : State), e.cfg.onMessage = true →
      e.cfg.disconnectOnSlowCallbackConsumer = false → Reachable e s → Conserved s := by
  intro h
  obtain ⟨s, hrun, htexts, hpipe, hdropped⟩ :
      ∃ s, Reachable callbackEnv s ∧ s.hist.texts = [[]] ∧ s.pipeline = [] ∧
        s.callbackDropped = 0 :=
    Machine.exists_run_of_exec (readJob [] ++ [.deliver, .deliver]) ⟨_, rfl, rfl, rfl, rfl⟩
  have hlen := (h callbackEnv s rfl rfl hrun).length_texts
  rw [htexts, hpipe, hdropped] at hlen
  revert hlen
  decide

/-- Three records on a queue of one: the first is delivered, the third is dropped. -/
theorem conserved_after_drop :
    ∃ s, Machine.GRun (step callbackEnv) (fun s a => accountsFor callbackEnv s a = true)
        (init callbackEnv.cfg) s ∧ s.hist.texts = [[1], [2], [3]] ∧ s.callbackDropped = 1 ∧
      Conserved s := by
  obtain ⟨s, hexec, htexts, hdropped⟩ : ∃ s, Machine.gexec (step callbackEnv)
      (accountsFor callbackEnv) (init callbackEnv.cfg)
      (readJob [1] ++ [.deliver, .deliver] ++ readJob [2] ++ readJob [3]) = some s ∧
        s.hist.texts = [[1], [2], [3]] ∧ s.callbackDropped = 1 := ⟨_, rfl, rfl, rfl⟩
  have hrun := Machine.grun_of_gexec _ hexec
  exact ⟨s, hrun, htexts, hdropped, (conserved_iff_accountsFor rfl hrun).1⟩

end TcpDuplex.Conn
