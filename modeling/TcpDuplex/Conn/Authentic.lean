import TcpDuplex.Conn.Callback
import TcpDuplex.Conn.Delivery
import TcpDuplex.Conn.Tamper

/-!
# Where a payload can come from

Between two connections stands an attacker who owns the network: every record that either side reads is
of its making, in any order and any number of times. The seal is all that the two sides have against it,
and the seal names no direction, no position and no type: a record can be replayed, sent back to its
author, or passed off as one of another type.

What the seal does give is a source (`Carries`): whatever is queued, delivered or echoed on either side
was handed to `send_for` on one of the two, or is the empty payload of a Close record.
-/

namespace TcpDuplex.Conn

open Protocol Machine

variable {e : Env} {s t : State} {In In' Out Out' : Bytes → Prop}

/-! ## The payloads of a connection -/

/-- The payload that `read_loop` is working on. -/
def ReaderPc.payload : ReaderPc → List Bytes
  | .text pt | .textPark pt | .textParked pt | .textStop pt | .jobs pt => [pt]
  | .ping pt | .pingPark pt | .pingParked pt => [pt]
  | _ => []

@[simp]
theorem ReaderPc.payload_wakeSend (pc : ReaderPc) : pc.wakeSend.payload = pc.payload := by
  cases pc <;> rfl

/-- Every payload on its way to the application satisfies `In`, and every one on its way to the peer
`Out`. -/
structure Carries (In Out : Bytes → Prop) (s : State) : Prop where
  queued : ∀ out ∈ s.sendQ, Out out.pt
  taken : ∀ out ∈ s.hist.taken, Out out.pt
  reading : ∀ pt ∈ s.reader.payload, In pt
  pushed : ∀ pt ∈ s.hist.pushed, In pt
  texts : ∀ pt ∈ s.hist.texts, In pt
  jobs : ∀ pt ∈ s.msgJobs, In pt
  delivering : ∀ pt ∈ s.deliver.inHand, In pt
  delivered : ∀ pt ∈ s.hist.delivered, In pt

namespace Carries

theorem mono (hC : Carries In Out s) (hin : ∀ pt, In pt → In' pt) (hout : ∀ pt, Out pt → Out' pt) :
    Carries In' Out' s where
  queued out h := hout _ (hC.queued out h)
  taken out h := hout _ (hC.taken out h)
  reading pt h := hin pt (hC.reading pt h)
  pushed pt h := hin pt (hC.pushed pt h)
  texts pt h := hin pt (hC.texts pt h)
  jobs pt h := hin pt (hC.jobs pt h)
  delivering pt h := hin pt (hC.delivering pt h)
  delivered pt h := hin pt (hC.delivered pt h)

theorem notifySendCv (hC : Carries In Out s) : Carries In Out s.notifySendCv where
  __ := hC
  reading := by
    simp only [State.notifySendCv, ReaderPc.payload_wakeSend]
    exact hC.reading

/-- `read_loop` puts down what it was working on. -/
theorem setReader (hC : Carries In Out s) {c : ReaderPc} (h : c.payload = []) :
    Carries In Out { s with reader := c } where
  __ := hC
  reading := by
    intro pt hpt
    rw [h] at hpt
    cases hpt

/-- It goes on with the same payload, or another one of the kind. -/
theorem setPayload (hC : Carries In Out s) {c : ReaderPc} {pt : Bytes} (h : c.payload = [pt])
    (hpt : In pt) : Carries In Out { s with reader := c } where
  __ := hC
  reading := by
    intro pt' hpt'
    rw [h] at hpt'
    rwa [List.mem_singleton.mp hpt']

theorem inHand (hC : Carries In Out s) {pc : ReaderPc} {pt : Bytes} (hpc : s.reader = pc)
    (h : pc.payload = [pt]) : In pt := by
  apply hC.reading
  rw [hpc, h]
  exact List.mem_singleton_self pt

theorem mem_append_singleton {P : Bytes → Prop} {l : List Bytes} {pt : Bytes} (hl : ∀ p ∈ l, P p)
    (hpt : P pt) : ∀ p ∈ l ++ [pt], P p := by
  intro p hp
  rcases List.mem_append.mp hp with hold | hnew
  · exact hl p hold
  · rwa [List.mem_singleton.mp hnew]

/-- `send_q_` gets one more message. -/
theorem push (hC : Carries In Out s) {out : Outbound} (hout : Out out.pt) :
    Carries In Out (pushSend s out) := by
  apply notifySendCv
  refine { hC with queued := fun o ho => ?_ }
  rcases List.mem_append.mp ho with hold | hnew
  · exact hC.queued o hold
  · rwa [List.mem_singleton.mp hnew]

/-- The head of `send_q_` is taken. -/
theorem take (hC : Carries In Out s) {out : Outbound} {rest : List Outbound} (pc : WriterPc)
    (hq : s.sendQ = out :: rest) :
    Carries In Out
      { s with sendQ := rest, writer := pc, hist.taken := s.hist.taken ++ [out] } where
  __ := hC
  queued o ho := hC.queued o (by rw [hq]; exact List.mem_cons_of_mem _ ho)
  taken o ho := by
    rcases List.mem_append.mp ho with hold | hnew
    · exact hC.taken o hold
    · rw [List.mem_singleton.mp hnew]
      exact hC.queued out (by rw [hq]; exact List.mem_cons_self)

/-- `read_loop` brings in what a record opens to, and echoes what it has brought in. -/
theorem reader {io : ReadIo} (hC : Carries In Out s) (hsub : ∀ pt, In pt → Out pt)
    (hrec : ∀ typ sealed pt, io = .record typ sealed → e.sess.openSealed e.gcm sealed = .ok pt → In pt)
    (h : ReaderTrans e s io t) : Carries In Out t := by
  cases h with
  | gotText _ hopen => exact hC.setPayload rfl (hrec _ _ _ rfl hopen)
  | gotJob _ hopen => exact hC.setPayload rfl (hrec _ _ _ rfl hopen)
  | gotPing _ hopen => exact hC.setPayload rfl (hrec _ _ _ rfl hopen)
  | textGo hpc => exact { hC.setPayload (c := .textStop _) rfl (hC.inHand hpc rfl) with }
  | textFull hpc => exact { hC.setPayload (c := .textPark _) rfl (hC.inHand hpc rfl) with }
  | textPark hpc => exact { hC.setPayload (c := .textParked _) rfl (hC.inHand hpc rfl) with }
  | textPush hpc =>
      exact { hC.setReader (c := .recv) rfl with
        pushed := mem_append_singleton hC.pushed (hC.inHand hpc rfl) }
  | jobPush hpc =>
      have hnew := hC.inHand hpc rfl
      refine { hC.setReader (c := .recv) rfl with
        texts := mem_append_singleton hC.texts hnew
        jobs := mem_append_singleton hC.jobs hnew
        delivering := ?_ }
      simp only [State.notifyJobsCv, DeliverPc.inHand_wake]
      exact hC.delivering
  | jobDrop hpc =>
      exact { hC.setReader (c := .recv) rfl with
        texts := mem_append_singleton hC.texts (hC.inHand hpc rfl) }
  | pingPush hpc =>
      have hmid := hC.setReader (c := .recv) rfl
      exact hmid.push (hsub _ (hC.inHand hpc rfl))
  | pingFull hpc => exact { hC.setPayload (c := .pingPark _) rfl (hC.inHand hpc rfl) with }
  | pingPark hpc => exact { hC.setPayload (c := .pingParked _) rfl (hC.inHand hpc rfl) with }
  | @leave held _ => cases held <;> exact { hC.setReader (c := .exited) rfl with }
  | recvFail => exact hC.setReader rfl
  | openFail => exact hC.setReader rfl
  | gotLarge => exact hC.setReader rfl
  | gotPong => exact hC.setReader rfl
  | gotClose => exact { hC.setReader (c := .abort Errc.closed.code .nothing) rfl with }
  | gotBad => exact hC.setReader rfl
  | textGiveUp => exact { hC.setReader (c := .abort Errc.closed.code .recvSend) rfl with }
  | textSkip => exact { hC.setReader (c := .recv) rfl with }
  | jobSlow => exact { hC.setReader (c := .abort Errc.slowConsumer.code .jobs) rfl with }
  | pingGiveUp => exact { hC.setReader (c := .abort Errc.closed.code .send) rfl with }
  | @abortAgain _ held => exact { hC.setReader (c := .storeDone held) rfl with }
  | @abortFirst _ held => exact { hC.setReader (c := .storeDone held) rfl with }
  | @storeDone held => exact { hC.setReader (c := .notifyDone held) rfl with }
  | @notifyDone held => exact { hC.setReader (c := .leave held) rfl with }

theorem deliver (hC : Carries In Out s) (h : DeliverTrans s t) : Carries In Out t := by
  -- the counter behind the step has no payload in hand
  have empty : ∀ {c : DeliverPc}, c.inHand = [] → Carries In Out { s with deliver := c } := by
    intro c hpc
    refine { hC with delivering := fun pt hpt => ?_ }
    rw [hpc] at hpt
    cases hpt
  have popped : ∀ {c : DeliverPc} {p : Bytes} {rest : List Bytes}, s.msgJobs = p :: rest →
      c.inHand = [p] → Carries In Out { s with msgJobs := rest, deliver := c } := by
    intro c p rest hq hpc
    refine { hC with
      jobs := fun pt hpt => hC.jobs pt (by rw [hq]; exact List.mem_cons_of_mem _ hpt)
      delivering := fun pt hpt => ?_ }
    rw [hpc] at hpt
    rw [List.mem_singleton.mp hpt]
    exact hC.jobs p (by rw [hq]; exact List.mem_cons_self)
  have inHand : ∀ {pc : DeliverPc} {p : Bytes}, s.deliver = pc → pc.inHand = [p] → In p := by
    intro pc p hpc hp
    apply hC.delivering
    rw [hpc, hp]
    exact List.mem_singleton_self p
  cases h with
  | pop _ _ hq => exact popped hq rfl
  | drainPop _ hq => exact { popped (c := .drainCall _) hq rfl with }
  | @call p hpc =>
      refine { empty (c := .acquire) rfl with delivered := ?_ }
      show ∀ pt ∈ (if p.isEmpty then s.hist.delivered else s.hist.delivered ++ [p]), In pt
      split
      · exact hC.delivered
      · exact mem_append_singleton hC.delivered (inHand hpc rfl)
  | drainCall hpc =>
      exact { empty (c := .drainRelock) rfl with
        delivered := mem_append_singleton hC.delivered (inHand hpc rfl) }
  | stop => exact { empty (c := .drain) rfl with }
  | empty => exact { empty (c := .park) rfl with }
  | park => exact { empty (c := .parked) rfl with }
  | drainEnd => exact { empty (c := .exited) rfl with }
  | drainRelock => exact { empty (c := .drain) rfl with }

/-- **The provenance of payloads**: a step brings in what a record opens to, sends out what `send_for`
accepts, and otherwise only moves what is there. -/
theorem step {a : Act} (hC : Carries In Out s) (hsub : ∀ pt, In pt → Out pt)
    (hacc : ∀ pt ∈ t.hist.accepted, Out pt)
    (hrec : ∀ typ sealed pt, a = .reader (.record typ sealed) →
      e.sess.openSealed e.gcm sealed = .ok pt → In pt)
    (h : step e s a = some t) : Carries In Out t := by
  cases step_inv h with
  | sender h =>
      cases h with
      | push =>
          have hnew := hacc _ (List.mem_append_right _ (List.mem_singleton_self _))
          exact { hC.push hnew with }
      | _ => exact { hC with }
  | receiver h => cases h <;> exact { hC with }
  | shutdown h =>
      cases h with
      | notifySend => exact { hC.notifySendCv with }
      | notifyJobs =>
          refine { hC with delivering := ?_ }
          simp only [State.notifyJobsCv, DeliverPc.inHand_wake]
          exact hC.delivering
      | _ => exact { hC with }
  | writer h =>
      cases h with
      | pop _ _ hq => exact (hC.take _ hq).notifySendCv
      | drainPop _ _ hq => exact hC.take _ hq
      | _ => exact { hC with }
  | reader h => exact hC.reader hsub (fun typ sealed pt hio => hrec typ sealed pt (by rw [hio])) h
  | deliver h => exact hC.deliver h
  | _ => exact { hC with }

end Carries

theorem carries_init (cfg : FrozenConfig) : Carries In Out (init cfg) where
  queued := nofun
  taken := nofun
  reading := nofun
  pushed := nofun
  texts := nofun
  jobs := nofun
  delivering := by
    intro pt hpt
    simp only [init] at hpt
    split at hpt <;> cases hpt
  delivered := nofun

/-- What `send_for` has accepted stays accepted. -/
theorem accepted_prefix_of_step {a : Act} (h : step e s a = some t) :
    s.hist.accepted <+: t.hist.accepted := by
  cases step_inv h with
  | sender h =>
      cases h with
      | push => exact List.prefix_append _ _
      | _ => exact List.prefix_rfl
  | receiver h => cases h <;> exact List.prefix_rfl
  | shutdown h => cases h <;> exact List.prefix_rfl
  | writer h => cases h <;> exact List.prefix_rfl
  | reader h =>
      cases h with
      | @leave held _ => cases held <;> exact List.prefix_rfl
      | _ => exact List.prefix_rfl
  | deliver h => cases h <;> exact List.prefix_rfl
  | _ => exact List.prefix_rfl

/-- What is in a record was taken from `send_q_`, or it is the Close record. -/
theorem Carries.of_record (hC : Carries In Out s) (hO : Outgoing e s) {r : UInt8 × Bytes}
    (hr : r ∈ s.hist.records) {pt : Bytes} (hopen : e.sess.openSealed e.gcm r.2 = .ok pt) :
    Out pt ∨ pt = [] := by
  obtain rfl : (openRecord e r).pt = pt :=
    Except.ok.inj ((hO.readable r hr).2.symm.trans hopen)
  have hmem : openRecord e r ∈ emitted e s := List.mem_map_of_mem hr
  rcases hO.written.prefix_or_closing with hpre | hclosing
  · exact .inl (hC.taken _ (hpre.subset hmem))
  · rw [hclosing.last] at hmem
    rcases List.mem_append.mp hmem with htaken | hclose
    · exact .inl (hC.taken _ htaken)
    · rw [List.mem_singleton.mp hclose]
      exact .inr rfl

/-! ## The two connections and the attacker -/

/-- The two ends of a link. -/
structure Ends where
  a : State
  b : State

/-- Whose step it is. The record of a read is the attacker's choice. -/
inductive EndAct where
  | a (act : Act)
  | b (act : Act)

/-- One step of the two connections. -/
def endStep (l : Link) (p : Ends) : EndAct → Option Ends
  | .a act => (step l.envA p.a act).map fun a => { p with a := a }
  | .b act => (step l.envB p.b act).map fun b => { p with b := b }

/-- Both connections as constructed. -/
def Link.ends (l : Link) : Ends := ⟨Conn.init l.cfgA, Conn.init l.cfgB⟩

/-- Everything that was sealed under the session key so far. -/
def Ends.sealed (p : Ends) : List Bytes := (p.a.hist.records ++ p.b.hist.records).map Prod.snd

/-- The blob that the step reads, if it reads one. -/
def EndAct.blob : EndAct → Option Bytes
  | .a (.reader (.record _ sealed)) => some sealed
  | .b (.reader (.record _ sealed)) => some sealed
  | _ => none

/-- The attacker does not forge: a blob that opens is one that was sealed before. -/
def unforged (l : Link) (p : Ends) (a : EndAct) : Bool :=
  match a.blob with
  | none => true
  | some sealed =>
    match l.sess.openSealed l.gcm sealed with
    | .ok _ => decide (sealed ∈ p.sealed)
    | .error _ => true

/-- A payload that `send_for` accepted on one of the two sides, or that of a Close record. -/
def Genuine (p : Ends) (pt : Bytes) : Prop :=
  pt ∈ p.a.hist.accepted ∨ pt ∈ p.b.hist.accepted ∨ pt = []

/-- What holds while the attacker is at work. -/
structure Sourced (l : Link) (p : Ends) : Prop where
  reachA : Reachable l.envA p.a
  reachB : Reachable l.envB p.b
  a : Carries (Genuine p) (Genuine p) p.a
  b : Carries (Genuine p) (Genuine p) p.b

variable {l : Link} {p q : Ends}

/-- A blob that was sealed in the session opens to a payload of one of the two sides. -/
theorem Sourced.genuine_of_sealed (hg : l.gcm.Lawful) (hS : Sourced l p) {sealed pt : Bytes}
    (hmem : sealed ∈ p.sealed) (hopen : l.sess.openSealed l.gcm sealed = .ok pt) : Genuine p pt := by
  obtain ⟨r, hr, rfl⟩ := List.mem_map.mp hmem
  have hnil : Genuine p pt ∨ pt = [] := by
    rcases List.mem_append.mp hr with hA | hB
    · exact hS.a.of_record (outgoing_reachable hg hS.reachA) hA hopen
    · exact hS.b.of_record (outgoing_reachable hg hS.reachB) hB hopen
  rcases hnil with hgen | rfl
  · exact hgen
  · exact .inr (.inr rfl)

theorem genuine_of_unforged (hg : l.gcm.Lawful) (hS : Sourced l p) {a : EndAct} {sealed pt : Bytes}
    (hblob : a.blob = some sealed) (hok : unforged l p a = true)
    (hopen : l.sess.openSealed l.gcm sealed = .ok pt) : Genuine p pt := by
  simp only [unforged, hblob, hopen, decide_eq_true_eq] at hok
  exact hS.genuine_of_sealed hg hok hopen

/-- A step of either side keeps the source of every payload. -/
theorem Sourced.step (hg : l.gcm.Lawful) (hS : Sourced l p) {a : EndAct} (hok : unforged l p a = true)
    (h : endStep l p a = some q) : Sourced l q := by
  cases a with
  | a act =>
      obtain ⟨t, ht, rfl⟩ := Option.map_eq_some_iff.mp h
      have hmono : ∀ pt, Genuine p pt → Genuine { p with a := t } pt :=
        fun pt => Or.imp_left fun hin => (accepted_prefix_of_step ht).subset hin
      refine ⟨hS.reachA.snoc ht, hS.reachB, ?_, hS.b.mono hmono hmono⟩
      refine (hS.a.mono hmono hmono).step (fun _ => id) (fun pt hin => .inl hin) ?_ ht
      rintro typ sealed pt rfl hopen
      exact hmono pt (genuine_of_unforged hg hS rfl hok hopen)
  | b act =>
      obtain ⟨t, ht, rfl⟩ := Option.map_eq_some_iff.mp h
      have hmono : ∀ pt, Genuine p pt → Genuine { p with b := t } pt :=
        fun pt => Or.imp_right (Or.imp_left fun hin => (accepted_prefix_of_step ht).subset hin)
      refine ⟨hS.reachA, hS.reachB.snoc ht, hS.a.mono hmono hmono, ?_⟩
      refine (hS.b.mono hmono hmono).step (fun _ => id) (fun pt hin => .inr (.inl hin)) ?_ ht
      rintro typ sealed pt rfl hopen
      exact hmono pt (genuine_of_unforged hg hS rfl hok hopen)

theorem sourced_run (hg : l.gcm.Lawful)
    (h : GRun (endStep l) (fun p a => unforged l p a = true) l.ends p) : Sourced l p :=
  GRun.invariant (I := Sourced l) (fun _ _ _ hI hok hstep => hI.step hg hok hstep) h
    ⟨Run.refl _, Run.refl _, carries_init _, carries_init _⟩

/-- **Authenticity.** Two connections share a session key and an attacker delivers whatever records it
likes to both, replayed, reordered, reflected and under any type byte; it only cannot make a blob that
opens. In every state that they reach, on either side, each payload that `receive_for` has returned or
will return, each one passed to `on_message` and each one sent or echoed to the peer was accepted by
`send_for` on one of the two sides, or is empty. -/
theorem delivered_payload_accepted (l : Link) (hg : l.gcm.Lawful) (p : Ends)
    (h : GRun (endStep l) (fun p a => unforged l p a = true) l.ends p) (s : State)
    (hs : s = p.a ∨ s = p.b) (pt : Bytes)
    (hpt : pt ∈ s.hist.popped ++ s.recvQ ++ s.hist.delivered ++
      (s.hist.taken ++ s.sendQ).map Outbound.pt) :
    pt ∈ p.a.hist.accepted ∨ pt ∈ p.b.hist.accepted ∨ pt = [] := by
  have hS := sourced_run hg h
  obtain ⟨e, hreach, hC⟩ : ∃ e, Reachable e s ∧ Carries (Genuine p) (Genuine p) s := by
    rcases hs with rfl | rfl
    · exact ⟨_, hS.reachA, hS.a⟩
    · exact ⟨_, hS.reachB, hS.b⟩
  rw [(incoming_reachable hreach).queue] at hpt
  rcases List.mem_append.mp hpt with hin | hout
  · rcases List.mem_append.mp hin with hpushed | hdelivered
    · exact hC.pushed pt hpushed
    · exact hC.delivered pt hdelivered
  · obtain ⟨out, hmem, rfl⟩ := List.mem_map.mp hout
    rcases List.mem_append.mp hmem with htaken | hqueued
    · exact hC.taken out htaken
    · exact hC.queued out hqueued

/-- Two connections under the key of the sample. -/
def sampleLink : Link where
  cfgA := freezeConfig none
  cfgB := freezeConfig none
  gcm := sampleGcm
  sess := ⟨List.replicate 32 0⟩

/-- `A` sends `hi`; the attacker delivers the record to `B` and, twice, back to `A`. -/
def reflectTrace : List EndAct :=
  [.a (.callSend 0 [0x68, 0x69] false), .a (.sender 0), .a (.sender 0), .a (.writer .none),
    .a (.writer (.nonce (some sampleNonce))), .b (.reader (.record kMsgText sampleSealed)),
    .b (.reader .none), .b (.reader .none), .a (.reader (.record kMsgText sampleSealed)),
    .a (.reader .none), .a (.reader .none), .a (.reader (.record kMsgText sampleSealed)),
    .a (.reader .none), .a (.reader .none)]

theorem reflected_payload_accepted :
    ∃ p, GRun (endStep sampleLink) (fun p a => unforged sampleLink p a = true) sampleLink.ends p ∧
      p.a.recvQ = [[0x68, 0x69], [0x68, 0x69]] ∧ p.b.recvQ = [[0x68, 0x69]] ∧
      ([0x68, 0x69] ∈ p.a.hist.accepted ∨ [0x68, 0x69] ∈ p.b.hist.accepted ∨
        ([0x68, 0x69] : Bytes) = []) := by
  obtain ⟨p, hrun, hA, hB⟩ :
      ∃ p, GRun (endStep sampleLink) (fun p a => unforged sampleLink p a = true) sampleLink.ends p ∧
        p.a.recvQ = [[0x68, 0x69], [0x68, 0x69]] ∧ p.b.recvQ = [[0x68, 0x69]] :=
    ⟨_, grun_of_gexec reflectTrace rfl, rfl, rfl⟩
  refine ⟨p, hrun, hA, hB, ?_⟩
  exact delivered_payload_accepted sampleLink sampleGcm_lawful p hrun p.b (.inr rfl) [0x68, 0x69]
    (by simp [hB])

end TcpDuplex.Conn
