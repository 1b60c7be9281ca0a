import TcpDuplex.Agreement
import TcpDuplex.Conn.Authentic

/-!
# Two sides with different keys

A wrong pre-shared key does not make the handshake fail: both sides return success, with session keys
that differ. Each then runs a connection, and the first record that one of them reads ends it. Here are
the two connections over the two byte streams between them, and what becomes of everything sent: nothing
gets through (`Deaf`), not even a Close or the echo of a ping.
-/

namespace TcpDuplex

open Protocol Machine

/-- If the keys of these two sessions differ, no record of these that was sealed in the first opens in the
second. -/
def Gcm.Separates (g : Gcm) (s s' : Session) (records : List (UInt8 × Bytes)) : Prop :=
  s.key ≠ s'.key → ∀ r ∈ records, ∀ (nonce : Option Nonce) (pt : Bytes),
    s.sealPlaintext g nonce pt = .ok r.2 → ∀ pt', s'.openSealed g r.2 ≠ .ok pt'

theorem Gcm.Separates.mono {g : Gcm} {s s' : Session} {records records' : List (UInt8 × Bytes)}
    (h : g.Separates s s' records') (hle : records <+: records') : g.Separates s s' records :=
  fun hkey r hr => h hkey r (hle.subset hr)

/-- The keys behind a handshake that succeeded on both sides. -/
theorem Handshaking.keys {P : Parties} {s : Pair} {session session' : Session} (h : Handshaking P s)
    (hclient : ClientReturned s .success session) (hserver : ServerReturned s .success session') :
    ∃ a b, P.clientPriv = some a ∧ P.serverPriv = some b ∧
      session = ⟨deriveSessionKey P.cr (P.cr.sharedSecret a (P.cr.publicFromPrivate b)).1
        (psk P.clientOpts)⟩ ∧
      session' = ⟨deriveSessionKey P.cr (P.cr.sharedSecret b (P.cr.publicFromPrivate a)).1
        (psk P.serverOpts)⟩ := by
  obtain ⟨a, serverPub, ha, hcin, hcout, hckey, -⟩ := h.client.established _ hclient
  obtain ⟨b, clientPub, hb, hsin, hsout, hskey, -⟩ := h.server.established _ hserver
  have hserverPub : serverPub = P.cr.publicFromPrivate b := by
    apply header_injective
    rw [← hcin, (h.client_received hclient).1, hsout, hb]
    rfl
  have hclientPub : clientPub = P.cr.publicFromPrivate a := by
    apply header_injective
    rw [← hsin, (h.server_received hserver).1, hcout, ha]
    rfl
  refine ⟨a, b, ha, hb, ?_, ?_⟩
  · rw [← hserverPub, ← hckey]
  · rw [← hclientPub, ← hskey]

namespace Conn

variable {e e' : Env} {s t : State}

/-! ## A connection that opens nothing -/

/-- The application has been given nothing, and the peer nothing but what the application sent. -/
structure Deaf (s : State) : Prop where
  popped : s.hist.popped = []
  recvQ : s.recvQ = []
  delivered : s.hist.delivered = []
  dropped : s.callbackDropped = 0
  sawClose : s.hist.sawClose = false
  results : ∀ r ∈ s.hist.results, ∃ ec, r = .error ec
  outgoing : s.hist.taken ++ s.sendQ = s.hist.accepted.map (Outbound.mk kMsgText)

/-- The invariant behind it: there is no payload on its way in. -/
structure Unheard (s : State) : Prop where
  carries : Carries (fun _ => False) (fun _ => True) s
  deaf : Deaf s

theorem unheard_init (cfg : FrozenConfig) : Unheard (init cfg) where
  carries := carries_init cfg
  deaf := ⟨rfl, rfl, rfl, rfl, rfl, nofun, rfl⟩

theorem Deaf.results_error (hD : Deaf s) (ec : ErrorCode) :
    ∀ r ∈ s.hist.results ++ [.error ec], ∃ ec', r = .error ec' := by
  intro r hr
  rcases List.mem_append.mp hr with hold | hnew
  · exact hD.results r hold
  · exact ⟨ec, List.mem_singleton.mp hnew⟩

theorem Deaf.receiver {i : ℕ} (hD : Deaf s) (h : ReceiverTrans e s i t) : Deaf t := by
  cases h with
  | disabled => exact { hD with results := hD.results_error _ }
  | pop _ _ hq =>
      rw [hD.recvQ] at hq
      cases hq
  | fail => exact { hD with results := hD.results_error _ }
  | timeout => exact { hD with results := hD.results_error _ }
  | _ => exact { hD with }

theorem Deaf.writer {io : WriteIo} (hD : Deaf s) (h : WriterTrans e s io t) : Deaf t := by
  have htake : ∀ {out : Outbound} {rest : List Outbound}, s.sendQ = out :: rest →
      s.hist.taken ++ [out] ++ rest = s.hist.accepted.map (Outbound.mk kMsgText) := by
    intro out rest hq
    rw [← hD.outgoing, hq, List.append_assoc, List.singleton_append]
  cases h with
  | pop _ _ hq => exact { hD with outgoing := htake hq }
  | drainPop _ _ hq => exact { hD with outgoing := htake hq }
  | _ => exact { hD with }

/-- Without a payload in hand and with a record that does not open, `read_loop` only gives up. -/
theorem Unheard.reader {io : ReadIo} (hU : Unheard s)
    (hrec : ∀ typ sealed pt, io = .record typ sealed → e.sess.openSealed e.gcm sealed ≠ .ok pt)
    (h : ReaderTrans e s io t) : Deaf t := by
  obtain ⟨hC, hD⟩ := hU
  cases h with
  | gotText _ hopen => exact absurd hopen (hrec _ _ _ rfl)
  | gotJob _ hopen => exact absurd hopen (hrec _ _ _ rfl)
  | gotLarge _ hopen => exact absurd hopen (hrec _ _ _ rfl)
  | gotPing _ hopen => exact absurd hopen (hrec _ _ _ rfl)
  | gotPong _ hopen => exact absurd hopen (hrec _ _ _ rfl)
  | gotClose _ hopen => exact absurd hopen (hrec _ _ _ rfl)
  | gotBad _ hopen => exact absurd hopen (hrec _ _ _ rfl)
  | textPush hpc => exact (hC.inHand hpc rfl).elim
  | jobPush hpc => exact (hC.inHand hpc rfl).elim
  | jobDrop hpc => exact (hC.inHand hpc rfl).elim
  | pingPush hpc => exact (hC.inHand hpc rfl).elim
  | @leave held _ => cases held <;> exact { hD with }
  | _ => exact { hD with }

theorem Unheard.step {a : Act} (hU : Unheard s)
    (hrec : ∀ typ sealed pt, a = .reader (.record typ sealed) →
      e.sess.openSealed e.gcm sealed ≠ .ok pt)
    (h : step e s a = some t) : Unheard t := by
  refine ⟨hU.carries.step (fun _ _ => trivial) (fun _ _ => trivial) ?_ h, ?_⟩
  · intro typ sealed pt ha hopen
    exact hrec typ sealed pt ha hopen
  · have hD := hU.deaf
    cases step_inv h with
    | sender h =>
        cases h with
        | push =>
            refine { hD with outgoing := ?_ }
            simp only [pushSend, State.notifySendCv, State.setSender]
            rw [← List.append_assoc, hD.outgoing, List.map_append, List.map_singleton]
        | _ => exact { hD with }
    | receiver h => exact hD.receiver h
    | shutdown h => cases h <;> exact { hD with }
    | writer h => exact hD.writer h
    | reader h => exact hU.reader (fun typ sealed pt hio => hrec typ sealed pt (by rw [hio])) h
    | deliver h =>
        -- there is nothing to deliver
        cases h with
        | call hpc => exact (hU.carries.delivering _ (by rw [hpc]; exact List.mem_singleton_self _)).elim
        | drainCall hpc =>
            exact (hU.carries.delivering _ (by rw [hpc]; exact List.mem_singleton_self _)).elim
        | _ => exact { hD with }
    | _ => exact { hD with }

/-- Every record was sealed under the key of the connection. -/
def SealedHere (e : Env) (s : State) : Prop :=
  ∀ r ∈ s.hist.records, ∃ nonce pt, e.sess.sealPlaintext e.gcm nonce pt = .ok r.2

theorem SealedHere.step {a : Act} (hS : SealedHere e s) (h : Conn.step e s a = some t) :
    SealedHere e t := by
  cases step_inv h with
  | writer h =>
      cases h with
      | @begin site out n sealed _ hseal _ =>
          intro r hr
          rcases List.mem_append.mp hr with hold | hnew
          · exact hS r hold
          · rw [List.mem_singleton.mp hnew]
            exact ⟨n, out.pt, hseal⟩
      | _ => exact hS
  | sender h => cases h <;> exact hS
  | receiver h => cases h <;> exact hS
  | shutdown h => cases h <;> exact hS
  | reader h =>
      cases h with
      | @leave held _ => cases held <;> exact hS
      | _ => exact hS
  | deliver h => cases h <;> exact hS
  | _ => exact hS

/-! ## The two connections -/

/-- Two connections, each with the session that its side derived. -/
structure Crossed where
  cfgA : FrozenConfig
  cfgB : FrozenConfig
  gcm : Gcm
  sessA : Session
  sessB : Session

def Crossed.envA (c : Crossed) : Env := ⟨c.cfgA, c.gcm, c.sessA⟩

def Crossed.envB (c : Crossed) : Env := ⟨c.cfgB, c.gcm, c.sessB⟩

/-- The two connections, and how much each has read of what the other's socket took. -/
structure Wires where
  a : State
  b : State
  readA : ℕ
  readB : ℕ

/-- A step of one side that reads no record, or the next record arriving at it. -/
inductive WireAct where
  | a (act : Act)
  | b (act : Act)
  | arriveA
  | arriveB

/-- The next record of a stream, of which `read` bytes were read, arrives. -/
def arriveFrom (e : Env) (s : State) (wire : Bytes) (read : ℕ) : Option (State × ℕ) :=
  match readRecord (wire.drop read) with
  | (.ok (typ, sealed), rest) =>
    (step e s (.reader (.record typ sealed))).map fun t =>
      (t, read + ((wire.drop read).length - rest.length))
  | (.error _, _) => none

/-- One step of the two connections. -/
def wireStep (c : Crossed) (p : Wires) : WireAct → Option Wires
  | .a act => if act.isRecord then none else (step c.envA p.a act).map fun a => { p with a := a }
  | .b act => if act.isRecord then none else (step c.envB p.b act).map fun b => { p with b := b }
  | .arriveA =>
    (arriveFrom c.envA p.a p.b.hist.wire p.readA).map fun r => { p with a := r.1, readA := r.2 }
  | .arriveB =>
    (arriveFrom c.envB p.b p.a.hist.wire p.readB).map fun r => { p with b := r.1, readB := r.2 }

/-- Both connections as constructed. -/
def Crossed.init (c : Crossed) : Wires := ⟨Conn.init c.cfgA, Conn.init c.cfgB, 0, 0⟩

/-- What arrives is a step of the side at which it arrives. -/
theorem step_of_arriveFrom {wire : Bytes} {read : ℕ} {r : State × ℕ}
    (h : arriveFrom e s wire read = some r) : ∃ act, step e s act = some r.1 := by
  unfold arriveFrom at h
  split at h
  · obtain ⟨t, ht, rfl⟩ := Option.map_eq_some_iff.mp h
    exact ⟨_, ht⟩
  · cases h

/-! ## What arrives does not open -/

/-- One side, against what it has read of the other's records. -/
structure Unread (e : Env) (s : State) (records : List (UInt8 × Bytes)) (read : ℕ) : Prop where
  reach : Reachable e s
  sealedHere : SealedHere e s
  unheard : Unheard s
  /-- It has read a whole number of records. -/
  whole : ∃ k, k ≤ records.length ∧ read = (streamOf (records.take k)).length
  /-- The first one was the last. -/
  ends : 0 < read → s.reader.live = false

theorem unread_init (e : Env) : Unread e (init e.cfg) [] 0 where
  reach := Run.refl _
  sealedHere := nofun
  unheard := unheard_init e.cfg
  whole := ⟨0, le_rfl, rfl⟩
  ends := nofun

section Unread

variable {records : List (UInt8 × Bytes)} {read : ℕ}

/-- The other side writes on. -/
theorem Unread.grow (hU : Unread e s records read) {records' : List (UInt8 × Bytes)}
    (h : records <+: records') : Unread e s records' read := by
  obtain ⟨k, hk, hread⟩ := hU.whole
  obtain ⟨more, rfl⟩ := h
  refine { hU with whole := ⟨k, ?_, ?_⟩ }
  · rw [List.length_append]
    omega
  · rw [hread, List.take_append_of_le_length hk]

theorem live_of_step {a : Act} (h : step e s a = some t) (hs : s.reader.live = false) :
    t.reader.live = false := by
  -- a counter that is not live leads only to such counters
  have habs : ∀ {pc : ReaderPc}, s.reader = pc → pc.live = true → False := by
    intro pc hpc hlive
    rw [hpc, hlive] at hs
    cases hs
  cases step_inv h with
  | sender h =>
      cases h with
      | push => exact (ReaderPc.live_wakeSend s.reader).trans hs
      | _ => exact hs
  | receiver h => cases h <;> exact hs
  | shutdown h =>
      cases h with
      | notifySend => exact (ReaderPc.live_wakeSend s.reader).trans hs
      | _ => exact hs
  | writer h =>
      cases h with
      | pop => exact (ReaderPc.live_wakeSend s.reader).trans hs
      | _ => exact hs
  | reader h =>
      cases h with
      | recvFail => rfl
      | openFail => rfl
      | gotLarge => rfl
      | gotClose => rfl
      | gotBad => rfl
      | textGiveUp => rfl
      | jobSlow => rfl
      | pingGiveUp => rfl
      | abortAgain => rfl
      | abortFirst => rfl
      | storeDone => rfl
      | notifyDone => rfl
      | leave => rfl
      | gotText hpc => exact (habs hpc rfl).elim
      | gotJob hpc => exact (habs hpc rfl).elim
      | gotPing hpc => exact (habs hpc rfl).elim
      | gotPong hpc => exact (habs hpc rfl).elim
      | textGo hpc => exact (habs hpc rfl).elim
      | textFull hpc => exact (habs hpc rfl).elim
      | textPark hpc => exact (habs hpc rfl).elim
      | textSkip hpc => exact (habs hpc rfl).elim
      | textPush hpc => exact (habs hpc rfl).elim
      | jobPush hpc => exact (habs hpc rfl).elim
      | jobDrop hpc => exact (habs hpc rfl).elim
      | pingPush hpc => exact (habs hpc rfl).elim
      | pingFull hpc => exact (habs hpc rfl).elim
      | pingPark hpc => exact (habs hpc rfl).elim
  | deliver h => cases h <;> exact hs
  | _ => exact hs

/-- A step that reads no record. -/
theorem Unread.step {a : Act} (hU : Unread e s records read) (ha : a.isRecord = false)
    (h : Conn.step e s a = some t) : Unread e t records read where
  reach := hU.reach.snoc h
  sealedHere := hU.sealedHere.step h
  unheard := by
    refine hU.unheard.step (fun typ sealed pt hact => ?_) h
    rw [hact] at ha
    cases ha
  whole := hU.whole
  ends hpos := live_of_step h (hU.ends hpos)

/-- The next record of the other side arrives: it was sealed there, so it does not open here. -/
theorem Unread.arrive {src : State} (hg : e'.gcm.Lawful) (hgcm : e'.gcm = e.gcm)
    (hsep : e.gcm.Separates e'.sess e.sess src.hist.records) (hkey : e'.sess.key ≠ e.sess.key)
    (hreach : Reachable e' src) (hsealed : SealedHere e' src)
    (hU : Unread e s src.hist.records read) {r : State × ℕ}
    (h : arriveFrom e s src.hist.wire read = some r) : Unread e r.1 src.hist.records r.2 := by
  obtain ⟨k, hk, hread⟩ := hU.whole
  unfold arriveFrom at h
  split at h
  · rename_i typ sealed rest hnext
    obtain ⟨t, ht, rfl⟩ := Option.map_eq_some_iff.mp h
    -- the stream delivers the record with number `k`
    obtain ⟨hget, hbytes⟩ := next_record (l := ⟨e'.cfg, e'.cfg, e'.gcm, e'.sess⟩)
      (p := ⟨src, src, read⟩) (outgoing_reachable hg hreach) hread hnext
    obtain ⟨hlt, -⟩ := List.getElem?_eq_some_iff.mp hget
    have hmem := List.mem_of_getElem? hget
    obtain ⟨nonce, pt, hseal⟩ := hsealed _ hmem
    rw [hgcm] at hseal
    have hclosed : ∀ pt', e.sess.openSealed e.gcm sealed ≠ .ok pt' := hsep hkey _ hmem nonce pt hseal
    refine ⟨hU.reach.snoc ht, hU.sealedHere.step ht, ?_, ⟨k + 1, hlt, ?_⟩, fun _ => ?_⟩
    · refine hU.unheard.step (fun typ' sealed' pt' hact => ?_) ht
      cases hact
      exact hclosed pt'
    · have hlen := congrArg List.length hbytes
      rw [List.length_append] at hlen
      have htake : src.hist.records.take (k + 1) = src.hist.records.take k ++ [(typ, sealed)] := by
        rw [List.take_add_one, hget]
        rfl
      have hone : (streamOf [(typ, sealed)]).length = (recordBytes typ sealed).length := by
        simp [streamOf]
      rw [htake, streamOf_append, List.length_append, ← hread, hone]
      show read + ((Pair.unread ⟨src, src, read⟩).length - rest.length) = _
      omega
    · cases (readerStep_inv ht : ReaderTrans e s (.record typ sealed) t) with
      | openFail => rfl
      | gotLarge => rfl
      | gotClose => rfl
      | gotBad => rfl
      | gotText _ hopen => exact absurd hopen (hclosed _)
      | gotJob _ hopen => exact absurd hopen (hclosed _)
      | gotPing _ hopen => exact absurd hopen (hclosed _)
      | gotPong _ hopen => exact absurd hopen (hclosed _)
  · cases h

end Unread

/-- Neither side has opened anything of the other. -/
structure Apart (c : Crossed) (p : Wires) : Prop where
  a : Unread c.envA p.a p.b.hist.records p.readA
  b : Unread c.envB p.b p.a.hist.records p.readB

/-- Each side's records stay closed to the other. -/
structure Separated (c : Crossed) (p : Wires) : Prop where
  ab : c.gcm.Separates c.sessA c.sessB p.a.hist.records
  ba : c.gcm.Separates c.sessB c.sessA p.b.hist.records

/-- Records are only added. -/
theorem records_of_wireStep {c : Crossed} {p q : Wires} {a : WireAct} (h : wireStep c p a = some q) :
    p.a.hist.records <+: q.a.hist.records ∧ p.b.hist.records <+: q.b.hist.records := by
  cases a with
  | a act =>
      simp only [wireStep] at h
      split at h
      · cases h
      · obtain ⟨t, ht, rfl⟩ := Option.map_eq_some_iff.mp h
        exact ⟨(hist_prefix_of_step ht).1, List.prefix_rfl⟩
  | b act =>
      simp only [wireStep] at h
      split at h
      · cases h
      · obtain ⟨t, ht, rfl⟩ := Option.map_eq_some_iff.mp h
        exact ⟨List.prefix_rfl, (hist_prefix_of_step ht).1⟩
  | arriveA =>
      obtain ⟨r, hr, rfl⟩ := Option.map_eq_some_iff.mp h
      obtain ⟨act, ht⟩ := step_of_arriveFrom hr
      exact ⟨(hist_prefix_of_step ht).1, List.prefix_rfl⟩
  | arriveB =>
      obtain ⟨r, hr, rfl⟩ := Option.map_eq_some_iff.mp h
      obtain ⟨act, ht⟩ := step_of_arriveFrom hr
      exact ⟨List.prefix_rfl, (hist_prefix_of_step ht).1⟩

theorem Apart.step {c : Crossed} (hg : c.gcm.Lawful) (hkey : c.sessA.key ≠ c.sessB.key) {p q : Wires}
    {a : WireAct} (hsep : Separated c p) (hA : Apart c p) (h : wireStep c p a = some q) : Apart c q := by
  obtain ⟨hgrowA, hgrowB⟩ := records_of_wireStep h
  cases a with
  | a act =>
      simp only [wireStep] at h
      split at h
      · cases h
      · rename_i hrec
        obtain ⟨t, ht, rfl⟩ := Option.map_eq_some_iff.mp h
        exact ⟨hA.a.step (by simpa using hrec) ht, hA.b.grow hgrowA⟩
  | b act =>
      simp only [wireStep] at h
      split at h
      · cases h
      · rename_i hrec
        obtain ⟨t, ht, rfl⟩ := Option.map_eq_some_iff.mp h
        exact ⟨hA.a.grow hgrowB, hA.b.step (by simpa using hrec) ht⟩
  | arriveA =>
      obtain ⟨r, hr, rfl⟩ := Option.map_eq_some_iff.mp h
      refine ⟨?_, hA.b.grow hgrowA⟩
      exact @Unread.arrive c.envA c.envB _ _ _ hg rfl hsep.ba hkey.symm hA.b.reach hA.b.sealedHere hA.a _ hr
  | arriveB =>
      obtain ⟨r, hr, rfl⟩ := Option.map_eq_some_iff.mp h
      refine ⟨hA.a.grow hgrowB, ?_⟩
      exact @Unread.arrive c.envB c.envA _ _ _ hg rfl hsep.ab hkey hA.a.reach hA.a.sealedHere hA.b _ hr

/-- What is separated in the end was so on the way. -/
theorem apart_run {c : Crossed} (hg : c.gcm.Lawful) (hkey : c.sessA.key ≠ c.sessB.key) {p : Wires}
    (h : Run (wireStep c) c.init p) : Separated c p → Apart c p := by
  refine Run.invariant (I := fun p => Separated c p → Apart c p) ?_ h
    fun _ => ⟨unread_init c.envA, unread_init c.envB⟩
  intro p a q hI hstep hsep
  obtain ⟨hgrowA, hgrowB⟩ := records_of_wireStep hstep
  have hsep' : Separated c p := ⟨hsep.ab.mono hgrowA, hsep.ba.mono hgrowB⟩
  exact (hI hsep').step hg hkey hsep' hstep

/-- **A wrong pre-shared key lets nothing through.** A client and a server whose pre-shared keys differ have
both completed their handshake, however it went, and run connections with any configuration over the two
streams between them; where two session keys differ, no record of the run that was sealed under one of them
opens under the other. In every state that they reach neither side has given its application a message,
dropped one, taken up a Close or echoed a ping, every `receive_for` that returned has failed, and a side that
has read anything at all has given up. -/
theorem different_psk_delivers_nothing (P : Parties) (hdh : P.cr.Commutes) (hsha : P.HashSeparates)
    (hs : TcpDuplex.Pair) (hreach : P.Reachable hs) (client server : Session)
    (hclient : ClientReturned hs .success client) (hserver : ServerReturned hs .success server)
    (hpsk : psk P.clientOpts ≠ psk P.serverOpts) (gcm : Gcm) (hg : gcm.Lawful)
    (cfgA cfgB : FrozenConfig) (p : Wires)
    (h : Run (wireStep ⟨cfgA, cfgB, gcm, client, server⟩)
      (Crossed.init ⟨cfgA, cfgB, gcm, client, server⟩) p)
    (hsep : gcm.Separates client server p.a.hist.records)
    (hsep' : gcm.Separates server client p.b.hist.records) :
    Deaf p.a ∧ Deaf p.b ∧ (0 < p.readA → p.a.reader.live = false) ∧
      (0 < p.readB → p.b.reader.live = false) := by
  have hkey : client.key ≠ server.key := by
    rw [ne_eq, (handshaking_of_reachable hreach).key_eq_iff hdh hsha hclient hserver]
    exact hpsk
  have hA := apart_run (c := ⟨cfgA, cfgB, gcm, client, server⟩) hg hkey h ⟨hsep, hsep'⟩
  exact ⟨hA.a.unheard.deaf, hA.b.unheard.deaf, hA.a.ends, hA.b.ends⟩

/-! ### The sample parties -/

/-- AES-256-GCM on `hi` under the key that the client of the sample derives. -/
def clientGcm : Gcm where
  setkey key := key.length = 32
  cryptAndTag key nonce p :=
    if key = sampleClientKey.1 ∧ nonce = sampleNonce.toList ∧ p = [0x68, 0x69] then
      some ([0xfb, 0xdf], [0x6b, 0xde, 0x18, 0x61, 0x6b, 0xc4, 0xd0, 0x86, 0x4f, 0x27, 0xab, 0x40, 0xca,
        0x05, 0xfd, 0x51])
    else none
  authDecrypt key nonce c t :=
    if key = sampleClientKey.1 ∧ nonce = sampleNonce.toList ∧ c = [0xfb, 0xdf] ∧
        t = [0x6b, 0xde, 0x18, 0x61, 0x6b, 0xc4, 0xd0, 0x86, 0x4f, 0x27, 0xab, 0x40, 0xca, 0x05, 0xfd,
          0x51] then
      some [0x68, 0x69]
    else none

theorem clientGcm_lawful : clientGcm.Lawful := by
  constructor <;>
  · intro k n p c t h
    simp only [clientGcm, Option.ite_none_right_eq_some] at h
    obtain ⟨⟨rfl, rfl, rfl⟩, h⟩ := h
    cases h
    rfl

theorem clientGcm_separates (s s' : Session) (records : List (UInt8 × Bytes)) :
    clientGcm.Separates s s' records := by
  intro hkey r _ nonce pt hseal pt' hopen
  obtain ⟨-, -, n, c, t, -, hc, -⟩ := Session.sealPlaintext_ok hseal
  obtain ⟨n', c', t', -, hd⟩ := Session.openSealed_ok hopen
  simp only [clientGcm, Option.ite_none_right_eq_some] at hc hd
  exact hkey (hc.1.1.trans hd.1.1.symm)

/-- The client sends `hi`, and the record arrives at the server. -/
def crossedTrace : List WireAct :=
  [.a (.callSend 0 [0x68, 0x69] false), .a (.sender 0), .a (.sender 0), .a (.writer .none),
    .a (.writer (.nonce (some sampleNonce))), .a (.writer (.sent 35)), .arriveB]

theorem crossed_hi_not_delivered :
    ∃ p, Run (wireStep ⟨freezeConfig none, freezeConfig none, clientGcm, ⟨sampleClientKey.1⟩,
        ⟨sampleServerKey.1⟩⟩)
        (Crossed.init ⟨freezeConfig none, freezeConfig none, clientGcm, ⟨sampleClientKey.1⟩,
          ⟨sampleServerKey.1⟩⟩) p ∧
      p.a.hist.accepted = [[0x68, 0x69]] ∧ p.readB = 35 ∧ Deaf p.b := by
  obtain ⟨s, client, server, hs, hclient, hserver⟩ :=
    exists_both_succeed (P := sampleParties) rfl rfl rfl (by decide) rfl
  obtain ⟨p, hrun, hacc, hread⟩ : ∃ p, Run (wireStep ⟨freezeConfig none, freezeConfig none, clientGcm,
        ⟨sampleClientKey.1⟩, ⟨sampleServerKey.1⟩⟩)
        (Crossed.init ⟨freezeConfig none, freezeConfig none, clientGcm, ⟨sampleClientKey.1⟩,
          ⟨sampleServerKey.1⟩⟩) p ∧
      p.a.hist.accepted = [[0x68, 0x69]] ∧ p.readB = 35 :=
    exists_run_of_exec crossedTrace ⟨_, rfl, rfl, rfl⟩
  refine ⟨p, hrun, hacc, hread, ?_⟩
  obtain ⟨a, b, ha, hb, rfl, rfl⟩ := (handshaking_of_reachable hs).keys hclient hserver
  obtain rfl := Option.some.inj ha
  obtain rfl := Option.some.inj hb
  exact (different_psk_delivers_nothing sampleParties sampleCrypto_commutes sampleParties_separates s hs
    _ _ hclient hserver (by decide) clientGcm clientGcm_lawful (freezeConfig none) (freezeConfig none) p
    hrun (clientGcm_separates _ _ _) (clientGcm_separates _ _ _)).2.1

end Conn

end TcpDuplex
