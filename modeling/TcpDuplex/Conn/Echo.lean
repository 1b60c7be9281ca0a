import TcpDuplex.Conn.Incoming

/-!
# Pings and pongs

`read_loop` answers a ping by a pong with the same payload, through `send_q_` and `write_loop`, and it looks
at no other record before the pong is queued. So the pongs follow the pings one for one. The exception is the
ping that `read_loop` has in hand when `stop_send_` is set: it is not answered, and it is the last one.

The pings of a run are read off its actions, the pongs off the history of `send_q_`.
-/

namespace TcpDuplex.Conn

open Protocol

variable {e : Env} {s t : State} {ps : List Bytes}

/-- The payload of a pong. -/
def Outbound.pong? (out : Outbound) : Option Bytes :=
  if out.typ = kMsgPong then some out.pt else none

/-- The payloads of the pongs in a sequence of messages. -/
def pongs (l : List Outbound) : List Bytes := l.filterMap Outbound.pong?

/-- The ping that `read_loop` has not answered yet. -/
def ReaderPc.pingInHand : ReaderPc → List Bytes
  | .ping pt => [pt]
  | .pingPark pt => [pt]
  | .pingParked pt => [pt]
  | _ => []

/-- The payload of the ping that arrives with an action. -/
def Act.ping? (e : Env) : Act → Option Bytes
  | .reader (.record msgType sealed) =>
    if msgType = kMsgPing then (e.sess.openSealed e.gcm sealed).toOption else none
  | _ => none

/-- The payloads of the pings that arrive in a run. -/
def pings (e : Env) (as : List Act) : List Bytes := as.filterMap (Act.ping? e)

theorem pongs_append (l l' : List Outbound) : pongs (l ++ l') = pongs l ++ pongs l' :=
  List.filterMap_append

theorem pongs_of_ne {out : Outbound} (h : out.typ ≠ kMsgPong) : pongs [out] = [] := by
  simp [pongs, Outbound.pong?, h]

theorem isPrefix_pongs {l l' : List Outbound} (h : l <+: l') : pongs l <+: pongs l' := by
  obtain ⟨r, rfl⟩ := h
  rw [pongs_append]
  exact List.prefix_append _ _

@[simp]
theorem ReaderPc.pingInHand_wakeSend (pc : ReaderPc) : pc.wakeSend.pingInHand = pc.pingInHand := by
  cases pc <;> rfl

/-- The pongs so far, those in `send_q_` included. -/
def State.pongs (s : State) : List Bytes := Conn.pongs (s.hist.taken ++ s.sendQ)

/-- The pongs so far, against the pings so far. -/
structure Echoes (s : State) (ps : List Bytes) : Prop where
  live : s.reader.live = true → s.pongs ++ s.reader.pingInHand = ps
  lost : ∃ lost, s.pongs ++ lost = ps ∧ lost.length ≤ 1

namespace Echoes

/-- Neither the pongs nor the reader change, or the reader is woken. -/
theorem frame (hE : Echoes s ps) (hpongs : t.pongs = s.pongs)
    (hreader : t.reader = s.reader ∨ t.reader = s.reader.wakeSend) : Echoes t ps := by
  have hsame : t.reader.live = s.reader.live ∧ t.reader.pingInHand = s.reader.pingInHand := by
    rcases hreader with h | h <;> rw [h]
    · exact ⟨rfl, rfl⟩
    · simp
  refine ⟨fun hlive => ?_, ?_⟩
  · rw [hpongs, hsame.2]
    exact hE.live (hsame.1 ▸ hlive)
  · rw [hpongs]
    exact hE.lost

/-- `read_loop` goes on with the same ping in hand, or none as before. -/
theorem setReader (hE : Echoes s ps) (hlive : s.reader.live = true)
    (hpongs : t.pongs = s.pongs) (hhand : t.reader.pingInHand = s.reader.pingInHand) : Echoes t ps := by
  refine ⟨fun _ => ?_, ?_⟩
  · rw [hpongs, hhand]
    exact hE.live hlive
  · rw [hpongs]
    exact hE.lost

/-- `read_loop` has given up. -/
theorem giveUp (hE : Echoes s ps) (hpongs : t.pongs = s.pongs) (hdead : t.reader.live = false) :
    Echoes t ps := by
  refine ⟨fun hlive => ?_, ?_⟩
  · rw [hdead] at hlive
    cases hlive
  · rw [hpongs]
    exact hE.lost

/-- At the end of a record nothing is in hand. -/
theorem all (hE : Echoes s ps) (hpc : s.reader = .recv) : s.pongs = ps := by
  have hlive := hE.live (by rw [hpc]; rfl)
  rw [hpc] at hlive
  simpa [ReaderPc.pingInHand] using hlive

/-- No ping arrives. -/
theorem none {a : Act} (ha : Act.ping? e a = .none) (hE : Echoes t ps) :
    Echoes t (ps ++ (Act.ping? e a).toList) := by
  rwa [ha, Option.toList_none, List.append_nil]

theorem reader {io : ReadIo} (hE : Echoes s ps) (h : ReaderTrans e s io t) :
    Echoes t (ps ++ (Act.ping? e (.reader io)).toList) := by
  have live : ∀ {pc : ReaderPc}, s.reader = pc → pc.live = true → s.reader.live = true := by
    intro pc hpc hlive
    rwa [hpc]
  cases h with
  | recvFail _ _ => exact .none rfl (hE.giveUp rfl rfl)
  | openFail _ hopen => exact .none (by simp [Act.ping?, hopen, Except.toOption]) (hE.giveUp rfl rfl)
  | gotText hpc _ _ _ => exact .none rfl (hE.setReader (live hpc rfl) rfl (by rw [hpc]; rfl))
  | gotJob hpc _ _ _ => exact .none rfl (hE.setReader (live hpc rfl) rfl (by rw [hpc]; rfl))
  | gotLarge _ _ _ => exact .none rfl (hE.giveUp rfl rfl)
  | @gotPing sealed pt hpc hopen =>
      have hping : Act.ping? e (.reader (.record kMsgPing sealed)) = some pt := by
        simp [Act.ping?, hopen, Except.toOption]
      have hall := hE.all hpc
      rw [hping, Option.toList_some, ← hall]
      exact ⟨fun _ => rfl, [pt], rfl, le_rfl⟩
  | gotPong hpc _ => exact .none rfl (hE.setReader (live hpc rfl) rfl (by rw [hpc]))
  | gotClose _ _ => exact .none rfl (hE.giveUp rfl rfl)
  | gotBad _ _ _ hping _ _ => exact .none (by simp [Act.ping?, hping]) (hE.giveUp rfl rfl)
  | textGo hpc _ _ => exact .none rfl (hE.setReader (live hpc rfl) rfl (by rw [hpc]; rfl))
  | textFull hpc _ _ _ _ => exact .none rfl (hE.setReader (live hpc rfl) rfl (by rw [hpc]; rfl))
  | textPark hpc => exact .none rfl (hE.setReader (live hpc rfl) rfl (by rw [hpc]; rfl))
  | textGiveUp _ _ _ _ => exact .none rfl (hE.giveUp rfl rfl)
  | textSkip hpc _ _ => exact .none rfl (hE.setReader (live hpc rfl) rfl (by rw [hpc]; rfl))
  | textPush hpc _ _ _ => exact .none rfl (hE.setReader (live hpc rfl) rfl (by rw [hpc]; rfl))
  | jobPush hpc _ _ => exact .none rfl (hE.setReader (live hpc rfl) rfl (by rw [hpc]; rfl))
  | jobSlow _ _ _ _ => exact .none rfl (hE.giveUp rfl rfl)
  | jobDrop hpc _ _ _ => exact .none rfl (hE.setReader (live hpc rfl) rfl (by rw [hpc]; rfl))
  | pingGiveUp _ _ _ => exact .none rfl (hE.giveUp rfl rfl)
  | @pingPush pt hpc _ _ _ =>
      have hlive := hE.live (live hpc rfl)
      rw [hpc] at hlive
      -- the ping in hand becomes the last pong
      have hpushed : (pushSend { s with reader := .recv } ⟨kMsgPong, pt⟩).pongs = s.pongs ++ [pt] := by
        show pongs (s.hist.taken ++ (s.sendQ ++ [⟨kMsgPong, pt⟩])) = _
        rw [← List.append_assoc, pongs_append]
        rfl
      refine .none rfl ⟨fun _ => ?_, [], ?_, Nat.zero_le 1⟩
      · rw [hpushed, ← hlive]
        exact List.append_nil _
      · rw [hpushed, ← hlive]
        exact List.append_nil _
  | pingFull hpc _ _ _ => exact .none rfl (hE.setReader (live hpc rfl) rfl (by rw [hpc]; rfl))
  | pingPark hpc => exact .none rfl (hE.setReader (live hpc rfl) rfl (by rw [hpc]; rfl))
  | abortAgain _ _ _ => exact .none rfl (hE.giveUp rfl rfl)
  | abortFirst _ _ _ => exact .none rfl (hE.giveUp rfl rfl)
  | storeDone _ => exact .none rfl (hE.giveUp rfl rfl)
  | notifyDone _ => exact .none rfl (hE.giveUp rfl rfl)
  | @leave held _ => cases held <;> exact .none rfl (hE.giveUp rfl rfl)

theorem step {a : Act} (hE : Echoes s ps) (h : step e s a = some t) :
    Echoes t (ps ++ (Act.ping? e a).toList) := by
  cases step_inv h with
  | reader h => exact hE.reader h
  | sender h =>
      cases h with
      | @push p _ _ _ _ _ _ =>
          refine .none rfl (hE.frame ?_ (.inr rfl))
          show pongs (s.hist.taken ++ (s.sendQ ++ [⟨kMsgText, p⟩])) = _
          rw [← List.append_assoc, pongs_append, pongs_of_ne (show kMsgText ≠ kMsgPong by decide)]
          exact List.append_nil _
      | _ => exact .none rfl (hE.frame rfl (.inl rfl))
  | writer h =>
      -- a message goes from `send_q_` to those that were taken
      have hmove : ∀ {out : Outbound} {rest : List Outbound}, s.sendQ = out :: rest →
          pongs (s.hist.taken ++ [out] ++ rest) = s.pongs := by
        intro out rest hq
        rw [State.pongs, hq, List.append_assoc]
        rfl
      cases h with
      | pop _ _ hq => exact .none rfl (hE.frame (hmove hq) (.inr rfl))
      | drainPop _ _ hq => exact .none rfl (hE.frame (hmove hq) (.inl rfl))
      | _ => exact .none rfl (hE.frame rfl (.inl rfl))
  | shutdown h =>
      cases h with
      | notifySend _ => exact .none rfl (hE.frame rfl (.inr rfl))
      | _ => exact .none rfl (hE.frame rfl (.inl rfl))
  | receiver h => cases h <;> exact .none rfl (hE.frame rfl (.inl rfl))
  | deliver h => cases h <;> exact .none rfl (hE.frame rfl (.inl rfl))
  | _ => exact .none rfl (hE.frame rfl (.inl rfl))

/-- A run, from any state on. -/
theorem exec {as : List Act} (hE : Echoes s ps) (h : Machine.exec (Conn.step e) s as = some t) :
    Echoes t (ps ++ pings e as) := by
  induction as generalizing s ps with
  | nil =>
      obtain rfl : s = t := by simpa [Machine.exec] using h
      simpa [pings] using hE
  | cons a as ih =>
      obtain ⟨u, hu, hrest⟩ := Option.bind_eq_some_iff.mp h
      have hE' := ih (hE.step hu) hrest
      rw [List.append_assoc] at hE'
      convert hE' using 2
      rw [pings, pings, List.filterMap_cons]
      cases Act.ping? e a <;> rfl

end Echoes

theorem echoes_init (cfg : FrozenConfig) : Echoes (init cfg) [] := ⟨fun _ => rfl, [], rfl, Nat.zero_le 1⟩

/-- In every run the pongs that were queued, and those that were written, are the payloads of the pings that
arrived, in their order and without repetition. None is missing while `read_loop` waits for a record; when it
has given up, one ping at most was not answered, the last one. -/
theorem pings_echoed (hg : e.gcm.Lawful) {as : List Act}
    (h : Machine.exec (step e) (init e.cfg) as = some s) :
    (s.reader = .recv → s.pongs = pings e as) ∧
      (∃ lost, s.pongs ++ lost = pings e as ∧ lost.length ≤ 1) ∧
      pongs (emitted e s) <+: pings e as := by
  have hE : Echoes s (pings e as) := (echoes_init e.cfg).exec h
  obtain ⟨lost, hlost, hle⟩ := hE.lost
  refine ⟨hE.all, ⟨lost, hlost, hle⟩, ?_⟩
  have hO := outgoing_reachable hg (Machine.run_of_exec h)
  have htaken : pongs s.hist.taken <+: pings e as := by
    rw [← hlost]
    exact (isPrefix_pongs (List.prefix_append _ _)).trans (List.prefix_append _ _)
  rcases hO.written.prefix_or_closing with hpre | hclosing
  · exact (isPrefix_pongs hpre).trans htaken
  · rw [hclosing.last, pongs_append, pongs_of_ne (by decide), List.append_nil]
    exact htaken

/-- A ping is answered; a second one is in hand when `shutdown` stops the queue. -/
def pingTrace : List Act :=
  [.reader (.record kMsgPing sampleSealed), .reader .none, .writer .none,
    .writer (.nonce (some sampleNonce)), .reader (.record kMsgPing sampleSealed), .callShutdown false,
    .shutdown, .shutdown, .reader .none]

def pingEnv : Env := ⟨freezeConfig none, sampleGcm, ⟨List.replicate 32 0⟩⟩

theorem pingTrace_echoed : ∃ s, Machine.exec (step pingEnv) (init pingEnv.cfg) pingTrace = some s ∧
    pings pingEnv pingTrace = [[0x68, 0x69], [0x68, 0x69]] ∧ s.pongs = [[0x68, 0x69]] ∧
      pongs (emitted pingEnv s) <+: pings pingEnv pingTrace := by
  obtain ⟨s, hs, hpongs⟩ : ∃ s, Machine.exec (step pingEnv) (init pingEnv.cfg) pingTrace = some s ∧
      s.pongs = [[0x68, 0x69]] := ⟨_, rfl, rfl⟩
  exact ⟨s, hs, rfl, hpongs, (pings_echoed sampleGcm_lawful hs).2.2⟩

end TcpDuplex.Conn
