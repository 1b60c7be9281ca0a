import TcpDuplex.Conn.Users
import TcpDuplex.Transfer.HonestPeers

/-!
# A transfer over two connections

`send_once` and `receive_once` as the programs at the two ends of a link: every `send` and `receive` of
theirs is a call of the connection, with its mutexes, its queues, its two threads and the records on the
wire. The source and the sink do what they are asked, and everything else may fail at any time.

Over queues the two attempts are the peers of `Peers`, up to the call that fails (`KeepsUp`). So what holds
of honest peers holds here of an attempt that has not lost its connection. All sums are in `std::int64_t`.
-/

namespace TcpDuplex.Transfer

open Machine Mail

/-- `send_once` on a source that does not fail. -/
def sendUser (es : SendEnv) : User Bytes ErrorCode SendState Unit where
  outgoing s := s.pc.outgoing es
  waiting s := s.pc.waiting
  sent s r := (sendStep64 es s (.sent (r.getD .success))).getD s
  received s r := (sendStep64 es s (.received r)).getD s
  own s _ := sendStep64 es s (.read .success)

/-- `receive_once` on a sink that does not fail. -/
def recvUser (er : RecvEnv) : User Bytes ErrorCode RecvState Unit where
  outgoing s := s.pc.outgoing er
  waiting s := (s.pc.waiting er).isSome
  sent s r := (recvStep64 er s (.sent (r.getD .success))).getD s
  received s r := (recvStep64 er s (.received r)).getD s
  own s _ :=
    match s.pc with
    | .write _ _ _ _ _ _ => recvStep64 er s (.wrote .success s.store)
    | _ => recvStep64 er s (.read .success)

variable {es : SendEnv} {er : RecvEnv} {store : Store}

/-! ## The results of the calls -/

section Calls

variable {s : SendState} {r : RecvState} {msg : Bytes} {ec : ErrorCode}

theorem sendStep_sendUser_sent (hout : s.pc.outgoing es = some msg) :
    sendStep64 es s (.sent .success) = some ((sendUser es).sent s none) := by
  obtain ⟨t, ht⟩ : ∃ t, sendStep64 es s (.sent .success) = some t := by
    simp only [sendStep64]
    split
    · exact ⟨_, rfl⟩
    · exact ⟨_, by rw [sendStep_sent hout]⟩
  simp only [sendUser, Option.getD_none, ht, Option.getD_some]

theorem sendStep_sendUser_received (hwait : s.pc.waiting = true) :
    sendStep64 es s (.received (.ok msg)) = some ((sendUser es).received s (.ok msg)) := by
  simp only [sendUser, sendStep64, sendStep, hwait]
  rfl

theorem sendUser_sendFails (hout : s.pc.outgoing es = some msg) (hec : ec.failed = true) :
    ((sendUser es).sent s (some ec)).pc = .ret (mapConnErr ec) := by
  simp only [sendUser, sendStep64, sendStep, hout, Option.getD_some, hec, if_true]
  split <;> rfl

theorem sendUser_receiveFails (hwait : s.pc.waiting = true) (hec : ec.failed = true) :
    ((sendUser es).received s (.error ec)).pc = .ret (mapConnErr ec) := by
  simp only [sendUser, sendStep64, sendStep, hwait, hec]
  rfl

theorem recvStep_recvUser_sent (hout : r.pc.outgoing er = some msg) :
    recvStep64 er r (.sent .success) = some ((recvUser er).sent r none) := by
  simp only [recvUser, recvStep64, recvStep, hout]
  rfl

theorem recvStep_recvUser_received (hwait : (r.pc.waiting er).isSome = true) :
    recvStep64 er r (.received (.ok msg)) = some ((recvUser er).received r (.ok msg)) := by
  obtain ⟨t, ht⟩ : ∃ t, recvStep64 er r (.received (.ok msg)) = some t := by
    simp only [recvStep64]
    split
    · exact ⟨_, rfl⟩
    · exact ⟨_, by rw [recvStep_received hwait]⟩
  simp only [recvUser, ht, Option.getD_some]

theorem recvUser_receiveFails (hwait : (r.pc.waiting er).isSome = true) (hec : ec.failed = true) :
    ∃ m written, ((recvUser er).received r (.error ec)).pc = .ret (mapConnErr ec) m written := by
  obtain ⟨⟨m, written⟩, hx⟩ := Option.isSome_iff_exists.mp hwait
  refine ⟨m, written, ?_⟩
  simp only [recvUser, recvStep64, recvStep, hx, hec]
  rfl

/-- An attempt in step with its peer has nothing to refuse, so a `send` that fails ends it with that
error. -/
theorem recvUser_sendFails {sp : SendPc} {toRecv toSend : List Bytes}
    (hphase : Phase es er sp r.pc toRecv toSend) (hout : r.pc.outgoing er = some msg)
    (hec : ec.failed = true) :
    ∃ m written, ((recvUser er).sent r (some ec)).pc = .ret (mapConnErr ec) m written := by
  have hpc : ((recvUser er).sent r (some ec)).pc = r.pc.onSendFailed er ec := by
    simp only [recvUser, recvStep64, recvStep, hout, Option.getD_some, hec]
    rfl
  rw [hpc]
  generalize r.pc = rp at hphase hout
  cases hphase with
  | offering _ _ => cases hout
  | offered _ _ => cases hout
  | accepting => exact ⟨_, _, rfl⟩
  | accepted rp hr => cases rp <;> first | exact False.elim hr | cases hout
  | flowing _ rp _ _ _ _ _ _ _ hr =>
    cases rp with
    | ack m hw written => exact ⟨_, _, rfl⟩
    | _ => first | exact False.elim hr | cases hout
  | closing rp hr =>
    rw [hr.not_sending] at hout
    cases hout
  | closed rp hr =>
    rw [hr.not_sending] at hout
    cases hout
  | replying _ _ _ => exact ⟨_, _, rfl⟩
  | replied _ _ => cases hout
  | finished _ => cases hout

/-- The sender returns success only behind the receiver. -/
theorem Phase.finished_recv {rp : RecvPc} {toRecv toSend : List Bytes} {err : ErrorCode}
    (h : Phase es er (.ret err) rp toRecv toSend) : ∃ written, rp = .ret .success es.info written := by
  cases h with
  | flowing _ _ _ _ _ _ _ _ hs => cases hs
  | finished written => exact ⟨written, rfl⟩

end Calls

/-! ## Over queues -/

/-- The attempts over queues follow honest peers: each is where its peer is, or has returned because a
call of its connection failed. -/
structure KeepsUp (es : SendEnv) (er : RecvEnv) (store : Store)
    (m : Posts Bytes ErrorCode SendState RecvState) (p : Peers) : Prop where
  run : HonestRun es er (Peers.start es store) p
  toRecv : m.right.inbox = p.toRecv
  toSend : m.left.inbox = p.toSend
  send : m.left.user = p.send ∨ ∃ ec ∈ m.left.errors, m.left.user.pc = .ret (mapConnErr ec)
  recv : m.right.user = p.recv ∨
    (∃ ec ∈ m.right.errors, ∃ info written, m.right.user.pc = .ret (mapConnErr ec) info written) ∧
      ∀ err info written, p.recv.pc ≠ .ret err info written

namespace KeepsUp

variable {m : Posts Bytes ErrorCode SendState RecvState} {p : Peers}

theorem send_of_outgoing {msg : Bytes} (h : KeepsUp es er store m p)
    (hout : m.left.user.pc.outgoing es = some msg) : m.left.user = p.send := by
  rcases h.send with heq | ⟨ec, -, hret⟩
  · exact heq
  · rw [hret] at hout
    cases hout

theorem send_of_waiting (h : KeepsUp es er store m p) (hwait : m.left.user.pc.waiting = true) :
    m.left.user = p.send := by
  rcases h.send with heq | ⟨ec, -, hret⟩
  · exact heq
  · rw [hret] at hwait
    cases hwait

theorem recv_of_outgoing {msg : Bytes} (h : KeepsUp es er store m p)
    (hout : m.right.user.pc.outgoing er = some msg) : m.right.user = p.recv := by
  rcases h.recv with heq | ⟨⟨ec, -, info, written, hret⟩, -⟩
  · exact heq
  · rw [hret] at hout
    cases hout

theorem recv_of_waiting (h : KeepsUp es er store m p)
    (hwait : (m.right.user.pc.waiting er).isSome = true) : m.right.user = p.recv := by
  rcases h.recv with heq | ⟨⟨ec, -, info, written, hret⟩, -⟩
  · exact heq
  · rw [hret] at hwait
    cases hwait

/-- A move of the sender. -/
theorem left {post : Post Bytes ErrorCode SendState} {msgs : List Bytes} (h : KeepsUp es er store m p)
    (hmove : PostTrans (sendUser es) m.left post msgs) (hfail : ∀ ec ∈ post.errors, ec.failed = true) :
    ∃ q, KeepsUp es er store ⟨post, m.right.deliver msgs⟩ q := by
  cases hmove with
  | @own _ u hown =>
    have heq : m.left.user = p.send := by
      rcases h.send with heq | ⟨ec, -, hret⟩
      · exact heq
      · simp only [sendUser, sendStep64, hret] at hown
        cases hown
    have hstep : peerStep64 es er p (.senderReads .success) = some { p with send := u } := by
      rw [heq] at hown
      simp only [peerStep64, peerStepWith]
      exact Option.bind_eq_some_iff.mpr ⟨u, hown, rfl⟩
    exact ⟨_, h.run.snoc rfl hstep, by rw [deliver_nil, h.toRecv], h.toSend, .inl rfl, h.recv⟩
  | @send msg hout =>
    have heq := h.send_of_outgoing hout
    rw [heq] at hout
    have hstep : peerStep64 es er p .senderSends =
        some { p with send := (sendUser es).sent p.send none, toRecv := p.toRecv ++ [msg] } := by
      simp only [peerStep64, peerStepWith]
      exact Option.bind_eq_some_iff.mpr
        ⟨msg, hout, Option.bind_eq_some_iff.mpr ⟨_, sendStep_sendUser_sent hout, rfl⟩⟩
    exact ⟨_, h.run.snoc rfl hstep, by rw [Post.deliver, h.toRecv], h.toSend, .inl (by rw [heq]), h.recv⟩
  | sendFails ec hout =>
    have hec : ec.failed = true := hfail ec (List.mem_append_right _ (List.mem_singleton_self ec))
    refine ⟨p, h.run, by rw [deliver_nil, h.toRecv], h.toSend, .inr ⟨ec, ?_, ?_⟩, h.recv⟩
    · exact List.mem_append_right _ (List.mem_singleton_self ec)
    · exact sendUser_sendFails hout hec
  | @receive msg rest hin hwait =>
    have heq := h.send_of_waiting hwait
    rw [heq] at hwait
    have hqueue : p.toSend = msg :: rest := h.toSend.symm.trans hin
    have hstep : peerStep64 es er p .senderReceives =
        some { p with send := (sendUser es).received p.send (.ok msg), toSend := rest } := by
      simp only [peerStep64, peerStepWith, hqueue]
      exact Option.bind_eq_some_iff.mpr ⟨_, sendStep_sendUser_received hwait, rfl⟩
    exact ⟨_, h.run.snoc rfl hstep, by rw [deliver_nil, h.toRecv], rfl, .inl (by rw [heq]), h.recv⟩
  | receiveFails ec hwait =>
    have hec : ec.failed = true := hfail ec (List.mem_append_right _ (List.mem_singleton_self ec))
    refine ⟨p, h.run, by rw [deliver_nil, h.toRecv], h.toSend, .inr ⟨ec, ?_, ?_⟩, h.recv⟩
    · exact List.mem_append_right _ (List.mem_singleton_self ec)
    · exact sendUser_receiveFails hwait hec

/-- A move of the receiver. -/
theorem right {post : Post Bytes ErrorCode RecvState} {msgs : List Bytes}
    (hpair : HonestPair es er store) (hfit : es.info.size + es.chunkSize.toInt ≤ 2 ^ 63)
    (h : KeepsUp es er store m p) (hmove : PostTrans (recvUser er) m.right post msgs)
    (hfail : ∀ ec ∈ post.errors, ec.failed = true) :
    ∃ q, KeepsUp es er store ⟨m.left.deliver msgs, post⟩ q := by
  have hphase : Phase es er p.send.pc p.recv.pc p.toRecv p.toSend :=
    (inStep_of_honestRun hpair (addsInRange_of_fit hpair hfit) h.run).phase
  cases hmove with
  | @own _ u hown =>
    have heq : m.right.user = p.recv := by
      rcases h.recv with heq | ⟨⟨ec, -, info, written, hret⟩, -⟩
      · exact heq
      · simp only [recvUser, recvStep64, recvStep, hret] at hown
        cases hown
    rw [heq] at hown
    obtain ⟨ev, hclean, hstep⟩ :
        ∃ ev : PeerEv, ev.faultless64 es p = true ∧ peerStep64 es er p ev = some { p with recv := u } := by
      simp only [recvUser] at hown
      split at hown
      · exact ⟨.receiverWrites .success p.recv.store, rfl, Option.bind_eq_some_iff.mpr ⟨u, hown, rfl⟩⟩
      · exact ⟨.receiverReads .success, rfl, Option.bind_eq_some_iff.mpr ⟨u, hown, rfl⟩⟩
    exact ⟨_, h.run.snoc hclean hstep, h.toRecv, by rw [deliver_nil, h.toSend], h.send, .inl rfl⟩
  | @send msg hout =>
    have heq := h.recv_of_outgoing hout
    rw [heq] at hout
    have hstep : peerStep64 es er p .receiverSends =
        some { p with recv := (recvUser er).sent p.recv none, toSend := p.toSend ++ [msg] } := by
      simp only [peerStep64, peerStepWith]
      exact Option.bind_eq_some_iff.mpr
        ⟨msg, hout, Option.bind_eq_some_iff.mpr ⟨_, recvStep_recvUser_sent hout, rfl⟩⟩
    exact ⟨_, h.run.snoc rfl hstep, h.toRecv, by rw [Post.deliver, h.toSend], h.send, .inl (by rw [heq])⟩
  | sendFails ec hout =>
    have hec : ec.failed = true := hfail ec (List.mem_append_right _ (List.mem_singleton_self ec))
    have heq := h.recv_of_outgoing hout
    rw [heq] at hout
    obtain ⟨info, written, hret⟩ := recvUser_sendFails hphase hout hec
    refine ⟨p, h.run, h.toRecv, by rw [deliver_nil, h.toSend], h.send,
      .inr ⟨⟨ec, ?_, info, written, ?_⟩, ?_⟩⟩
    · exact List.mem_append_right _ (List.mem_singleton_self ec)
    · rw [heq]
      exact hret
    · intro err info written hpc
      have hsome : p.recv.pc.outgoing er = some _ := hout
      rw [hpc] at hsome
      cases hsome
  | @receive msg rest hin hwait =>
    have heq := h.recv_of_waiting hwait
    rw [heq] at hwait
    have hqueue : p.toRecv = msg :: rest := h.toRecv.symm.trans hin
    have hstep : peerStep64 es er p .receiverReceives =
        some { p with recv := (recvUser er).received p.recv (.ok msg), toRecv := rest } := by
      simp only [peerStep64, peerStepWith, hqueue]
      exact Option.bind_eq_some_iff.mpr ⟨_, recvStep_recvUser_received hwait, rfl⟩
    exact ⟨_, h.run.snoc rfl hstep, rfl, by rw [deliver_nil, h.toSend], h.send, .inl (by rw [heq])⟩
  | receiveFails ec hwait =>
    have hec : ec.failed = true := hfail ec (List.mem_append_right _ (List.mem_singleton_self ec))
    have heq := h.recv_of_waiting hwait
    obtain ⟨info, written, hret⟩ := recvUser_receiveFails hwait hec
    refine ⟨p, h.run, h.toRecv, by rw [deliver_nil, h.toSend], h.send,
      .inr ⟨⟨ec, ?_, info, written, ?_⟩, ?_⟩⟩
    · exact List.mem_append_right _ (List.mem_singleton_self ec)
    · exact hret
    · intro err info written hpc
      rw [heq] at hwait
      have hsome : (p.recv.pc.waiting er).isSome = true := hwait
      rw [hpc] at hsome
      cases hsome

end KeepsUp

/-- Over queues honest attempts keep up with honest peers. -/
theorem keepsUp_of_run {m : Posts Bytes ErrorCode SendState RecvState} (hpair : HonestPair es er store)
    (hfit : es.info.size + es.chunkSize.toInt ≤ 2 ^ 63)
    (h : Run (Mail.step (sendUser es) (recvUser er))
      (Mail.start (SendState.start es) (RecvState.start store)) m)
    (hleft : ∀ ec ∈ m.left.errors, ec.failed = true) (hright : ∀ ec ∈ m.right.errors, ec.failed = true) :
    ∃ p, KeepsUp es er store m p := by
  have hkeeps : (∀ ec ∈ m.left.errors, ec.failed = true) → (∀ ec ∈ m.right.errors, ec.failed = true) →
      ∃ p, KeepsUp es er store m p := by
    refine Run.invariant (I := fun m => (∀ ec ∈ m.left.errors, ec.failed = true) →
      (∀ ec ∈ m.right.errors, ec.failed = true) → ∃ p, KeepsUp es er store m p) ?_ h fun _ _ =>
        ⟨Peers.start es store, GRun.refl _, rfl, rfl, .inl rfl, .inl rfl⟩
    intro m a m' ih hstep hleft hright
    rcases step_cases hstep with ⟨post, msgs, hmove, rfl⟩ | ⟨post, msgs, hmove, rfl⟩
    · obtain ⟨p, hp⟩ := ih (fun ec hec => hleft ec (hmove.errors_subset hec)) hright
      exact hp.left hmove hleft
    · obtain ⟨p, hp⟩ := ih hleft fun ec hec => hright ec (hmove.errors_subset hec)
      exact hp.right hpair hfit hmove hright
  exact hkeeps hleft hright

/-! ## Over connections -/

/-- An attempt that has returned makes no call. -/
theorem settled_of_send_ret {x : Conn.Side SendState} {err : ErrorCode} (h : x.user.pc = .ret err) :
    x.settled (sendUser es) = x.user := by
  unfold Conn.Side.settled
  split
  · rfl
  · split
    · simp only [sendUser, sendStep64, sendStep, h]
      rfl
    · rfl
  · split
    · rename_i r _
      cases r <;> simp only [sendUser, sendStep64, sendStep, h] <;> rfl
    · rfl

theorem settled_of_recv_ret {x : Conn.Side RecvState} {err : ErrorCode} {info : Meta} {written : ℤ}
    (h : x.user.pc = .ret err info written) : x.settled (recvUser er) = x.user := by
  unfold Conn.Side.settled
  split
  · rfl
  · split
    · simp only [recvUser, recvStep64, recvStep, h]
      rfl
    · rfl
  · split
    · rename_i r _
      cases r <;> simp only [recvUser, recvStep64, recvStep, h] <;> rfl
    · rfl

/-- **An honest transfer over two connections.** Whatever the sockets, the two threads of each connection
and calls of `shutdown` do, and whichever call fails when: an attempt returns success or an error that a
call of its own connection returned, and nothing that the other attempt is to blame for. When the sender
has returned success, the receiver has got to its success too; and then the sink holds the whole source. -/
theorem transfer_over_connections (l : Conn.Link) (hg : l.gcm.Lawful) (hcbA : l.cfgA.onMessage = false)
    (hcbB : l.cfgB.onMessage = false) (es : SendEnv) (er : RecvEnv) (store : Store)
    (hpair : HonestPair es er store) (hfit : es.info.size + es.chunkSize.toInt ≤ 2 ^ 63)
    (s : Conn.Sides SendState RecvState)
    (h : Run (Conn.sidesStep l (sendUser es) (recvUser er))
      (l.start (SendState.start es) (RecvState.start store)) s) :
    (∀ err, s.left.user.pc = .ret err →
        err = .success ∨ ∃ ec, Conn.Returned s.left.conn ec ∧ err = mapConnErr ec) ∧
      (∀ err info written, s.right.user.pc = .ret err info written →
        err = .success ∨ ∃ ec, Conn.Returned s.right.conn ec ∧ err = mapConnErr ec) ∧
      (s.left.user.pc = .ret .success →
        ∃ written, (s.right.settled (recvUser er)).pc = .ret .success es.info written) ∧
      ∀ info written, (s.right.settled (recvUser er)).pc = .ret .success info written →
        info = es.info ∧ (s.right.settled (recvUser er)).store.read 0 es.info.size.toNat =
          es.source.read 0 es.info.size.toNat := by
  obtain ⟨m, hrun, hS⟩ := Conn.stands_of_run hg hcbA hcbB h
  obtain ⟨p, hp⟩ := keepsUp_of_run hpair hfit hrun (fun ec hec => (hS.left.errors ec hec).1)
    fun ec hec => (hS.right.errors ec hec).1
  obtain ⟨hcopies, hphase⟩ := inStep_of_honestRun hpair (addsInRange_of_fit hpair hfit) hp.run
  have hnot : ∀ ec, ec.failed = true → mapConnErr ec ≠ .success := by
    intro ec hec heq
    have hfailed := failed_mapConnErr hec
    rw [heq] at hfailed
    cases hfailed
  refine ⟨fun err hret => ?_, fun err info written hret => ?_, fun hret => ?_, fun info written hret => ?_⟩
  · have hpc : m.left.user.pc = .ret err := by rw [hS.left.settled, settled_of_send_ret hret, hret]
    rcases hp.send with heq | ⟨ec, hec, hlost⟩
    · rw [heq] at hpc
      rw [hpc] at hphase
      exact .inl hphase.send_ret
    · exact .inr ⟨ec, hS.left.errors ec hec, SendPc.ret.inj (hpc.symm.trans hlost)⟩
  · have hpc : m.right.user.pc = .ret err info written := by
      rw [hS.right.settled, settled_of_recv_ret hret, hret]
    rcases hp.recv with heq | ⟨⟨ec, hec, info', written', hlost⟩, -⟩
    · rw [heq] at hpc
      rw [hpc] at hphase
      exact .inl hphase.recv_ret.1
    · exact .inr ⟨ec, hS.right.errors ec hec, (RecvPc.ret.inj (hpc.symm.trans hlost)).1⟩
  · have hpc : m.left.user.pc = .ret .success := by
      rw [hS.left.settled, settled_of_send_ret hret, hret]
    have heq : m.left.user = p.send := by
      rcases hp.send with heq | ⟨ec, hec, hlost⟩
      · exact heq
      · exact absurd (SendPc.ret.inj (hlost.symm.trans hpc)) (hnot ec (hS.left.errors ec hec).1)
    rw [heq] at hpc
    rw [hpc] at hphase
    obtain ⟨written, hrecv⟩ := hphase.finished_recv
    rcases hp.recv with heq' | ⟨-, hrunning⟩
    · exact ⟨written, by rw [← hS.right.settled, heq', hrecv]⟩
    · exact absurd hrecv (hrunning _ _ _)
  · rw [← hS.right.settled] at hret ⊢
    rcases hp.recv with heq | ⟨⟨ec, hec, info', written', hlost⟩, -⟩
    · rw [heq] at hret ⊢
      have hsound := hcopies.sound
      have hagree := hcopies.mirrors.agree
      rw [RecvState.Sound, hret] at hsound
      rw [hret] at hphase hagree
      obtain ⟨-, rfl⟩ := hphase.recv_ret
      obtain ⟨rfl, -⟩ := hsound rfl
      exact ⟨rfl, hagree.read_eq⟩
    · exact absurd (RecvPc.ret.inj (hlost.symm.trans hret)).1 (hnot ec (hS.right.errors ec hec).1)

set_option maxRecDepth 1000

/-- The six messages of the transfer, each sealed under its own nonce. -/
def abcSealings : List Sealing :=
  [⟨nonceEndingIn 1, frame kTypeOffer sampleMeta.id (putBe64 3 ++ sampleDigest.1 ++ putBe16 0),
      [0x7d, 0x87, 0x7c, 0x13, 0xf5, 0x71, 0x60, 0xdb, 0xae, 0x07, 0x5a, 0xa6, 0x96, 0xf8, 0xf3, 0x92,
       0x96, 0x44, 0xef, 0xb2, 0x86, 0x33, 0x60, 0x91, 0x06, 0x72, 0xcd, 0x6e, 0x91, 0x23, 0xec, 0x9c,
       0x17, 0x84, 0xbb, 0xd3, 0xc1, 0x51, 0xea, 0x42, 0xcc, 0x86, 0xc7, 0xfc, 0xf5, 0x6d, 0x6c, 0x5a,
       0x6d, 0x49, 0xc1, 0x5a, 0x40, 0x9c, 0x47, 0xd2, 0xf3, 0x63, 0x83, 0x6e, 0x85, 0x0f, 0xaa],
      [0xa0, 0x4f, 0x3a, 0x71, 0x27, 0x1e, 0x01, 0x28, 0x40, 0x24, 0x32, 0x6f, 0xa0, 0x4d, 0x68, 0x69],
      rfl, rfl⟩,
    ⟨nonceEndingIn 2, encodeAccept sampleMeta.id 0,
      [0xea, 0x6a, 0x6e, 0x02, 0xfb, 0xfc, 0xb2, 0x4d, 0x66, 0x8f, 0x95, 0xd1, 0x80, 0x50, 0xbe, 0x64,
       0x18, 0xd2, 0x6c, 0x3f, 0xe8, 0xf5, 0x39, 0x69, 0xe4, 0xa5, 0x92, 0x45, 0xd7],
      [0xab, 0x63, 0x4a, 0x65, 0xeb, 0xb7, 0xb0, 0x53, 0x99, 0x29, 0x52, 0x01, 0x03, 0x63, 0x36, 0xdf],
      rfl, rfl⟩,
    ⟨nonceEndingIn 3, encodeChunk sampleMeta.id 0 sampleContent,
      [0xff, 0x88, 0x08, 0x33, 0xa1, 0x8e, 0x28, 0xd8, 0x75, 0x08, 0x26, 0xf7, 0xb7, 0x63, 0x7c, 0x40,
       0xc4, 0x33, 0x22, 0xbd, 0x7b, 0x16, 0x7d, 0xce, 0x84, 0x4c, 0x31, 0xe2, 0x3f, 0x69, 0xf2, 0x2a],
      [0xe7, 0x31, 0x1b, 0x5a, 0x86, 0xda, 0x81, 0xb8, 0x02, 0x87, 0x84, 0x66, 0xa5, 0x22, 0xea, 0x09],
      rfl, rfl⟩,
    ⟨nonceEndingIn 4, encodeAck sampleMeta.id 3,
      [0x9c, 0x78, 0xb6, 0x73, 0x65, 0x58, 0x55, 0xa6, 0x3b, 0xd6, 0xdf, 0x83, 0xd4, 0xf5, 0x11, 0x41,
       0xea, 0x3e, 0xe6, 0xcb, 0x6b, 0xac, 0x10, 0x56, 0x4d, 0xb1, 0x7a, 0xb4, 0x03],
      [0x4a, 0xb7, 0x6d, 0x84, 0x46, 0x20, 0xf3, 0xd8, 0x7f, 0xd4, 0xcf, 0x46, 0x4d, 0xc9, 0xbe, 0x31],
      rfl, rfl⟩,
    ⟨nonceEndingIn 5, encodeDone sampleMeta.id true sampleDigest,
      [0xb5, 0x82, 0x46, 0xda, 0xbb, 0x61, 0xc1, 0x24, 0xa9, 0x72, 0x47, 0x90, 0x78, 0x19, 0xaf, 0xa4,
       0x6f, 0x60, 0x31, 0x01, 0xae, 0x4d, 0x37, 0x68, 0x5c, 0x1f, 0x27, 0x3b, 0xc7, 0x2c, 0xb7, 0x14,
       0x9d, 0xee, 0x35, 0x7e, 0xfc, 0x19, 0xf3, 0x84, 0x24, 0x18, 0xf1, 0xbb, 0x37, 0x65, 0xb5, 0x85,
       0x66, 0x95, 0xfd, 0x2e, 0x32, 0x79],
      [0x1a, 0x0a, 0x6e, 0x4b, 0xc4, 0x64, 0x2e, 0x54, 0x99, 0x7b, 0x64, 0xf9, 0x47, 0x05, 0x35, 0x3a],
      rfl, rfl⟩,
    ⟨nonceEndingIn 6, encodeDone sampleMeta.id true sampleDigest,
      [0x80, 0x9b, 0x1a, 0x6d, 0x23, 0xe5, 0xb3, 0x9a, 0xa6, 0x5b, 0x3b, 0xc9, 0x20, 0xf1, 0xbe, 0xba,
       0xbb, 0x8c, 0x39, 0x3a, 0x02, 0x19, 0x60, 0x75, 0x88, 0x36, 0x95, 0xae, 0xfe, 0x04, 0x9f, 0xd0,
       0x8d, 0x92, 0x84, 0xab, 0x10, 0xa2, 0x08, 0x33, 0xe3, 0x59, 0xf6, 0x82, 0xd9, 0x17, 0x6e, 0x48,
       0x11, 0x34, 0x47, 0x32, 0xee, 0x96],
      [0x56, 0x81, 0xbd, 0xeb, 0x8a, 0xf0, 0xb6, 0x3b, 0x43, 0x40, 0xfd, 0x62, 0x24, 0x1d, 0x43, 0xc3],
      rfl, rfl⟩]

/-- AES-256-GCM on these messages, between two connections with the default configurations. -/
def abcLink : Conn.Link where
  cfgA := freezeConfig none
  cfgB := freezeConfig none
  gcm := tableGcm abcSealings
  sess := ⟨List.replicate 32 0⟩

theorem abcLink_lawful : abcLink.gcm.Lawful := tableGcm_lawful (by decide)

/-- A message of `n` bytes crosses the link under a nonce that ends in `k`: call `i` of the sending side, call
`j` of the receiving one. -/
def crossing (k : UInt8) (n i j : ℕ) : List (Conn.SideAct Unit ⊕ Conn.SideAct Unit) :=
  [.inl .call, .inl (.conn (.sender i)), .inl (.conn (.sender i)), .inl (.conn (.writer .none)),
    .inl (.conn (.writer (.nonce (some (nonceEndingIn k))))), .inl (.conn (.writer (.sent (33 + n)))),
    .inl .ret, .inr .arrive, .inr (.conn (.reader .none)), .inr (.conn (.reader .none)), .inr .call,
    .inr (.conn (.receiver j)), .inr (.conn (.receiver j)), .inr .ret]

/-- Offer, Accept, a chunk that is read and written, its Ack, and Done both ways. -/
def abcOverConnections : List (Conn.SideAct Unit ⊕ Conn.SideAct Unit) :=
  crossing 1 63 0 0 ++ (crossing 2 29 1 1).map Sum.swap ++ .inl (.own ()) :: crossing 3 32 2 2 ++
    .inr (.own ()) :: (crossing 4 29 3 3).map Sum.swap ++ crossing 5 54 4 4 ++
    (crossing 6 54 5 5).map Sum.swap

theorem abc_over_connections : ∃ s : Conn.Sides SendState RecvState,
    Run (Conn.sidesStep abcLink (sendUser (sampleSendEnv (normalize none))) (recvUser sampleRecvEnv))
        (abcLink.start (SendState.start (sampleSendEnv (normalize none)))
          (RecvState.start fun _ => 0)) s ∧
      s.left.user.pc = .ret .success ∧
      (∃ written, (s.right.settled (recvUser sampleRecvEnv)).pc = .ret .success sampleMeta written) ∧
      (s.right.settled (recvUser sampleRecvEnv)).store.read 0 3 = sampleContent := by
  obtain ⟨s, hrun, hpc⟩ : ∃ s : Conn.Sides SendState RecvState,
      Run (Conn.sidesStep abcLink (sendUser (sampleSendEnv (normalize none))) (recvUser sampleRecvEnv))
          (abcLink.start (SendState.start (sampleSendEnv (normalize none)))
            (RecvState.start fun _ => 0)) s ∧
        s.left.user.pc = .ret .success := exists_run_of_exec abcOverConnections ⟨_, rfl, rfl⟩
  obtain ⟨-, -, hboth, hholds⟩ := transfer_over_connections abcLink abcLink_lawful rfl rfl
    (sampleSendEnv (normalize none)) sampleRecvEnv (fun _ => 0) honestPair_abc (by decide) s hrun
  obtain ⟨written, hret⟩ := hboth hpc
  exact ⟨s, hrun, hpc, ⟨written, hret⟩, (hholds _ _ hret).2⟩

end TcpDuplex.Transfer
