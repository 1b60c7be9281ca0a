import TcpDuplex.Conn.Flags

/-!
# The outgoing side of a connection

What a connection has put on the wire, in terms of what its `send_for` calls were promised. The
messages that `write_loop` took from `send_q_` are written in that order, one record each; a write
that fails ends the sequence and loses the rest. The Close record comes last, and only when
`stop_send_` is set and `send_q_` is empty, so nothing can be accepted behind it.
-/

namespace TcpDuplex.Conn

open Protocol

variable {e : Env} {s t : State}

/-! ## Messages and records -/

/-- The payload of a text message. -/
def Outbound.text? (out : Outbound) : Option Bytes :=
  if out.typ = kMsgText then some out.pt else none

/-- The text payloads of a sequence of messages. -/
def texts (l : List Outbound) : List Bytes := l.filterMap Outbound.text?

@[simp]
theorem texts_nil : texts [] = [] := rfl

@[simp]
theorem texts_append (l l' : List Outbound) : texts (l ++ l') = texts l ++ texts l' :=
  List.filterMap_append

@[simp]
theorem texts_text (p : Bytes) : texts [⟨kMsgText, p⟩] = [p] := rfl

theorem texts_of_ne {out : Outbound} (h : out.typ ≠ kMsgText) : texts [out] = [] := by
  simp [texts, Outbound.text?, h]

theorem isPrefix_texts {l l' : List Outbound} (h : l <+: l') : texts l <+: texts l' := by
  obtain ⟨r, rfl⟩ := h
  rw [texts_append]
  exact List.prefix_append _ _

/-- The Close message of `write_loop`. -/
def closeMsg : Outbound := ⟨kMsgClose, []⟩

/-- The message in a record. -/
def openRecord (e : Env) (r : UInt8 × Bytes) : Outbound :=
  ⟨r.1, match e.sess.openSealed e.gcm r.2 with
    | .ok pt => pt
    | .error _ => []⟩

/-- The messages whose records `write_loop` has begun to write. -/
def emitted (e : Env) (s : State) : List Outbound := s.hist.records.map (openRecord e)

/-- The bytes of a sequence of records. -/
def streamOf (records : List (UInt8 × Bytes)) : Bytes :=
  records.flatMap fun r => recordBytes r.1 r.2

@[simp]
theorem streamOf_append (l l' : List (UInt8 × Bytes)) :
    streamOf (l ++ l') = streamOf l ++ streamOf l' :=
  List.flatMap_append

theorem streamOf_cons (r : UInt8 × Bytes) (l : List (UInt8 × Bytes)) :
    streamOf (r :: l) = recordBytes r.1 r.2 ++ streamOf l :=
  List.flatMap_cons

theorem openRecord_of_seal (hg : e.gcm.Lawful) {n : Option Nonce} {out : Outbound} {sealed : Bytes}
    (h : e.sess.sealPlaintext e.gcm n out.pt = .ok sealed) : openRecord e (out.typ, sealed) = out := by
  simp only [openRecord, Session.openSealed_of_sealPlaintext hg h]

/-! ## The invariant -/

/-- The last thing `write_loop` writes is Close, and nothing more can be queued. -/
structure Closing (s : State) (l : List Outbound) : Prop where
  last : l = s.hist.taken ++ [closeMsg]
  drained : s.sendQ = []
  stopped : s.stopSend = true

/-- Which of the messages taken from `send_q_` have been emitted, by where `write_loop` is. -/
def Written (s : State) (l : List Outbound) : Prop :=
  match s.writer with
  | .write .loop out => s.hist.taken = l ++ [out]
  | .write .drain out => s.hist.taken = l ++ [out]
  | .write .close out => out = closeMsg ∧ Closing s (l ++ [closeMsg])
  | .send .close _ => Closing s l
  | .storeDone => l <+: s.hist.taken ∨ Closing s l
  | .notifyDone => l <+: s.hist.taken ∨ Closing s l
  | .exited => l <+: s.hist.taken ∨ Closing s l
  | _ => l = s.hist.taken

/-- Wherever `write_loop` is, it has emitted a prefix of what it took, or everything and Close. -/
theorem Written.prefix_or_closing {l : List Outbound} (h : Written s l) :
    l <+: s.hist.taken ∨ Closing s l := by
  unfold Written at h
  split at h
  · exact Or.inl (h ▸ List.prefix_append _ _)
  · exact Or.inl (h ▸ List.prefix_append _ _)
  · exact Or.inl (List.append_cancel_right h.2.last ▸ List.prefix_rfl)
  · exact Or.inr h
  · exact h
  · exact h
  · exact h
  · exact Or.inl (h ▸ List.prefix_rfl)

/-- A step of another thread: it may wake `write_loop`, and may queue only before `stop_send_`. -/
theorem Written.frame {l : List Outbound} (h : Written s l)
    (hw : t.writer = s.writer ∨ t.writer = s.writer.wake) (ht : t.hist.taken = s.hist.taken)
    (hq : t.sendQ = s.sendQ ∨ s.stopSend = false) (hstop : s.stopSend = true → t.stopSend = true) :
    Written t l := by
  have hclosing : ∀ {m}, Closing s m → Closing t m := by
    intro m hc
    refine ⟨ht ▸ hc.last, ?_, hstop hc.stopped⟩
    rcases hq with hq | hq
    · rw [hq, hc.drained]
    · rw [hc.stopped] at hq
      cases hq
  have hwriter : t.writer = s.writer ∨ (s.writer = .parked ∧ t.writer = .acquire) := by
    rcases hw with h' | h'
    · exact Or.inl h'
    · cases hs : s.writer with
      | parked => exact Or.inr ⟨rfl, by rw [h', hs]; rfl⟩
      | _ => exact Or.inl (by rw [h', hs]; rfl)
  rcases hwriter with heq | ⟨hs, ht'⟩
  · unfold Written at h ⊢
    rw [heq, ht]
    split at h
    · exact h
    · exact h
    · exact ⟨h.1, hclosing h.2⟩
    · exact hclosing h
    · exact h.imp_right hclosing
    · exact h.imp_right hclosing
    · exact h.imp_right hclosing
    · exact h
  · unfold Written at h ⊢
    rw [hs] at h
    rw [ht', ht]
    exact h

/-- The bytes of the current record that the socket has not taken. -/
def WriterPc.pending : WriterPc → Bytes
  | .send _ rest => rest
  | _ => []

/-- `write_loop` has stopped writing. -/
def WriterPc.ended : WriterPc → Bool
  | .storeDone => true
  | .notifyDone => true
  | .exited => true
  | _ => false

@[simp]
theorem WriterPc.pending_wake (pc : WriterPc) : pc.wake.pending = pc.pending := by
  cases pc <;> rfl

@[simp]
theorem WriterPc.ended_wake (pc : WriterPc) : pc.wake.ended = pc.ended := by
  cases pc <;> rfl

/-- The outgoing side of a connection in every reachable state. -/
structure Outgoing (e : Env) (s : State) : Prop where
  /-- What `send_for` accepted is what was taken, then what is queued, less the pongs. -/
  accepted : s.hist.accepted = texts (s.hist.taken ++ s.sendQ)
  noClose : ∀ out ∈ s.hist.taken ++ s.sendQ, out.typ ≠ kMsgClose
  written : Written s (emitted e s)
  readable : ∀ r ∈ s.hist.records,
    sealedOk r.2.length = true ∧ e.sess.openSealed e.gcm r.2 = .ok (openRecord e r).pt
  /-- While `write_loop` writes, the wire and the rest of the record make up the records. -/
  stream : s.writer.ended = false → s.hist.wire ++ s.writer.pending = streamOf s.hist.records
  wire : s.hist.wire <+: streamOf s.hist.records

namespace Outgoing

/-- A step of another thread that leaves the queue alone. -/
theorem frame (hO : Outgoing e s) (hw : t.writer = s.writer ∨ t.writer = s.writer.wake)
    (hq : t.sendQ = s.sendQ) (hstop : s.stopSend = true → t.stopSend = true)
    (ha : t.hist.accepted = s.hist.accepted) (ht : t.hist.taken = s.hist.taken)
    (hr : t.hist.records = s.hist.records) (hwire : t.hist.wire = s.hist.wire) : Outgoing e t where
  accepted := by rw [ha, ht, hq, hO.accepted]
  noClose := by
    rw [ht, hq]
    exact hO.noClose
  written := by
    rw [show emitted e t = emitted e s by simp only [emitted, hr]]
    exact hO.written.frame hw ht (Or.inl hq) hstop
  readable := by
    rw [hr]
    exact hO.readable
  stream := by
    have hpend : t.writer.pending = s.writer.pending := by
      rcases hw with h | h <;> simp [h]
    have hended : t.writer.ended = s.writer.ended := by
      rcases hw with h | h <;> simp [h]
    rw [hpend, hended, hr, hwire]
    exact hO.stream
  wire := by
    rw [hr, hwire]
    exact hO.wire

/-- A message joins `send_q_`: a text of `send_for`, or a pong of `read_loop`. -/
theorem push (hO : Outgoing e s) (out : Outbound) (hstop : s.stopSend = false)
    (hkind : out.typ ≠ kMsgClose) (hw : t.writer = s.writer.wake) (hq : t.sendQ = s.sendQ ++ [out])
    (hts : t.stopSend = s.stopSend) (ha : t.hist.accepted = s.hist.accepted ++ texts [out])
    (ht : t.hist.taken = s.hist.taken) (hr : t.hist.records = s.hist.records)
    (hwire : t.hist.wire = s.hist.wire) : Outgoing e t where
  accepted := by rw [ha, ht, hq, hO.accepted, ← texts_append, List.append_assoc]
  noClose := by
    rw [ht, hq, ← List.append_assoc]
    intro o ho
    rcases List.mem_append.mp ho with ho | ho
    · exact hO.noClose o ho
    · rw [List.mem_singleton.mp ho]
      exact hkind
  written := by
    rw [show emitted e t = emitted e s by simp only [emitted, hr]]
    exact hO.written.frame (Or.inr hw) ht (Or.inr hstop) (by rw [hts]; exact id)
  readable := by
    rw [hr]
    exact hO.readable
  stream := by
    simp only [hw, WriterPc.ended_wake, WriterPc.pending_wake, hr, hwire]
    exact hO.stream
  wire := by
    rw [hr, hwire]
    exact hO.wire

/-- `write_loop` takes the front message: the sequence of taken and queued ones is the same. -/
theorem take {out : Outbound} {rest : List Outbound} (hO : Outgoing e s) (site : WriteSite)
    (hall : emitted e s = s.hist.taken) (hbytes : s.hist.wire = streamOf s.hist.records)
    (hq : s.sendQ = out :: rest) (hsite : site ≠ .close) (hw : t.writer = .write site out)
    (htq : t.sendQ = rest) (ha : t.hist.accepted = s.hist.accepted)
    (ht : t.hist.taken = s.hist.taken ++ [out]) (hr : t.hist.records = s.hist.records)
    (hwire : t.hist.wire = s.hist.wire) : Outgoing e t := by
  have hsame : t.hist.taken ++ t.sendQ = s.hist.taken ++ s.sendQ := by
    rw [ht, htq, hq, List.append_assoc, List.singleton_append]
  have hemit : emitted e t = s.hist.taken := by
    rw [← hall]
    simp only [emitted, hr]
  refine ⟨by rw [ha, hsame, hO.accepted], by rw [hsame]; exact hO.noClose, ?_,
    by rw [hr]; exact hO.readable, ?_, by rw [hr, hwire]; exact hO.wire⟩
  · rw [hemit]
    cases site with
    | loop =>
        unfold Written
        rw [hw, ht]
    | drain =>
        unfold Written
        rw [hw, ht]
    | close => exact absurd rfl hsite
  · intro _
    rw [hw, hr, hwire, hbytes]
    exact List.append_nil _

/-- Where `write_loop` stands between two messages everything taken is written. -/
theorem caughtUp (hO : Outgoing e s) (hw : s.writer = .acquire ∨ s.writer = .drain) :
    emitted e s = s.hist.taken ∧ s.hist.wire = streamOf s.hist.records := by
  have hwritten := hO.written
  have hstream := hO.stream
  unfold Written at hwritten
  rcases hw with hw | hw <;>
  · rw [hw] at hwritten hstream
    exact ⟨hwritten, by simpa [WriterPc.pending] using hstream rfl⟩

/-- `write_loop` moves on without touching a queue or the wire. -/
theorem move (hO : Outgoing e s) (hq : t.sendQ = s.sendQ)
    (ha : t.hist.accepted = s.hist.accepted) (ht : t.hist.taken = s.hist.taken)
    (hr : t.hist.records = s.hist.records) (hwire : t.hist.wire = s.hist.wire)
    (hwritten : Written t (emitted e s))
    (hstream : t.writer.ended = false →
      s.hist.wire ++ t.writer.pending = streamOf s.hist.records) : Outgoing e t where
  accepted := by rw [ha, ht, hq, hO.accepted]
  noClose := by
    rw [ht, hq]
    exact hO.noClose
  written := by rwa [show emitted e t = emitted e s by simp only [emitted, hr]]
  readable := by
    rw [hr]
    exact hO.readable
  stream := by rwa [hr, hwire]
  wire := by
    rw [hr, hwire]
    exact hO.wire

/-- `write_loop` gives up: what it emitted stays a prefix of what it took, or ends in Close. -/
theorem stop (hO : Outgoing e s) (hw : t.writer = .storeDone) (hq : t.sendQ = s.sendQ)
    (hstop : t.stopSend = s.stopSend) (hhist : t.hist = s.hist) : Outgoing e t := by
  refine hO.move hq (by rw [hhist]) (by rw [hhist]) (by rw [hhist]) (by rw [hhist]) ?_ ?_
  · unfold Written
    rw [hw]
    refine hO.written.prefix_or_closing.imp (fun h => by rwa [hhist]) fun h => ?_
    exact ⟨by rw [hhist]; exact h.last, by rw [hq, h.drained], by rw [hstop, h.stopped]⟩
  · rw [hw]
    nofun

/-- A record begins: its message is the one in hand. -/
theorem begin {site : WriteSite} {out : Outbound} {n : Option Nonce} {sealed : Bytes}
    (hg : e.gcm.Lawful) (hO : Outgoing e s) (hpc : s.writer = .write site out)
    (hseal : e.sess.sealPlaintext e.gcm n out.pt = .ok sealed)
    (hsize : sealedOk sealed.length = true) :
    Outgoing e { s with
      writer := .send site (recordBytes out.typ sealed)
      hist.records := s.hist.records ++ [(out.typ, sealed)] } := by
  have hopen := openRecord_of_seal hg hseal
  have hstream : s.hist.wire = streamOf s.hist.records := by
    have := hO.stream (by rw [hpc]; rfl)
    simpa [hpc, WriterPc.pending] using this
  have hrecord : streamOf [(out.typ, sealed)] = recordBytes out.typ sealed := by
    simp [streamOf]
  refine ⟨hO.accepted, hO.noClose, ?_, ?_, ?_, ?_⟩
  · have hemit : (s.hist.records ++ [(out.typ, sealed)]).map (openRecord e) =
        emitted e s ++ [out] := by
      rw [List.map_append, List.map_singleton, hopen]
      rfl
    have hwritten := hO.written
    unfold Written at hwritten ⊢
    rw [hpc] at hwritten
    simp only [emitted, hemit]
    cases site with
    | loop => exact hwritten.symm
    | drain => exact hwritten.symm
    | close =>
        obtain ⟨rfl, hlast, hdrained, hstopped⟩ := hwritten
        exact ⟨hlast, hdrained, hstopped⟩
  · intro r hr
    rcases List.mem_append.mp hr with hr | hr
    · exact hO.readable r hr
    · rw [List.mem_singleton.mp hr, hopen]
      exact ⟨hsize, Session.openSealed_of_sealPlaintext hg hseal⟩
  · intro _
    simp only [WriterPc.pending, streamOf_append, hrecord, hstream]
  · simp only [streamOf_append]
    exact hO.wire.trans (List.prefix_append _ _)

theorem writer {io : WriteIo} (hg : e.gcm.Lawful) (hO : Outgoing e s) (hF : Flags s)
    (h : WriterTrans e s io t) : Outgoing e t := by
  have hwritten := hO.written
  have hstream := hO.stream
  unfold Written at hwritten
  cases h with
  | pop hpc _ hq =>
      obtain ⟨hall, hbytes⟩ := hO.caughtUp (Or.inl hpc)
      exact hO.take .loop hall hbytes hq (by decide) rfl rfl rfl rfl rfl rfl
  | flush hpc _ _ _ =>
      obtain ⟨hall, hbytes⟩ := hO.caughtUp (Or.inl hpc)
      exact hO.move rfl rfl rfl rfl rfl hall (fun _ => by simpa [WriterPc.pending] using hbytes)
  | empty hpc _ _ _ =>
      obtain ⟨hall, hbytes⟩ := hO.caughtUp (Or.inl hpc)
      exact hO.move rfl rfl rfl rfl rfl hall (fun _ => by simpa [WriterPc.pending] using hbytes)
  | park hpc =>
      rw [hpc] at hwritten hstream
      exact hO.move rfl rfl rfl rfl rfl hwritten fun _ => hstream rfl
  | drainPop hpc _ hq =>
      obtain ⟨hall, hbytes⟩ := hO.caughtUp (Or.inr hpc)
      exact hO.take .drain hall hbytes hq (by decide) rfl rfl rfl rfl rfl rfl
  | drainEnd hpc _ hq =>
      obtain ⟨hall, hbytes⟩ := hO.caughtUp (Or.inr hpc)
      have hstopped : s.stopSend = true := hF.flushing (by rw [hpc]; rfl)
      exact hO.move rfl rfl rfl rfl rfl ⟨rfl, by rw [hall], hq, hstopped⟩
        (fun _ => by simpa [WriterPc.pending] using hbytes)
  | storeDone hpc =>
      rw [hpc] at hwritten
      exact hO.move rfl rfl rfl rfl rfl (hwritten.imp_right fun h => ⟨h.1, h.2, h.3⟩) nofun
  | notifyDone hpc =>
      rw [hpc] at hwritten
      exact hO.move rfl rfl rfl rfl rfl (hwritten.imp_right fun h => ⟨h.1, h.2, h.3⟩) nofun
  | sealFail _ => exact hO.stop rfl rfl rfl rfl
  | begin hpc hseal hsize => exact hO.begin hg hpc hseal hsize
  | @sent site rest k hpc _ _ =>
      rw [hpc] at hwritten hstream
      have hbytes : s.hist.wire ++ rest = streamOf s.hist.records := hstream rfl
      have hsplit : s.hist.wire ++ rest.take k ++ rest.drop k = streamOf s.hist.records := by
        rw [List.append_assoc, List.take_append_drop, hbytes]
      refine ⟨hO.accepted, hO.noClose, ?_, hO.readable, fun _ => hsplit, ⟨rest.drop k, hsplit⟩⟩
      cases site with
      | close => exact ⟨hwritten.1, hwritten.2, hwritten.3⟩
      | _ => exact hwritten
  | @sentAll site rest hpc _ =>
      rw [hpc] at hwritten hstream
      have hbytes : s.hist.wire ++ rest = streamOf s.hist.records := hstream rfl
      refine ⟨hO.accepted, hO.noClose, ?_, hO.readable, fun _ => ?_, ⟨[], by simpa using hbytes⟩⟩
      · cases site with
        | close => exact Or.inr ⟨hwritten.1, hwritten.2, hwritten.3⟩
        | _ => exact hwritten
      · cases site <;> simpa [WriterPc.after, WriterPc.pending] using hbytes
  | sendFail _ => exact hO.stop rfl rfl rfl rfl

theorem step {a : Act} (hg : e.gcm.Lawful) (hO : Outgoing e s) (hF : Flags s)
    (h : step e s a = some t) : Outgoing e t := by
  cases step_inv h with
  | sender h =>
      cases h with
      | push _ _ hstop _ =>
          have hne : kMsgText ≠ kMsgClose := by decide
          exact hO.push _ hstop hne rfl rfl rfl rfl rfl rfl rfl
      | _ => exact hO.frame (Or.inl rfl) rfl id rfl rfl rfl rfl
  | receiver h => cases h <;> exact hO.frame (Or.inl rfl) rfl id rfl rfl rfl rfl
  | shutdown h =>
      cases h with
      | setStop _ _ => exact hO.frame (Or.inl rfl) rfl (fun _ => rfl) rfl rfl rfl rfl
      | notifySend _ => exact hO.frame (Or.inr rfl) rfl id rfl rfl rfl rfl
      | _ => exact hO.frame (Or.inl rfl) rfl id rfl rfl rfl rfl
  | writer h => exact hO.writer hg hF h
  | reader h =>
      cases h with
      | @pingPush pt _ _ hstop _ =>
          have htexts : texts [⟨kMsgPong, pt⟩] = [] :=
            texts_of_ne (show kMsgPong ≠ kMsgText by decide)
          exact hO.push ⟨kMsgPong, pt⟩ hstop (show kMsgPong ≠ kMsgClose by decide) rfl rfl rfl
            (by rw [htexts, List.append_nil]; rfl) rfl rfl rfl
      | @leave held _ => cases held <;> exact hO.frame (Or.inl rfl) rfl id rfl rfl rfl rfl
      | _ => exact hO.frame (Or.inl rfl) rfl id rfl rfl rfl rfl
  | deliver h => cases h <;> exact hO.frame (Or.inl rfl) rfl id rfl rfl rfl rfl
  | _ => exact hO.frame (Or.inl rfl) rfl id rfl rfl rfl rfl

end Outgoing

theorem outgoing_init (e : Env) : Outgoing e (init e.cfg) where
  accepted := rfl
  noClose := by simp [init]
  written := rfl
  readable := by simp [init]
  stream _ := rfl
  wire := List.prefix_rfl

/-- What a connection has put on the wire, in every state of every interleaving. -/
theorem outgoing_reachable (hg : e.gcm.Lawful) (h : Reachable e s) : Outgoing e s :=
  (Machine.Run.invariant (I := fun s => (Unstarted s ∧ Flags s) ∧ Outgoing e s)
    (fun _ _ _ hI hstep =>
      ⟨⟨hI.1.1.step hstep, hI.1.2.step hI.1.1 hstep⟩, hI.2.step hg hI.1.2 hstep⟩) h
    ⟨⟨unstarted_init e.cfg, flags_init e.cfg⟩, outgoing_init e⟩).2

end TcpDuplex.Conn
